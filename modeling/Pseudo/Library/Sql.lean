import Mathlib.Data.List.Basic
import Mathlib.Data.List.Monad

/-!
# A part of SQL

`SELECT … FROM … WHERE … ORDER BY …` over one table: the tokens of a text, and the statement that
they are. Operators bind as tightly as in SQLite, and the parameters `?` are numbered as they come.
What is no part of this grammar is not read at all.

* `scan_append`: the tokens of a text that is put together piece by piece.
* `parseExpr_joinAnd`: what conditions between `AND`s are read as.
-/

namespace Sql

/-! ## Tokens -/

inductive Keyword
  | select | distinct | «from» | «where» | and | not | like | order | «by» | asc | desc
  deriving DecidableEq, Repr

def Keyword.spelling : Keyword → List Char
  | .select => "SELECT".toList
  | .distinct => "DISTINCT".toList
  | .from => "FROM".toList
  | .where => "WHERE".toList
  | .and => "AND".toList
  | .not => "NOT".toList
  | .like => "LIKE".toList
  | .order => "ORDER".toList
  | .by => "BY".toList
  | .asc => "ASC".toList
  | .desc => "DESC".toList

def keywords : List Keyword :=
  [.select, .distinct, .from, .where, .and, .not, .like, .order, .by, .asc, .desc]

inductive BinOp
  | and | eq | ne | like | notLike | lt | gt | bitand | concat
  deriving DecidableEq, Repr

/-- How tightly an operator binds. -/
def BinOp.prec : BinOp → Nat
  | .and => 1
  | .eq | .ne | .like | .notLike => 2
  | .lt | .gt => 3
  | .bitand => 4
  | .concat => 5

inductive Token
  | keyword (k : Keyword)
  | ident (name : List Char)
  | number (digits : List Char)
  | string (chars : List Char)
  | param
  | op (o : BinOp)
  | lparen
  | rparen
  | comma
  | semicolon
  | illegal
  deriving DecidableEq, Repr

/-- A word is a keyword in upper or lower case. -/
def wordToken (word : List Char) : Token :=
  match keywords.find? fun k => k.spelling = word.map Char.toUpper with
  | some k => .keyword k
  | none => .ident word

/-- What has been read of a token, the last character first. -/
inductive Pending
  | blank
  | word (rev : List Char)
  | digits (rev : List Char)
  | quoted (rev : List Char)
  | closed (rev : List Char)
  | symbol (c : Char)
  deriving DecidableEq, Repr

def quote : Char := Char.ofNat 39

/-- The token ends here. -/
def Pending.flush : Pending → List Token
  | .blank => []
  | .word rev => [wordToken rev.reverse]
  | .digits rev => [.number rev.reverse]
  | .quoted _ => [.illegal]
  | .closed rev => [.string rev.reverse]
  | .symbol '=' => [.op .eq]
  | .symbol '<' => [.op .lt]
  | .symbol '>' => [.op .gt]
  | .symbol _ => [.illegal]

def isWordChar (c : Char) : Bool := c.isAlphanum || c == '_'

/-- A character goes on with the token. -/
def Pending.goOn : Pending → Char → Option (Pending × List Token)
  | .blank, _ => none
  | .word rev, c => if isWordChar c then some (.word (c :: rev), []) else none
  | .digits rev, c => if c.isDigit then some (.digits (c :: rev), []) else none
  | .quoted rev, c => some (if c = quote then .closed rev else .quoted (c :: rev), [])
  -- a quote that is doubled stands for itself
  | .closed rev, c => if c = quote then some (.quoted (quote :: rev), []) else none
  | .symbol '=', '=' => some (.blank, [.op .eq])
  | .symbol '!', '=' => some (.blank, [.op .ne])
  | .symbol '<', '>' => some (.blank, [.op .ne])
  | .symbol '|', '|' => some (.blank, [.op .concat])
  -- operators that are no part of the grammar
  | .symbol '<', '=' => some (.blank, [.illegal])
  | .symbol '<', '<' => some (.blank, [.illegal])
  | .symbol '>', '=' => some (.blank, [.illegal])
  | .symbol '>', '>' => some (.blank, [.illegal])
  | .symbol _, _ => none

/-- A character starts a token. -/
def startToken (c : Char) : Pending × List Token :=
  if c.isWhitespace then (.blank, [])
  else if c.isAlpha || c == '_' then (.word [c], [])
  else if c.isDigit then (.digits [c], [])
  else if c = quote then (.quoted [], [])
  else match c with
    | '=' | '<' | '>' | '!' | '|' => (.symbol c, [])
    | '&' => (.blank, [.op .bitand])
    | '(' => (.blank, [.lparen])
    | ')' => (.blank, [.rparen])
    | ',' => (.blank, [.comma])
    | ';' => (.blank, [.semicolon])
    | '?' => (.blank, [.param])
    | _ => (.blank, [.illegal])

def Pending.next (p : Pending) (c : Char) : Pending × List Token :=
  match p.goOn c with
  | some r => r
  | none => ((startToken c).1, p.flush ++ (startToken c).2)

def scan (p : Pending) : List Char → Pending × List Token
  | [] => (p, [])
  | c :: text => ((scan (p.next c).1 text).1, (p.next c).2 ++ (scan (p.next c).1 text).2)

/-- The tokens of a text. -/
def tokens (text : List Char) : List Token := (scan .blank text).2 ++ (scan .blank text).1.flush

theorem scan_append (p : Pending) (text text' : List Char) :
    scan p (text ++ text') =
      ((scan (scan p text).1 text').1, (scan p text).2 ++ (scan (scan p text).1 text').2) := by
  induction text generalizing p with
  | nil => rfl
  | cons c text ih =>
    rw [List.cons_append, scan, ih]
    simp only [scan, List.append_assoc]

/-- A piece that leaves nothing pending. -/
theorem scan_append_of_blank {p : Pending} {text : List Char} {ts : List Token}
    (h : scan p text = (.blank, ts)) (text' : List Char) :
    scan p (text ++ text') = ((scan .blank text').1, ts ++ (scan .blank text').2) := by
  rw [scan_append, h]

/-! ## Expressions -/

inductive Expr
  | column (name : List Char)
  | param (n : Nat)
  | number (digits : List Char)
  | string (chars : List Char)
  | paren (e : Expr)
  | binary (op : BinOp) (l r : Expr)
  deriving DecidableEq, Repr

/-- The columns that are named. -/
def Expr.columns : Expr → List (List Char)
  | .column name => [name]
  | .param _ | .number _ | .string _ => []
  | .paren e => e.columns
  | .binary _ l r => l.columns ++ r.columns

/-- The parameters, from left to right. -/
def Expr.params : Expr → List Nat
  | .param n => [n]
  | .column _ | .number _ | .string _ => []
  | .paren e => e.params
  | .binary _ l r => l.params ++ r.params

/-- The conditions that all have to hold. -/
def Expr.conjuncts : Expr → List Expr
  | .binary .and l r => l.conjuncts ++ r.conjuncts
  | e => [e]

theorem conjuncts_of_ne {op : BinOp} (h : op ≠ .and) (l r : Expr) :
    (Expr.binary op l r).conjuncts = [.binary op l r] := by
  cases op <;> first | rfl | exact absurd rfl h

/-- What waits for its right side, or for its end. -/
inductive Frame
  | paren
  | left (e : Expr) (op : BinOp)
  deriving DecidableEq, Repr

inductive Place
  | operand
  | operator (e : Expr)
  | afterNot (e : Expr)
  deriving DecidableEq, Repr

/-- `params` have been numbered. -/
structure ExprState where
  stack : List Frame
  place : Place
  params : Nat
  deriving DecidableEq, Repr

/-- Operators that bind at least as tightly get their right side. -/
def reduce (prec : Nat) : List Frame → Expr → List Frame × Expr
  | .left l op :: stack, e =>
    if prec ≤ op.prec then reduce prec stack (.binary op l e) else (.left l op :: stack, e)
  | stack, e => (stack, e)

def ExprState.operator (s : ExprState) (e : Expr) (op : BinOp) : ExprState :=
  { s with stack := .left (reduce op.prec s.stack e).2 op :: (reduce op.prec s.stack e).1,
           place := .operand }

def ExprState.step (s : ExprState) (t : Token) : Option ExprState :=
  match s.place, t with
  | .operand, .ident name => some { s with place := .operator (.column name) }
  | .operand, .number digits => some { s with place := .operator (.number digits) }
  | .operand, .string chars => some { s with place := .operator (.string chars) }
  | .operand, .param =>
    some { s with place := .operator (.param (s.params + 1)), params := s.params + 1 }
  | .operand, .lparen => some { s with stack := .paren :: s.stack }
  | .operator e, .op o => some (s.operator e o)
  | .operator e, .keyword .and => some (s.operator e .and)
  | .operator e, .keyword .like => some (s.operator e .like)
  | .operator e, .keyword .not => some { s with place := .afterNot e }
  | .operator e, .rparen =>
    match reduce 0 s.stack e with
    | (.paren :: stack, e) => some { s with stack := stack, place := .operator (.paren e) }
    | _ => none
  | .afterNot e, .keyword .like => some (s.operator e .notLike)
  | _, _ => none

def ExprState.finish (s : ExprState) : Option Expr :=
  match s.place with
  | .operator e =>
    match reduce 0 s.stack e with
    | ([], e) => some e
    | _ => none
  | _ => none

def ExprState.run (s : ExprState) : List Token → Option ExprState
  | [] => some s
  | t :: ts => (s.step t).bind fun s => s.run ts

theorem ExprState.run_append (s : ExprState) (ts ts' : List Token) :
    s.run (ts ++ ts') = (s.run ts).bind fun s => s.run ts' := by
  induction ts generalizing s with
  | nil => rfl
  | cons t ts ih =>
    rw [List.cons_append, run, run, Option.bind_assoc]
    exact Option.bind_congr fun s _ => ih s

def parseExpr (ts : List Token) : Option Expr :=
  (ExprState.run ⟨[], .operand, 0⟩ ts).bind ExprState.finish

theorem columns_eq_conjuncts (e : Expr) : e.columns = e.conjuncts.flatMap Expr.columns := by
  induction e with
  | binary op l r ihl ihr =>
    rcases Decidable.em (op = .and) with rfl | hop
    · show l.columns ++ r.columns = (l.conjuncts ++ r.conjuncts).flatMap Expr.columns
      rw [List.flatMap_append, ihl, ihr]
    · rw [conjuncts_of_ne hop, List.flatMap_singleton]
  | column | param | number | string | paren => rw [Expr.conjuncts, List.flatMap_singleton]; nofun

/-! ## Conditions between `AND`s -/

/-- The conditions end before these. -/
def endsFilter : Token → Bool
  | .keyword .order | .semicolon => true
  | _ => false

/-- At the start of a condition, with the conditions before it. -/
def conjunction : Option Expr → List Frame
  | none => []
  | some e => [.left e .and]

/-- A comparison, and the tokens that it is read from wherever a condition starts. -/
structure Condition where
  tokens : List Token
  left : Expr
  op : BinOp
  right : Nat → Expr
  tight : op ≠ .and
  inside : ∀ t ∈ tokens, endsFilter t = false
  reads : ∀ before n, ExprState.run ⟨conjunction before, .operand, n⟩ tokens =
    some ⟨.left left op :: conjunction before, .operator (right (n + 1)), n + 1⟩

/-- The comparison with the parameter of this number. -/
def Condition.expr (c : Condition) (n : Nat) : Expr := .binary c.op c.left (c.right n)

/-- The tokens behind a condition. -/
def andMore (cs : List Condition) : List Token :=
  cs.flatMap fun c => .keyword .and :: c.tokens

def joinAnd : List Condition → List Token
  | [] => []
  | c :: cs => c.tokens ++ andMore cs

/-- The conditions, numbered from `n` on. -/
def numbered (n : Nat) : List Condition → List Expr
  | [] => []
  | c :: cs => c.expr n :: numbered (n + 1) cs

theorem exists_mem_numbered {c : Condition} {cs : List Condition} (h : c ∈ cs) (n : Nat) :
    ∃ m, c.expr m ∈ numbered n cs := by
  induction cs generalizing n with
  | nil => nomatch h
  | cons d cs ih =>
    rcases List.mem_cons.mp h with rfl | h
    · exact ⟨n, List.mem_cons_self⟩
    · obtain ⟨m, hm⟩ := ih h (n + 1)
      exact ⟨m, List.mem_cons_of_mem _ hm⟩

/-- The conditions that have been read, with the last one. -/
def withLast (before : Option Expr) (e : Expr) : Expr :=
  match before with
  | none => e
  | some b => .binary .and b e

theorem reduce_conjunction {op : BinOp} (hop : op ≠ .and) {prec : Nat} (hprec : prec ≤ 1)
    (before : Option Expr) (l r : Expr) :
    reduce prec (.left l op :: conjunction before) r =
      ([], withLast before (.binary op l r)) := by
  have htight : prec ≤ op.prec := Nat.le_trans hprec (by cases op <;> decide)
  have hand : prec ≤ BinOp.and.prec := hprec
  cases before with
  | none => rw [conjunction, reduce, if_pos htight]; rfl
  | some b => rw [conjunction, reduce, if_pos htight, reduce, if_pos hand]; rfl

theorem conjuncts_withLast {op : BinOp} (hop : op ≠ .and) (before : Option Expr) (l r : Expr) :
    (withLast before (.binary op l r)).conjuncts =
      (before.map Expr.conjuncts).getD [] ++ [.binary op l r] := by
  cases before with
  | none => rw [withLast, conjuncts_of_ne hop]; rfl
  | some b =>
    show b.conjuncts ++ (Expr.binary op l r).conjuncts = _
    rw [conjuncts_of_ne hop]
    rfl

/-- Behind the condition `c`. -/
def behind (before : Option Expr) (c : Condition) (n : Nat) : ExprState :=
  ⟨.left c.left c.op :: conjunction before, .operator (c.right n), n⟩

theorem step_and (before : Option Expr) (c : Condition) (n : Nat) :
    (behind before c n).step (.keyword .and) =
      some ⟨conjunction (some (withLast before (c.expr n))), .operand, n⟩ := by
  have hprec : BinOp.and.prec ≤ 1 := Nat.le_refl 1
  show some ((behind before c n).operator (c.right n) .and) = _
  rw [ExprState.operator, behind, reduce_conjunction c.tight hprec]
  rfl

theorem finish_behind (before : Option Expr) (c : Condition) (n : Nat) :
    (behind before c n).finish = some (withLast before (c.expr n)) := by
  show (match reduce 0 (behind before c n).stack (c.right n) with
    | ([], e) => some e
    | _ => none) = _
  rw [behind, reduce_conjunction c.tight (Nat.zero_le 1)]
  rfl

/-- From behind a condition on, by induction on those that come. -/
theorem andMore_reads (cs : List Condition) (before : Option Expr) (c : Condition) (n : Nat) :
    ∃ e, ((behind before c n).run (andMore cs)).bind ExprState.finish = some e ∧
      e.conjuncts = (before.map Expr.conjuncts).getD [] ++ c.expr n :: numbered (n + 1) cs := by
  induction cs generalizing before c n with
  | nil => exact ⟨_, finish_behind before c n, conjuncts_withLast c.tight _ _ _⟩
  | cons d cs ih =>
    obtain ⟨e, he, hconj⟩ := ih (some (withLast before (c.expr n))) d (n + 1)
    refine ⟨e, ?_, ?_⟩
    · rw [andMore, List.flatMap_cons, List.cons_append, ExprState.run, step_and, Option.bind_some,
        ExprState.run_append, d.reads]
      exact he
    · rw [hconj, Option.map_some, Option.getD_some, Condition.expr, conjuncts_withLast c.tight,
        List.append_assoc]
      rfl

/-- Conditions between `AND`s are read as the conjunction of all of them, with one parameter for
each. -/
theorem parseExpr_joinAnd (c : Condition) (cs : List Condition) :
    ∃ e, parseExpr (joinAnd (c :: cs)) = some e ∧ e.conjuncts = numbered 1 (c :: cs) := by
  obtain ⟨e, he, hconj⟩ := andMore_reads cs none c 1
  have hreads := c.reads none 0
  rw [conjunction] at hreads
  refine ⟨e, ?_, hconj⟩
  rw [parseExpr, joinAnd, ExprState.run_append, hreads]
  exact he

/-! ## Statements -/

/-- `descending` when the order is so. -/
structure Order where
  column : List Char
  descending : Bool
  deriving DecidableEq, Repr

structure Select where
  distinct : Bool
  columns : List (List Char)
  table : List Char
  filter : Option Expr
  order : Option Order
  deriving DecidableEq, Repr

/-- All columns that the statement names. -/
def Select.names (s : Select) : List (List Char) :=
  s.columns ++ (s.filter.map Expr.columns).getD [] ++ (s.order.map fun o => [o.column]).getD []

def Select.conditions (s : Select) : List Expr := (s.filter.map Expr.conjuncts).getD []

theorem filter_columns (s : Select) :
    (s.filter.map Expr.columns).getD [] = s.conditions.flatMap Expr.columns := by
  unfold Select.conditions
  cases s.filter with
  | none => rfl
  | some e => exact columns_eq_conjuncts e

/-- Names between commas, and what comes behind them. -/
def parseNames : List Token → Option (List (List Char) × List Token)
  | .ident name :: .comma :: rest => (parseNames rest).map fun r => (name :: r.1, r.2)
  | .ident name :: rest => some ([name], rest)
  | _ => none

def parseFilter : List Token → Option (Option Expr × List Token)
  | .keyword .where :: rest =>
    (parseExpr (rest.takeWhile fun t => !endsFilter t)).map fun e =>
      (some e, rest.dropWhile fun t => !endsFilter t)
  | rest => some (none, rest)

/-- A filter that is put together from conditions. -/
theorem parseFilter_joinAnd (c : Condition) (cs : List Condition) {t : Token}
    (ht : endsFilter t = true) (rest : List Token) :
    ∃ e, parseFilter (.keyword .where :: joinAnd (c :: cs) ++ t :: rest) =
        some (some e, t :: rest) ∧ e.conjuncts = numbered 1 (c :: cs) := by
  obtain ⟨e, he, hconj⟩ := parseExpr_joinAnd c cs
  have hinside : ∀ x ∈ joinAnd (c :: cs), (!endsFilter x) = true := by
    intro x hx
    rw [Bool.not_eq_true']
    rcases List.mem_append.mp hx with hx | hx
    · exact c.inside x hx
    · obtain ⟨d, -, hx⟩ := List.mem_flatMap.mp hx
      rcases List.mem_cons.mp hx with rfl | hx
      · rfl
      · exact d.inside x hx
  refine ⟨e, ?_, hconj⟩
  rw [List.cons_append, parseFilter, List.takeWhile_append_of_pos hinside,
    List.dropWhile_append_of_pos hinside, List.takeWhile_cons_of_neg (by simp [ht]),
    List.dropWhile_cons_of_neg (by simp [ht]), List.append_nil, he]
  rfl

def parseOrder : List Token → Option (Option Order)
  | [] | [.semicolon] => some none
  | [.keyword .order, .keyword .by, .ident name, .keyword .asc, .semicolon] =>
    some (some ⟨name, false⟩)
  | [.keyword .order, .keyword .by, .ident name, .keyword .desc, .semicolon] =>
    some (some ⟨name, true⟩)
  | _ => none

def parseBody (distinct : Bool) (ts : List Token) : Option Select :=
  (parseNames ts).bind fun (columns, rest) =>
    match rest with
    | .keyword .from :: .ident table :: rest =>
      (parseFilter rest).bind fun (filter, rest) =>
        (parseOrder rest).map fun order => ⟨distinct, columns, table, filter, order⟩
    | _ => none

def parseSelect : List Token → Option Select
  | .keyword .select :: .keyword .distinct :: rest => parseBody true rest
  | .keyword .select :: rest => parseBody false rest
  | _ => none

end Sql
