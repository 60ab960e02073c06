import Pseudo.Library.Sql
import Pseudo.Pseudolog

/-!
# Queries of the log

`pdb_query` puts the text of a statement together in one loop over the traits, and binds their
values in another.

Results:
1. `traits_scan`: the tokens of the text, one condition for each trait.
2. `query_parses`: the statement that the text is read as.
3. `pdbQuery_iff`: when the statement is well formed, and each value is bound to its condition.
4. `pdbQuery_binds`: what comes back then.
-/

namespace Pseudo

open Sql

/-! ## 1. The code -/

/-- `"%d"`. -/
def decimal (n : Nat) : Text := Nat.toDigits 10 n

/-- The operators that do not apply to numbers. -/
def QueryType.isPattern : QueryType → Bool
  | .like | .notlike | .sqlpat => true
  | _ => false

/-- `"%s %s ? "` -/
def comparisonText (left : Text) (type : QueryType) : Text :=
  left ++ " ".toList ++ type.sql ++ " ? ".toList

/-- `"(%s & %d) %s ? "` with the column `mode`. -/
def maskedText (mask : Nat) (type : QueryType) : Text :=
  comparisonText ("(mode & ".toList ++ decimal mask ++ ")".toList) type

/-- The condition that a trait other than an order adds, if it is possible. -/
def PseudoQuery.text (t : PseudoQuery) : Option Text :=
  match t.field with
  | .program | .text | .tag | .path =>
    some (match t.type with
      | .like => t.field.name ++ " ".toList ++ t.type.sql ++ " ('%' || ? || '%')".toList
      | .notlike | .sqlpat => t.field.name ++ " ".toList ++ t.type.sql ++ " ?".toList
      | _ => comparisonText t.field.name t.type)
  -- mask out permission bits
  | .perm =>
    if t.type.isPattern then none
    else some (maskedText (~~~ (0o170000 : BitVec 32) &&& 0o177777).toNat t.type)
  | .ftype => if t.type.isPattern then none else some (maskedText 0o170000 t.type)
  | _ => if t.type.isPattern then none else some (comparisonText t.field.name t.type)

/-- The variables of the first loop. -/
structure QueryText where
  sql : Text
  doneAny : Bool
  orderBy : Text
  orderDir : Text
  deriving DecidableEq, Repr

/-- `pseudo_query_field_name(trait->data.ivalue)`. -/
def QueryData.fieldName : QueryData → Text
  | .ivalue v => pseudoQueryFieldName (v.setWidth 32).toInt
  | .svalue _ => []

/-- The first loop's body; "Ordering must be < or >." -/
def QueryText.trait (q : QueryText) (t : PseudoQuery) : Option QueryText :=
  if t.field = .order then
    match t.type with
    | .less => some { q with orderBy := t.data.fieldName, orderDir := "DESC".toList }
    | .exact => some { q with orderBy := t.data.fieldName }
    | .greater => some { q with orderBy := t.data.fieldName, orderDir := "ASC".toList }
    | _ => none
  else
    t.text.map fun text =>
      { q with
        sql := q.sql ++ (if q.doneAny then "AND ".toList else "WHERE ".toList) ++ text
        doneAny := true }

def QueryText.traits (q : QueryText) : List PseudoQuery → Option QueryText
  | [] => some q
  | t :: traits => (q.trait t).bind fun q => q.traits traits

/-- The names of the fields that are asked for. -/
def fieldsText (fields : Nat) (doneAny : Bool) : List QueryField → Text
  | [] => []
  | f :: rest =>
    if fields.testBit f.toNat then
      (if doneAny then ", ".toList else []) ++ f.name ++ fieldsText fields true rest
    else fieldsText fields doneAny rest

/-- The text that is prepared, unless a trait is refused. -/
def queryText (stmtType : Text) (traits : List PseudoQuery) (fields : Nat)
    (unique wantResults : Bool) : Option Text :=
  let results :=
    if wantResults then
      (if unique then "DISTINCT ".toList else []) ++ fieldsText fields false queryFields.tail
    else []
  let start := stmtType ++ " ".toList ++ results ++ " FROM logs ".toList
  (QueryText.traits ⟨start, false, "id".toList, "ASC".toList⟩ traits).map fun q =>
    if wantResults then
      q.sql ++ "ORDER BY ".toList ++ q.orderBy ++ " ".toList ++ q.orderDir ++ ";".toList
    else q.sql

/-- The second loop: each value with the number that it is bound to, unless a field is
"inexplicably invalid". -/
def bindTraits (field : Nat) : List PseudoQuery → Option (List (Nat × QueryData))
  | [] => some []
  | t :: traits =>
    match t.field, t.data with
    | .order, _ => bindTraits field traits
    | .program, .svalue s | .path, .svalue s | .tag, .svalue s | .text, .svalue s =>
      (bindTraits (field + 1) traits).map fun bound => (field, .svalue s) :: bound
    | .access, .ivalue v | .client, .ivalue v | .dev, .ivalue v | .fd, .ivalue v
    | .ftype, .ivalue v | .inode, .ivalue v | .gid, .ivalue v | .perm, .ivalue v
    | .mode, .ivalue v | .op, .ivalue v | .result, .ivalue v | .severity, .ivalue v
    | .stamp, .ivalue v | .type, .ivalue v | .uid, .ivalue v =>
      (bindTraits (field + 1) traits).map fun bound => (field, .ivalue v) :: bound
    | _, _ => none

/-- A statement with what is bound to its parameters. -/
structure LogStatement where
  sql : Text
  bound : List (Nat × QueryData)
  deriving DecidableEq, Repr

/-- `prepare`: `sqlite3_prepare_v2` accepts the text. -/
def pdbQuery (prepare : Text → Bool) (stmtType : Text) (traits : List PseudoQuery) (fields : Nat)
    (unique wantResults : Bool) : Option LogStatement :=
  (queryText stmtType traits fields unique wantResults).bind fun sql =>
    if prepare sql then (bindTraits 1 traits).map fun bound => ⟨sql, bound⟩ else none

/-- The columns in `log_tables`. -/
def logColumns : List Text :=
  ["id", "stamp", "op", "client", "fd", "dev", "ino", "mode", "path", "result", "severity", "text",
    "tag", "uid", "gid", "access", "program", "type"].map String.toList

/-! ## 2. What it should do -/

/-- The column that a field is about. -/
def QueryField.column : QueryField → Text
  | .inode => "ino".toList
  | .ftype | .perm => "mode".toList
  | f => f.name

/-- The operator of a comparison. -/
def QueryType.binOp : QueryType → BinOp
  | .unknown | .none | .exact => .eq
  | .less => .lt
  | .greater => .gt
  | .bitand => .bitand
  | .notequal => .ne
  | .like | .sqlpat => .like
  | .notlike => .notLike

/-- The condition that a trait stands for, with its value as the parameter of the number. -/
def PseudoQuery.condition (t : PseudoQuery) (n : Nat) : Expr :=
  let masked (mask : Text) : Expr :=
    .paren (.binary .bitand (.column t.field.column) (.number mask))
  match t.field, t.type with
  | .perm, _ => .binary t.type.binOp (masked "4095".toList) (.param n)
  | .ftype, _ => .binary t.type.binOp (masked "61440".toList) (.param n)
  -- anywhere in the string
  | _, .like => .binary .like (.column t.field.column)
      (.paren (.binary .concat (.binary .concat (.string "%".toList) (.param n))
        (.string "%".toList)))
  | _, _ => .binary t.type.binOp (.column t.field.column) (.param n)

/-- The conditions of traits, with their values numbered from `n` on. -/
def conditionsFrom (n : Nat) : List PseudoQuery → List Expr
  | [] => []
  | t :: traits => t.condition n :: conditionsFrom (n + 1) traits

def valuesFrom (n : Nat) : List PseudoQuery → List (Nat × QueryData)
  | [] => []
  | t :: traits => (n, t.data) :: valuesFrom (n + 1) traits

/-- The traits that are conditions. -/
def filters (traits : List PseudoQuery) : List PseudoQuery :=
  traits.filter fun t => t.field ≠ .order

/-- The statement can be prepared, and has one condition for each trait, with one parameter, which
is bound to the trait's value. -/
structure WellFormed (traits : List PseudoQuery) (sql : Text) (s : Select)
    (bound : List (Nat × QueryData)) : Prop where
  parsed : parseSelect (tokens sql) = some s
  table : s.table = "logs".toList
  names : ∀ name ∈ s.names, name ∈ logColumns
  conditions : s.conditions = conditionsFrom 1 (filters traits)
  params : s.conditions.map Expr.params = bound.map fun b => [b.1]
  values : bindTraits 1 traits = some bound ∧ bound = valuesFrom 1 (filters traits)

/-- The field that the last order is by, or the id. -/
def orderField (last : QueryField) : List PseudoQuery → QueryField
  | [] => last
  | t :: traits =>
    match t.field, t.data with
    | .order, .ivalue v => orderField (queryFields[v.toNat]?.getD .none) traits
    | _, _ => orderField last traits

/-- The fields that are no columns. -/
def noColumn : List QueryField := [.none, .ftype, .inode, .order, .perm]

/-- Something is displayed, and neither a field that is displayed nor one that is asked for is the
inode; the order is by a column. -/
structure NamesColumns (traits : List PseudoQuery) (fields : Nat) : Prop where
  asks : fields ≠ 0
  displays : fields.testBit QueryField.inode.toNat = false
  filters : ∀ t ∈ traits, t.field ≠ .inode
  order : orderField .id traits ∉ noColumn

/-- A trait that `plog_trait` returns. -/
def PseudoQuery.Returned (t : PseudoQuery) : Prop :=
  ∃ lib timeformat optL opt string, plogTrait lib timeformat optL opt string = some t

namespace LogQueryLemmas

/-! ## 3. The tokens -/

/-- The tokens of an operator. -/
def opTokens : BinOp → List Token
  | .and => [.keyword .and]
  | .like => [.keyword .like]
  | .notLike => [.keyword .not, .keyword .like]
  | op => [.op op]

theorem scan_name (f : QueryField) : scan .blank f.name = (.word f.name.reverse, []) := by
  cases f <;> rfl

theorem wordToken_name {f : QueryField} (h : f ≠ .order) : wordToken f.name = .ident f.name := by
  cases f <;> first | rfl | exact absurd rfl h

theorem binOp_ne_and (type : QueryType) : type.binOp ≠ .and := by
  cases type <;> decide

/-- A comparison of a column. -/
def ofColumn (name : Text) (op : BinOp) (h : op ≠ .and) : Condition where
  tokens := .ident name :: opTokens op ++ [.param]
  left := .column name
  op := op
  right := .param
  tight := h
  inside := by cases op <;> simp [opTokens, endsFilter]
  reads before n := by
    cases before <;> cases op <;> first | rfl | exact absurd rfl h

/-- A comparison of some bits. -/
def ofMasked (name mask : Text) (op : BinOp) (h : op ≠ .and) : Condition where
  tokens := [.lparen, .ident name, .op .bitand, .number mask, .rparen] ++ opTokens op ++ [.param]
  left := .paren (.binary .bitand (.column name) (.number mask))
  op := op
  right := .param
  tight := h
  inside := by cases op <;> simp [opTokens, endsFilter]
  reads before n := by
    cases before <;> cases op <;> first | rfl | exact absurd rfl h

/-- A value that is looked for anywhere in a string. -/
def ofSubstring (name : Text) : Condition where
  tokens := [.ident name, .keyword .like, .lparen, .string "%".toList, .op .concat, .param,
    .op .concat, .string "%".toList, .rparen]
  left := .column name
  op := .like
  right n := .paren (.binary .concat (.binary .concat (.string "%".toList) (.param n))
    (.string "%".toList))
  tight := by decide
  inside := by simp [endsFilter]
  reads before n := by cases before <;> rfl

/-- The condition that is read from the text of a trait. -/
def traitCondition (t : PseudoQuery) : Condition :=
  if t.field = .perm then ofMasked "mode".toList "4095".toList t.type.binOp (binOp_ne_and _)
  else if t.field = .ftype then ofMasked "mode".toList "61440".toList t.type.binOp (binOp_ne_and _)
  else if t.type = .like then ofSubstring t.field.name
  else ofColumn t.field.name t.type.binOp (binOp_ne_and _)

/-- The text of a condition on a string. -/
def stringText (f : QueryField) (type : QueryType) : Text :=
  match type with
  | .like => f.name ++ " ".toList ++ type.sql ++ " ('%' || ? || '%')".toList
  | .notlike | .sqlpat => f.name ++ " ".toList ++ type.sql ++ " ?".toList
  | _ => comparisonText f.name type

theorem text_eq (t : PseudoQuery) : t.text =
    if t.field.isText then some (stringText t.field t.type)
    else if t.type.isPattern then none
    else if t.field = .perm then some (maskedText 4095 t.type)
    else if t.field = .ftype then some (maskedText 61440 t.type)
    else some (comparisonText t.field.name t.type) := by
  obtain ⟨type, field, data⟩ := t
  cases field <;> rfl

section Scan
variable {type : QueryType}

/-- Behind the left side of a comparison. -/
theorem scan_operator (htype : type ≠ .unknown ∧ type ≠ .none) (p : Sql.Pending)
    (hp : p.goOn ' ' = none) {ending : Text}
    (hending : ending = " ? ".toList ∨ ending = " ?".toList) :
    scan p (" ".toList ++ type.sql ++ ending) =
      (.blank, p.flush ++ opTokens type.binOp ++ [.param]) := by
  have hspace : p.next ' ' = (.blank, p.flush) := by
    unfold Sql.Pending.next
    rw [hp]
    show (_, p.flush ++ []) = _
    rw [List.append_nil]
    rfl
  have hrest : scan .blank (type.sql ++ ending) = (.blank, opTokens type.binOp ++ [.param]) := by
    rcases hending with rfl | rfl <;> cases type <;>
      first | rfl | exact absurd rfl htype.1 | exact absurd rfl htype.2
  show scan p (' ' :: (type.sql ++ ending)) = _
  rw [scan, hspace, hrest, List.append_assoc]

theorem scan_column (htype : type ≠ .unknown ∧ type ≠ .none) {f : QueryField} (hf : f ≠ .order)
    {ending : Text} (hending : ending = " ? ".toList ∨ ending = " ?".toList) :
    scan .blank (f.name ++ " ".toList ++ type.sql ++ ending) =
      (.blank, (ofColumn f.name type.binOp (binOp_ne_and type)).tokens) := by
  rw [List.append_assoc f.name, List.append_assoc f.name, scan_append, scan_name,
    scan_operator htype _ rfl hending, Sql.Pending.flush, List.reverse_reverse, wordToken_name hf]
  rfl

theorem scan_masked (htype : type ≠ .unknown ∧ type ≠ .none) {mask : Nat} {digits : Text}
    (hmask : scan .blank ("(mode & ".toList ++ decimal mask ++ ")".toList) =
      (.blank, [.lparen, .ident "mode".toList, .op .bitand, .number digits, .rparen])) :
    scan .blank (maskedText mask type) =
      (.blank, (ofMasked "mode".toList digits type.binOp (binOp_ne_and type)).tokens) := by
  rw [maskedText, comparisonText, List.append_assoc, List.append_assoc, scan_append_of_blank hmask,
    ← List.append_assoc, scan_operator htype .blank rfl (Or.inl rfl)]
  rfl

theorem scan_substring {f : QueryField} (hf : f ≠ .order) :
    scan .blank (f.name ++ " ".toList ++ QueryType.like.sql ++ " ('%' || ? || '%')".toList) =
      (.blank, (ofSubstring f.name).tokens) := by
  have hrest : scan (.word f.name.reverse)
      (" ".toList ++ QueryType.like.sql ++ " ('%' || ? || '%')".toList) =
      (.blank, wordToken f.name.reverse.reverse :: (ofSubstring f.name).tokens.tail) := rfl
  rw [List.append_assoc f.name, List.append_assoc f.name, scan_append, scan_name, hrest,
    List.reverse_reverse, wordToken_name hf]
  rfl

/-- The text of a trait is read as its condition: a case for each way to put it together. -/
theorem scan_text {t : PseudoQuery} (htype : t.type ≠ .unknown ∧ t.type ≠ .none)
    (hf : t.field ≠ .order) {text : Text} (h : t.text = some text) :
    scan .blank text = (.blank, (traitCondition t).tokens) := by
  obtain ⟨type, field, data⟩ := t
  dsimp only at htype hf
  rw [text_eq] at h
  dsimp only at h
  unfold traitCondition
  dsimp only
  split at h
  · rename_i htext
    have hperm : field ≠ .perm := fun hfield => by rw [hfield] at htext; cases htext
    have hftype : field ≠ .ftype := fun hfield => by rw [hfield] at htext; cases htext
    obtain rfl := Option.some.inj h
    rw [if_neg hperm, if_neg hftype]
    cases type
    case like => exact scan_substring hf
    case notlike | sqlpat => exact scan_column htype hf (Or.inr rfl)
    all_goals exact scan_column htype hf (Or.inl rfl)
  · split at h
    · cases h
    · rename_i hpattern
      have hlike : type ≠ .like := fun htype => hpattern (by rw [htype]; rfl)
      rw [if_neg hlike]
      split at h
      · rename_i hperm
        obtain rfl := Option.some.inj h
        rw [if_pos hperm]
        exact @scan_masked type htype 4095 "4095".toList rfl
      · rename_i hperm
        rw [if_neg hperm]
        split at h
        · rename_i hftype
          obtain rfl := Option.some.inj h
          rw [if_pos hftype]
          exact @scan_masked type htype 61440 "61440".toList rfl
        · rename_i hftype
          obtain rfl := Option.some.inj h
          rw [if_neg hftype]
          exact scan_column htype hf (Or.inl rfl)

end Scan

/-! ## 4. The loop over the traits -/

/-- The tokens of the conditions, from the first one on or behind others. -/
def filterTokens : Bool → List Condition → List Token
  | false, [] => []
  | false, c :: cs => .keyword .where :: joinAnd (c :: cs)
  | true, cs => andMore cs

section Loop
variable {q q' : QueryText} {t : PseudoQuery} {traits : List PseudoQuery} {ts : List Token}

theorem filters_order (hfield : t.field = .order) : filters (t :: traits) = filters traits :=
  List.filter_cons_of_neg (by simp [hfield])

theorem filters_other (hfield : t.field ≠ .order) :
    filters (t :: traits) = t :: filters traits :=
  List.filter_cons_of_pos (by simp [hfield])

theorem filterTokens_cons (doneAny : Bool) (c : Condition) (cs : List Condition) :
    filterTokens doneAny (c :: cs) =
      .keyword (if doneAny then .and else .where) :: c.tokens ++ filterTokens true cs := by
  cases doneAny <;> rfl

/-- An order adds no text. -/
theorem trait_order (hfield : t.field = .order) (h : q.trait t = some q') :
    q'.sql = q.sql ∧ q'.doneAny = q.doneAny ∧ q'.orderBy = t.data.fieldName ∧
      (q'.orderDir = q.orderDir ∨ q'.orderDir = "ASC".toList ∨ q'.orderDir = "DESC".toList) := by
  rw [QueryText.trait, if_pos hfield] at h
  cases htype : t.type <;> rw [htype] at h <;> cases h
  case exact => exact ⟨rfl, rfl, rfl, Or.inl rfl⟩
  case less => exact ⟨rfl, rfl, rfl, Or.inr (Or.inr rfl)⟩
  case greater => exact ⟨rfl, rfl, rfl, Or.inr (Or.inl rfl)⟩

/-- Any other trait adds its condition. -/
theorem trait_filter (hfield : t.field ≠ .order) (h : q.trait t = some q') :
    ∃ text, t.text = some text ∧
      q' = { q with
        sql := q.sql ++ (if q.doneAny then "AND ".toList else "WHERE ".toList) ++ text
        doneAny := true } := by
  rw [QueryText.trait, if_neg hfield] at h
  obtain ⟨text, htext, rfl⟩ := Option.map_eq_some_iff.mp h
  exact ⟨text, htext, rfl⟩

theorem scan_trait (hwell : t.WellTyped) (hfield : t.field ≠ .order) (h : q.trait t = some q')
    (hq : scan .blank q.sql = (.blank, ts)) :
    scan .blank q'.sql = (.blank, ts ++ .keyword (if q.doneAny then .and else .where) ::
      (traitCondition t).tokens) ∧ q'.doneAny = true := by
  obtain ⟨text, htext, rfl⟩ := trait_filter hfield h
  have hword : scan .blank (if q.doneAny then "AND ".toList else "WHERE ".toList) =
      (.blank, [.keyword (if q.doneAny then .and else .where)]) := by
    cases q.doneAny <;> rfl
  dsimp only
  rw [List.append_assoc, scan_append_of_blank hq, scan_append_of_blank hword,
    scan_text hwell.type hfield htext]
  exact ⟨rfl, rfl⟩

theorem traits_scan (h : q.traits traits = some q') (hwell : ∀ t ∈ traits, t.WellTyped)
    (hq : scan .blank q.sql = (.blank, ts)) :
    scan .blank q'.sql =
      (.blank, ts ++ filterTokens q.doneAny ((filters traits).map traitCondition)) := by
  induction traits generalizing q ts with
  | nil =>
    obtain rfl := Option.some.inj h
    rw [hq]
    cases q.doneAny <;> simp [filters, filterTokens, andMore]
  | cons t traits ih =>
    obtain ⟨q₁, h₁, hrest⟩ := Option.bind_eq_some_iff.mp h
    have hwell' : ∀ t ∈ traits, t.WellTyped := fun t ht => hwell t (List.mem_cons_of_mem _ ht)
    rcases Decidable.em (t.field = .order) with hfield | hfield
    · obtain ⟨hsql, hdone, -, -⟩ := trait_order hfield h₁
      rw [filters_order hfield, ih hrest hwell' (by rw [hsql]; exact hq), hdone]
    · obtain ⟨hscan, hdone⟩ := scan_trait (hwell t List.mem_cons_self) hfield h₁ hq
      rw [filters_other hfield, ih hrest hwell' hscan, hdone, List.map_cons, filterTokens_cons,
        List.append_assoc]

theorem fieldName_ofNat (f : QueryField) :
    (QueryData.ivalue (BitVec.ofNat 64 f.toNat)).fieldName = f.name := by
  cases f <;> rfl

theorem queryFields_ofNat (f : QueryField) :
    queryFields[(BitVec.ofNat 64 f.toNat).toNat]? = some f := by
  cases f <;> rfl

/-- The last order counts. -/
theorem traits_orderBy (h : q.traits traits = some q') (hwell : ∀ t ∈ traits, t.WellTyped)
    {f : QueryField} (hf : q.orderBy = f.name)
    (hdir : q.orderDir = "ASC".toList ∨ q.orderDir = "DESC".toList) :
    q'.orderBy = (orderField f traits).name ∧
      (q'.orderDir = "ASC".toList ∨ q'.orderDir = "DESC".toList) := by
  induction traits generalizing q f with
  | nil =>
    cases h
    exact ⟨hf, hdir⟩
  | cons t traits ih =>
    obtain ⟨q₁, h₁, hrest⟩ := Option.bind_eq_some_iff.mp h
    have hwell' : ∀ t ∈ traits, t.WellTyped := fun t ht => hwell t (List.mem_cons_of_mem _ ht)
    have hdata := (hwell t List.mem_cons_self).data
    rcases Decidable.em (t.field = .order) with hfield | hfield
    · obtain ⟨-, -, horder, hdir'⟩ := trait_order hfield h₁
      cases hvalue : t.data with
      | svalue s =>
        rw [hvalue, hfield] at hdata
        cases hdata
      | ivalue v =>
        rw [hvalue] at hdata
        obtain ⟨g, rfl⟩ := hdata.2 hfield
        rw [hvalue, fieldName_ofNat] at horder
        have hlast : orderField f (t :: traits) = orderField g traits := by
          rw [orderField, hfield, hvalue]
          dsimp only
          rw [queryFields_ofNat]
          rfl
        rw [hlast]
        refine ih hrest hwell' horder ?_
        rcases hdir' with hdir' | hdir'
        · exact hdir' ▸ hdir
        · exact hdir'
    · obtain ⟨text, -, rfl⟩ := trait_filter hfield h₁
      have hlast : orderField f (t :: traits) = orderField f traits := by
        rw [orderField]
        split
        · rename_i v hfield' _
          exact absurd hfield' hfield
        · rfl
      rw [hlast]
      exact ih hrest hwell' hf hdir

end Loop

/-! ## 5. The fields -/

/-- The fields that are asked for. -/
def isAsked (fields : Nat) (f : QueryField) : Bool := fields.testBit f.toNat

def askedFor (fields : Nat) : List QueryField := queryFields.tail.filter (isAsked fields)

/-- More names behind one. -/
def moreNames (fs : List QueryField) : Text := fs.flatMap fun f => ", ".toList ++ f.name

def namesText : List QueryField → Text
  | [] => []
  | f :: fs => f.name ++ moreNames fs

def moreTokens (fs : List QueryField) : List Token := fs.flatMap fun f => [.comma, .ident f.name]

theorem fieldsText_true (fields : Nat) (fs : List QueryField) :
    fieldsText fields true fs = moreNames (fs.filter (isAsked fields)) := by
  induction fs with
  | nil => rfl
  | cons f fs ih =>
    rw [fieldsText, ih, List.filter_cons, isAsked]
    split
    · rfl
    · rfl

theorem fieldsText_false (fields : Nat) (fs : List QueryField) :
    fieldsText fields false fs = namesText (fs.filter (isAsked fields)) := by
  induction fs with
  | nil => rfl
  | cons f fs ih =>
    rw [fieldsText, fieldsText_true, ih, List.filter_cons, isAsked]
    split
    · rfl
    · rfl

/-- The tokens of `FROM logs`. -/
def fromLogs : List Token := [.keyword .from, .ident "logs".toList]

/-- From a name on, by induction on those behind it. -/
theorem scan_moreNames {f : QueryField} (hf : f ≠ .order) {fs : List QueryField}
    (hfs : ∀ g ∈ fs, g ≠ .order) :
    scan (.word f.name.reverse) (moreNames fs ++ " FROM logs ".toList) =
      (.blank, .ident f.name :: moreTokens fs ++ fromLogs) := by
  induction fs generalizing f with
  | nil =>
    have hend : scan (.word f.name.reverse) " FROM logs ".toList =
        (.blank, wordToken f.name.reverse.reverse :: fromLogs) := rfl
    rw [List.reverse_reverse, wordToken_name hf] at hend
    exact hend
  | cons g fs ih =>
    have hcomma : scan (.word f.name.reverse) ", ".toList =
        (.blank, [wordToken f.name.reverse.reverse, .comma]) := rfl
    rw [List.reverse_reverse, wordToken_name hf] at hcomma
    have hrest := ih (hfs g List.mem_cons_self) fun g' hg' => hfs g' (List.mem_cons_of_mem _ hg')
    rw [moreNames, List.flatMap_cons, List.append_assoc, List.append_assoc,
      scan_append_of_blank hcomma, scan_append, scan_name]
    dsimp only
    rw [moreNames] at hrest
    rw [hrest]
    rfl

/-- `SELECT`, or `SELECT DISTINCT`. -/
def header (unique : Bool) : List Token :=
  .keyword .select :: if unique then [.keyword .distinct] else []

theorem scan_header (unique : Bool) :
    scan .blank ("SELECT".toList ++ " ".toList ++ if unique then "DISTINCT ".toList else []) =
      (.blank, header unique) := by
  cases unique <;> rfl

/-- The tokens between the header and the table. -/
def nameTokens : List QueryField → List Token
  | [] => []
  | f :: fs => .ident f.name :: moreTokens fs

theorem scan_names {fs : List QueryField} (hfs : ∀ g ∈ fs, g ≠ .order) :
    scan .blank (namesText fs ++ " FROM logs ".toList) =
      (.blank, nameTokens fs ++ fromLogs) := by
  cases fs with
  | nil => rfl
  | cons f fs =>
    rw [namesText, List.append_assoc, scan_append, scan_name]
    dsimp only
    rw [scan_moreNames (hfs f List.mem_cons_self) fun g hg => hfs g (List.mem_cons_of_mem _ hg)]
    rfl

/-- `ASC` or `DESC`. -/
def direction (descending : Bool) : Keyword := if descending then .desc else .asc

theorem scan_order {dir : Text} (hdir : dir = "ASC".toList ∨ dir = "DESC".toList)
    (f : QueryField) : ∃ descending, scan .blank
      ("ORDER BY ".toList ++ f.name ++ " ".toList ++ dir ++ ";".toList) =
        (.blank, [.keyword .order, .keyword .by, wordToken f.name,
          .keyword (direction descending), .semicolon]) := by
  have hstart : scan .blank "ORDER BY ".toList = (.blank, [.keyword .order, .keyword .by]) := rfl
  have hend : ∃ descending, scan (.word f.name.reverse) (" ".toList ++ (dir ++ ";".toList)) =
      (.blank,
        [wordToken f.name.reverse.reverse, .keyword (direction descending), .semicolon]) := by
    rcases hdir with rfl | rfl
    · exact ⟨false, rfl⟩
    · exact ⟨true, rfl⟩
  obtain ⟨descending, hend⟩ := hend
  refine ⟨descending, ?_⟩
  rw [List.append_assoc, List.append_assoc, List.append_assoc, scan_append_of_blank hstart,
    scan_append, scan_name]
  dsimp only
  rw [hend, List.reverse_reverse]
  rfl

/-! ## 6. The statement -/

section Statement
variable {traits : List PseudoQuery} {fields : Nat} {unique : Bool} {sql : Text}

/-- The tokens of the whole text. -/
theorem queryText_tokens (hwell : ∀ t ∈ traits, t.WellTyped) (hfields : Displays fields)
    (hsql : queryText "SELECT".toList traits fields unique true = some sql) :
    ∃ descending, tokens sql = header unique ++ (nameTokens (askedFor fields) ++
      (.keyword .from :: .ident "logs".toList ::
        (filterTokens false ((filters traits).map traitCondition) ++
          [.keyword .order, .keyword .by, wordToken (orderField .id traits).name,
            .keyword (direction descending), .semicolon]))) := by
  obtain ⟨q, hq, rfl⟩ := Option.map_eq_some_iff.mp hsql
  have hasked : ∀ g ∈ askedFor fields, g ≠ .order := by
    rintro g hg rfl
    have hmem := hfields.mem (List.mem_filter.mp hg).2
    exact absurd hmem (by decide)
  have hstart : scan .blank ("SELECT".toList ++ " ".toList ++
      ((if unique then "DISTINCT ".toList else []) ++
        fieldsText fields false queryFields.tail) ++ " FROM logs ".toList) =
      (.blank, header unique ++ (nameTokens (askedFor fields) ++ fromLogs)) := by
    rw [← List.append_assoc, List.append_assoc _ _ " FROM logs ".toList,
      scan_append_of_blank (scan_header unique), fieldsText_false]
    exact congrArg (fun r => (r.1, header unique ++ r.2)) (scan_names hasked)
  have hscan := traits_scan hq hwell hstart
  obtain ⟨horder, hdir⟩ := @traits_orderBy _ q traits hq hwell .id rfl (Or.inl rfl)
  obtain ⟨descending, hend⟩ := scan_order hdir (orderField .id traits)
  refine ⟨descending, ?_⟩
  have hwhole : scan .blank (q.sql ++ "ORDER BY ".toList ++ q.orderBy ++ " ".toList ++ q.orderDir ++
      ";".toList) = (.blank, (header unique ++ (nameTokens (askedFor fields) ++ fromLogs) ++
          filterTokens false ((filters traits).map traitCondition)) ++
            [.keyword .order, .keyword .by, wordToken (orderField .id traits).name,
              .keyword (direction descending), .semicolon]) := by
    rw [horder]
    have hassoc : q.sql ++ "ORDER BY ".toList ++ (orderField .id traits).name ++ " ".toList ++
        q.orderDir ++ ";".toList = q.sql ++ ("ORDER BY ".toList ++ (orderField .id traits).name ++
          " ".toList ++ q.orderDir ++ ";".toList) := by
      simp only [List.append_assoc]
    rw [hassoc, scan_append_of_blank hscan, hend]
  show (scan .blank _).2 ++ (scan .blank _).1.flush = _
  rw [if_pos rfl, hwhole]
  simp [Sql.Pending.flush, fromLogs]

theorem parseNames_tokens (f : QueryField) (fs : List QueryField) (rest : List Token) :
    parseNames (.ident f.name :: moreTokens fs ++ .keyword .from :: rest) =
      some ((f :: fs).map QueryField.name, .keyword .from :: rest) := by
  induction fs generalizing f with
  | nil => rfl
  | cons g fs ih =>
    show (parseNames (.ident g.name :: moreTokens fs ++ .keyword .from :: rest)).map _ = _
    rw [ih]
    rfl

theorem parseFilter_tokens (cs : List Condition) (rest : List Token) :
    ∃ filter, parseFilter (filterTokens false cs ++ .keyword .order :: rest) =
        some (filter, .keyword .order :: rest) ∧
      (filter.map Expr.conjuncts).getD [] = numbered 1 cs := by
  cases cs with
  | nil => exact ⟨none, rfl, rfl⟩
  | cons c cs =>
    have horder : endsFilter (.keyword .order) = true := rfl
    obtain ⟨e, he, hconj⟩ := parseFilter_joinAnd c cs horder rest
    exact ⟨some e, he, hconj⟩

/-- The header leaves the names to be read. -/
theorem parseSelect_header (unique : Bool) {ts : List Token}
    (hts : ∀ rest, ts ≠ .keyword .distinct :: rest) :
    parseSelect (header unique ++ ts) = parseBody unique ts := by
  cases unique with
  | true => rfl
  | false =>
    show parseSelect (.keyword .select :: ts) = _
    unfold parseSelect
    split
    · rename_i rest heq
      exact absurd (List.cons.inj heq).2 (hts rest)
    · rename_i rest _ heq
      rw [(List.cons.inj heq).2]
    · rename_i hno
      exact absurd rfl (hno ts)

/-- What the text is read as. -/
theorem query_parses (hwell : ∀ t ∈ traits, t.WellTyped) (hfields : Displays fields)
    (hsql : queryText "SELECT".toList traits fields unique true = some sql) :
    (askedFor fields = [] ∨ orderField .id traits = .order → parseSelect (tokens sql) = none) ∧
    (askedFor fields ≠ [] → orderField .id traits ≠ .order →
      ∃ s, parseSelect (tokens sql) = some s ∧
        s.columns = (askedFor fields).map QueryField.name ∧ s.table = "logs".toList ∧
        (∃ descending, s.order = some ⟨(orderField .id traits).name, descending⟩) ∧
        s.conditions = numbered 1 ((filters traits).map traitCondition)) := by
  obtain ⟨descending, htokens⟩ := queryText_tokens hwell hfields hsql
  obtain ⟨filter, hfilter, hconj⟩ := parseFilter_tokens ((filters traits).map traitCondition)
    [.keyword .by, wordToken (orderField .id traits).name, .keyword (direction descending),
      .semicolon]
  cases hasked : askedFor fields with
  | nil =>
    rw [hasked] at htokens
    refine ⟨fun _ => ?_, fun h => absurd rfl h⟩
    rw [htokens, parseSelect_header unique (by simp [nameTokens])]
    rfl
  | cons f fs =>
    rw [hasked] at htokens
    have hparse : parseSelect (tokens sql) = (parseOrder [.keyword .order, .keyword .by,
        wordToken (orderField .id traits).name, .keyword (direction descending),
        .semicolon]).map fun order =>
          ⟨unique, (f :: fs).map QueryField.name, "logs".toList, filter, order⟩ := by
      rw [htokens, parseSelect_header unique (by simp [nameTokens])]
      unfold parseBody
      rw [nameTokens, parseNames_tokens, Option.bind_some]
      dsimp only
      rw [hfilter]
      rfl
    refine ⟨fun h => ?_, fun _ horder => ?_⟩
    · have horder : orderField .id traits = .order := h.resolve_left (by simp)
      rw [hparse, horder]
      cases descending <;> rfl
    · rw [wordToken_name horder] at hparse
      have hread : parseOrder [.keyword .order, .keyword .by,
          .ident (orderField .id traits).name, .keyword (direction descending), .semicolon] =
          some (some ⟨(orderField .id traits).name, descending⟩) := by
        cases descending <;> rfl
      rw [hread] at hparse
      exact ⟨_, hparse, rfl, rfl, ⟨descending, rfl⟩, hconj⟩

end Statement

/-! ## 7. The traits -/

theorem condition_params (t : PseudoQuery) (n : Nat) : (t.condition n).params = [n] := by
  unfold PseudoQuery.condition
  dsimp only
  split <;> rfl

theorem condition_columns (t : PseudoQuery) (n : Nat) :
    (t.condition n).columns = [t.field.column] := by
  unfold PseudoQuery.condition
  dsimp only
  split <;> rfl

/-- The text of a trait is read as what it stands for, but for the name of the inode. -/
theorem traitCondition_expr {t : PseudoQuery} (hinode : t.field ≠ .inode) (n : Nat) :
    (traitCondition t).expr n = t.condition n := by
  obtain ⟨type, field, data⟩ := t
  cases field
  case inode => exact absurd rfl hinode
  all_goals cases type <;> rfl

theorem traitCondition_inode {t : PseudoQuery} (hinode : t.field = .inode) (n : Nat) :
    ((traitCondition t).expr n).columns = [QueryField.inode.name] := by
  obtain ⟨type, field, data⟩ := t
  obtain rfl : field = .inode := hinode
  cases type <;> rfl

theorem numbered_eq {traits : List PseudoQuery} (h : ∀ t ∈ traits, t.field ≠ .inode) (n : Nat) :
    numbered n (traits.map traitCondition) = conditionsFrom n traits := by
  induction traits generalizing n with
  | nil => rfl
  | cons t traits ih =>
    rw [List.map_cons, numbered, conditionsFrom, traitCondition_expr (h t List.mem_cons_self),
      ih fun t ht => h t (List.mem_cons_of_mem _ ht)]

theorem conditionsFrom_params (traits : List PseudoQuery) (n : Nat) :
    (conditionsFrom n traits).map Expr.params = (valuesFrom n traits).map fun b => [b.1] := by
  induction traits generalizing n with
  | nil => rfl
  | cons t traits ih => rw [conditionsFrom, valuesFrom, List.map_cons, List.map_cons, ih,
      condition_params]

theorem mem_conditionsFrom {traits : List PseudoQuery} {n : Nat} {e : Expr}
    (h : e ∈ conditionsFrom n traits) : ∃ t ∈ traits, e.columns = [t.field.column] := by
  induction traits generalizing n with
  | nil => nomatch h
  | cons t traits ih =>
    rcases List.mem_cons.mp h with rfl | h
    · exact ⟨t, List.mem_cons_self, condition_columns t n⟩
    · obtain ⟨t', ht', hcolumns⟩ := ih h
      exact ⟨t', List.mem_cons_of_mem _ ht', hcolumns⟩

/-- The second loop binds the values in the order in which the first one has put their conditions
into the text. -/
theorem bindTraits_eq {traits : List PseudoQuery} (hwell : ∀ t ∈ traits, t.WellTyped) (n : Nat) :
    bindTraits n traits = some (valuesFrom n (filters traits)) := by
  induction traits generalizing n with
  | nil => rfl
  | cons t traits ih =>
    have hrest := fun n => ih (fun t ht => hwell t (List.mem_cons_of_mem _ ht)) n
    obtain ⟨-, ⟨hnone, hid⟩, hdata⟩ := hwell t List.mem_cons_self
    obtain ⟨type, field, data⟩ := t
    dsimp only at hnone hid hdata
    rcases Decidable.em (field = .order) with rfl | hfield
    · show bindTraits n traits = _
      rw [hrest]
      rfl
    · have hbind : bindTraits n (⟨type, field, data⟩ :: traits) =
          (bindTraits (n + 1) traits).map fun bound => (n, data) :: bound := by
        cases data with
        | svalue s =>
          cases field
          case program | text | tag | path => rfl
          all_goals cases hdata
        | ivalue v =>
          cases field
          case none => exact absurd rfl hnone
          case id => exact absurd rfl hid
          case order => exact absurd rfl hfield
          case program | text | tag | path => cases hdata.1
          all_goals rfl
      rw [filters_other hfield, hbind, hrest]
      rfl

/-- The fields that are columns by their own name. -/
theorem name_mem_logColumns (f : QueryField) : f.name ∈ logColumns ↔ f ∉ noColumn := by
  cases f <;> decide

section Names
variable {traits : List PseudoQuery} {fields : Nat} {s : Select}

/-- What names columns only has been asked for columns only. -/
theorem namesColumns_of_names (hasked : askedFor fields ≠ [])
    (hcolumns : s.columns = (askedFor fields).map QueryField.name) {descending : Bool}
    (hby : s.order = some ⟨(orderField .id traits).name, descending⟩)
    (hconditions : s.conditions = numbered 1 ((filters traits).map traitCondition))
    (hnames : ∀ name ∈ s.names, name ∈ logColumns) : NamesColumns traits fields := by
  constructor
  · rintro rfl
    exact hasked (List.filter_eq_nil_iff.mpr fun f _ => by simp [isAsked])
  · refine Bool.eq_false_iff.mpr fun hinode => ?_
    have hmem : QueryField.inode ∈ askedFor fields := List.mem_filter.mpr ⟨by decide, hinode⟩
    have hname : QueryField.inode.name ∈ s.names := by
      rw [Select.names, hcolumns]
      exact List.mem_append_left _ (List.mem_append_left _ (List.mem_map_of_mem hmem))
    exact absurd (hnames _ hname) (by decide)
  · intro t ht hinode
    have hfilter : t ∈ filters traits := List.mem_filter.mpr ⟨ht, by simp [hinode]⟩
    obtain ⟨m, hm⟩ := exists_mem_numbered (List.mem_map_of_mem hfilter) 1
    have hname : QueryField.inode.name ∈ s.names := by
      rw [Select.names, filter_columns, hconditions]
      refine List.mem_append_left _ (List.mem_append_right _ (List.mem_flatMap.mpr ⟨_, hm, ?_⟩))
      rw [traitCondition_inode hinode]
      exact List.mem_singleton.mpr rfl
    exact absurd (hnames _ hname) (by decide)
  · intro hno
    have hname : (orderField .id traits).name ∈ s.names := by
      rw [Select.names, hby]
      exact List.mem_append_right _ (List.mem_singleton.mpr rfl)
    exact (name_mem_logColumns _).mp (hnames _ hname) hno

theorem askedFor_ne_nil (hdisplays : Displays fields) (hasks : fields ≠ 0) :
    askedFor fields ≠ [] := by
  obtain ⟨i, hi⟩ := Nat.exists_testBit_of_ne_zero hasks
  obtain ⟨f, hf, rfl⟩ := hdisplays i hi
  have hlisted : ∀ f ∈ displayed, f ∈ queryFields.tail := by decide
  exact List.ne_nil_of_mem (List.mem_filter.mpr ⟨hlisted f hf, hi⟩)

theorem names_of_namesColumns (hwell : ∀ t ∈ traits, t.WellTyped) (hdisplays : Displays fields)
    (h : NamesColumns traits fields) (hcolumns : s.columns = (askedFor fields).map QueryField.name)
    {descending : Bool} (hby : s.order = some ⟨(orderField .id traits).name, descending⟩)
    (hconditions : s.conditions = conditionsFrom 1 (filters traits)) :
    ∀ name ∈ s.names, name ∈ logColumns := by
  intro name hname
  rw [Select.names, hcolumns, filter_columns, hconditions, hby] at hname
  rcases List.mem_append.mp hname with hname | hname
  · rcases List.mem_append.mp hname with hname | hname
    · obtain ⟨f, hf, rfl⟩ := List.mem_map.mp hname
      have hbit : fields.testBit f.toNat = true := (List.mem_filter.mp hf).2
      have hinode : f ≠ .inode := by
        rintro rfl
        rw [h.displays] at hbit
        cases hbit
      have hcolumn : ∀ f ∈ displayed, f ≠ .inode → f ∉ noColumn := by decide
      exact (name_mem_logColumns f).mpr (hcolumn f (hdisplays.mem hbit) hinode)
    · obtain ⟨e, he, hname⟩ := List.mem_flatMap.mp hname
      obtain ⟨t, ht, hcolumn⟩ := mem_conditionsFrom he
      rw [hcolumn] at hname
      obtain rfl := List.mem_singleton.mp hname
      obtain ⟨htraits, horder⟩ := List.mem_filter.mp ht
      have hnone := (hwell t htraits).field.1
      have horder : t.field ≠ .order := by simpa using horder
      generalize t.field = f at hnone horder
      cases f
      case none => exact absurd rfl hnone
      case order => exact absurd rfl horder
      all_goals decide
  · obtain rfl := List.mem_singleton.mp hname
    exact (name_mem_logColumns _).mpr h.order

end Names

section WellFormed
variable {traits : List PseudoQuery} {fields : Nat} {unique : Bool} {sql : Text}

theorem returned_wellTyped {t : PseudoQuery} (h : t.Returned) : t.WellTyped := by
  obtain ⟨lib, timeformat, optL, opt, string, hreturned⟩ := h
  exact plogTrait_wellTyped hreturned

theorem wellFormed_of_namesColumns (hwell : ∀ t ∈ traits, t.WellTyped) (hdisplays : Displays fields)
    (hsql : queryText "SELECT".toList traits fields unique true = some sql)
    (h : NamesColumns traits fields) :
    ∃ s, WellFormed traits sql s (valuesFrom 1 (filters traits)) := by
  have horder : orderField .id traits ≠ .order := fun hfield => h.order (by rw [hfield]; decide)
  obtain ⟨s, hs, hcolumns, htable, ⟨descending, hby⟩, hconditions⟩ :=
    (query_parses hwell hdisplays hsql).2 (askedFor_ne_nil hdisplays h.asks) horder
  have hinode : ∀ t ∈ filters traits, t.field ≠ .inode :=
    fun t ht => h.filters t (List.mem_filter.mp ht).1
  rw [numbered_eq hinode] at hconditions
  refine ⟨s, hs, htable, ?_, hconditions, ?_, bindTraits_eq hwell 1, rfl⟩
  · exact names_of_namesColumns hwell hdisplays h hcolumns hby hconditions
  · rw [hconditions, conditionsFrom_params]

theorem namesColumns_of_wellFormed (hwell : ∀ t ∈ traits, t.WellTyped) (hdisplays : Displays fields)
    (hsql : queryText "SELECT".toList traits fields unique true = some sql) {s : Select}
    {bound : List (Nat × QueryData)} (h : WellFormed traits sql s bound) :
    NamesColumns traits fields := by
  obtain ⟨hfails, hreads⟩ := query_parses hwell hdisplays hsql
  have hparsed : parseSelect (tokens sql) ≠ none := by
    rw [h.parsed]
    exact Option.some_ne_none s
  have hasked : askedFor fields ≠ [] := fun hnil => hparsed (hfails (Or.inl hnil))
  have horder : orderField .id traits ≠ .order := fun hfield => hparsed (hfails (Or.inr hfield))
  obtain ⟨s', hs', hcolumns, -, ⟨descending, hby⟩, hconditions⟩ := hreads hasked horder
  obtain rfl := Option.some.inj (h.parsed.symm.trans hs')
  exact namesColumns_of_names hasked hcolumns hby hconditions h.names

end WellFormed

end LogQueryLemmas

open LogQueryLemmas

/-! ## 8. When a query is well formed -/

section Query
variable {traits : List PseudoQuery} {format : Bytes} {fields : Nat} {unique : Bool} {sql : Text}

/-- A command line that is accepted gives a statement that can be prepared and binds each value to
its condition, exactly when it displays something, and names the inode neither in its format nor in
a trait, and orders by a column. -/
theorem pdbQuery_iff (htraits : ∀ t ∈ traits, t.Returned)
    (hfields : formatScan format = some fields)
    (hsql : queryText "SELECT".toList traits fields unique true = some sql) :
    (∃ s bound, WellFormed traits sql s bound) ↔ NamesColumns traits fields := by
  have hwell : ∀ t ∈ traits, t.WellTyped := fun t ht => returned_wellTyped (htraits t ht)
  have hdisplays := formatScan_displays hfields
  constructor
  · rintro ⟨s, bound, hform⟩
    exact namesColumns_of_wellFormed hwell hdisplays hsql hform
  · intro hnames
    obtain ⟨s, hform⟩ := wellFormed_of_namesColumns hwell hdisplays hsql hnames
    exact ⟨s, _, hform⟩

end Query

/-- The times are not read for the options here. -/
def noTimes : TimeLibrary := ⟨Unit, (), fun _ _ _ => none, fun _ => 0⟩

/-- `pseudolog -p %usr -O "<s" -F %p` -/
theorem pdbQuery_substring :
    ∃ s bound, WellFormed
      [⟨.like, .path, .svalue (ascii "usr".toList)⟩, ⟨.less, .order, .ivalue 17⟩]
      "SELECT path FROM logs WHERE path LIKE ('%' || ? || '%')ORDER BY stamp DESC;".toList
      s bound := by
  have hpath : plogTrait noTimes [] false 'p'.toNat (ascii "%usr".toList) =
      some ⟨.like, .path, .svalue (ascii "usr".toList)⟩ := by decide
  have horder : plogTrait noTimes [] false 'O'.toNat (ascii "<s".toList) =
      some ⟨.less, .order, .ivalue 17⟩ := by decide
  have htraits : ∀ t ∈ [⟨.like, .path, .svalue (ascii "usr".toList)⟩, ⟨.less, .order, .ivalue 17⟩],
      PseudoQuery.Returned t := by
    intro t ht
    rcases List.mem_pair.mp ht with rfl | rfl
    · exact ⟨noTimes, [], false, _, _, hpath⟩
    · exact ⟨noTimes, [], false, _, _, horder⟩
  have hformat : formatScan (ascii "%p".toList) = some 4096 := by decide
  exact (@pdbQuery_iff _ _ _ false _ htraits hformat rfl).mpr
    ⟨by decide, by decide, by decide, by decide⟩

/-- `pseudolog -i 5 -F %p`: the column is `ino`. -/
theorem pdbQuery_inode :
    plogTrait noTimes [] false 'i'.toNat (ascii "5".toList) = some ⟨.exact, .inode, .ivalue 5⟩ ∧
    formatScan (ascii "%p".toList) = some 4096 ∧
    queryText "SELECT".toList [⟨.exact, .inode, .ivalue 5⟩] 4096 false true =
      some "SELECT path FROM logs WHERE inode = ? ORDER BY id ASC;".toList ∧
    ¬ ∃ s bound, WellFormed [⟨.exact, .inode, .ivalue 5⟩]
      "SELECT path FROM logs WHERE inode = ? ORDER BY id ASC;".toList s bound := by
  refine ⟨by decide, by decide, rfl, ?_⟩
  rintro ⟨s, bound, h⟩
  have hread : parseSelect (tokens
      "SELECT path FROM logs WHERE inode = ? ORDER BY id ASC;".toList) =
        some ⟨false, ["path".toList], "logs".toList,
          some (.binary .eq (.column "inode".toList) (.param 1)), some ⟨"id".toList, false⟩⟩ := rfl
  obtain rfl := Option.some.inj (h.parsed.symm.trans hread)
  exact absurd (h.names "inode".toList (by decide)) (by decide)

section Query
variable {traits : List PseudoQuery} {format : Bytes} {fields : Nat} {unique : Bool} {sql : Text}

/-- With a `sqlite3_prepare_v2` that takes whatever names columns of the table, the values come
back behind the text, one for each trait that is a condition. -/
theorem pdbQuery_binds {prepare : Text → Bool}
    (hprepare : ∀ sql s, parseSelect (tokens sql) = some s → s.table = "logs".toList →
      (∀ name ∈ s.names, name ∈ logColumns) → prepare sql = true)
    (htraits : ∀ t ∈ traits, t.Returned) (hfields : formatScan format = some fields)
    (hsql : queryText "SELECT".toList traits fields unique true = some sql)
    (hnames : NamesColumns traits fields) :
    pdbQuery prepare "SELECT".toList traits fields unique true =
      some ⟨sql, valuesFrom 1 (filters traits)⟩ := by
  have hwell : ∀ t ∈ traits, t.WellTyped := fun t ht => returned_wellTyped (htraits t ht)
  obtain ⟨s, hform⟩ := wellFormed_of_namesColumns hwell (formatScan_displays hfields) hsql hnames
  have haccepts := hprepare sql s hform.parsed hform.table hform.names
  rw [pdbQuery, hsql, Option.bind_some, if_pos haccepts, hform.values.1]
  rfl

end Query

end Pseudo
