import Pseudo.Library.Sql

/-!
# Rows of a table, and the statements that select them

What the part of SQL in `Pseudo.Library.Sql` means for one row: an `INSERT` of some columns, and
the values of expressions. Logic has three values. What SQLite would have to convert between
numbers and strings has no value here, and neither has `LIKE`.

* `holds_eq`: an equation holds between values that are the same and not null.
* `selects_iff`: a statement selects the rows for which all of its conditions hold.
-/

namespace Sql

/-! ## Values -/

inductive Value
  | null
  | int (v : BitVec 64)
  | text (s : List UInt8)
  deriving DecidableEq, Repr

/-- The columns with their values. -/
abbrev Row := List (List Char × Value)

/-- The row of an `INSERT`: columns that it does not name are null. -/
def insertRow (columns names : List (List Char)) (values : List Value) : Row :=
  columns.map fun column => (column, ((names.zip values).lookup column).getD .null)

/-- A truth value, null if it is unknown. -/
def Value.ofTruth : Option Bool → Value
  | none => .null
  | some b => .int (if b then 1 else 0)

def Value.truth : Value → Option (Option Bool)
  | .null => some none
  | .int v => some (some (v ≠ 0))
  | .text _ => none

def andTruth : Option Bool → Option Bool → Option Bool
  | some false, _ | _, some false => some false
  | some true, some true => some true
  | _, _ => none

/-- Strings are compared byte by byte. -/
def BinOp.apply : BinOp → Value → Value → Option Value
  | .and, l, r =>
    l.truth.bind fun l => r.truth.map fun r => Value.ofTruth (andTruth l r)
  | _, .null, _ | _, _, .null => some .null
  | .eq, .int l, .int r => some (Value.ofTruth (some (l = r)))
  | .ne, .int l, .int r => some (Value.ofTruth (some (l ≠ r)))
  | .lt, .int l, .int r => some (Value.ofTruth (some (l.slt r)))
  | .gt, .int l, .int r => some (Value.ofTruth (some (r.slt l)))
  | .bitand, .int l, .int r => some (.int (l &&& r))
  | .eq, .text l, .text r => some (Value.ofTruth (some (l = r)))
  | .ne, .text l, .text r => some (Value.ofTruth (some (l ≠ r)))
  | .lt, .text l, .text r => some (Value.ofTruth (some (l < r)))
  | .gt, .text l, .text r => some (Value.ofTruth (some (r < l)))
  | .concat, .text l, .text r => some (.text (l ++ r))
  | _, _, _ => none

/-- The number that digits stand for. -/
def ofDigits (digits : List Char) : Nat :=
  digits.foldl (fun sofar c => 10 * sofar + (c.toNat - '0'.toNat)) 0

/-- The value of an expression for a row; `param` is what is bound to the parameters. -/
def Expr.eval (row : Row) (param : Nat → Value) : Expr → Option Value
  | .column name => row.lookup name
  | .param n => some (param n)
  | .number digits => some (.int (BitVec.ofNat 64 (ofDigits digits)))
  | .string chars => some (.text (chars.flatMap String.utf8EncodeChar))
  | .paren e => e.eval row param
  | .binary op l r => (l.eval row param).bind fun l => (r.eval row param).bind fun r => op.apply l r

/-- The condition is true for the row, not false or unknown. -/
def Holds (row : Row) (param : Nat → Value) (e : Expr) : Prop :=
  (e.eval row param).bind Value.truth = some (some true)

instance (row : Row) (param : Nat → Value) (e : Expr) : Decidable (Holds row param e) :=
  inferInstanceAs (Decidable (_ = _))

/-- The statement selects the row. -/
def Select.Selects (s : Select) (row : Row) (param : Nat → Value) : Prop :=
  ∀ e ∈ s.filter, Holds row param e

/-! ## Conditions -/

section Conditions
variable {row : Row} {param : Nat → Value} {l r : Expr}

theorem truth_ofTruth (b : Option Bool) : (Value.ofTruth b).truth = some b := by
  rcases b with - | - | - <;> rfl

theorem andTruth_true (l r : Option Bool) :
    andTruth l r = some true ↔ l = some true ∧ r = some true := by
  rcases l with - | - | - <;> rcases r with - | - | - <;> decide

theorem holds_and : Holds row param (.binary .and l r) ↔ Holds row param l ∧ Holds row param r := by
  unfold Holds
  rw [Expr.eval]
  cases hl : l.eval row param with
  | none => simp
  | some vl =>
    cases hr : r.eval row param with
    | none => simp
    | some vr =>
      simp only [Option.bind_some, BinOp.apply]
      cases htl : vl.truth with
      | none => simp
      | some bl =>
        cases htr : vr.truth with
        | none => simp
        | some br => simp [truth_ofTruth, andTruth_true]

/-- What is compared is there, and the same. -/
theorem holds_eq : Holds row param (.binary .eq l r) ↔
    ∃ v, v ≠ .null ∧ l.eval row param = some v ∧ r.eval row param = some v := by
  unfold Holds
  rw [Expr.eval]
  cases hl : l.eval row param with
  | none => simp
  | some vl =>
    cases hr : r.eval row param with
    | none => simp
    | some vr =>
      have happly : (BinOp.apply .eq vl vr).bind Value.truth = some (some true) ↔
          vl ≠ .null ∧ vl = vr := by
        cases vl <;> cases vr <;> simp [BinOp.apply, Value.ofTruth, Value.truth]
      simp only [Option.bind_some]
      rw [happly]
      constructor
      · rintro ⟨hnull, rfl⟩
        exact ⟨vl, hnull, rfl, rfl⟩
      · rintro ⟨v, hnull, hvl, hvr⟩
        obtain rfl := Option.some.inj hvl
        exact ⟨hnull, (Option.some.inj hvr).symm⟩

theorem holds_conjuncts (e : Expr) :
    Holds row param e ↔ ∀ c ∈ e.conjuncts, Holds row param c := by
  induction e with
  | binary op l r ihl ihr =>
    rcases Decidable.em (op = .and) with rfl | hop
    · rw [holds_and, ihl, ihr, Expr.conjuncts, List.forall_mem_append]
    · rw [conjuncts_of_ne hop, List.forall_mem_singleton]
  | column | param | number | string | paren => exact List.forall_mem_singleton.symm

theorem selects_iff (s : Select) :
    s.Selects row param ↔ ∀ c ∈ s.conditions, Holds row param c := by
  unfold Select.Selects Select.conditions
  cases s.filter with
  | none => simp
  | some e =>
    have hsome : (∀ e' ∈ some e, Holds row param e') ↔ Holds row param e := by simp
    rw [hsome, holds_conjuncts]
    rfl

end Conditions

end Sql
