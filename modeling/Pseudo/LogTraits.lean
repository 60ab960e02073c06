import Pseudo.Attributes
import Pseudo.Library.Rows
import Pseudo.LogHistory
import Pseudo.Lookup

/-!
# Entries that are created from traits

`pdb_log_traits` fills a `log_entry` in a loop over the traits, and `pdb_log_entry` inserts it.
`pdb_query` has its own way from the same traits to a row.

Results:
1. `pdbLogTraits_eq`: what is inserted.
2. `querySelects_iff`: the rows of entries that a query selects.
3. `setTraits_compared`: what the loop leaves for each condition of the query.
4. `pdbLogTraits_found_iff`: when the query finds the new row.
-/

namespace Pseudo

open Sql LogQueryLemmas

/-! ## 1. The code -/

/-- The `switch` of `pdb_log_traits`; the strings are copied with `strdup`. -/
def LogEntry.setTrait (e : LogEntry) (t : PseudoQuery) : Option LogEntry :=
  match t.field, t.data with
  | .access, .ivalue v => some { e with access := v.setWidth 32 }
  | .client, .ivalue v => some { e with client := v }
  | .dev, .ivalue v => some { e with dev := v }
  | .fd, .ivalue v => some { e with fd := v }
  | .ftype, .ivalue v => some { e with mode := e.mode ||| (v &&& 0o170000) }
  | .gid, .ivalue v => some { e with gid := v }
  | .inode, .ivalue v => some { e with ino := v }
  | .mode, .ivalue v => some { e with mode := v }
  | .op, .ivalue v => some { e with op := v.setWidth 32 }
  | .path, .svalue s => some { e with path := some (cstr s) }
  | .perm, .ivalue v => some { e with mode := e.mode ||| (v &&& ~~~ 0o170000 &&& 0o177777) }
  | .program, .svalue s => some { e with program := some (cstr s) }
  | .result, .ivalue v => some { e with result := v.setWidth 32 }
  | .severity, .ivalue v => some { e with severity := v.setWidth 32 }
  | .stamp, .ivalue v => some { e with stamp := v }
  | .tag, .svalue s => some { e with tag := some (cstr s) }
  | .text, .svalue s => some { e with text := some (cstr s) }
  | .type, .ivalue v => some { e with type := v.setWidth 32 }
  | .uid, .ivalue v => some { e with uid := v }
  -- "Invalid trait %s for log creation."
  | _, _ => none

/-- The loop. -/
def LogEntry.setTraits (e : LogEntry) : List PseudoQuery → Option LogEntry
  | [] => some e
  | t :: traits => (e.setTrait t).bind fun e => e.setTraits traits

/-- How the calls end: whether the log is open or can be opened, `calloc` has memory,
`sqlite3_prepare_v2` accepts the statement, and `sqlite3_step` returns `SQLITE_DONE`; the time, and
the id that SQLite gives to the row. -/
structure LogCalls where
  opened : Bool
  calloc : Bool
  prepared : Bool
  done : Bool
  time : BitVec 64
  id : BitVec 64
  deriving DecidableEq, Repr

/-- The columns that the `INSERT` names. -/
def insertColumns : List Text :=
  ["stamp", "op", "access", "client", "dev", "gid", "ino", "mode", "path", "result", "severity",
    "text", "program", "tag", "type", "uid"].map String.toList

/-- `sqlite3_bind_int` -/
def intValue (v : BitVec 64) : Value := .int (columnInt64 (bindInt v))

/-- `sqlite3_bind_text`, or `sqlite3_bind_null` for the null pointer. -/
def textValue : Option Bytes → Value
  | some s => .text (cstr s)
  | none => .null

/-- What `pdb_log_entry` binds, one after the other. -/
def entryValues (time : BitVec 64) : Option LogEntry → List Value
  | some e =>
    [intValue (if e.stamp ≠ 0 then e.stamp else time), .int (columnInt64 e.op),
      .int (columnInt64 e.access), intValue e.client, intValue e.dev, intValue e.gid,
      .int (signedIno e.ino), intValue e.mode, textValue e.path, .int (columnInt64 e.result),
      .int (columnInt64 e.severity), textValue e.text, textValue e.program, textValue e.tag,
      .int (columnInt64 e.type), intValue e.uid]
  | none =>
    [intValue time, .int 0, .int 0, .int 0, .int 0, .int 0, .int 0, .int 0, .null, .int 0, .int 0,
      .null, .null, .null, .int 0, .int 0]

/-- The row of an entry; the id is SQLite's. -/
def entryRow (calls : LogCalls) (e : Option LogEntry) : Row :=
  insertRow logColumns ("id".toList :: insertColumns) (.int calls.id :: entryValues calls.time e)

/-- `pdb_log_entry`: the log afterwards, and what is returned. -/
def pdbLogEntry (calls : LogCalls) (db : List Row) (e : Option LogEntry) : List Row × Int :=
  -- "database error"
  if !calls.opened then (db, 1)
  -- "couldn't prepare INSERT statement"
  else if !calls.prepared then (db, 1)
  -- "insert may have failed"
  else if !calls.done then (db, 1)
  else (db ++ [entryRow calls e], 0)

def pdbLogTraits (calls : LogCalls) (db : List Row) (traits : List PseudoQuery) :
    List Row × Int :=
  -- "database error"
  if !calls.opened then (db, 1)
  -- "can't allocate space for log entry."
  else if !calls.calloc then (db, 1)
  else
    match LogEntry.zero.setTraits traits with
    | none => (db, 1)
    | some e => pdbLogEntry calls db (some e)

/-- `sqlite3_bind_int64` and `sqlite3_bind_text`. -/
def QueryData.value : QueryData → Value
  | .ivalue v => .int v
  | .svalue s => .text (cstr s)

/-- What a parameter is bound to; it is null if it is not bound. -/
def boundParam (bound : List (Nat × QueryData)) (n : Nat) : Value :=
  ((bound.lookup n).map QueryData.value).getD .null

/-- `sqlite3_prepare_v2` for the database of the log. -/
def prepareLog (sql : Text) : Bool :=
  match parseSelect (tokens sql) with
  | some s => s.table = "logs".toList ∧ ∀ name ∈ s.names, name ∈ logColumns
  | none => false

/-! ## 2. What it should do -/

/-- The query that `pdb_query` prepares and binds selects the row. -/
def QuerySelects (traits : List PseudoQuery) (fields : Nat) (unique : Bool) (row : Row) : Prop :=
  ∃ stmt s, pdbQuery prepareLog "SELECT".toList traits fields unique true = some stmt ∧
    parseSelect (tokens stmt.sql) = some s ∧ s.Selects row (boundParam stmt.bound)

/-- Not both a mode and a part of it. -/
def OneMode (traits : List PseudoQuery) : Prop :=
  (∀ t ∈ traits, t.field ≠ .mode) ∨ ∀ t ∈ traits, t.field ≠ .perm ∧ t.field ≠ .ftype

/-- The value is stored as it is looked for. -/
def PseudoQuery.Kept (time : BitVec 64) (t : PseudoQuery) : Prop :=
  match t.field, t.data with
  -- the `INSERT` does not name the one, and the query misspells the other
  | .fd, _ | .inode, _ => False
  | .client, .ivalue v | .dev, .ivalue v | .gid, .ivalue v | .mode, .ivalue v | .uid, .ivalue v =>
    columnInt64 (bindInt v) = v
  -- no time is the current time
  | .stamp, .ivalue v => columnInt64 (bindInt (if v ≠ 0 then v else time)) = v
  | .perm, .ivalue v => v &&& 0o7777 = v
  | _, _ => True

/-- Traits of one field ask for the same. -/
def OneValue (traits : List PseudoQuery) : Prop :=
  ∀ t ∈ traits, ∀ t' ∈ traits, t.field = t'.field → t.data.value = t'.data.value

/-- Something is displayed, and not the inode, and each value is stored as it is looked for. -/
structure Findable (time : BitVec 64) (traits : List PseudoQuery) (fields : Nat) : Prop where
  asks : fields ≠ 0
  displays : fields.testBit QueryField.inode.toNat = false
  agree : OneValue traits
  kept : ∀ t ∈ traits, t.Kept time

/-- No call fails. -/
def LogCalls.succeed (calls : LogCalls) : Bool :=
  calls.opened && calls.calloc && calls.prepared && calls.done

namespace LogTraitsLemmas

/-! ## 3. Creation -/

section Creation
variable {e e' : LogEntry} {t : PseudoQuery} {traits : List PseudoQuery}

/-- Only an order is refused. -/
theorem setTrait_some (e : LogEntry) (hwell : t.WellTyped) (horder : t.field ≠ .order) :
    ∃ e', e.setTrait t = some e' := by
  obtain ⟨-, ⟨hnone, hid⟩, hdata⟩ := hwell
  obtain ⟨type, field, data⟩ := t
  dsimp only at hnone hid hdata horder
  cases data with
  | svalue s =>
    cases field
    case program | text | tag | path => exact ⟨_, rfl⟩
    all_goals cases hdata
  | ivalue v =>
    cases field
    case none => exact absurd rfl hnone
    case id => exact absurd rfl hid
    case order => exact absurd rfl horder
    case program | text | tag | path => cases hdata.1
    all_goals exact ⟨_, rfl⟩

theorem setTraits_some (e : LogEntry) (hwell : ∀ t ∈ traits, t.WellTyped)
    (horder : ∀ t ∈ traits, t.field ≠ .order) : ∃ e', e.setTraits traits = some e' := by
  induction traits generalizing e with
  | nil => exact ⟨e, rfl⟩
  | cons t traits ih =>
    obtain ⟨hwell, hwell'⟩ := List.forall_mem_cons.mp hwell
    obtain ⟨horder, horder'⟩ := List.forall_mem_cons.mp horder
    obtain ⟨e₁, h₁⟩ := setTrait_some e hwell horder
    obtain ⟨e', h'⟩ := ih e₁ hwell' horder'
    exact ⟨e', by rw [LogEntry.setTraits, h₁, Option.bind_some, h']⟩

/-- One row is added, or the log stays as it is. -/
theorem pdbLogTraits_eq (calls : LogCalls) (db : List Row) (hwell : ∀ t ∈ traits, t.WellTyped)
    (horder : ∀ t ∈ traits, t.field ≠ .order) :
    ∃ e, LogEntry.zero.setTraits traits = some e ∧ pdbLogTraits calls db traits =
      if calls.succeed then (db ++ [entryRow calls (some e)], 0) else (db, 1) := by
  obtain ⟨e, he⟩ := setTraits_some .zero hwell horder
  refine ⟨e, he, ?_⟩
  obtain ⟨opened, calloc, prepared, done, time, id⟩ := calls
  rw [pdbLogTraits, he]
  cases opened <;> cases calloc <;> cases prepared <;> cases done <;> rfl

end Creation

/-! ## 4. Conditions and rows -/

/-- What the condition of an exact trait compares. -/
def comparedExpr : QueryField → Expr
  | .perm => .paren (.binary .bitand (.column "mode".toList) (.number "4095".toList))
  | .ftype => .paren (.binary .bitand (.column "mode".toList) (.number "61440".toList))
  | f => .column f.column

/-- Its value in the row of an entry. -/
def compared (time : BitVec 64) (e : LogEntry) : QueryField → Value
  | .access => .int (columnInt64 e.access)
  | .client => intValue e.client
  | .dev => intValue e.dev
  | .ftype => .int (columnInt64 (bindInt e.mode) &&& 0o170000)
  | .gid => intValue e.gid
  | .inode => .int (signedIno e.ino)
  | .mode => intValue e.mode
  | .op => .int (columnInt64 e.op)
  | .path => textValue e.path
  | .perm => .int (columnInt64 (bindInt e.mode) &&& 0o7777)
  | .program => textValue e.program
  | .result => .int (columnInt64 e.result)
  | .severity => .int (columnInt64 e.severity)
  | .stamp => intValue (if e.stamp ≠ 0 then e.stamp else time)
  | .tag => textValue e.tag
  | .text => textValue e.text
  | .type => .int (columnInt64 e.type)
  | .uid => intValue e.uid
  | .fd | .none | .id | .order => .null

section Rows
variable {t : PseudoQuery} {traits : List PseudoQuery} {calls : LogCalls} {e : LogEntry}
  {param : Nat → Value}

theorem condition_exact (h : t.type = .exact) (n : Nat) :
    t.condition n = .binary .eq (comparedExpr t.field) (.param n) := by
  obtain ⟨type, field, data⟩ := t
  obtain rfl : type = .exact := h
  cases field <;> rfl

theorem eval_comparedExpr {f : QueryField} (hf : f ≠ .none ∧ f ≠ .id ∧ f ≠ .order) :
    (comparedExpr f).eval (entryRow calls (some e)) param = some (compared calls.time e f) := by
  cases f
  case none => exact absurd rfl hf.1
  case id => exact absurd rfl hf.2.1
  case order => exact absurd rfl hf.2.2
  all_goals rfl

theorem value_ne_null (d : QueryData) : d.value ≠ .null := by
  cases d <;> nofun

/-- The condition of an exact trait. -/
theorem holds_condition (hexact : t.type = .exact) (hwell : t.WellTyped)
    (horder : t.field ≠ .order) {n : Nat} (hparam : param n = t.data.value) :
    Holds (entryRow calls (some e)) param (t.condition n) ↔
      compared calls.time e t.field = t.data.value := by
  rw [condition_exact hexact, holds_eq, eval_comparedExpr ⟨hwell.field.1, hwell.field.2, horder⟩]
  constructor
  · rintro ⟨v, -, hleft, hright⟩
    rw [Option.some.inj hleft, ← hparam]
    exact (Option.some.inj hright).symm
  · intro hsame
    refine ⟨t.data.value, value_ne_null _, congrArg some hsame, ?_⟩
    rw [Expr.eval, hparam]

/-- Each value is bound to its own parameter. -/
theorem boundParam_eq {n m : Nat} {d : QueryData} (h : (m, d) ∈ valuesFrom n traits) :
    boundParam (valuesFrom n traits) m = d.value := by
  have hlookup : (valuesFrom n traits).lookup m = some d ∧ n ≤ m := by
    induction traits generalizing n with
    | nil => nomatch h
    | cons t traits ih =>
      rcases List.mem_cons.mp h with heq | h
      · obtain ⟨rfl, rfl⟩ := Prod.mk.inj heq
        exact ⟨List.lookup_cons_self, Nat.le_refl _⟩
      · obtain ⟨hrest, hle⟩ := ih h
        have hne : (m == n) = false := beq_false_of_ne (by omega)
        exact ⟨by rw [valuesFrom, List.lookup_cons, hne]; exact hrest, by omega⟩
  rw [boundParam, hlookup.1]
  rfl

theorem holds_conditionsFrom (hexact : ∀ t ∈ traits, t.type = .exact)
    (hwell : ∀ t ∈ traits, t.WellTyped) (horder : ∀ t ∈ traits, t.field ≠ .order) {n : Nat}
    (hparam : ∀ b ∈ valuesFrom n traits, param b.1 = b.2.value) :
    (∀ c ∈ conditionsFrom n traits, Holds (entryRow calls (some e)) param c) ↔
      ∀ t ∈ traits, compared calls.time e t.field = t.data.value := by
  induction traits generalizing n with
  | nil => exact iff_of_true (List.forall_mem_nil _) (List.forall_mem_nil _)
  | cons t traits ih =>
    obtain ⟨hexact, hexact'⟩ := List.forall_mem_cons.mp hexact
    obtain ⟨hwell, hwell'⟩ := List.forall_mem_cons.mp hwell
    obtain ⟨horder, horder'⟩ := List.forall_mem_cons.mp horder
    obtain ⟨hparam, hparam'⟩ := List.forall_mem_cons.mp hparam
    rw [conditionsFrom, List.forall_mem_cons, List.forall_mem_cons,
      holds_condition hexact hwell horder hparam, ih hexact' hwell' horder' hparam']

end Rows

/-! ## 5. The query -/

section Query
variable {traits : List PseudoQuery} {fields : Nat} {unique : Bool} {calls : LogCalls}
  {e : LogEntry}

theorem filters_eq (horder : ∀ t ∈ traits, t.field ≠ .order) : filters traits = traits :=
  List.filter_eq_self.mpr fun t ht => decide_eq_true (horder t ht)

theorem orderField_id (last : QueryField) (horder : ∀ t ∈ traits, t.field ≠ .order) :
    orderField last traits = last := by
  induction traits generalizing last with
  | nil => rfl
  | cons t traits ih =>
    obtain ⟨hfield, horder⟩ := List.forall_mem_cons.mp horder
    rw [orderField]
    split
    · rename_i hfield' _
      exact absurd hfield' hfield
    · exact ih last horder

/-- An exact trait has a text. -/
theorem text_exact {t : PseudoQuery} (hexact : t.type = .exact) : ∃ text, t.text = some text := by
  have htype : t.type.isPattern = false := by rw [hexact]; rfl
  rw [text_eq, htype]
  split
  · exact ⟨_, rfl⟩
  · rw [if_neg Bool.false_ne_true]
    split
    · exact ⟨_, rfl⟩
    · split <;> exact ⟨_, rfl⟩

theorem traits_some (q : QueryText) (hexact : ∀ t ∈ traits, t.type = .exact)
    (horder : ∀ t ∈ traits, t.field ≠ .order) : ∃ q', q.traits traits = some q' := by
  induction traits generalizing q with
  | nil => exact ⟨q, rfl⟩
  | cons t traits ih =>
    obtain ⟨hexact, hexact'⟩ := List.forall_mem_cons.mp hexact
    obtain ⟨horder, horder'⟩ := List.forall_mem_cons.mp horder
    obtain ⟨text, htext⟩ := text_exact hexact
    have htrait : ∃ q₁, q.trait t = some q₁ := by
      rw [QueryText.trait, if_neg horder, htext]
      exact ⟨_, rfl⟩
    obtain ⟨q₁, h₁⟩ := htrait
    obtain ⟨q', h'⟩ := ih q₁ hexact' horder'
    exact ⟨q', by rw [QueryText.traits, h₁, Option.bind_some, h']⟩

/-- What `sqlite3_prepare_v2` accepts. -/
theorem prepareLog_iff {sql : Text} : prepareLog sql = true ↔ ∃ s,
    parseSelect (tokens sql) = some s ∧ s.table = "logs".toList ∧
      ∀ name ∈ s.names, name ∈ logColumns := by
  unfold prepareLog
  cases parseSelect (tokens sql) with
  | none => simp
  | some s => simp

/-- The statement of a query that can be prepared. -/
theorem pdbQuery_iff_prepared {sql : Text} (hwell : ∀ t ∈ traits, t.WellTyped)
    (horder : ∀ t ∈ traits, t.field ≠ .order)
    (hsql : queryText "SELECT".toList traits fields unique true = some sql)
    (stmt : LogStatement) :
    pdbQuery prepareLog "SELECT".toList traits fields unique true = some stmt ↔
      prepareLog sql = true ∧ stmt = ⟨sql, valuesFrom 1 traits⟩ := by
  have hbind := bindTraits_eq hwell 1
  rw [filters_eq horder] at hbind
  rw [pdbQuery, hsql, Option.bind_some, hbind]
  split
  · rename_i hprepare
    exact ⟨fun h => ⟨hprepare, (Option.some.inj h).symm⟩, fun h => h.2 ▸ rfl⟩
  · rename_i hprepare
    exact iff_of_false (Option.some_ne_none stmt).symm fun h => hprepare h.1

/-- The conditions of a statement that names columns. -/
theorem prepared_conditions {sql : Text} (hwell : ∀ t ∈ traits, t.WellTyped)
    (horder : ∀ t ∈ traits, t.field ≠ .order) (hdisplays : Displays fields)
    (hsql : queryText "SELECT".toList traits fields unique true = some sql) {s : Select}
    (hs : parseSelect (tokens sql) = some s) (hnames : ∀ name ∈ s.names, name ∈ logColumns) :
    NamesColumns traits fields ∧ s.conditions = conditionsFrom 1 traits := by
  obtain ⟨hfails, hreads⟩ := query_parses hwell hdisplays hsql
  have hasked : askedFor fields ≠ [] := by
    intro hnil
    rw [hfails (Or.inl hnil)] at hs
    cases hs
  have hby : orderField .id traits ≠ .order := by
    rw [orderField_id _ horder]
    decide
  obtain ⟨s', hs', hcolumns, -, ⟨descending, hby'⟩, hconditions⟩ := hreads hasked hby
  obtain rfl := Option.some.inj (hs.symm.trans hs')
  have hcolumn := namesColumns_of_names hasked hcolumns hby' hconditions hnames
  rw [filters_eq horder, numbered_eq hcolumn.filters] at hconditions
  exact ⟨hcolumn, hconditions⟩

/-- The query selects the row of an entry when it can be prepared, and each trait has its value
there. -/
theorem querySelects_iff (hexact : ∀ t ∈ traits, t.type = .exact)
    (hwell : ∀ t ∈ traits, t.WellTyped) (horder : ∀ t ∈ traits, t.field ≠ .order)
    (hdisplays : Displays fields) :
    QuerySelects traits fields unique (entryRow calls (some e)) ↔ NamesColumns traits fields ∧
      ∀ t ∈ traits, compared calls.time e t.field = t.data.value := by
  obtain ⟨q, hq⟩ := traits_some _ hexact horder
  obtain ⟨sql, hsql⟩ : ∃ sql, queryText "SELECT".toList traits fields unique true = some sql :=
    ⟨_, congrArg (Option.map _) hq⟩
  have hquery := @pdbQuery_iff_prepared traits fields unique sql hwell horder hsql
  have hselects : ∀ s : Select, s.conditions = conditionsFrom 1 traits →
      (s.Selects (entryRow calls (some e)) (boundParam (valuesFrom 1 traits)) ↔
        ∀ t ∈ traits, compared calls.time e t.field = t.data.value) := by
    intro s hs
    rw [selects_iff, hs]
    exact holds_conditionsFrom hexact hwell horder fun b hb => boundParam_eq hb
  constructor
  · rintro ⟨stmt, s, hstmt, hs, hrow⟩
    obtain ⟨hprepare, rfl⟩ := (hquery stmt).mp hstmt
    obtain ⟨s', hs', -, hnames⟩ := prepareLog_iff.mp hprepare
    obtain rfl := Option.some.inj (hs.symm.trans hs')
    obtain ⟨hcolumn, hconditions⟩ := prepared_conditions hwell horder hdisplays hsql hs hnames
    exact ⟨hcolumn, (hselects s hconditions).mp hrow⟩
  · rintro ⟨hcolumn, hall⟩
    obtain ⟨s, hform⟩ := wellFormed_of_namesColumns hwell hdisplays hsql hcolumn
    have hprepare : prepareLog sql = true :=
      prepareLog_iff.mpr ⟨s, hform.parsed, hform.table, hform.names⟩
    have hconditions := hform.conditions
    rw [filters_eq horder] at hconditions
    exact ⟨_, s, (hquery _).mpr ⟨hprepare, rfl⟩, hform.parsed, (hselects s hconditions).mpr hall⟩

end Query

/-! ## 6. The loop -/

/-- One is a part of the other. -/
def overlap : QueryField → QueryField → Bool
  | .mode, .perm | .mode, .ftype | .perm, .mode | .ftype, .mode => true
  | _, _ => false

/-- What a trait leaves for its own condition to compare. -/
def written (time : BitVec 64) : QueryField → QueryData → Value
  | .fd, _ => .null
  | .ftype, .ivalue v => .int (v &&& 0o170000)
  | .perm, .ivalue v => .int (v &&& 0o7777)
  | .stamp, .ivalue v => intValue (if v ≠ 0 then v else time)
  | .inode, .ivalue v => .int (signedIno v)
  | _, .ivalue v => intValue v
  | _, .svalue s => .text (cstr s)

section Bits
variable {m v mask other : BitVec 64}

/-- Low bits are not changed by the way through an `int`. -/
theorem columnInt64_and (m : BitVec 64) (hmask : mask.toNat < 2 ^ 32) :
    columnInt64 (bindInt m) &&& mask = m &&& mask := by
  refine BitVec.eq_of_getLsbD_eq fun i hi => ?_
  rw [BitVec.getLsbD_and, BitVec.getLsbD_and, columnInt64, BitVec.getLsbD_signExtend, bindInt]
  rcases Nat.lt_or_ge i 32 with hlow | hhigh
  · simp [hlow, hi]
  · have hclear : mask.getLsbD i = false :=
      Nat.testBit_lt_two_pow (Nat.lt_of_lt_of_le hmask (Nat.pow_le_pow_right (by decide) hhigh))
    rw [hclear, Bool.and_false, Bool.and_false]

/-- Bits that are put beside others, for the first time or again. -/
theorem or_part (hsofar : m &&& mask = 0 ∨ m &&& mask = v &&& mask)
    (hother : other &&& mask = v &&& mask) : (m ||| other) &&& mask = v &&& mask := by
  rw [BitVec.and_or_distrib_right, hother]
  rcases hsofar with hsofar | hsofar
  · rw [hsofar]
    exact BitVec.zero_or
  · rw [hsofar, BitVec.or_self]

/-- Bits that are not in the mask. -/
theorem or_other (m : BitVec 64) (hother : other &&& mask = 0) :
    (m ||| other) &&& mask = m &&& mask := by
  rw [BitVec.and_or_distrib_right, hother]
  exact BitVec.or_zero

theorem permBits (v : BitVec 64) : v &&& ~~~ 0o170000 &&& 0o177777 = v &&& 0o7777 :=
  BitVec.and_assoc v _ _

theorem perm_and_ftype (v : BitVec 64) : v &&& 0o7777 &&& 0o170000 = 0 :=
  (BitVec.and_assoc v _ _).trans BitVec.and_zero

theorem ftype_and_perm (v : BitVec 64) : v &&& 0o170000 &&& 0o7777 = 0 :=
  (BitVec.and_assoc v _ _).trans BitVec.and_zero

end Bits

section Loop
variable {time : BitVec 64} {e e' : LogEntry} {t : PseudoQuery} {traits : List PseudoQuery}
  {f : QueryField} {w : Value}

theorem compared_ftype (time : BitVec 64) (e : LogEntry) :
    compared time e .ftype = .int (e.mode &&& 0o170000) :=
  congrArg Value.int (columnInt64_and e.mode (by decide))

theorem compared_perm (time : BitVec 64) (e : LogEntry) :
    compared time e .perm = .int (e.mode &&& 0o7777) :=
  congrArg Value.int (columnInt64_and e.mode (by decide))

theorem cstr_cstr (s : Bytes) : cstr (cstr s) = cstr s :=
  List.takeWhile_idem

/-- A trait writes what its own condition compares; parts of a mode are added to what is there. -/
theorem setTrait_own (h : e.setTrait t = some e')
    (hsofar : compared time e t.field = compared time .zero t.field ∨
      compared time e t.field = written time t.field t.data) :
    compared time e' t.field = written time t.field t.data := by
  obtain ⟨type, field, data⟩ := t
  cases field <;> cases data <;> cases h
  case ftype.ivalue v =>
    have hpart : v &&& 0o170000 &&& 0o170000 = v &&& 0o170000 := BitVec.and_assoc v _ _
    dsimp only at hsofar ⊢
    rw [compared_ftype, compared_ftype] at hsofar
    rw [compared_ftype]
    exact congrArg Value.int (or_part (hsofar.imp Value.int.inj Value.int.inj) hpart)
  case perm.ivalue v =>
    have hpart : v &&& ~~~ 0o170000 &&& 0o177777 &&& 0o7777 = v &&& 0o7777 := by
      rw [permBits]
      exact BitVec.and_assoc v _ _
    dsimp only at hsofar ⊢
    rw [compared_perm, compared_perm] at hsofar
    rw [compared_perm]
    exact congrArg Value.int (or_part (hsofar.imp Value.int.inj Value.int.inj) hpart)
  case path.svalue s | program.svalue s | tag.svalue s | text.svalue s =>
    exact congrArg Value.text (cstr_cstr s)
  all_goals rfl

/-- What the conditions of other fields compare stays. -/
theorem setTrait_other (h : e.setTrait t = some e') (hf : f ≠ t.field)
    (hoverlap : overlap f t.field = false) : compared time e' f = compared time e f := by
  obtain ⟨type, field, data⟩ := t
  dsimp only at hf hoverlap
  cases field <;> cases data <;> cases h
  case ftype.ivalue v =>
    cases f
    case ftype => exact absurd rfl hf
    case mode => cases hoverlap
    case perm =>
      rw [compared_perm, compared_perm]
      exact congrArg Value.int (or_other e.mode (ftype_and_perm v))
    all_goals rfl
  case perm.ivalue v =>
    cases f
    case perm => exact absurd rfl hf
    case mode => cases hoverlap
    case ftype =>
      have hpart : v &&& ~~~ 0o170000 &&& 0o177777 &&& 0o170000 = 0 := by
        rw [permBits]
        exact perm_and_ftype v
      rw [compared_ftype, compared_ftype]
      exact congrArg Value.int (or_other e.mode hpart)
    all_goals rfl
  case mode.ivalue v =>
    cases f
    case mode => exact absurd rfl hf
    case perm | ftype => cases hoverlap
    all_goals rfl
  all_goals
    cases f <;> first | rfl | exact absurd rfl hf

/-- The run of the loop: a condition compares what the traits of its field have written, if that is
the same for all of them. -/
theorem setTraits_compared (hrun : e.setTraits traits = some e')
    (hoverlap : ∀ t ∈ traits, overlap f t.field = false)
    (hw : ∀ t ∈ traits, t.field = f → written time f t.data = w)
    (hsofar : compared time e f = w ∨
      compared time e f = compared time .zero f ∧ ∃ t ∈ traits, t.field = f) :
    compared time e' f = w := by
  induction traits generalizing e with
  | nil =>
    obtain rfl := Option.some.inj hrun
    rcases hsofar with hsofar | ⟨-, t, ht, -⟩
    · exact hsofar
    · nomatch ht
  | cons t traits ih =>
    obtain ⟨e₁, h₁, hrest⟩ := Option.bind_eq_some_iff.mp hrun
    obtain ⟨hoverlap, hoverlap'⟩ := List.forall_mem_cons.mp hoverlap
    obtain ⟨hw, hw'⟩ := List.forall_mem_cons.mp hw
    refine ih hrest hoverlap' hw' ?_
    rcases Decidable.em (t.field = f) with rfl | hfield
    · have hown := hw rfl
      refine Or.inl ((setTrait_own h₁ ?_).trans hown)
      rcases hsofar with hsofar | ⟨hsofar, -⟩
      · exact Or.inr (hsofar.trans hown.symm)
      · exact Or.inl hsofar
    · rw [setTrait_other h₁ (fun h => hfield h.symm) hoverlap]
      refine hsofar.imp_right fun ⟨hzero, t', ht', hf⟩ => ⟨hzero, t', ?_, hf⟩
      rcases List.mem_cons.mp ht' with rfl | ht'
      · exact absurd hf hfield
      · exact ht'

/-- What is asked for decides what is written. -/
theorem written_congr {d d' : QueryData} (time : BitVec 64) (f : QueryField)
    (h : d.value = d'.value) : written time f d = written time f d' := by
  cases d with
  | ivalue v =>
    cases d' with
    | ivalue v' => rw [Value.int.inj h]
    | svalue s' => cases h
  | svalue s =>
    cases d' with
    | ivalue v' => cases h
    | svalue s' =>
      have hs : cstr s = cstr s' := Value.text.inj h
      cases f <;> first | rfl | exact congrArg Value.text hs

theorem overlap_of_oneMode (h : OneMode traits) {t t' : PseudoQuery} (ht : t ∈ traits)
    (ht' : t' ∈ traits) : overlap t.field t'.field = false := by
  refine Bool.eq_false_iff.mpr fun hoverlap => ?_
  have hmode : (t.field = .mode ∧ (t'.field = .perm ∨ t'.field = .ftype)) ∨
      (t'.field = .mode ∧ (t.field = .perm ∨ t.field = .ftype)) := by
    revert hoverlap
    cases t.field <;> cases t'.field <;> decide
  rcases h with h | h
  · rcases hmode with ⟨hmode, -⟩ | ⟨hmode, -⟩
    · exact h t ht hmode
    · exact h t' ht' hmode
  · rcases hmode with ⟨-, hpart⟩ | ⟨-, hpart⟩
    · exact hpart.elim (h t' ht').1 (h t' ht').2
    · exact hpart.elim (h t ht).1 (h t ht).2

/-- All conditions find what they look for when each trait writes it, and no two disagree. -/
theorem compared_iff (hrun : LogEntry.zero.setTraits traits = some e') (hmode : OneMode traits) :
    (∀ t ∈ traits, compared time e' t.field = t.data.value) ↔
      OneValue traits ∧ ∀ t ∈ traits, written time t.field t.data = t.data.value := by
  have hcompared : OneValue traits →
      ∀ t ∈ traits, compared time e' t.field = written time t.field t.data := by
    intro hagree t ht
    refine setTraits_compared hrun (fun t' ht' => overlap_of_oneMode hmode ht ht') ?_
      (Or.inr ⟨rfl, t, ht, rfl⟩)
    exact fun t' ht' hfield => written_congr time t.field (hagree t' ht' t ht hfield)
  constructor
  · intro hall
    have hagree : OneValue traits := fun t ht t' ht' hfield => by
      rw [← hall t ht, ← hall t' ht', hfield]
    exact ⟨hagree, fun t ht => (hcompared hagree t ht).symm.trans (hall t ht)⟩
  · rintro ⟨hagree, hall⟩ t ht
    exact (hcompared hagree t ht).trans (hall t ht)

end Loop

/-! ## 7. The values -/

section Values
variable {lib : TimeLibrary} {timeformat string : Bytes} {f : QueryField} {v : BitVec 64}
  {t : PseudoQuery}

theorem enumId_int {names : List String} (hnames : names.length + 1 < 2 ^ 31) (string : Bytes) :
    columnInt64 (bindInt (enumId names string)) = enumId names string := by
  unfold enumId
  cases hfind : ("none" :: names).findIdx? fun name => ascii name.toList = string with
  | none => decide
  | some id =>
    have hid : id < names.length + 1 := (List.findIdx?_eq_some_iff_findIdx_eq.mp hfind).1
    refine devFits_of_lt ?_
    rw [BitVec.toNat_ofNat]
    exact Nat.lt_of_le_of_lt (Nat.mod_le _ _) (by omega)

/-- The values for the members of type `int`. -/
theorem plogTraitData_int (hf : f.isInt = true)
    (h : plogTraitData lib timeformat f string = some (.ivalue v)) :
    columnInt64 (bindInt v) = v := by
  cases f
  case access =>
    unfold plogTraitData at h
    dsimp only at h
    split at h
    · cases h
    · obtain rfl := QueryData.ivalue.inj (Option.some.inj h)
      exact congrArg columnInt64 (bindInt_columnInt64 _)
  case op | result | severity | type =>
    obtain rfl := QueryData.ivalue.inj (Option.some.inj h)
    exact enumId_int (by decide) string
  all_goals cases hf

theorem plogTraitData_ftype (h : plogTraitData lib timeformat .ftype string = some (.ivalue v)) :
    v &&& 0o170000 = v := by
  unfold plogTraitData at h
  dsimp only at h
  split at h
  · cases h
  · obtain ⟨mode, hmode, hv⟩ := Option.map_eq_some_iff.mp h
    obtain rfl := QueryData.ivalue.inj hv
    obtain ⟨c, -, hc⟩ := Option.bind_eq_some_iff.mp hmode
    have hlisted : ∀ mode ∈ [0o060000, 0o020000, 0o040000, 0o100000, 0o100000, 0o120000, 0o010000,
        (0o140000 : BitVec 32)],
        mode.setWidth 64 &&& (0o170000 : BitVec 64) = mode.setWidth 64 := by
      simp
    exact hlisted mode (mem_of_switch hc)

/-- The traits whose values are written as they are looked for. -/
theorem written_iff (time : BitVec 64) (ht : t.Returned) (horder : t.field ≠ .order) :
    t.field ≠ .inode ∧ written time t.field t.data = t.data.value ↔ t.Kept time := by
  obtain ⟨lib, timeformat, optL, opt, string, hreturned⟩ := ht
  obtain ⟨-, rest, hdata⟩ := plogTrait_data hreturned
  obtain ⟨-, ⟨hnone, hid⟩, hfits⟩ := plogTrait_wellTyped hreturned
  obtain ⟨type, field, data⟩ := t
  dsimp only at hdata hnone hid hfits horder ⊢
  cases data with
  | svalue s =>
    cases field
    case path | program | tag | text => exact iff_of_true ⟨nofun, rfl⟩ trivial
    all_goals cases hfits
  | ivalue v =>
    have hint : ∀ v', Value.int v' = .int v ↔ v' = v := fun v' =>
      ⟨Value.int.inj, congrArg Value.int⟩
    cases field
    case none => exact absurd rfl hnone
    case id => exact absurd rfl hid
    case path | program | tag | text => cases hfits.1
    case inode => exact iff_of_false (fun h => h.1 rfl) id
    case fd => exact iff_of_false (fun h => nomatch h.2) id
    case access | op | result | severity | type =>
      exact iff_of_true ⟨nofun, congrArg Value.int (plogTraitData_int rfl hdata)⟩ trivial
    case ftype =>
      exact iff_of_true ⟨nofun, congrArg Value.int (plogTraitData_ftype hdata)⟩ trivial
    case order => exact absurd rfl horder
    case client | dev | gid | mode | perm | stamp | uid =>
      exact (and_iff_right nofun).trans (hint _)

end Values

end LogTraitsLemmas

open LogTraitsLemmas

/-! ## 8. When the new row is found -/

section Found
variable {traits : List PseudoQuery} {format : Bytes} {fields : Nat} {unique : Bool}
  {calls : LogCalls} {db db' : List Row}

/-- An entry that was created from exact traits is found again by them, exactly when the query
displays something other than the inode, and the `INSERT` stores each value as the query looks for
it. -/
theorem pdbLogTraits_found_iff (htraits : ∀ t ∈ traits, t.Returned)
    (hexact : ∀ t ∈ traits, t.type = .exact) (horder : ∀ t ∈ traits, t.field ≠ .order)
    (hmode : OneMode traits) (hfields : formatScan format = some fields)
    (hdone : pdbLogTraits calls db traits = (db', 0)) :
    (∃ row, db' = db ++ [row] ∧ QuerySelects traits fields unique row) ↔
      Findable calls.time traits fields := by
  have hwell : ∀ t ∈ traits, t.WellTyped := fun t ht => returned_wellTyped (htraits t ht)
  obtain ⟨e, hrun, hlog⟩ := pdbLogTraits_eq calls db hwell horder
  have hrow : db' = db ++ [entryRow calls (some e)] := by
    rw [hdone] at hlog
    split at hlog
    · exact (Prod.mk.inj hlog).1
    · exact absurd (Prod.mk.inj hlog).2 (by decide)
  have hfound : (∃ row, db' = db ++ [row] ∧ QuerySelects traits fields unique row) ↔
      QuerySelects traits fields unique (entryRow calls (some e)) := by
    constructor
    · rintro ⟨row, hdb, hselects⟩
      rw [hrow] at hdb
      rwa [List.singleton_inj.mp (List.append_cancel_left hdb)]
    · exact fun hselects => ⟨_, hrow, hselects⟩
  rw [hfound, querySelects_iff hexact hwell horder (formatScan_displays hfields),
    compared_iff hrun hmode]
  constructor
  · rintro ⟨hcolumns, hagree, hwritten⟩
    exact ⟨hcolumns.asks, hcolumns.displays, hagree, fun t ht =>
      (written_iff calls.time (htraits t ht) (horder t ht)).mp
        ⟨hcolumns.filters t ht, hwritten t ht⟩⟩
  · intro hfindable
    have hkept : ∀ t ∈ traits, t.field ≠ .inode ∧
        written calls.time t.field t.data = t.data.value := fun t ht =>
      (written_iff calls.time (htraits t ht) (horder t ht)).mpr (hfindable.kept t ht)
    refine ⟨⟨hfindable.asks, hfindable.displays, fun t ht => (hkept t ht).1, ?_⟩, hfindable.agree,
      fun t ht => (hkept t ht).2⟩
    rw [orderField_id _ horder]
    decide

end Found

/-- All calls succeed, in the year 2001. -/
def quietCalls : LogCalls := ⟨true, true, true, true, 1000000000, 1⟩

/-- `pseudolog -l -u 5 -p /a`, and `pseudolog -u 5 -p /a -F %p` -/
theorem pdbLogTraits_found_path : ∃ row,
    pdbLogTraits quietCalls [] [⟨.exact, .uid, .ivalue 5⟩,
      ⟨.exact, .path, .svalue (ascii "/a".toList)⟩] = ([row], 0) ∧
    QuerySelects [⟨.exact, .uid, .ivalue 5⟩, ⟨.exact, .path, .svalue (ascii "/a".toList)⟩] 4096
      false row := by
  have huid : plogTrait noTimes [] true 'u'.toNat (ascii "5".toList) =
      some ⟨.exact, .uid, .ivalue 5⟩ := by decide
  have hpath : plogTrait noTimes [] true 'p'.toNat (ascii "/a".toList) =
      some ⟨.exact, .path, .svalue (ascii "/a".toList)⟩ := by decide
  have htraits : ∀ t ∈ [⟨.exact, .uid, .ivalue 5⟩, ⟨.exact, .path, .svalue (ascii "/a".toList)⟩],
      PseudoQuery.Returned t := by
    intro t ht
    rcases List.mem_pair.mp ht with rfl | rfl
    · exact ⟨noTimes, [], true, _, _, huid⟩
    · exact ⟨noTimes, [], true, _, _, hpath⟩
  have hformat : formatScan (ascii "%p".toList) = some 4096 := by decide
  have hdone : ∃ db', pdbLogTraits quietCalls [] [⟨.exact, .uid, .ivalue 5⟩,
      ⟨.exact, .path, .svalue (ascii "/a".toList)⟩] = (db', 0) := ⟨_, rfl⟩
  obtain ⟨db', hdone⟩ := hdone
  have hfindable : Findable quietCalls.time [⟨.exact, .uid, .ivalue 5⟩,
      ⟨.exact, .path, .svalue (ascii "/a".toList)⟩] 4096 := by
    refine ⟨by decide, by decide, ?_, ?_⟩
    · intro t ht t' ht' hfield
      rcases List.mem_pair.mp ht with rfl | rfl <;> rcases List.mem_pair.mp ht' with rfl | rfl
      case inl.inl | inr.inr => rfl
      all_goals cases hfield
    · intro t ht
      rcases List.mem_pair.mp ht with rfl | rfl
      · exact (by decide : columnInt64 (bindInt 5) = 5)
      · trivial
  obtain ⟨row, rfl, hselects⟩ := (@pdbLogTraits_found_iff _ _ _ false _ _ _ htraits (by simp)
    (by simp) (Or.inl (by simp)) hformat hdone).mpr hfindable
  exact ⟨row, hdone, hselects⟩

/-- `pseudolog -l -f 3`, and `pseudolog -f 3 -F %p`: the file descriptor has not been stored. -/
theorem pdbLogTraits_fd : PseudoQuery.Returned ⟨.exact, .fd, .ivalue 3⟩ ∧
    ∃ row, pdbLogTraits quietCalls [] [⟨.exact, .fd, .ivalue 3⟩] = ([row], 0) ∧
      ¬ QuerySelects [⟨.exact, .fd, .ivalue 3⟩] 4096 false row := by
  have hfd : plogTrait noTimes [] true 'f'.toNat (ascii "3".toList) =
      some ⟨.exact, .fd, .ivalue 3⟩ := by decide
  have hreturned : PseudoQuery.Returned ⟨.exact, .fd, .ivalue 3⟩ := ⟨noTimes, [], true, _, _, hfd⟩
  have hformat : formatScan (ascii "%p".toList) = some 4096 := by decide
  refine ⟨hreturned, _, rfl, fun hselects => ?_⟩
  have hall := ((querySelects_iff (by simp) (List.forall_mem_singleton.mpr
    (returned_wellTyped hreturned)) (by simp) (formatScan_displays hformat)).mp hselects).2
  cases hall _ List.mem_cons_self

end Pseudo
