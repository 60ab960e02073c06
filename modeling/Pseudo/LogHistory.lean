import Pseudo.LogQuery

/-!
# The entries of the log

`log_entry`, and `pdb_history_entry`, which fills one from a row: it counts the columns of the row
along with the fields that the query asked for.

Results:
1. `historyLoop_fills`: each field from its own column, and nothing else.
2. `pdbHistoryEntry_fills`: for what a format asks for, from the column of the field's name.
-/

namespace Pseudo

open Sql LogQueryLemmas

/-! ## 1. The code -/

/-- `log_entry`. The enumerations and `access` are of type `int`. -/
structure LogEntry where
  stamp : BitVec 64
  type : BitVec 32
  op : BitVec 32
  access : BitVec 32
  client : BitVec 64
  fd : BitVec 64
  dev : BitVec 64
  ino : BitVec 64
  mode : BitVec 64
  gid : BitVec 64
  uid : BitVec 64
  path : Option Bytes
  result : BitVec 32
  severity : BitVec 32
  text : Option Bytes
  tag : Option Bytes
  program : Option Bytes
  deriving DecidableEq, Repr

/-- All bytes are zero, and the strings null pointers. -/
def LogEntry.zero : LogEntry :=
  { stamp := 0, type := 0, op := 0, access := 0, client := 0, fd := 0, dev := 0, ino := 0,
    mode := 0, gid := 0, uid := 0, path := none, result := 0, severity := 0, text := none,
    tag := none, program := none }

/-- What `sqlite3_column_int64` and `sqlite3_column_text` return for a column. -/
structure ColumnValue where
  int64 : BitVec 64
  text : Option Bytes
  deriving DecidableEq, Repr

/-- The `switch` of `pdb_history_entry`; the strings are copied with `strdup`. -/
def LogEntry.fill (l : LogEntry) (v : ColumnValue) : QueryField → Option LogEntry
  | .access => some { l with access := v.int64.setWidth 32 }
  | .client => some { l with client := v.int64 }
  | .dev => some { l with dev := v.int64 }
  | .fd => some { l with fd := v.int64 }
  | .gid => some { l with gid := v.int64 }
  | .inode => some { l with ino := v.int64 }
  | .mode => some { l with mode := v.int64 }
  | .op => some { l with op := v.int64.setWidth 32 }
  | .path => some { l with path := (v.text.map cstr).or l.path }
  | .program => some { l with program := (v.text.map cstr).or l.program }
  | .result => some { l with result := v.int64.setWidth 32 }
  | .severity => some { l with severity := v.int64.setWidth 32 }
  | .stamp => some { l with stamp := v.int64 }
  | .tag => some { l with tag := (v.text.map cstr).or l.tag }
  | .text => some { l with text := (v.text.map cstr).or l.text }
  | .type => some { l with type := v.int64.setWidth 32 }
  | .uid => some { l with uid := v.int64 }
  -- "field %s should not be in the fields list."
  | .order | .ftype | .perm => none
  -- "unknown field"
  | .none | .id => none

/-- The loop over the fields. Behind the last column SQLite returns 0 and the null pointer. -/
def historyLoop (fields : Nat) (row : List ColumnValue) (column : Nat) (l : LogEntry) :
    List QueryField → Option LogEntry
  | [] => some l
  | f :: fs =>
    if fields.testBit f.toNat then
      (l.fill (row[column]?.getD ⟨0, none⟩) f).bind fun l =>
        historyLoop fields row (column + 1) l fs
    else historyLoop fields row column l fs

/-- `pdb_history_entry`, when `sqlite3_step` returns a row. -/
def pdbHistoryEntry (fields : Nat) (row : List ColumnValue) : Option LogEntry :=
  historyLoop fields row 0 .zero queryFields.tail

/-! ## 2. What it should do -/

/-- What a member holds. -/
inductive LogValue
  | int (v : BitVec 64)
  | string (s : Option Bytes)
  deriving DecidableEq, Repr

/-- The member that a field is about. -/
def LogEntry.member (l : LogEntry) : QueryField → LogValue
  | .access => .int (l.access.setWidth 64)
  | .client => .int l.client
  | .dev => .int l.dev
  | .fd => .int l.fd
  | .gid => .int l.gid
  | .inode => .int l.ino
  | .mode => .int l.mode
  | .op => .int (l.op.setWidth 64)
  | .path => .string l.path
  | .program => .string l.program
  | .result => .int (l.result.setWidth 64)
  | .severity => .int (l.severity.setWidth 64)
  | .stamp => .int l.stamp
  | .tag => .string l.tag
  | .text => .string l.text
  | .type => .int (l.type.setWidth 64)
  | .uid => .int l.uid
  | .order | .ftype | .perm | .none | .id => .int 0

/-- The members of type `int`. -/
def QueryField.isInt : QueryField → Bool
  | .access | .op | .result | .severity | .type => true
  | _ => false

/-- What the member of a field should hold when its column has the value. -/
def ColumnValue.stored (v : ColumnValue) (f : QueryField) : LogValue :=
  if f.isText then .string (v.text.map cstr)
  else if f.isInt then .int ((v.int64.setWidth 32).setWidth 64)
  else .int v.int64

/-! ## 3. The loop -/

variable {fields : Nat} {row : List ColumnValue} {l : LogEntry} {f : QueryField}

theorem or_of_member {m : Option Bytes} (h : LogValue.string m = .string none)
    (s : Option Bytes) : s.or m = s := by
  rw [LogValue.string.inj h, Option.or_none]

/-- A field that is displayed changes its own member, from what `calloc` has left there. -/
theorem fill_member (v : ColumnValue) (hf : f ∈ displayed)
    (hzero : l.member f = LogEntry.zero.member f) :
    ∃ l', l.fill v f = some l' ∧ l'.member f = v.stored f ∧
      ∀ g, g ≠ f → l'.member g = l.member g := by
  cases f
  case order | ftype | perm | none | id => exact absurd hf (by decide)
  case path | program | tag | text =>
    refine ⟨_, rfl, congrArg LogValue.string (or_of_member hzero _), fun g hg => ?_⟩
    cases g <;> first | rfl | exact absurd rfl hg
  all_goals
    refine ⟨_, rfl, rfl, fun g hg => ?_⟩
    cases g <;> first | rfl | exact absurd rfl hg

/-- The fields that are still to come find their members as they were, and the row from the column
on has one value for each of them that is asked for. -/
theorem historyLoop_fills (l : LogEntry) {fs : List QueryField} {column : Nat}
    (hnodup : fs.Nodup)
    (hasked : ∀ f ∈ fs, isAsked fields f = true → f ∈ displayed)
    (hzero : ∀ f ∈ fs, l.member f = LogEntry.zero.member f) (value : QueryField → ColumnValue)
    (hrow : row.drop column = (fs.filter (isAsked fields)).map value) :
    ∃ l', historyLoop fields row column l fs = some l' ∧
      (∀ f ∈ fs, isAsked fields f = true → l'.member f = (value f).stored f) ∧
      ∀ g, g ∉ fs → l'.member g = l.member g := by
  induction fs generalizing l column with
  | nil => exact ⟨l, rfl, fun f hf => absurd hf List.not_mem_nil, fun g _ => rfl⟩
  | cons f fs ih =>
    obtain ⟨hf, hnodup⟩ := List.nodup_cons.mp hnodup
    have hasked' : ∀ g ∈ fs, isAsked fields g = true → g ∈ displayed := fun g hg =>
      hasked g (List.mem_cons_of_mem f hg)
    have hne : ∀ g ∈ fs, g ≠ f := fun g hg hgf => hf (hgf ▸ hg)
    rw [historyLoop]
    rcases Decidable.em (isAsked fields f = true) with hset | hset
    · rw [List.filter_cons_of_pos hset, List.map_cons] at hrow
      have hcolumn : row[column]? = some (value f) := by
        have hhead := congrArg List.head? hrow
        rwa [List.head?_drop, List.head?_cons] at hhead
      have hrest : row.drop (column + 1) = (fs.filter (isAsked fields)).map value := by
        rw [← List.tail_drop, hrow, List.tail_cons]
      obtain ⟨l₁, hfill, hmember, hframe⟩ := fill_member (value f)
        (hasked f List.mem_cons_self hset) (hzero f List.mem_cons_self)
      obtain ⟨l', hloop, hall, hother⟩ := ih l₁ hnodup hasked' (fun g hg => by
        rw [hframe g (hne g hg)]
        exact hzero g (List.mem_cons_of_mem f hg)) hrest
      refine ⟨l', ?_, fun g hg hgset => ?_, fun g hg => ?_⟩
      · rw [if_pos (show fields.testBit f.toNat = true from hset), hcolumn, Option.getD_some, hfill,
          Option.bind_some]
        exact hloop
      · rcases List.mem_cons.mp hg with rfl | hg
        · rw [hother g hf, hmember]
        · exact hall g hg hgset
      · obtain ⟨hgf, hg⟩ := not_or.mp fun hmem => hg (List.mem_cons.mpr hmem)
        rw [hother g hg, hframe g hgf]
    · rw [List.filter_cons_of_neg hset] at hrow
      obtain ⟨l', hloop, hall, hother⟩ := ih l hnodup hasked'
        (fun g hg => hzero g (List.mem_cons_of_mem f hg)) hrow
      refine ⟨l', (if_neg hset).trans hloop, fun g hg hgset => ?_, fun g hg => ?_⟩
      · rcases List.mem_cons.mp hg with rfl | hg
        · exact absurd hgset hset
        · exact hall g hg hgset
      · exact hother g fun hmem => hg (List.mem_cons_of_mem f hmem)

/-- From the columns of the names that were asked for, each member is filled from the column of its
name. -/
theorem pdbHistoryEntry_fills (hfields : Displays fields) (value : Text → ColumnValue) :
    ∃ l, pdbHistoryEntry fields ((askedFor fields).map fun f => value f.name) = some l ∧
      ∀ f, fields.testBit f.toNat = true → l.member f = (value f.name).stored f := by
  have hnodup : queryFields.tail.Nodup := by decide
  obtain ⟨l, hentry, hall, -⟩ := historyLoop_fills .zero hnodup
    (fun f _ hset => hfields.mem hset) (fun _ _ => rfl) (fun f => value f.name) List.drop_zero
  refine ⟨l, hentry, fun f hset => hall f ?_ hset⟩
  have hdisplayed : f ∈ displayed := hfields.mem hset
  revert hdisplayed
  cases f <;> decide

end Pseudo
