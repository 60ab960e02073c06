import Pseudo.Rename

/-!
# Statements on a whole subtree

Two statements of the file database select everything below a path by a range of texts: the
deletion of a directory's contents and the second half of a rename.

Results:
1. `unlinkContents_eq`: the deletion takes the descendants, and the attributes that lose their
   last row, and leaves everything else.
2. `renameFile_atomic_iff`: for which outcomes of its two updates a rename is all or nothing.
-/

namespace Pseudo

open Table RenameLemmas

/-- `q` names something below the directory `p`. -/
def LiesBelow (p q : Bytes) : Prop := ∃ rest, rest ≠ [] ∧ q = p ++ slash :: rest

instance (p q : Bytes) : Decidable (LiesBelow p q) :=
  decidable_of_iff (p ++ [slash] < q ∧ q < p ++ [zeroDigit]) (Text.between_iff adjacent_slash p q)

/-- The table has a row for the inode of the attribute. -/
def HasFile (files : List FileRow) (x : XattrRow) : Prop :=
  ∃ r ∈ files, x.dev = columnInt64 r.dev ∧ x.ino = r.ino

instance (files : List FileRow) (x : XattrRow) : Decidable (HasFile files x) :=
  inferInstanceAs (Decidable (∃ r ∈ files, _))

/-! ## Deleting the contents of a directory -/

theorem below_eq_liesBelow (p : Bytes) (r : FileRow) :
    below p r = decide (LiesBelow p r.path) := by
  rw [Bool.eq_iff_iff, below_iff, decide_eq_true_iff]
  rfl

/-- Siblings whose names begin with the directory's name, and the directory with a slash. -/
theorem not_liesBelow_sibling {p rest : Bytes} {c : UInt8} (h : c ≠ slash ∨ rest = []) :
    ¬ LiesBelow p (p ++ c :: rest) := by
  rintro ⟨rest', hne, he⟩
  obtain ⟨rfl, rfl⟩ := List.cons.inj (List.append_cancel_left he)
  rcases h with h | h
  · exact h rfl
  · exact hne h

theorem clearUnusedXattrs_eq (db : Db) :
    pdbClearUnusedXattrs db =
      { db with xattrs := db.xattrs.filter fun x => decide (HasFile db.files x) } := by
  unfold pdbClearUnusedXattrs delete
  congr 1
  refine List.filter_congr fun x _ => ?_
  rw [Bool.eq_iff_iff, Bool.not_eq_true', beq_eq_false_iff_ne, ne_eq, count_eq_zero,
    decide_eq_true_iff]
  push Not
  simp [HasFile, XattrRow.hasKey, FileRow.key]

/-- `pdb_unlink_contents` deletes exactly the rows below the message's path, and exactly the
attributes of inodes that have no row left. Names that only begin like the path stay. -/
theorem unlinkContents_exact (db : Db) (msg : MsgHeader) (p : Bytes) (hlen : msg.pathlen ≠ 0) :
    pdbUnlinkContents db msg p =
      { db with
        files := db.files.filter fun r => decide (¬ LiesBelow p r.path)
        xattrs := db.xattrs.filter fun x =>
          decide (HasFile (db.files.filter fun r => decide (¬ LiesBelow p r.path)) x) } ∧
      ∀ c rest, c ≠ slash ∨ rest = [] → ¬ LiesBelow p (p ++ c :: rest) := by
  have hfiles : delete (below p) db.files =
      db.files.filter fun r => decide (¬ LiesBelow p r.path) := by
    refine List.filter_congr fun r _ => ?_
    rw [below_eq_liesBelow, decide_not]
  refine ⟨?_, fun _ _ => not_liesBelow_sibling⟩
  rw [pdbUnlinkContents, if_neg hlen, clearUnusedXattrs_eq, hfiles]

/-- `/a/x` goes, `/a` and `/ab` stay. -/
theorem unlinkContents_exTree :
    (pdbUnlinkContents exTree exHeader (ascii ['/', 'a'])).files =
      [exRow (ascii ['/', 'a']) 2, exRow (ascii ['/', 'a', 'b']) 4] := by
  rw [(unlinkContents_exact exTree exHeader (ascii ['/', 'a']) (by decide)).1]
  decide

/-! ## Renaming a directory -/

/-- The first update finds nothing to change in the row. -/
def ExactSpares (old new : Bytes) (r : FileRow) : Prop :=
  r.path = old → new = old ∧ r.deleting = 0

/-- The second update finds nothing to change in the row. -/
def SubSpares (old new : Bytes) (r : FileRow) : Prop :=
  LiesBelow old r.path → (old = [] ∨ old = new) ∧ r.deleting = 0

/-- The first update moves the row to where the second finds it again. -/
def MovedTwice (old new : Bytes) (r : FileRow) : Prop :=
  r.path = old ∧ old ≠ [] ∧ LiesBelow old new

instance (old new : Bytes) (r : FileRow) : Decidable (ExactSpares old new r) :=
  inferInstanceAs (Decidable (_ → _))

instance (old new : Bytes) (r : FileRow) : Decidable (SubSpares old new r) :=
  inferInstanceAs (Decidable (_ → _))

instance (old new : Bytes) (r : FileRow) : Decidable (MovedTwice old new r) :=
  inferInstanceAs (Decidable (_ ∧ _ ∧ _))

/-- The table is the fully renamed one, or the old one with a status that the caller takes for a
failure. `exactOk` and `subOk` are the outcomes of the two updates, `fails` how the caller reads
the status: `main` takes `rc < 0` for a failure. -/
def AllOrNothing (fails : Int → Prop) (exactOk subOk : Bool) (db : Db) (old new : Bytes)
    (msg : MsgHeader) : Prop :=
  let after := pdbRenameFile exactOk subOk db (some old) msg new
  after.1.files = db.files.map (renameRow old new) ∨
    after.1.files = db.files ∧ fails after.2

namespace SubtreesLemmas

/-- One row through the first update. -/
def firstRow (old new : Bytes) (r : FileRow) : FileRow :=
  if atPath old r then { r with path := new, deleting := 0 } else r

/-- One row through the second update. -/
def secondRow (old new : Bytes) (r : FileRow) : FileRow :=
  if below old r then { r with path := Text.replace old new r.path, deleting := 0 } else r

/-- One row through the updates that succeed. -/
def partRow (exactOk subOk : Bool) (old new : Bytes) (r : FileRow) : FileRow :=
  let r := if exactOk then firstRow old new r else r
  if subOk then secondRow old new r else r

theorem not_liesBelow_self (p : Bytes) : ¬ LiesBelow p p := by
  rintro ⟨rest, _, he⟩
  exact ne_append_slash he

section Rows
variable {old new : Bytes} {r : FileRow}

theorem renameRow_eq : renameRow old new r = secondRow old new (firstRow old new r) := rfl

theorem firstRow_at (h : r.path = old) :
    firstRow old new r = { r with path := new, deleting := 0 } :=
  if_pos (atPath_iff.mpr h)

theorem firstRow_not (h : r.path ≠ old) : firstRow old new r = r := by
  simp [firstRow, h]

theorem secondRow_not (h : ¬ LiesBelow old r.path) : secondRow old new r = r := by
  simp [secondRow, below_eq_liesBelow, h]

theorem secondRow_below (h : LiesBelow old r.path) :
    secondRow old new r = { r with path := Text.replace old new r.path, deleting := 0 } := by
  simp [secondRow, below_eq_liesBelow, h]

theorem replace_descendant (h : LiesBelow old r.path) :
    Text.replace old new r.path = r.path ↔ old = [] ∨ old = new := by
  obtain ⟨rest, _, he⟩ := h
  constructor
  · intro hrep
    by_contra hno
    obtain ⟨hold, hne⟩ := not_or.mp hno
    exact (Text.replace_eq_self_iff hold hne r.path).mp hrep ⟨[], slash :: rest, by simp [he]⟩
  · rintro (rfl | rfl)
    · rfl
    · exact Text.replace_same old r.path

theorem firstRow_eq_self_iff : firstRow old new r = r ↔ ExactSpares old new r := by
  by_cases h : r.path = old
  · rw [firstRow_at h, ExactSpares]
    refine ⟨fun he _ => ⟨(congrArg FileRow.path he).trans h, (congrArg FileRow.deleting he).symm⟩,
      fun hs => ?_⟩
    obtain ⟨hnew, hdel⟩ := hs h
    rw [hnew, ← h, ← hdel]
  · rw [firstRow_not h]
    exact ⟨fun _ he => absurd he h, fun _ => rfl⟩

theorem secondRow_eq_self_iff : secondRow old new r = r ↔ SubSpares old new r := by
  by_cases h : LiesBelow old r.path
  · rw [secondRow_below h, SubSpares]
    constructor
    · intro he _
      exact ⟨(replace_descendant h).mp (congrArg FileRow.path he),
        (congrArg FileRow.deleting he).symm⟩
    · intro hs
      obtain ⟨hnew, hdel⟩ := hs h
      rw [(replace_descendant h).mpr hnew, ← hdel]
  · rw [secondRow_not h]
    exact ⟨fun _ he => absurd he h, fun _ => rfl⟩

/-- A row that starts at `old` never comes back to it through the second update. -/
theorem replace_ne_old (h : LiesBelow old new) : Text.replace old new new ≠ old := by
  obtain ⟨rest, _, he⟩ := h
  intro hrep
  by_cases hold : old = []
  · subst hold
    simp [Text.replace, he] at hrep
  · have hlen := congrArg List.length hrep
    rw [he, Text.replace_append hold] at hlen
    simp at hlen

theorem secondRow_firstRow_at (h : r.path = old) :
    secondRow old new (firstRow old new r) = r ↔ ExactSpares old new r := by
  rw [firstRow_at h]
  by_cases hb : LiesBelow old new
  · have hne : new ≠ old := by
      rintro rfl
      exact not_liesBelow_self new hb
    rw [secondRow_below hb]
    refine ⟨fun he => ?_, fun hs => absurd (hs h).1 hne⟩
    exact absurd ((congrArg FileRow.path he).trans h) (replace_ne_old hb)
  · rw [secondRow_not hb, ← firstRow_at h]
    exact firstRow_eq_self_iff

/-- What is missing without the first update. -/
theorem secondRow_eq_renameRow_iff :
    secondRow old new r = renameRow old new r ↔ ExactSpares old new r := by
  rw [renameRow_eq]
  by_cases h : r.path = old
  · have hnot : ¬ LiesBelow old r.path := by
      rw [h]
      exact not_liesBelow_self old
    rw [secondRow_not hnot, eq_comm]
    exact secondRow_firstRow_at h
  · rw [firstRow_not h]
    exact ⟨fun _ he => absurd he h, fun _ => rfl⟩

/-- What is missing without the second update. -/
theorem firstRow_eq_renameRow_iff :
    firstRow old new r = renameRow old new r ↔
      SubSpares old new r ∧ ¬ MovedTwice old new r := by
  rw [renameRow_eq, eq_comm]
  by_cases h : r.path = old
  · have hspares : SubSpares old new r := by
      intro hb
      rw [h] at hb
      exact absurd hb (not_liesBelow_self old)
    rw [firstRow_at h, secondRow_eq_self_iff]
    refine ⟨fun hs => ⟨hspares, fun ⟨_, hold, hb⟩ => ?_⟩, fun ⟨_, hm⟩ hb => ⟨?_, rfl⟩⟩
    · rcases (hs hb).1 with he | rfl
      · exact hold he
      · exact not_liesBelow_self old hb
    · exact Or.inl (by_contra fun hold => hm ⟨h, hold, hb⟩)
  · rw [firstRow_not h, secondRow_eq_self_iff]
    exact ⟨fun hs => ⟨hs, fun hm => h hm.1⟩, fun hs => hs.1⟩

/-- What is missing without either. -/
theorem self_eq_renameRow_iff :
    r = renameRow old new r ↔
      ExactSpares old new r ∧ SubSpares old new r ∧ ¬ MovedTwice old new r := by
  rw [renameRow_eq]
  by_cases h : r.path = old
  · rw [eq_comm, secondRow_firstRow_at h]
    refine ⟨fun hs => ⟨hs, ?_, ?_⟩, fun hs => hs.1⟩
    · intro hb
      rw [h] at hb
      exact absurd hb (not_liesBelow_self old)
    · rintro ⟨_, _, hb⟩
      rw [(hs h).1] at hb
      exact not_liesBelow_self old hb
  · rw [firstRow_not h, eq_comm, secondRow_eq_self_iff]
    exact ⟨fun hs => ⟨fun he => absurd he h, hs, fun hm => h hm.1⟩, fun hs => hs.2.1⟩

/-- Which rows the updates that succeed leave as both would. -/
theorem partRow_eq_renameRow_iff (exactOk subOk : Bool) :
    partRow exactOk subOk old new r = renameRow old new r ↔
      (exactOk = false → ExactSpares old new r) ∧
        (subOk = false → SubSpares old new r ∧ ¬ MovedTwice old new r) := by
  cases exactOk <;> cases subOk
  · simpa [partRow] using self_eq_renameRow_iff
  · simpa [partRow] using secondRow_eq_renameRow_iff
  · simpa [partRow] using firstRow_eq_renameRow_iff
  · simp [partRow, renameRow_eq]

/-- Which rows the updates that succeed leave alone. -/
theorem partRow_eq_self_iff (exactOk subOk : Bool) :
    partRow exactOk subOk old new r = r ↔
      (exactOk = true → ExactSpares old new r) ∧ (subOk = true → SubSpares old new r) := by
  cases exactOk <;> cases subOk
  · simp [partRow]
  · simpa [partRow] using secondRow_eq_self_iff
  · simpa [partRow] using firstRow_eq_self_iff
  · have hself : partRow true true old new r = renameRow old new r := rfl
    rw [hself, eq_comm, self_eq_renameRow_iff]
    simp only [forall_const]
    refine ⟨fun hs => ⟨hs.1, hs.2.1⟩, fun ⟨he, hs⟩ => ⟨he, hs, ?_⟩⟩
    rintro ⟨hat, _, hb⟩
    rw [(he hat).1] at hb
    exact not_liesBelow_self old hb

end Rows

/-- The table after the updates that succeed, and the status, which is the same on every path. -/
theorem renameFile_part (exactOk subOk : Bool) (db : Db) (old new : Bytes) (msg : MsgHeader)
    (hlen : msg.pathlen ≠ 0) :
    pdbRenameFile exactOk subOk db (some old) msg new =
      ({ db with files := db.files.map (partRow exactOk subOk old new) }, 1) := by
  obtain ⟨n, hn⟩ := Nat.exists_eq_succ_of_ne_zero hlen
  have hid : partRow false false old new = id := rfl
  have hexact : renameExact old new db.files = db.files.map (firstRow old new) := rfl
  have hsub : ∀ t, renameSub old new t = t.map (secondRow old new) := fun _ => rfl
  simp only [pdbRenameFile, hn, hexact, hsub]
  cases exactOk <;> cases subOk
  · simp [hid]
  · rfl
  · rfl
  · simp only [if_true, List.map_map]
    rfl

end SubtreesLemmas

open SubtreesLemmas

/-- A rename is all or nothing exactly when the updates that failed had nothing left to change,
or those that succeeded changed nothing and the caller takes the status 1, which it gets in
every case, for a failure. -/
theorem renameFile_atomic_iff (fails : Int → Prop) (exactOk subOk : Bool) (db : Db)
    (old new : Bytes) (msg : MsgHeader) (hlen : msg.pathlen ≠ 0) :
    AllOrNothing fails exactOk subOk db old new msg ↔
      (∀ r ∈ db.files, (exactOk = false → ExactSpares old new r) ∧
        (subOk = false → SubSpares old new r ∧ ¬ MovedTwice old new r)) ∨
      (∀ r ∈ db.files, (exactOk = true → ExactSpares old new r) ∧
        (subOk = true → SubSpares old new r)) ∧ fails 1 := by
  have hself : db.files.map (partRow exactOk subOk old new) = db.files ↔
      ∀ r ∈ db.files, partRow exactOk subOk old new r = r := by
    conv_lhs => rhs; rw [← List.map_id db.files]
    exact List.map_inj_left
  rw [AllOrNothing, renameFile_part exactOk subOk db old new msg hlen]
  dsimp only
  rw [List.map_inj_left, hself]
  simp only [partRow_eq_renameRow_iff, partRow_eq_self_iff]

/-- Without a directory's own row, failing on it does no harm. -/
theorem renameFile_atomic_exRepeated :
    AllOrNothing (· < 0) false true exRepeated (ascii ['/', 'a']) (ascii ['/', 'b']) exHeader :=
  (renameFile_atomic_iff (· < 0) false true exRepeated _ _ exHeader (by decide)).mpr
    (Or.inl (by decide))

/-- When the second update fails, `/a` becomes `/b` and `/a/x` stays behind, whatever the caller
makes of the status; and when both fail, `main` does not notice. -/
theorem rename_left_halfway :
    ¬ AllOrNothing (fun _ => True) true false exTree (ascii ['/', 'a']) (ascii ['/', 'b'])
        exHeader ∧
      ¬ AllOrNothing (· < 0) false false exTree (ascii ['/', 'a']) (ascii ['/', 'b'])
        exHeader := by
  unfold AllOrNothing
  decide

end Pseudo
