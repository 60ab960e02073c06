import Mathlib.Data.List.Forall2
import Pseudo.Database

/-!
# Renaming files and directories

`pdb_rename_file` moves the row of `old` and of everything below it. The rows below are
selected by a range of paths and rewritten with SQL's `replace`, which rewrites every
occurrence of `old` in a path, not only the leading one.

Results:
1. `renameFile_files`: the two updates act row by row.
2. `pdbRenameFile_moves_iff`: with `new` neither `old` nor below it, the table is moved as
   intended exactly when no path below `old` holds the text of `old` a second time.
3. `pdbRenameFile_repeated_name`: a directory in which its own path occurs again is not.
-/

namespace Pseudo

open Table

/-- An absolute path without a trailing slash. -/
def AbsPath (p : Bytes) : Prop := p.head? = some slash ∧ p.getLast? ≠ some slash

instance (p : Bytes) : Decidable (AbsPath p) := inferInstanceAs (Decidable (_ ∧ _))

/-- What a rename of `old` to `new` is to do to one row. -/
structure Moved (old new : Bytes) (before after : FileRow) : Prop where
  exact : before.path = old → after = { before with path := new, deleting := 0 }
  sub : ∀ rest, rest ≠ [] → before.path = old ++ slash :: rest →
    after = { before with path := new ++ slash :: rest, deleting := 0 }
  other : before.path ≠ old → (∀ rest, rest ≠ [] → before.path ≠ old ++ slash :: rest) →
    after = before

/-- One row through both updates. -/
def renameRow (old new : Bytes) (r : FileRow) : FileRow :=
  let r := if atPath old r then { r with path := new, deleting := 0 } else r
  if below old r then { r with path := Text.replace old new r.path, deleting := 0 } else r

/-- The row is below `old` and the text of `old` occurs in the rest of its path. -/
def OccursAgain (old : Bytes) (r : FileRow) : Prop :=
  below old r = true ∧ old <:+: r.path.drop old.length

instance (old : Bytes) (r : FileRow) : Decidable (OccursAgain old r) :=
  inferInstanceAs (Decidable (_ ∧ _))

namespace RenameLemmas

theorem absPath_ne_nil {p : Bytes} (h : AbsPath p) : p ≠ [] := by
  rintro rfl
  exact absurd h.1 (by simp)

theorem ne_append_slash {p rest : Bytes} : p ≠ p ++ slash :: rest := by
  intro h
  have := congrArg List.length h
  simp at this

/-- The two updates act row by row. -/
theorem renameFile_files (db : Db) (old new : Bytes) (msg : MsgHeader) (hlen : msg.pathlen ≠ 0) :
    (pdbRenameFile true true db (some old) msg new).1 =
      { db with files := db.files.map (renameRow old new) } := by
  obtain ⟨n, hn⟩ := Nat.exists_eq_succ_of_ne_zero hlen
  simp only [pdbRenameFile, hn, if_true, renameExact, renameSub, update, List.map_map]
  rfl

section Row
variable {old new : Bytes} {r : FileRow}

theorem renameRow_exact (hnew : ∀ rest, rest ≠ [] → new ≠ old ++ slash :: rest)
    (h : r.path = old) : renameRow old new r = { r with path := new, deleting := 0 } := by
  have hb : below old { r with path := new, deleting := 0 } = false := by
    rw [Bool.eq_false_iff, ne_eq, below_iff]
    rintro ⟨rest, hne, he⟩
    exact hnew rest hne he
  simp only [renameRow, atPath_iff.mpr h, if_true, hb, Bool.false_eq_true, if_false]

/-- Below `old` the leading occurrence is rewritten, and then whatever else `replace` finds. -/
theorem renameRow_sub (hold : old ≠ []) {rest : Bytes} (hne : rest ≠ [])
    (h : r.path = old ++ slash :: rest) : renameRow old new r =
      { r with path := new ++ Text.replace old new (slash :: rest), deleting := 0 } := by
  have ha : atPath old r = false := by
    rw [Bool.eq_false_iff, ne_eq, atPath_iff, h]
    exact fun he => ne_append_slash he.symm
  have hb : below old r = true := below_iff.mpr ⟨rest, hne, h⟩
  simp [renameRow, ha, hb, h, Text.replace_append hold]

theorem renameRow_other (h : r.path ≠ old) (hb : below old r = false) :
    renameRow old new r = r := by
  simp [renameRow, h, hb]

theorem occursAgain_iff {rest : Bytes} (hne : rest ≠ []) (h : r.path = old ++ slash :: rest) :
    OccursAgain old r ↔ old <:+: slash :: rest := by
  have hb : below old r = true := below_iff.mpr ⟨rest, hne, h⟩
  simp [OccursAgain, hb, h]

/-- A row is moved as intended exactly when `old` does not occur in the rest of its path. -/
theorem moved_renameRow_iff (hold : old ≠ []) (hne : old ≠ new)
    (hnew : ∀ rest, rest ≠ [] → new ≠ old ++ slash :: rest) (r : FileRow) :
    Moved old new r (renameRow old new r) ↔ ¬ OccursAgain old r := by
  by_cases hex : r.path = old
  · have hno : ¬ OccursAgain old r := by
      rintro ⟨hb, _⟩
      obtain ⟨rest, _, he⟩ := below_iff.mp hb
      exact ne_append_slash (hex.symm.trans he)
    refine ⟨fun _ => hno, fun _ => ⟨fun _ => renameRow_exact hnew hex, ?_, fun h => absurd hex h⟩⟩
    intro rest _ he
    exact absurd (hex.symm.trans he) ne_append_slash
  · cases hb : below old r with
    | false =>
      have hnb : ∀ rest, rest ≠ [] → r.path ≠ old ++ slash :: rest := by
        intro rest hrest he
        rw [below_iff.mpr ⟨rest, hrest, he⟩] at hb
        exact absurd hb (by simp)
      refine ⟨fun _ ho => by simp [ho.1] at hb, fun _ => ⟨fun h => absurd h hex, ?_, ?_⟩⟩
      · intro rest hrest he
        exact absurd he (hnb rest hrest)
      · intro _ _
        exact renameRow_other hex hb
    | true =>
      obtain ⟨rest, hrest, he⟩ := below_iff.mp hb
      rw [occursAgain_iff hrest he, ← Text.replace_eq_self_iff hold hne]
      have hrow := @renameRow_sub old new r hold rest hrest he
      constructor
      · intro hm
        have h := hrow.symm.trans (hm.sub rest hrest he)
        exact List.append_cancel_left (congrArg FileRow.path h)
      · intro hrep
        rw [hrep] at hrow
        refine ⟨fun h => absurd h hex, ?_, fun _ h => absurd he (h rest hrest)⟩
        intro rest' _ he'
        obtain rfl : rest = rest' :=
          (List.cons.inj (List.append_cancel_left (he.symm.trans he'))).2
        exact hrow

end Row

end RenameLemmas

open RenameLemmas

/-- `pdb_rename_file` moves the row of `old` and every row below it, and touches no other row
and no other column, exactly when `old` does not occur again in a path below it. -/
theorem pdbRenameFile_moves_iff (db : Db) (old new : Bytes) (msg : MsgHeader)
    (hlen : msg.pathlen ≠ 0) (hold : AbsPath old) (hne : new ≠ old)
    (hbelow : ∀ rest, rest ≠ [] → new ≠ old ++ slash :: rest) :
    List.Forall₂ (Moved old new) db.files
        (pdbRenameFile true true db (some old) msg new).1.files ↔
      ∀ r ∈ db.files, ¬ OccursAgain old r := by
  rw [renameFile_files db old new msg hlen]
  simp only [List.forall₂_map_right_iff, List.forall₂_same]
  exact forall₂_congr fun r _ =>
    moved_renameRow_iff (absPath_ne_nil hold) (Ne.symm hne) hbelow r

/-- `/a`, `/a/x` and `/ab`. -/
def exTree : Db where
  files := [exRow (ascii ['/', 'a']) 2, exRow (ascii ['/', 'a', '/', 'x']) 3,
    exRow (ascii ['/', 'a', 'b']) 4]
  xattrs := []
  oldmsg := ⟨0, []⟩

/-- `/a/x/a`, whose path holds the text of `/a` twice. -/
def exRepeated : Db where
  files := [exRow (ascii ['/', 'a', '/', 'x', '/', 'a']) 3]
  xattrs := []
  oldmsg := ⟨0, []⟩

/-- The header of a message with the path `/b`. -/
def exHeader : MsgHeader := { MsgHeader.zero with pathlen := 3 }

theorem pdbRenameFile_moves_exTree :
    List.Forall₂ (Moved (ascii ['/', 'a']) (ascii ['/', 'b'])) exTree.files
      (pdbRenameFile true true exTree (some (ascii ['/', 'a'])) exHeader
        (ascii ['/', 'b'])).1.files := by
  have hbelow : ∀ rest, rest ≠ [] → ascii ['/', 'b'] ≠ ascii ['/', 'a'] ++ slash :: rest := by
    intro rest _ h
    exact absurd (congrArg List.length h) (by simp [ascii])
  exact (pdbRenameFile_moves_iff exTree _ _ exHeader (by decide) (by decide) (by decide)
    hbelow).mpr (by decide)

/-- Renaming `/a` to `/b` turns `/a/x/a` into `/b/x/b`. -/
theorem pdbRenameFile_repeated_name :
    (pdbRenameFile true true exRepeated (some (ascii ['/', 'a'])) exHeader
        (ascii ['/', 'b'])).1.files = [exRow (ascii ['/', 'b', '/', 'x', '/', 'b']) 3] ∧
      ¬ List.Forall₂ (Moved (ascii ['/', 'a']) (ascii ['/', 'b'])) exRepeated.files
        (pdbRenameFile true true exRepeated (some (ascii ['/', 'a'])) exHeader
          (ascii ['/', 'b'])).1.files := by
  have hrun : (pdbRenameFile true true exRepeated (some (ascii ['/', 'a'])) exHeader
      (ascii ['/', 'b'])).1.files = [exRow (ascii ['/', 'b', '/', 'x', '/', 'b']) 3] := by decide
  refine ⟨hrun, ?_⟩
  rw [hrun]
  rintro (_ | ⟨hm, _⟩)
  have h := hm.sub (ascii ['x', '/', 'a']) (by decide) (by decide)
  exact absurd h (by decide)

end Pseudo
