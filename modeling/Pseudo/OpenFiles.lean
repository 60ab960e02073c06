import Pseudo.FdTables
import Pseudo.Rename

/-!
# Open files and renames

The client remembers under which path each descriptor was opened and reports later requests
through it under that path. On a rename it looks for the old path among them, while the server
moves the rows below the old path as well.

Results:
1. `renamePath_fdPaths`: the entries that a rename changes.
2. `clientRename_follows_iff`: exactly when the table of open files follows a rename.
3. `clientRename_loses_descendant`: a file open below a renamed directory keeps its old path.
-/

namespace Pseudo

/-- What a rename of `old` to `new` is to do to the path of an open file. -/
structure FollowsRename (old new : Bytes) (before after : Option Bytes) : Prop where
  exact : before = some old → after = some new
  sub : ∀ rest, before = some (old ++ slash :: rest) → after = some (new ++ slash :: rest)
  other : before ≠ some old → (∀ rest, before ≠ some (old ++ slash :: rest)) → after = before

/-- The notice of a rename. -/
def clientRename (old new : Bytes) (buf : StatBuf) : ClientCall :=
  { op := .rename, path := some new, buf := some buf, extra1 := some old }

namespace OpenFilesLemmas

open RenameLemmas FdTablesLemmas

/-- A rename changes the entries that are the old path, from descriptor 3 on. -/
theorem renamePath_fdPaths (t : FdTables) (old new : Bytes) (fd : Nat) (hfd : 3 ≤ fd) :
    pathOf (pseudoClientRenamePath t old new).fdPaths fd =
      if pathOf t.fdPaths fd = some old then some new else pathOf t.fdPaths fd := by
  simp only [pathOf_fdPaths_renamePath, hfd, true_and]

/-- What the client does about a rename, unless the new path is ignored. -/
theorem clientRename_tables (env : ClientEnv) (t : FdTables) (old : Bytes) {new : Bytes}
    (buf : StatBuf) (hnew : AbsPath new) (hc : IsCString new) :
    (pseudoClientOp env t (clientRename old new buf)).map (·.tables) = some
      (if pseudoClientIgnorePath env (some new) then t else pseudoClientRenamePath t old new) := by
  have hslash : stripSlash new = false := by simp [stripSlash, hnew.2]
  have hsent : cstr (packPaths new old none) = new := by
    simp only [packPaths, hslash, Bool.false_eq_true, if_false, List.append_assoc,
      List.cons_append]
    exact cstr_append_nul hc _
  cases hig : pseudoClientIgnorePath env (some new) with
  | true => simp [pseudoClientOp, clientRename, callPath, hig, Op.neverIgnored]
  | false =>
    simp [pseudoClientOp, clientRename, callPath, hig, sentPath, dispatchTables, hsent]

theorem followsRename_refl {p : Bytes} {e : Option Bytes} : FollowsRename p p e e :=
  ⟨id, fun _ h => h, fun _ _ => rfl⟩

/-- Looking for the old path alone is enough when the entry is not below it. -/
theorem followsRename_exact_iff {old new : Bytes} (hne : old ≠ new) {e : Option Bytes} :
    FollowsRename old new e (if e = some old then some new else e) ↔
      ∀ rest, e ≠ some (old ++ slash :: rest) := by
  constructor
  · intro h rest he
    have hnot : e ≠ some old := by
      rw [he]
      exact fun h => ne_append_slash (Option.some.inj h).symm
    have hsub := h.sub rest he
    rw [if_neg hnot, he] at hsub
    exact hne (List.append_cancel_right (Option.some.inj hsub))
  · intro h
    refine ⟨fun he => by rw [if_pos he], fun rest he => absurd he (h rest), fun he _ => ?_⟩
    rw [if_neg he]

theorem followsRename_unchanged_iff {old new : Bytes} (hne : old ≠ new) {e : Option Bytes} :
    FollowsRename old new e e ↔ (∀ rest, e ≠ some (old ++ slash :: rest)) ∧ e ≠ some old := by
  constructor
  · intro h
    refine ⟨fun rest he => ?_, fun he => ?_⟩
    · have hsub := h.sub rest he
      rw [he] at hsub
      exact hne (List.append_cancel_right (Option.some.inj hsub))
    · exact hne (Option.some.inj (he.symm.trans (h.exact he)))
  · rintro ⟨hsub, hex⟩
    exact ⟨fun he => absurd he hex, fun rest he => absurd he (hsub rest), fun _ _ => rfl⟩

end OpenFilesLemmas

open OpenFilesLemmas FdTablesLemmas

/-- The table of open files follows a rename exactly when no file is open below the old path
and, if the new path is one that pseudo ignores, none is open under the old path either. -/
theorem clientRename_follows_iff (env : ClientEnv) (t : FdTables) (old new : Bytes)
    (buf : StatBuf) (hnew : AbsPath new) (hc : IsCString new) :
    (∃ step, pseudoClientOp env t (clientRename old new buf) = some step ∧ ∀ fd, 3 ≤ fd →
        FollowsRename old new (pathOf t.fdPaths fd) (pathOf step.tables.fdPaths fd)) ↔
      old = new ∨ ∀ fd, 3 ≤ fd → (∀ rest, pathOf t.fdPaths fd ≠ some (old ++ slash :: rest)) ∧
        (pseudoClientIgnorePath env (some new) = true → pathOf t.fdPaths fd ≠ some old) := by
  obtain ⟨step, hstep, htables⟩ := Option.map_eq_some_iff.mp
    (clientRename_tables env t old buf hnew hc)
  have hex : (∃ step, pseudoClientOp env t (clientRename old new buf) = some step ∧ ∀ fd, 3 ≤ fd →
        FollowsRename old new (pathOf t.fdPaths fd) (pathOf step.tables.fdPaths fd)) ↔
      ∀ fd, 3 ≤ fd →
        FollowsRename old new (pathOf t.fdPaths fd) (pathOf step.tables.fdPaths fd) := by
    simp [hstep]
  rw [hex]
  by_cases hne : old = new
  · subst hne
    refine iff_of_true (fun fd hfd => ?_) (Or.inl rfl)
    have hsame : pathOf step.tables.fdPaths fd = pathOf t.fdPaths fd := by
      rw [htables]
      split
      · rfl
      · rw [renamePath_fdPaths t old old fd hfd]
        split
        · rename_i he
          exact he.symm
        · rfl
    rw [hsame]
    exact followsRename_refl
  · rw [or_iff_right hne]
    refine forall₂_congr fun fd hfd => ?_
    rw [htables]
    cases hig : pseudoClientIgnorePath env (some new) with
    | true =>
      rw [if_pos rfl, followsRename_unchanged_iff hne]
      simp
    | false =>
      rw [if_neg (by simp), renamePath_fdPaths t old new fd hfd, followsRename_exact_iff hne]
      simp

/-- Descriptor 3 is open on `p`. -/
def exOpen (p : Bytes) : FdTables := ⟨[none, none, none, some p], []⟩

/-- A file open under the old path itself follows the rename. -/
theorem clientRename_follows_file :
    ∃ step, pseudoClientOp exEnv (exOpen (ascii ['/', 'a']))
        (clientRename (ascii ['/', 'a']) (ascii ['/', 'b']) exBuf) = some step ∧ ∀ fd, 3 ≤ fd →
      FollowsRename (ascii ['/', 'a']) (ascii ['/', 'b'])
        (pathOf (exOpen (ascii ['/', 'a'])).fdPaths fd) (pathOf step.tables.fdPaths fd) := by
  refine (clientRename_follows_iff exEnv (exOpen (ascii ['/', 'a'])) _ _ exBuf (by decide)
    (by decide)).mpr (Or.inr fun fd hfd => ⟨fun rest he => ?_, fun hig => absurd hig (by decide)⟩)
  rcases Nat.eq_or_lt_of_le hfd with rfl | hlt
  · have hlen := congrArg List.length (Option.some.inj he)
    simp [ascii] at hlen
  · rw [pathOf_of_length_le hlt] at he
    exact absurd he (by simp)

/-- After `/a` is renamed to `/b`, the file `/a/x` is still open under its old path. -/
theorem clientRename_loses_descendant :
    ¬ ∃ step, pseudoClientOp exEnv (exOpen (ascii ['/', 'a', '/', 'x']))
        (clientRename (ascii ['/', 'a']) (ascii ['/', 'b']) exBuf) = some step ∧ ∀ fd, 3 ≤ fd →
      FollowsRename (ascii ['/', 'a']) (ascii ['/', 'b'])
        (pathOf (exOpen (ascii ['/', 'a', '/', 'x'])).fdPaths fd)
        (pathOf step.tables.fdPaths fd) := by
  rintro ⟨step, hstep, h⟩
  have hsub := (h 3 (Nat.le_refl 3)).sub (ascii ['x']) (by decide)
  have htable : (pseudoClientOp exEnv (exOpen (ascii ['/', 'a', '/', 'x']))
      (clientRename (ascii ['/', 'a']) (ascii ['/', 'b']) exBuf)).map
        (fun step => pathOf step.tables.fdPaths 3) = some (some (ascii ['/', 'a', '/', 'x'])) := by
    decide
  rw [hstep, Option.map_some, hsub] at htable
  exact absurd htable (by decide)

end Pseudo
