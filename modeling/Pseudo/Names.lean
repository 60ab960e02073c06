import Pseudo.Lookup
import Pseudo.Rename

/-!
# One row per name

The table has no uniqueness constraint on `path`. Every operation but one keeps the paths of
the rows apart by removing the row it is about to replace; `OP_RENAME` does not.

Results:
1. `opAction_paths`: no operation but a rename gives a row another path.
2. `serve_uniqueNames`: one message keeps the names unique, if its rename is clear.
3. `uniqueNames_of_clear`: so does every run from an empty table.
4. `rename_onto_existing`: a rename onto a file that is still recorded is not clear.
-/

namespace Pseudo

open Table

/-- No two rows have the same path, except rows named `NAMELESS FILE`. -/
def UniqueNames (t : List FileRow) : Prop :=
  (t.map (·.path)).Pairwise fun p q => p = q → p = namelessFile

instance (t : List FileRow) : Decidable (UniqueNames t) :=
  inferInstanceAs (Decidable (List.Pairwise _ _))

/-- The rename takes no two rows of the table to one name: rows with different names stay
apart, in particular no other row has the new name, and `NAMELESS FILE` is not renamed while it
stands for several files. -/
structure RenameClear (old new : Bytes) (t : List FileRow) : Prop where
  apart : ∀ r ∈ t, ∀ s ∈ t, r.path ≠ s.path →
    (renameRow old new r).path = (renameRow old new s).path →
    (renameRow old new r).path = namelessFile
  nameless : old = namelessFile → new = namelessFile ∨ count (atPath namelessFile) t ≤ 1

/-- A message that is no rename, or whose rename is clear for the rows that the sanity checks
leave. -/
def ClearOfNames (db : Db) (e : Sqlite × PseudoMsg) : Prop :=
  let req := request e.2
  let lk := lookup e.1 db req
  e.2.hdr.op = .rename → aborts req lk = false → lk.msg.pathlen ≠ 0 →
    ∀ old, req.oldpath = some old →
      RenameClear (cstr old) req.path (delete (dropped req lk) db.files)

namespace NamesLemmas

open RenameLemmas

section Tables
variable {t t' : List FileRow} {p : FileRow → Bool} {f : FileRow → FileRow} {r : FileRow}

theorem map_path_update_sublist (hf : ∀ r, (f r).path = r.path) :
    ((update p f t).map (·.path)).Sublist (t.map (·.path)) := by
  have heq : (update p f t).map (·.path) = t.map (·.path) := by
    unfold update
    rw [List.map_map]
    refine List.map_congr_left fun r _ => ?_
    by_cases h : p r = true
    · simp [h, hf]
    · simp [h]
  rw [heq]

theorem map_path_delete : ((delete p t).map (·.path)).Sublist (t.map (·.path)) :=
  List.filter_sublist.map _

theorem uniqueNames_of_sublist (h : UniqueNames t)
    (hs : (t'.map (·.path)).Sublist (t.map (·.path))) : UniqueNames t' :=
  List.Pairwise.sublist hs h

/-- A new row whose name is free. -/
theorem uniqueNames_append (h : UniqueNames t)
    (hr : r.path ≠ namelessFile → ∀ s ∈ t, s.path ≠ r.path) : UniqueNames (t ++ [r]) := by
  unfold UniqueNames
  rw [List.map_append, List.pairwise_append]
  refine ⟨h, List.pairwise_singleton _ _, ?_⟩
  intro p hp q hq he
  obtain ⟨s, hs, rfl⟩ := List.mem_map.mp hp
  obtain rfl : q = r.path := by simpa using hq
  by_contra hn
  exact hr (he ▸ hn) s hs he

end Tables

section Actions
variable {sq : Sqlite} {req : Request} {c : Checked}

/-- No operation but a rename gives a row another path. -/
theorem opAction_paths (hop : req.hdr.op ≠ .rename) :
    ((opAction sq req c).db.files.map (·.path)).Sublist (c.db.files.map (·.path)) := by
  refine opAction_preserves
    (Q := fun t => (t.map (·.path)).Sublist (c.db.files.map (·.path))) ?_ ?_ ?_ hop
    (List.Sublist.refl _)
  · exact fun p t _ h => map_path_delete.trans h
  · intro msg t _ h
    refine List.Sublist.trans ?_ h
    exact map_path_update_sublist fun _ => rfl
  · intro d t _ _ h
    refine List.Sublist.trans ?_ h
    exact map_path_update_sublist fun _ => rfl

end Actions

/-- A rename rewrites the rows one by one, and then gives those at the new path the inode in the
buffer. -/
theorem opRename_files {sq : Sqlite} {req : Request} {c : Checked} {old : Bytes}
    (hold : req.oldpath = some old) : (opRename sq req c).db.files =
      if c.lk.msg.pathlen = 0 then c.db.files
      else setInode c.lk.msg req.path (c.db.files.map (renameRow (cstr old) req.path)) := by
  unfold opRename
  dsimp only
  rw [pdbUpdateInode_files, hold, Option.map_some]
  by_cases hlen : c.lk.msg.pathlen = 0
  · simp [pdbRenameFile, hlen]
  · rw [if_neg hlen, if_neg hlen, renameFile_files _ _ _ _ hlen]

/-- A rename without a path changes nothing. -/
theorem opRename_files_zero {sq : Sqlite} {req : Request} {c : Checked}
    (hlen : c.lk.msg.pathlen = 0) : (opRename sq req c).db.files = c.db.files := by
  unfold opRename
  dsimp only
  rw [pdbUpdateInode_files, if_pos hlen]
  simp [pdbRenameFile, hlen]

/-- `NAMELESS FILE` is below no path. -/
theorem below_namelessFile {old : Bytes} {r : FileRow} (h : r.path = namelessFile) :
    below old r = false := by
  rw [Bool.eq_false_iff, ne_eq, below_iff]
  rintro ⟨rest, _, he⟩
  have hmem : slash ∈ namelessFile := by
    rw [← h, he]
    simp
  exact absurd hmem (by decide)

theorem renameRow_namelessFile {old new : Bytes} {r : FileRow} (h : r.path = namelessFile)
    (hne : old ≠ namelessFile) : renameRow old new r = r :=
  renameRow_other (fun he => hne (he.symm.trans h)) (below_namelessFile h)

/-- A clear rename keeps the names unique. -/
theorem uniqueNames_rename {old new : Bytes} {t : List FileRow} (hc : RenameClear old new t)
    (h : UniqueNames t) : UniqueNames (t.map (renameRow old new)) := by
  have hone : old = namelessFile → new = namelessFile ∨
      t.Pairwise fun r s => r.path = namelessFile → s.path = namelessFile → False := by
    intro hold
    refine (hc.nameless hold).imp_right fun hcount => ?_
    have hp : (t.filter (atPath namelessFile)).Pairwise fun _ _ => False := by
      rw [List.pairwise_iff_getElem]
      intro i j hi hj hij
      unfold count at hcount
      omega
    simpa [List.pairwise_filter] using hp
  unfold UniqueNames at h ⊢
  rw [List.map_map, List.pairwise_map]
  rw [List.pairwise_map] at h
  by_cases hold : old = namelessFile
  · rcases hone hold with hnew | hpair
    · refine h.imp_of_mem fun {r s} hr hs hrs he => ?_
      by_cases hp : r.path = s.path
      · rw [Function.comp_apply, renameRow_exact ?_ ((hrs hp).trans hold.symm)]
        · exact hnew
        · intro rest _
          rw [hnew, hold]
          exact ne_append_slash
      · exact hc.apart r hr s hs hp he
    · refine (h.and hpair).imp_of_mem fun {r s} hr hs hrs he => ?_
      by_cases hp : r.path = s.path
      · exact absurd (hp ▸ hrs.1 hp) (hrs.2 (hrs.1 hp))
      · exact hc.apart r hr s hs hp he
  · refine h.imp_of_mem fun {r s} hr hs hrs he => ?_
    by_cases hp : r.path = s.path
    · rw [Function.comp_apply, renameRow_namelessFile (hrs hp) hold]
      exact hrs hp
    · exact hc.apart r hr s hs hp he

/-- The operation itself, with the row that it inserts, keeps the names unique. -/
theorem run_uniqueNames {sq : Sqlite} {db : Db} {req : Request} (hreq : req.Proper)
    (h : UniqueNames (checked sq db req).db.files)
    (hc : req.hdr.op = .rename → (lookup sq db req).msg.pathlen ≠ 0 → ∀ old,
      req.oldpath = some old → RenameClear (cstr old) req.path (checked sq db req).db.files) :
    UniqueNames ((opAction sq req (checked sq db req)).run req.path).db.files := by
  rw [run_files]
  by_cases hop : req.hdr.op = .rename
  · have hact : opAction sq req (checked sq db req) = opRename sq req (checked sq db req) := by
      simp [opAction, hop]
    rw [hact]
    show UniqueNames ((opRename sq req (checked sq db req)).db.files ++ [])
    rw [List.append_nil]
    by_cases hlen : (lookup sq db req).msg.pathlen = 0
    · rwa [opRename_files_zero hlen]
    · obtain ⟨old, hold⟩ := hreq.packed (by rw [hop]; rfl) (lookup_hdr_pathlen hreq hlen)
      rw [opRename_files hold, checked_lk, if_neg hlen]
      refine uniqueNames_of_sublist (uniqueNames_rename (hc hop hlen old hold) h) ?_
      exact map_path_update_sublist fun _ => rfl
  · have hkeep := uniqueNames_of_sublist h (@opAction_paths sq _ _ hop)
    cases hl : (opAction sq req (checked sq db req)).link with
    | none => simpa using hkeep
    | some hdr =>
      obtain ⟨hlen, hv⟩ := opAction_link_path hreq hl
      refine uniqueNames_append hkeep fun hne => ?_
      by_cases hzero : hdr.pathlen = 0
      · exact absurd (by simp [linkRow, hzero]) hne
      · simp only [linkRow, ne_eq, hzero, not_false_eq_true, if_true]
        exact hv (hlen ▸ hzero)

/-- Handling a message keeps the names unique, if its rename is clear. -/
theorem serve_uniqueNames {db : Db} {e : Sqlite × PseudoMsg} (h : UniqueNames db.files)
    (hc : ClearOfNames db e) : UniqueNames (serve db e).files := by
  obtain ⟨sq, m⟩ := e
  have hchecked : UniqueNames (checked sq db (request m)).db.files :=
    uniqueNames_of_sublist h (checked_files_sublist.map _)
  unfold serve pseudoOp
  refine handle_preserves ?_ ?_ ?_
  · intro _
    exact uniqueNames_of_sublist h map_path_delete
  · intro hab
    refine run_uniqueNames (request_proper m) hchecked fun hop hlen old hold => ?_
    rw [checked_files]
    exact hc (by simpa using hop) hab hlen old hold
  · intro t _ _ _ _ _ hrun
    exact uniqueNames_of_sublist hrun (map_path_update_sublist fun _ => rfl)

end NamesLemmas

open NamesLemmas

/-- From an empty table, the names stay unique in every state of a run whose renames are
clear. -/
theorem uniqueNames_of_clear (db : Db) (hempty : db.files = []) (es : List (Sqlite × PseudoMsg))
    (hclear : Run.Guarded serve ClearOfNames db es) :
    ∀ pre, pre <+: es → UniqueNames (Run.run serve db pre).files := by
  intro pre hpre
  refine hclear.invariant_of_prefix (P := fun db => UniqueNames db.files) ?_ ?_ hpre
  · exact fun db e h hc => serve_uniqueNames h hc
  · show UniqueNames db.files
    rw [hempty]
    exact List.Pairwise.nil

/-- Two files are created and the first is renamed. -/
def exRenaming (new : Bytes) : List (Sqlite × PseudoMsg) :=
  [(Sqlite.inOrder, exMsg .creat 1 (ascii ['/', 'a']) 2),
    (Sqlite.inOrder, exMsg .creat 1 (ascii ['/', 'b']) 3),
    (Sqlite.inOrder, exRename 1 (ascii ['/', 'a']) new 2)]

/-- Renaming `/a` to `/c` next to `/b`. -/
theorem uniqueNames_of_clear_fresh :
    (Run.run serve (Db.empty ⟨0, []⟩) (exRenaming (ascii ['/', 'c']))).files =
        [exRow (ascii ['/', 'c']) 2, exRow (ascii ['/', 'b']) 3] ∧
      ∀ pre, pre <+: exRenaming (ascii ['/', 'c']) →
        UniqueNames (Run.run serve (Db.empty ⟨0, []⟩) pre).files := by
  refine ⟨by decide, uniqueNames_of_clear _ rfl _ ⟨?_, ?_, ?_, trivial⟩⟩
  · exact fun h => absurd h (by decide)
  · exact fun h => absurd h (by decide)
  · intro _ _ _ old hold
    have hpath : (request (exRename 1 (ascii ['/', 'a']) (ascii ['/', 'c']) 2)).oldpath =
        some (ascii ['/', 'a'] ++ [0, 0]) := by decide
    obtain rfl := Option.some.inj (hpath.symm.trans hold)
    exact ⟨by decide, by decide⟩

/-- Renaming `/a` to `/b` while `/b` is still recorded leaves two rows named `/b`. -/
theorem rename_onto_existing :
    ¬ UniqueNames (Run.run serve (Db.empty ⟨0, []⟩) (exRenaming (ascii ['/', 'b']))).files := by
  decide

end Pseudo
