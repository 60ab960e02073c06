import Pseudo.Calm

/-!
# Nameless files

A file that shows up without a path is stored under the name `NAMELESS FILE`, and a later request
with a path is meant to give it its name: `pseudo_op` calls `pdb_update_file_path` when the row
found by inode has no path. That row always has one, namely `NAMELESS FILE`, so the call is never
made.

Results:
1. `nameless_stays`: the row keeps its name.
2. `nameless_never_adopted`: no request names the file.
-/

namespace Pseudo

open Table

/-- The requests that are meant to name a file. -/
def Op.adopts : Op → Bool
  | .chmod | .fchmod | .chown | .fchown | .stat | .fstat => true
  | _ => false

/-- The only row of the message's inode is a nameless one of the same file type, and the message
has a path that is not recorded. -/
structure NamelessFile (db : Db) (m : PseudoMsg) (row : FileRow) : Prop where
  op : m.hdr.op.adopts = true
  only : db.files.filter (atKey m.hdr.key) = [row]
  nameless : row.path = namelessFile
  type : typeMismatch (m.hdr.readRow row) m.hdr = false
  path : (request m).path ≠ []
  pathlen : m.hdr.pathlen ≠ 0
  free : ∀ r ∈ db.files, r.path ≠ (request m).path

instance (db : Db) (m : PseudoMsg) (row : FileRow) : Decidable (NamelessFile db m row) :=
  decidable_of_iff (m.hdr.op.adopts = true ∧ db.files.filter (atKey m.hdr.key) = [row] ∧
      row.path = namelessFile ∧ typeMismatch (m.hdr.readRow row) m.hdr = false ∧
      (request m).path ≠ [] ∧ m.hdr.pathlen ≠ 0 ∧ ∀ r ∈ db.files, r.path ≠ (request m).path)
    ⟨fun ⟨h1, h2, h3, h4, h5, h6, h7⟩ => ⟨h1, h2, h3, h4, h5, h6, h7⟩,
      fun ⟨h1, h2, h3, h4, h5, h6, h7⟩ => ⟨h1, h2, h3, h4, h5, h6, h7⟩⟩

/-- A lookup by path alone. -/
def statByPath (mode : BitVec 64) (path : Bytes) : PseudoMsg :=
  .plain { MsgHeader.zero with type := .op, op := .stat, mode := mode } path

/-- The inode has one row, it has the message's path, and a lookup by that path finds it. -/
structure Adopted (sq : Sqlite) (db : Db) (m : PseudoMsg) : Prop where
  row : ∃ r, db.files.filter (atKey m.hdr.key) = [r] ∧ r.path = (request m).path
  found : (pseudoOp sq db (statByPath m.hdr.mode (request m).path)).msg.result = .succeed ∧
    (pseudoOp sq db (statByPath m.hdr.mode (request m).path)).msg.key = m.hdr.key

section Nameless
variable {sq : Sqlite} {db : Db} {m : PseudoMsg} {row : FileRow}

theorem NamelessFile.plain (h : NamelessFile db m row) : m.hdr.op.isPacked = false := by
  have hop := h.op
  revert hop
  cases m.hdr.op <;> simp [Op.adopts, Op.isPacked]

/-- The lookups find the nameless row or nothing. -/
theorem NamelessFile.calm (h : NamelessFile db m row) :
    Calm (request m) (hits sq db.files (request m)) := by
  have hop : (request m).hdr.op = m.hdr.op := request_hdr_op m
  constructor
  · intro r hr
    obtain ⟨hmem, -, hp⟩ := hits_path hr
    exact absurd hp (h.free r hmem)
  · intro r hr
    obtain ⟨hmem, hk⟩ := hits_ino hr
    have hrow : r ∈ db.files.filter (atKey m.hdr.key) :=
      List.mem_filter.mpr ⟨hmem, atKey_iff.mpr (hk.trans (request_hdr_key m))⟩
    rw [h.only, List.mem_singleton] at hrow
    subst hrow
    constructor
    · intro _ _ hmismatch
      have hadopts := h.op
      unfold pathMismatch at hmismatch
      rw [hop, h.nameless] at hmismatch
      revert hmismatch hadopts
      cases m.hdr.op <;> simp [Op.adopts]
    · have htype := h.type
      rw [request_plain h.plain]
      exact htype

/-- Some row of the inode has no name. -/
def HasNameless (k : BitVec 32 × BitVec 64) (t : List FileRow) : Prop :=
  ∃ r ∈ t, r.key = k ∧ r.path = namelessFile

theorem hasNameless_update {k : BitVec 32 × BitVec 64} {t : List FileRow} {p : FileRow → Bool}
    {f : FileRow → FileRow} (hkey : ∀ r, (f r).key = r.key) (hpath : ∀ r, (f r).path = r.path)
    (h : HasNameless k t) : HasNameless k (update p f t) := by
  obtain ⟨r, hr, hk, hp⟩ := h
  refine ⟨_, List.mem_map_of_mem hr, ?_⟩
  split
  · exact ⟨(hkey r).trans hk, (hpath r).trans hp⟩
  · exact ⟨hk, hp⟩

theorem opChange_hasNameless {k : BitVec 32 × BitVec 64} {merge : MsgHeader → MsgHeader}
    {new : MsgHeader} {c : Checked} (h : HasNameless k c.db.files) :
    HasNameless k (opChange merge new c).db.files := by
  have hmeta : ∀ (p : FileRow → Bool) (msg : MsgHeader),
      HasNameless k (update p (fun r => r.setMeta msg) c.db.files) :=
    fun _ _ => hasNameless_update (fun _ => rfl) (fun _ => rfl) h
  rw [opChange_files]
  split
  · exact hmeta _ _
  · split
    · exact hmeta _ _
    · exact h

theorem opAction_hasNameless (sq : Sqlite) {k : BitVec 32 × BitVec 64} {req : Request} {c : Checked}
    (hop : req.hdr.op.adopts = true) (h : HasNameless k c.db.files) :
    HasNameless k (opAction sq req c).db.files := by
  unfold opAction
  cases hkind : req.hdr.op
  case chmod | fchmod | chown | fchown => exact opChange_hasNameless h
  case stat | fstat =>
    unfold opStat
    dsimp only
    split <;> exact h
  all_goals
    rw [hkind] at hop
    cases hop

variable (sq) in
/-- Neither the lookups nor the operation name the row that was found. -/
theorem nameless_stays (h : NamelessFile db m row) :
    HasNameless m.hdr.key (pseudoOp sq db m).db.files := by
  have hreq := request_proper m
  have hop : (request m).hdr.op.adopts = true := (request_hdr_op m).symm ▸ h.op
  have hcalm : Calm (request m) (hits sq db.files (request m)) := h.calm
  have hlive := hcalm.live hreq
  have hchecked := hcalm.checked hreq
  have hstart : HasNameless m.hdr.key (checked sq db (request m)).db.files := by
    rw [hchecked]
    have hmem : row ∈ db.files.filter (atKey m.hdr.key) := h.only ▸ List.mem_singleton_self row
    obtain ⟨hrow, hk⟩ := List.mem_filter.mp hmem
    exact ⟨row, hrow, atKey_iff.mp hk, h.nameless⟩
  have hrun : HasNameless m.hdr.key
      ((opAction sq (request m) (checked sq db (request m))).run (request m).path).db.files := by
    obtain ⟨r, hr, hrow⟩ := opAction_hasNameless sq hop hstart
    rw [run_files]
    exact ⟨r, List.mem_append_left _ hr, hrow⟩
  unfold pseudoOp
  refine handle_preserves ?_ (fun _ => hrun) ?_
  · intro hab
    rw [hlive] at hab
    cases hab
  · intro t _ _ _ _ _ ht
    exact hasNameless_update (fun _ => rfl) (fun _ => rfl) ht

/-- A nameless file never gets its name. -/
theorem nameless_never_adopted (h : NamelessFile db m row) :
    ¬ Adopted sq (pseudoOp sq db m).db m := by
  intro hadopted
  obtain ⟨r, honly, hpath⟩ := hadopted.row
  obtain ⟨s, hs, hk, hname⟩ := nameless_stays sq h
  have hmem : s ∈ (pseudoOp sq db m).db.files.filter (atKey m.hdr.key) :=
    List.mem_filter.mpr ⟨hs, atKey_iff.mpr hk⟩
  rw [honly, List.mem_singleton] at hmem
  subst hmem
  have hfound : row ∈ db.files.filter (atKey m.hdr.key) := h.only ▸ List.mem_singleton_self row
  exact h.free row (List.mem_filter.mp hfound).1 (h.nameless.trans (hname.symm.trans hpath))

end Nameless

/-! ## `fchown` on a descriptor, then `chmod` on its path -/

/-- A table with a file that came up without a path. -/
def exNameless : Db := ⟨[exRow namelessFile 5], [], ⟨0, []⟩⟩

/-- `chmod("/a", 0600)` for that file. -/
def exChmod : PseudoMsg :=
  .plain { MsgHeader.zero with type := .op, op := .chmod, dev := 1, ino := 5, mode := 0o100600 }
    [47, 97]

theorem exChmod_nameless : NamelessFile exNameless exChmod (exRow namelessFile 5) := by decide

theorem nameless_never_adopted_chmod :
    ¬ Adopted .inOrder (pseudoOp .inOrder exNameless exChmod).db exChmod :=
  nameless_never_adopted exChmod_nameless

/-- The row still has no name, and a lookup by path fails. -/
theorem nameless_chmod_lost :
    NamelessFile exNameless exChmod (exRow namelessFile 5) ∧
    (pseudoOp .inOrder exNameless exChmod).db.files =
      [{ exRow namelessFile 5 with mode := 0o100600 }] ∧
    ¬ Adopted .inOrder (pseudoOp .inOrder exNameless exChmod).db exChmod :=
  ⟨by decide, by decide, fun h => absurd h.found.1 (by decide)⟩

end Pseudo
