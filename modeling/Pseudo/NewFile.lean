import Pseudo.Attributes
import Pseudo.Record
import Pseudo.Sweeps

/-!
# The attributes of a new file

The host gives the inode number of a removed file to a new one. Whatever attributes are still
stored under it are then those of the new file, unless the message that creates it removes them: it
does so for an inode that it finds in `files`, and where marked rows give way to it. Attributes can
be stored for an inode without a row, as `pdb_set_xattr` asks for none, and no later removal finds
them.

Results:
1. `creation_clears_iff`: which creations remove the attributes of their inode.
2. `newFile_clean_iff`: in every run, a new file starts without attributes exactly when its inode
   has none, or the creation removes them.
3. `creat_inherits`: a new file gets an attribute that was set on an unrecorded one.
-/

namespace Pseudo

open Table Cleanup

/-- The attribute is stored under the message's device and inode. -/
def IsOwn (m : PseudoMsg) (x : XattrRow) : Prop := x.dev = m.hdr.dev ∧ x.ino = m.hdr.ino

instance (m : PseudoMsg) (x : XattrRow) : Decidable (IsOwn m x) :=
  inferInstanceAs (Decidable (_ ∧ _))

/-- No row has both the path and the device and inode of the message. -/
def Unrecorded (m : PseudoMsg) (t : List FileRow) : Prop :=
  m.hdr.pathlen ≠ 0 → ∀ r ∈ t, r.path = (request m).path →
    (columnInt64 r.dev, r.ino) ≠ (m.hdr.dev, m.hdr.ino)

instance (m : PseudoMsg) (t : List FileRow) : Decidable (Unrecorded m t) :=
  inferInstanceAs (Decidable (_ → ∀ r ∈ t, _ → _))

/-- The rows found for the inode are deleted: they have the wrong type and no row was found for the
path, or they are of the right type and the new file is no symbolic link. -/
def TakesOver (req : Request) (lk : Lookup) : Prop :=
  lk.foundIno = true ∧
    if typeMismatch lk.byIno req.hdr = true then lk.foundPath = false else req.hdr.op ≠ .symlink

instance (req : Request) (lk : Lookup) : Decidable (TakesOver req lk) := by
  unfold TakesOver
  infer_instance

/-- The creation removes what is stored under its inode. -/
def ClearsInode (sq : Sqlite) (db : Db) (m : PseudoMsg) : Prop :=
  Yields (request m) (lookup sq db (request m)) ∧
      (∀ r ∈ db.files, (columnInt64 r.dev, r.ino) ≠ (m.hdr.dev, m.hdr.ino)) ∨
    aborts (request m) (lookup sq db (request m)) = false ∧ DevFits m.hdr.dev ∧
      TakesOver (request m) (lookup sq db (request m))

instance (sq : Sqlite) (db : Db) (m : PseudoMsg) : Decidable (ClearsInode sq db m) :=
  inferInstanceAs (Decidable (_ ∧ _ ∨ _ ∧ _ ∧ _))

section Creation
variable {sq : Sqlite} {db : Db} {m : PseudoMsg} {x : XattrRow}

theorem IsOwn.outside (hop : m.hdr.op.creates = true) (hnew : Unrecorded m db.files)
    (hx : IsOwn m x) : Outside (request m) db.files x := by
  refine ⟨fun hlen r hr ho hp => ?_, fun hunlink => ?_⟩
  · refine hnew (request_pathlen hlen) r hr hp ?_
    rw [owns_iff.mp ho, hx.1, hx.2]
  · rw [request_hdr_op] at hunlink
    rw [hunlink] at hop
    cases hop

theorem IsOwn.owned_iff (hx : IsOwn m x) : ¬ Owned db.files x ↔
    ∀ r ∈ db.files, (columnInt64 r.dev, r.ino) ≠ (m.hdr.dev, m.hdr.ino) := by
  rw [← hx.1, ← hx.2]
  constructor
  · exact fun h r hr hrk => h ⟨r, hr, owns_iff.mpr hrk⟩
  · rintro h ⟨r, hr, ho⟩
    exact h r hr (owns_iff.mp ho)

theorem IsOwn.hasKey_iff_fits (hx : IsOwn m x) :
    x.hasKey (request m).hdr.key = true ↔ DevFits m.hdr.dev := by
  rw [request_hdr_key, hasKey_iff, hx.1, hx.2]
  exact ⟨fun h => h.1.symm, fun h => ⟨Eq.symm h, rfl⟩⟩

/-- The deletions for its own inode that a creation makes. -/
theorem clearsOwn_iff (hop : m.hdr.op.creates = true) :
    ClearsOwn (request m) (checked sq db (request m)) db.files ↔
      TakesOver (request m) (lookup sq db (request m)) := by
  unfold ClearsOwn TakesOver
  rw [checked_foundIno, checked_lk, request_hdr_op]
  cases hkind : m.hdr.op <;> rw [hkind] at hop
  case creat | mkdir | mknod | symlink =>
    cases (lookup sq db (request m)).foundIno <;>
      cases typeMismatch (lookup sq db (request m)).byIno (request m).hdr <;>
        simp [Op.replacesInode]
  all_goals cases hop

/-- Which creations remove the attributes of their inode. -/
theorem creation_clears_iff (hop : m.hdr.op.creates = true) (hnew : Unrecorded m db.files)
    (hmem : x ∈ db.xattrs) (hx : IsOwn m x) :
    x ∉ (pseudoOp sq db m).db.xattrs ↔ ClearsInode sq db m := by
  have hreq := request_proper m
  have hout := hx.outside hop hnew
  have hscripted : m.hdr.op.scripted = true := by
    revert hop
    cases m.hdr.op <;> simp [Op.creates, Op.scripted]
  have hempties : ¬ Empties (request m) (lookup sq db (request m)) := by
    intro he
    have hunlink := he.1
    rw [request_hdr_op] at hunlink
    rw [hunlink] at hop
    cases hop
  unfold ClearsInode
  cases hab : aborts (request m) (lookup sq db (request m)) with
  | true =>
    rw [pseudoOp_refused_xattrs hab, mem_delete, ← hx.owned_iff,
      ← checkPath_clears_outside hreq hout]
    simp [hmem]
  | false =>
    rw [pseudoOp_xattrs hscripted hab, mem_delete, ← hx.owned_iff, ← clearsOwn_iff hop,
      ← hx.hasKey_iff_fits]
    have hclears := script_clears_iff sq hreq hout
    rw [or_iff_left hempties] at hclears
    simp [hmem, hclears, and_comm]

end Creation

/-- In every run, a new file starts without extended attributes exactly when nothing was stored
under its inode, or the message that creates it removes what was. -/
theorem newFile_clean_iff (oldmsg : OldMsg) (es : List (Sqlite × PseudoMsg)) (sq : Sqlite)
    (m : PseudoMsg) (hop : m.hdr.op.creates = true)
    (hnew : Unrecorded m (Run.run serve (Db.empty oldmsg) es).files) :
    (∀ x ∈ (pseudoOp sq (Run.run serve (Db.empty oldmsg) es) m).db.xattrs, ¬ IsOwn m x) ↔
      (∀ x ∈ (Run.run serve (Db.empty oldmsg) es).xattrs, ¬ IsOwn m x) ∨
        ClearsInode sq (Run.run serve (Db.empty oldmsg) es) m := by
  generalize Run.run serve (Db.empty oldmsg) es = db at hnew ⊢
  have hsub : ∀ x ∈ (pseudoOp sq db m).db.xattrs, x ∈ db.xattrs := by
    intro x hx
    have hscripted : m.hdr.op.scripted = true := by
      revert hop
      cases m.hdr.op <;> simp [Op.creates, Op.scripted]
    cases hab : aborts (request m) (lookup sq db (request m)) with
    | true =>
      rw [pseudoOp_refused_xattrs hab] at hx
      exact delete_subset hx
    | false =>
      rw [pseudoOp_xattrs hscripted hab] at hx
      exact delete_subset hx
  constructor
  · intro hclean
    by_cases hleft : ∃ x ∈ db.xattrs, IsOwn m x
    · obtain ⟨x, hmem, hx⟩ := hleft
      exact Or.inr ((creation_clears_iff hop hnew hmem hx).mp fun hstays => hclean x hstays hx)
    · exact Or.inl fun x hmem hx => hleft ⟨x, hmem, hx⟩
  · rintro (hnone | hclears) x hstays hx
    · exact hnone x (hsub x hstays) hx
    · exact (creation_clears_iff hop hnew (hsub x hstays) hx).mpr hclears hstays

/-- An attribute is set on `/x`, which has inode 5 and no row. -/
def exSetUnrecorded : List (Sqlite × PseudoMsg) :=
  [(Sqlite.inOrder, PseudoMsg.packed
    { MsgHeader.zero with type := .op, op := .setXattr, client := 1, dev := 1, ino := 5,
                          mode := 0o100644, nlink := 1 }
    (ascii ['/', 'x']) (ascii ['a'] ++ 0 :: ascii ['v']))]

/-- A file is recorded with inode 5, and gets an attribute. -/
def exSetRecorded : List (Sqlite × PseudoMsg) :=
  (Sqlite.inOrder, exMsg .creat 1 (ascii ['/', 'x']) 5) :: exSetUnrecorded

/-- Removing a recorded file on its own path removes what is stored under its inode. -/
theorem newFile_clean_reused :
    Unrecorded (exMsg .creat 1 (ascii ['/', 'b']) 5)
        (Run.run serve (Db.empty ⟨0, []⟩) (exSetRecorded ++
          [(Sqlite.inOrder, exMsg .unlink 1 (ascii ['/', 'x']) 5)])).files ∧
      ∀ x ∈ (pseudoOp Sqlite.inOrder
          (Run.run serve (Db.empty ⟨0, []⟩) (exSetRecorded ++
            [(Sqlite.inOrder, exMsg .unlink 1 (ascii ['/', 'x']) 5)]))
          (exMsg .creat 1 (ascii ['/', 'b']) 5)).db.xattrs,
        ¬ IsOwn (exMsg .creat 1 (ascii ['/', 'b']) 5) x :=
  ⟨by decide, (newFile_clean_iff ⟨0, []⟩ _ Sqlite.inOrder (exMsg .creat 1 (ascii ['/', 'b']) 5) rfl
    (by decide)).mpr (Or.inl (by decide))⟩

/-- `/x` was removed behind the server's back, and `/b` is created with its inode. -/
theorem creat_inherits :
    Unrecorded (exMsg .creat 1 (ascii ['/', 'b']) 5)
        (Run.run serve (Db.empty ⟨0, []⟩) exSetUnrecorded).files ∧
      ¬ ∀ x ∈ (pseudoOp Sqlite.inOrder (Run.run serve (Db.empty ⟨0, []⟩) exSetUnrecorded)
          (exMsg .creat 1 (ascii ['/', 'b']) 5)).db.xattrs,
        ¬ IsOwn (exMsg .creat 1 (ascii ['/', 'b']) 5) x := by
  decide

end Pseudo
