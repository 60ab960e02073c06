import Pseudo.Lookup

/-!
# Refused requests

`pseudo_op` answers with `RESULT_ABORT` when the row found for the inode of the message has
another path than the message says. The rows found by path are checked before that, and a row
that cannot be right is removed whatever becomes of the request.

Results:
1. `result_abort_iff`: the answer is `RESULT_ABORT` exactly when the paths disagree.
2. `refused_iff`: a refused request removes the rows of its path that cannot be right, the
   attributes that this leaves without a file, and nothing else.
3. `refused_after_cleaning`: a request that is refused after its path was cleaned up.
-/

namespace Pseudo

open Table

/-- The row found by path cannot be right: it was marked for deletion and has another inode, or
another file type. -/
def Suspect (req : Request) (lk : Lookup) : Prop :=
  lk.foundPath = true ∧ (expectedGone req lk = true ∨ typeMismatch lk.byPath req.hdr = true)

instance (req : Request) (lk : Lookup) : Decidable (Suspect req lk) :=
  inferInstanceAs (Decidable (_ ∧ _))

/-- A row of the inode that the attribute belongs to is in the table. -/
def Owned (t : List FileRow) (x : XattrRow) : Prop := ∃ r ∈ t, x.hasKey r.key = true

/-- Attributes were removed, but none that still has a file. -/
def Swept (t : List FileRow) (before after : List XattrRow) : Prop :=
  after.Sublist before ∧ ∀ x ∈ before, Owned t x → x ∈ after

namespace RefusedLemmas

section Result
variable {sq : Sqlite} {db : Db} {m : PseudoMsg}

theorem request_result (m : PseudoMsg) : (request m).hdr.result = .succeed := by
  rw [request_hdr]

theorem request_msg_result (m : PseudoMsg) : (request m).msg.result = .succeed := by
  rw [(request_proper m).msg_eq]
  exact request_result m

/-- The lookups set no result. -/
theorem lookup_result (sq : Sqlite) (db : Db) (m : PseudoMsg) :
    (lookup sq db (request m)).msg.result = .succeed ∧
      ((lookup sq db (request m)).foundPath = true →
        (lookup sq db (request m)).byPath.result = .succeed) ∧
      ((lookup sq db (request m)).foundIno = true →
        (lookup sq db (request m)).byIno.result = .succeed) := by
  have hmsg := request_msg_result m
  have hino : (lookup sq db (request m)).foundIno = true →
      (lookup sq db (request m)).byIno.result = .succeed := by
    intro hfi
    obtain ⟨r, _, _, _, msg, hm, he⟩ := lookup_ino (request_proper m) hfi
    rw [he]
    rcases hm with rfl | rfl
    · exact hmsg
    · exact request_result m
  rcases lookup_cases sq db (request m) with hex | hs | hab
  · obtain ⟨_, r, _, _, _, he⟩ := lookup_exact hex
    refine ⟨?_, fun _ => ?_, hino⟩
    · rw [he]
      exact request_result m
    · rw [he]
      exact hmsg
  · obtain ⟨r, _, _, _, _, hm, hp⟩ := lookup_stale hs
    refine ⟨?_, fun _ => ?_, hino⟩
    · rw [hm]
      exact hmsg
    · rw [hp]
      exact hmsg
  · refine ⟨?_, fun hfp => ?_, hino⟩
    · rw [(lookup_absent hab).2.1]
      exact hmsg
    · rw [hab] at hfp
      exact absurd hfp (by simp)

theorem failIf_result {h : MsgHeader} {failed : Prop} [Decidable failed]
    (hr : h.result = .succeed) : (h.failIf failed).result ≠ .abort := by
  unfold MsgHeader.failIf
  split
  · simp
  · simp [hr]

theorem dbHeader_result {c : Checked} {op : Op}
    (hi : c.foundIno = true → c.lk.byIno.result = .succeed)
    (hp : c.foundPath = true → c.lk.byPath.result = .succeed)
    (hf : c.foundIno = true ∨ c.foundPath = true) : (dbHeader c op).result = .succeed := by
  unfold dbHeader
  dsimp only
  split
  · rename_i h
    exact hi h.1
  · rename_i h
    refine hp ?_
    rcases hf with hf | hf
    · cases hfp : c.foundPath with
      | true => rfl
      | false => exact absurd ⟨hf, Or.inr (by simp [hfp])⟩ h
    · exact hf

/-- No operation answers with `RESULT_ABORT` itself. -/
theorem opAction_result {sq' : Sqlite} :
    (opAction sq' (request m) (checked sq db (request m))).msg.result ≠ .abort := by
  obtain ⟨hmsg, hpath, hino⟩ := lookup_result sq db m
  have hi : (checked sq db (request m)).foundIno = true →
      (lookup sq db (request m)).byIno.result = .succeed := by
    intro h
    rw [checked_foundIno, Bool.and_eq_true] at h
    exact hino h.1
  have hp : (checked sq db (request m)).foundPath = true →
      (lookup sq db (request m)).byPath.result = .succeed := by
    intro h
    rw [checked_foundPath, Bool.and_eq_true] at h
    exact hpath h.1
  have hchange : ∀ (merge : MsgHeader → MsgHeader) new, (∀ h, (merge h).result = h.result) →
      new.result = .succeed →
      (opChange merge new (checked sq db (request m))).msg.result ≠ .abort := by
    intro merge new hmerge hnew
    unfold opChange
    split
    · rename_i h
      simp [hmerge, checked_lk, hi h]
    · split
      · rename_i h
        simp [hmerge, checked_lk, hp h]
      · simp [hnew]
  unfold opAction
  cases (request m).hdr.op
  case chmod | fchmod => exact hchange _ _ (fun _ => rfl) hmsg
  case chown | fchown => exact hchange _ _ (fun _ => rfl) hmsg
  case stat | fstat =>
    simp only [opStat]
    split
    · rename_i h
      rw [dbHeader_result hi hp h]
      simp
    · simp
  case link | symlink =>
    simp only [opLink, checked_lk]
    split
    · rename_i h
      split
      · simp [hmsg]
      · simp [hi h]
    · simp [request_result]
  case mkdir | mknod => simp [opMknod, request_result]
  case mayUnlink => exact failIf_result hmsg
  case setXattr | createXattr | replaceXattr => exact failIf_result hmsg
  case getXattr => exact failIf_result hmsg
  case unlink => simp [opUnlink]
  case creat => simp [opCreat, checked_lk, hmsg]
  case rename => simp [opRename, checked_lk, hmsg]
  all_goals simp [checked_lk, hmsg]

end Result

section Sweep
variable {t t' : List FileRow} {a b c : List XattrRow} {db : Db} {msg : MsgHeader} {path : Bytes}

theorem columnInt64_inj {v w : BitVec 32} (h : columnInt64 v = columnInt64 w) : v = w := by
  rw [← bindInt_columnInt64 v, h, bindInt_columnInt64]

/-- An attribute belongs to one inode. -/
theorem hasKey_unique {x : XattrRow} {k k' : BitVec 32 × BitVec 64} (h : x.hasKey k = true)
    (h' : x.hasKey k' = true) : k = k' := by
  simp only [XattrRow.hasKey, Bool.and_eq_true, beq_iff_eq] at h h'
  exact Prod.ext (columnInt64_inj (h.1.symm.trans h'.1)) (h.2.symm.trans h'.2)

theorem swept_refl : Swept t a a := ⟨List.Sublist.refl a, fun _ hx _ => hx⟩

/-- Sweeping twice, the second time when fewer files are left. -/
theorem swept_trans (h : Swept t a b) (h' : Swept t' b c) (ht : t' ⊆ t) : Swept t' a c := by
  refine ⟨h'.1.trans h.1, fun x hx ho => h'.2 x (h.2 x hx ?_) ho⟩
  obtain ⟨r, hr, hk⟩ := ho
  exact ⟨r, ht hr, hk⟩

theorem swept_delete {p : XattrRow → Bool} (hp : ∀ x, p x = true → ¬ Owned t x) :
    Swept t a (delete p a) := by
  refine ⟨List.filter_sublist, fun x hx ho => mem_delete.mpr ⟨hx, ?_⟩⟩
  cases h : p x with
  | false => rfl
  | true => exact absurd ho (hp x h)

theorem pdbClearUnusedXattrs_swept (db : Db) :
    Swept db.files db.xattrs (pdbClearUnusedXattrs db).xattrs := by
  refine swept_delete fun x hx => ?_
  rintro ⟨r, hr, hk⟩
  have hnone := count_eq_zero.mp (by simpa using hx) r hr
  rw [hk] at hnone
  exact absurd hnone (by simp)

theorem pdbCheckXattrs_swept (db : Db) :
    Swept db.files db.xattrs (pdbCheckXattrs db msg).xattrs := by
  unfold pdbCheckXattrs
  dsimp only
  split
  · refine swept_delete fun x hx => ?_
    rw [Bool.and_eq_true] at hx
    rintro ⟨r, hr, hk⟩
    have hnone := count_eq_zero.mp (by simpa using hx.2) r hr
    rw [← hasKey_unique hk hx.1] at hnone
    exact absurd hnone (by simp)
  · exact swept_refl

theorem pdbUnlinkFile_swept :
    Swept (pdbUnlinkFile db msg path).files db.xattrs (pdbUnlinkFile db msg path).xattrs := by
  unfold pdbUnlinkFile
  split
  · exact swept_refl
  · rw [pdbCheckXattrs_files]
    exact pdbCheckXattrs_swept { db with files := delete (atPath path) db.files }

theorem clearMarked_swept {req : Request} {lk : Lookup} :
    Swept (clearMarked db req lk).files db.xattrs (clearMarked db req lk).xattrs := by
  unfold clearMarked
  split
  · exact pdbClearUnusedXattrs_swept { db with files := _ }
  · exact swept_refl

theorem checkPath_swept {req : Request} {lk : Lookup} :
    Swept (checkPath db req lk).1.files db.xattrs (checkPath db req lk).1.xattrs := by
  unfold checkPath
  split
  · dsimp only
    split
    · refine swept_trans clearMarked_swept pdbUnlinkFile_swept ?_
      rw [pdbUnlinkFile_files]
      split
      · exact fun _ h => h
      · exact delete_subset
    · exact clearMarked_swept
  · exact swept_refl

/-- The checks by path leave the tables alone exactly when the row found is not suspect. -/
theorem checkPath_db {req : Request} {lk : Lookup} (hs : ¬ Suspect req lk) :
    (checkPath db req lk).1 = db := by
  unfold checkPath
  split
  · rename_i h
    simp only [Suspect, h.1, true_and, not_or, Bool.not_eq_true] at hs
    rw [clearMarked, hs.1, hs.2]
    rfl
  · rfl

/-- The row that the search by path answers with goes when it is suspect. -/
theorem suspect_dropped {sq : Sqlite} {req : Request} (hop : req.hdr.op ≠ .didUnlink)
    (hs : Suspect req (lookup sq db req)) (hlen : (lookup sq db req).msg.pathlen ≠ 0) :
    ∃ r ∈ db.files, droppedByPath req (lookup sq db req) r = true := by
  obtain ⟨hfp, hs⟩ := hs
  have hrow : ∃ r ∈ db.files, r.path = req.path ∧
      (lookup sq db req).byPath.deleting = r.deleting := by
    rcases lookup_cases sq db req with hex | hst | hab
    · obtain ⟨_, r, hr, hp, _, he⟩ := lookup_exact hex
      exact ⟨r, hr, hp, by rw [he]; rfl⟩
    · obtain ⟨r, hr, hp, _, _, _, he⟩ := lookup_stale hst
      exact ⟨r, hr, hp, by rw [he]; rfl⟩
    · rw [hab] at hfp
      exact absurd hfp (by simp)
  obtain ⟨r, hr, hp, hd⟩ := hrow
  refine ⟨r, hr, ?_⟩
  rcases hs with hg | hm
  · simp [droppedByPath, hfp, hop, hp, hg, hd]
  · simp [droppedByPath, hfp, hop, hp, hm, hlen]

end Sweep

end RefusedLemmas

open RefusedLemmas

/-- The answer is `RESULT_ABORT` exactly when the paths disagree. -/
theorem result_abort_iff (sq : Sqlite) (db : Db) (m : PseudoMsg) :
    (pseudoOp sq db m).msg.result = .abort ↔
      aborts (request m) (lookup sq db (request m)) = true := by
  unfold pseudoOp
  rw [handle_msg]
  cases aborts (request m) (lookup sq db (request m)) with
  | true => simp
  | false =>
    simp only [Bool.false_eq_true, if_false, iff_false]
    exact opAction_result

theorem result_live_iff (sq : Sqlite) (db : Db) (m : PseudoMsg) :
    (pseudoOp sq db m).msg.result ≠ .abort ↔
      aborts (request m) (lookup sq db (request m)) = false := by
  rw [ne_eq, result_abort_iff, Bool.not_eq_true]

/-- A refused request removes the rows of its path that cannot be right and the attributes that
this leaves without a file, and nothing else: both tables are as before exactly when the row
found by path is not suspect. -/
theorem refused_iff (sq : Sqlite) (db : Db) (m : PseudoMsg)
    (h : (pseudoOp sq db m).msg.result = .abort) :
    (pseudoOp sq db m).db.files =
        delete (droppedByPath (request m) (lookup sq db (request m))) db.files ∧
      Swept (pseudoOp sq db m).db.files db.xattrs (pseudoOp sq db m).db.xattrs ∧
      ((pseudoOp sq db m).db.files = db.files ∧ (pseudoOp sq db m).db.xattrs = db.xattrs ↔
        ¬ Suspect (request m) (lookup sq db (request m))) := by
  have hab := (result_abort_iff sq db m).mp h
  have hdb : (pseudoOp sq db m).db = (checkPath db (request m) (lookup sq db (request m))).1 := by
    unfold pseudoOp handle
    dsimp only
    rw [if_pos hab]
  have hfiles : (checkPath db (request m) (lookup sq db (request m))).1.files = _ :=
    checkPath_files
  rw [hdb]
  refine ⟨hfiles, checkPath_swept, ?_, fun hs => ?_⟩
  · rintro ⟨hsame, _⟩ hs
    simp only [aborts, Bool.and_eq_true, bne_iff_ne] at hab
    obtain ⟨r, hr, hdrop⟩ := suspect_dropped hab.1.1.2 hs hab.1.2
    rw [← hsame, hfiles, mem_delete, hdrop] at hr
    exact absurd hr.2 (by simp)
  · rw [checkPath_db hs]
    exact ⟨rfl, rfl⟩

/-- `/d` is recorded as a directory with inode 5, and `/b` with inode 6. -/
def exReplaced : Db where
  files := [{ exRow (ascii ['/', 'd']) 5 with mode := 0o040755 }, exRow (ascii ['/', 'b']) 6]
  xattrs := []
  oldmsg := ⟨0, []⟩

/-- A request for inode 6 at the free path `/c` is refused, and the tables are as before. -/
theorem refused_free_path :
    (pseudoOp Sqlite.inOrder exReplaced (exMsg .chmod 1 (ascii ['/', 'c']) 6)).msg.result =
        .abort ∧
      (pseudoOp Sqlite.inOrder exReplaced (exMsg .chmod 1 (ascii ['/', 'c']) 6)).db.files =
        exReplaced.files := by
  have h : (pseudoOp Sqlite.inOrder exReplaced
      (exMsg .chmod 1 (ascii ['/', 'c']) 6)).msg.result = .abort := by decide
  exact ⟨h, ((refused_iff _ _ _ h).2.2.mpr (by decide)).1⟩

/-- A request for inode 6 at `/d` is refused after the row of `/d` was removed. -/
theorem refused_after_cleaning :
    (pseudoOp Sqlite.inOrder exReplaced (exMsg .chmod 1 (ascii ['/', 'd']) 6)).msg.result =
        .abort ∧
      (pseudoOp Sqlite.inOrder exReplaced (exMsg .chmod 1 (ascii ['/', 'd']) 6)).db.files ≠
        exReplaced.files := by
  decide

end Pseudo
