import Pseudo.Names
import Pseudo.Record

/-!
# Unlinking in two steps

A client that removes a file sends `OP_MAY_UNLINK`, removes it, and sends `OP_DID_UNLINK`, or
`OP_CANCEL_UNLINK` when it failed. The row carries the client's mark meanwhile, in one column,
so that a file created by another client between the two messages is told from the old one:
"a did-unlink operation deletes a file ONLY if it is marked for deletion".

Results:
1. `serve_keeps`: a message about other paths and other inodes leaves a row as it is.
2. `creation_survives_unlink`: a row made in the middle of an unlink survives its end, if the
   notice of the creation got it recorded in the first place.
3. `creat_lost_to_unlink`: `OP_CREAT` over the marked row does not.
4. `unlink_removes_row`: the end of the unlink removes the row, if the mark is still the
   client's.
5. `unlink_mark_overwritten`: it does not once another client has marked the row.
-/

namespace Pseudo

open Table

/-- The message is about other paths than `path` and other inodes than `k`: its own path and
inode are, the table has no row of inode `k` for its path, and it removes or renames no
directory above `path`. -/
structure Unrelated (path : Bytes) (k : BitVec 32 × BitVec 64) (db : Db)
    (e : Sqlite × PseudoMsg) : Prop where
  other_path : (request e.2).msg.pathlen ≠ 0 ∨ e.2.hdr.op = .didUnlink →
    (request e.2).path ≠ path
  other_ino : e.2.hdr.key ≠ k
  other_row : (request e.2).msg.pathlen ≠ 0 →
    ∀ r ∈ db.files, r.path = (request e.2).path → r.key ≠ k
  unlink_above : e.2.hdr.op = .unlink →
    ∀ rest, rest ≠ [] → path ≠ (request e.2).path ++ slash :: rest
  rename_above : e.2.hdr.op = .rename → ∀ old, (request e.2).oldpath = some old →
    cstr old ≠ path ∧ ∀ rest, rest ≠ [] → path ≠ cstr old ++ slash :: rest

/-- The operations by which a client announces a new file at a path. -/
def Op.announces : Op → Bool
  | .creat | .mkdir | .mknod | .link => true
  | _ => false

/-- The notice of a new file gets it recorded: the device number fits its column, the server
does not abort, and for `OP_CREAT` no row has the path, or one that the new file has taken over
the inode of and whose type it does not have. -/
structure GetsRecorded (db : Db) (e : Sqlite × PseudoMsg) : Prop where
  fits : columnInt64 (bindInt e.2.hdr.dev) = e.2.hdr.dev
  accepted : aborts (request e.2) (lookup e.1 db (request e.2)) = false
  creat : e.2.hdr.op = .creat → (lookup e.1 db (request e.2)).foundPath = true →
    (lookup e.1 db (request e.2)).foundExact = true ∧
      typeMismatch (lookup e.1 db (request e.2)).byPath e.2.hdr = true

/-- The message leaves the mark of a client on a path: it makes no row for the path, no other
client marks it, none unmarks it, and no rename moves a row to it or from it. -/
structure LeavesMark (path : Bytes) (client : BitVec 32) (db : Db) (e : Sqlite × PseudoMsg) :
    Prop where
  no_row : ∀ r, linked e.1 db (request e.2) = some r → r.path ≠ path
  no_mark : e.2.hdr.op = .mayUnlink → (request e.2).path = path → e.2.hdr.client = client
  no_cancel : e.2.hdr.op = .cancelUnlink → (request e.2).path ≠ path
  no_rename : e.2.hdr.op = .rename → ∀ old, (request e.2).oldpath = some old →
    ∀ r ∈ db.files, (r.path = path → renameRow (cstr old) (request e.2).path r = r) ∧
      ((renameRow (cstr old) (request e.2).path r).path = path → r.path = path)

namespace UnlinkLemmas

open NamesLemmas RenameLemmas RecordLemmas

section Keeps
variable {sq : Sqlite} {db : Db} {m : PseudoMsg} {path : Bytes} {k : BitVec 32 × BitVec 64}
  {r : FileRow}

theorem msg_key_ne (h : Unrelated path k db (sq, m)) :
    (lookup sq db (request m)).msg.key ≠ k := by
  rcases @lookup_msg_key sq db _ (request_proper m) with he | ⟨hlen, s, hs, hp, he⟩
  · rw [he, request_hdr_key]
    exact h.other_ino
  · rw [he]
    exact h.other_row hlen s hs hp

/-- The sanity checks leave the row. -/
theorem mem_checked_of_unrelated (h : Unrelated path k db (sq, m)) (hr : r ∈ db.files)
    (hp : r.path = path) (hk : r.key = k) : r ∈ (checked sq db (request m)).db.files := by
  rw [checked_files, mem_delete]
  refine ⟨hr, ?_⟩
  have hino : droppedByIno (request m) (lookup sq db (request m)) r = false := by
    have : atKey (lookup sq db (request m)).msg.key r = false := by
      rw [atKey_eq_false, hk]
      exact (msg_key_ne h).symm
    simp [droppedByIno, this]
  have hpath : droppedByPath (request m) (lookup sq db (request m)) r = false := by
    cases hfp : (lookup sq db (request m)).foundPath with
    | false => simp [droppedByPath, hfp]
    | true =>
      have hlen := (lookup_byPath_key (request_proper m) hfp).1
      have : atPath (request m).path r = false := by
        rw [atPath_eq_false, hp]
        exact (h.other_path (Or.inl hlen)).symm
      simp [droppedByPath, this]
  simp [dropped, hino, hpath]

/-- The operation does not concern the row. -/
theorem not_concerns (h : Unrelated path k db (sq, m)) (hp : r.path = path) (hk : r.key = k) :
    ¬ Concerns (request m) (checked sq db (request m)) r := by
  have hreq := request_proper m
  rintro (⟨hlen, hc⟩ | hc | ⟨hfi, hc⟩ | ⟨hfp, hc⟩ | ⟨hop, hlen, hc⟩)
  · refine h.other_path ?_ (hc.symm.trans hp)
    rcases hlen with hlen | hop
    · exact Or.inl (lookup_pathlen hlen)
    · exact Or.inr (by simpa using hop)
  · exact msg_key_ne h (hc.symm.trans hk)
  · rw [checked_foundIno, Bool.and_eq_true] at hfi
    rw [checked_lk, lookup_byIno_key hreq hfi.1, request_hdr_key] at hc
    exact h.other_ino (hc.symm.trans hk)
  · rw [checked_foundPath, Bool.and_eq_true] at hfp
    rw [checked_lk, (lookup_byPath_key hreq hfp.1).2] at hc
    exact msg_key_ne h (hc.symm.trans hk)
  · obtain ⟨rest, hne, he⟩ := below_iff.mp hc
    exact h.unlink_above (by simpa using hop) rest hne (hp.symm.trans he)

theorem mem_opRename (h : Unrelated path k db (sq, m)) (hop : m.hdr.op = .rename)
    (hr : r ∈ (checked sq db (request m)).db.files) (hp : r.path = path) :
    r ∈ (opAction sq (request m) (checked sq db (request m))).db.files := by
  have hact : opAction sq (request m) (checked sq db (request m)) =
      opRename sq (request m) (checked sq db (request m)) := by
    simp [opAction, hop]
  rw [hact]
  by_cases hlen : (lookup sq db (request m)).msg.pathlen = 0
  · rwa [opRename_files_zero hlen]
  · obtain ⟨old, hold⟩ := (request_proper m).packed (by rw [request_hdr_op, hop]; rfl)
      (lookup_hdr_pathlen (request_proper m) hlen)
    obtain ⟨hne, hbelow⟩ := h.rename_above hop old hold
    rw [opRename_files hold, checked_lk, if_neg hlen]
    refine mem_update_of_not (List.mem_map.mpr ⟨r, hr, ?_⟩) ?_
    · refine renameRow_other (fun he => hne (he.symm.trans hp)) ?_
      rw [Bool.eq_false_iff, ne_eq, below_iff]
      rintro ⟨rest, hrest, he⟩
      exact hbelow rest hrest (hp.symm.trans he)
    · rw [atPath_eq_false, hp]
      exact (h.other_path (Or.inl (lookup_pathlen hlen))).symm

/-- A message about other paths and other inodes leaves a row as it is. -/
theorem serve_keeps (h : Unrelated path k db (sq, m)) (hr : r ∈ db.files) (hp : r.path = path)
    (hk : r.key = k) : r ∈ (serve db (sq, m)).files := by
  have hchecked := mem_checked_of_unrelated h hr hp hk
  have hnot := not_concerns (r := r) h hp hk
  have hne : (lookup sq db (request m)).msg.pathlen ≠ 0 → atPath (request m).path r = false := by
    intro hlen
    rw [atPath_eq_false, hp]
    exact (h.other_path (Or.inl (lookup_pathlen hlen))).symm
  have hact : r ∈ (opAction sq (request m) (checked sq db (request m))).db.files := by
    by_cases hop : m.hdr.op = .rename
    · exact mem_opRename h hop hchecked hp
    · refine opAction_preserves (Q := fun t => r ∈ t) ?_ ?_ ?_ (by simpa using hop) hchecked
      · exact fun p t hc ht => mem_delete.mpr ⟨ht, Bool.eq_false_iff.mpr fun hp => hnot (hc r hp)⟩
      · exact fun msg t hc ht => mem_update_of_not ht (atKey_eq_false.mpr fun hk => hnot (hc r hk))
      · exact fun d t hlen _ ht => mem_update_of_not ht (hne hlen)
  have hrun : r ∈ ((opAction sq (request m) (checked sq db (request m))).run
      (request m).path).db.files := by
    rw [run_files]
    exact List.mem_append_left _ hact
  unfold serve pseudoOp
  refine handle_preserves (Q := fun t => r ∈ t) ?_ (fun _ => hrun) ?_
  · intro _
    have hdrop := (mem_delete.mp (checked_files ▸ hchecked)).2
    exact mem_delete.mpr ⟨hr, (Bool.or_eq_false_iff.mp hdrop).1⟩
  · intro t _ _ _ _ hlen ht
    exact mem_update_of_not ht (hne hlen)

end Keeps

section Announce
variable {sq : Sqlite} {db : Db} {m : PseudoMsg}

theorem request_announces (hop : m.hdr.op.announces = true) :
    (request m).msg = (request m).hdr ∧ (request m).hdr = { m.hdr with result := .succeed } := by
  have hp : m.hdr.op.isPacked = false := by
    cases h : m.hdr.op <;> simp_all [Op.announces, Op.isPacked]
  rw [request_plain hp]
  exact ⟨rfl, rfl⟩

/-- The notice of a new file leaves a row with its path and inode, not marked. -/
theorem linked_announced (hop : m.hdr.op.announces = true) (hlen : m.hdr.pathlen ≠ 0)
    (h : GetsRecorded db (sq, m)) : ∃ r, linked sq db (request m) = some r ∧
      r.path = (request m).path ∧ r.key = m.hdr.key ∧ r.deleting = 0 := by
  obtain ⟨hmsg, hhdr⟩ := request_announces hop
  have hrow : ∀ msg : MsgHeader, msg.pathlen = m.hdr.pathlen → msg.key = m.hdr.key →
      ∃ r, (some msg).map (fun h => linkRow h (request m).path) = some r ∧
        r.path = (request m).path ∧ r.key = m.hdr.key ∧ r.deleting = 0 := by
    intro msg hl hk
    refine ⟨_, rfl, ?_, by rw [linkRow_key, hk], rfl⟩
    simp [linkRow, hl, hlen]
  have hreq := request_proper m
  have hpl : (request m).hdr.pathlen = m.hdr.pathlen := by rw [hhdr]
  rw [linked_eq h.accepted]
  unfold opAction
  rw [request_hdr_op]
  cases hop' : m.hdr.op <;> simp only [hop', Op.announces, Bool.false_eq_true] at hop
  case creat =>
    have hfp : (checked sq db (request m)).foundPath = false := by
      rw [checked_foundPath_records (by rw [hop']; rfl), and_not_eq_false]
      exact fun hfp => (h.creat hop' hfp).2
    have hst : ¬ (lookup sq db (request m)).Stale := by
      rintro ⟨hfp, hex⟩
      rw [(h.creat hop' hfp).1] at hex
      exact absurd hex (by simp)
    rw [opCreat, hfp, checked_lk, lookup_msg hmsg hst]
    exact hrow _ hpl (request_hdr_key m)
  case mkdir | mknod => exact hrow _ hpl (request_hdr_key m)
  case link =>
    simp only [opLink_link, request_hdr_op, hop', reduceCtorEq, if_false, checked_lk]
    cases hfi : (checked sq db (request m)).foundIno with
    | false => exact hrow _ hpl (request_hdr_key m)
    | true =>
      rw [checked_foundIno, Bool.and_eq_true] at hfi
      rw [if_pos rfl]
      refine hrow _ ?_ ?_
      · rw [lookup_byIno_pathlen hreq hmsg hfi.1, hpl]
      · rw [lookup_byIno_key hreq hfi.1, request_hdr_key]

/-- `OP_DID_UNLINK` removes the rows of the path with the client's mark, and no others. -/
theorem serve_didUnlink (hop : m.hdr.op = .didUnlink) : (serve db (sq, m)).files =
    delete (fun r => atPath (request m).path r && r.deleting == m.hdr.client) db.files := by
  have hab : aborts (request m) (lookup sq db (request m)) = false := by
    simp [aborts, hop]
  have hchecked : (checked sq db (request m)).db.files = db.files := by
    rw [checked_files]
    exact delete_eq_self fun r _ => by simp [dropped, droppedByPath, droppedByIno, hop]
  have hclient : (lookup sq db (request m)).msg.client = m.hdr.client := by
    rw [lookup_msg_client (request_proper m), request_hdr]
  unfold serve pseudoOp
  rw [handle_acts (by rw [request_hdr_op, hop]; rfl) hab, opAction, request_hdr_op, hop]
  simp only [run_files, pdbDidUnlinkFile_files, hchecked, checked_lk, hclient]
  simp

end Announce

/-- The rows of the path carry the client's mark. -/
def Marked (path : Bytes) (client : BitVec 32) (t : List FileRow) : Prop :=
  ∀ r ∈ t, r.path = path → r.deleting = client

section Mark
variable {sq : Sqlite} {db : Db} {m : PseudoMsg} {path : Bytes} {client : BitVec 32}
  {t t' : List FileRow} {p : FileRow → Bool} {f : FileRow → FileRow}

theorem marked_of_subset (h : Marked path client t) (hs : t' ⊆ t) : Marked path client t' :=
  fun r hr => h r (hs hr)

/-- An update that keeps the paths, and the marks of the path. -/
theorem marked_update (h : Marked path client t) (hpath : ∀ r, (f r).path = r.path)
    (hmark : ∀ r, p r = true → r.path = path → r.deleting = client → (f r).deleting = client) :
    Marked path client (update p f t) := by
  intro r hr hp
  obtain ⟨s, hs, rfl⟩ := mem_update.mp hr
  by_cases hps : p s = true
  · rw [if_pos hps] at hp ⊢
    rw [hpath] at hp
    exact hmark s hps hp (h s hs hp)
  · rw [if_neg hps] at hp ⊢
    exact h s hs hp

/-- A mark that was acknowledged is on every row of the path. -/
theorem serve_mayUnlink_marked (hop : m.hdr.op = .mayUnlink) (hpath : (request m).path = path)
    (hclient : m.hdr.client = client) (hok : (pseudoOp sq db m).msg.result = .succeed) :
    Marked path client (serve db (sq, m)).files := by
  cases hab : aborts (request m) (lookup sq db (request m)) with
  | true => simp [pseudoOp, handle_msg, hab] at hok
  | false =>
    have hlen : (lookup sq db (request m)).msg.pathlen ≠ 0 := by
      intro h0
      simp [pseudoOp, handle_msg, hab, opAction, hop, opMayUnlink, pdbMayUnlinkFile, h0,
        MsgHeader.failIf] at hok
    have hfiles : (serve db (sq, m)).files =
        update (atPath path) (fun r => { r with deleting := client })
          (checked sq db (request m)).db.files := by
      unfold serve pseudoOp
      rw [handle_acts (by rw [request_hdr_op, hop]; rfl) hab, opAction, request_hdr_op, hop]
      simp only [run_files, opMayUnlink_files, checked_lk, hlen, hpath, if_false,
        lookup_msg_client (request_proper m)]
      rw [request_hdr]
      simp [opMayUnlink, hclient]
    rw [hfiles]
    intro r hr hp
    obtain ⟨s, _, rfl⟩ := mem_update.mp hr
    by_cases hs : s.path = path
    · rw [if_pos (atPath_iff.mpr hs)]
    · rw [if_neg (by simpa using hs)] at hp
      exact absurd hp hs

/-- A rename that moves no row to the path or from it leaves its marks. -/
theorem opRename_marked {c : Checked} {req : Request} (h : Marked path client c.db.files)
    (hold : c.lk.msg.pathlen ≠ 0 → ∃ old, req.oldpath = some old)
    (hmove : ∀ old, req.oldpath = some old → ∀ r ∈ c.db.files,
      (r.path = path → renameRow (cstr old) req.path r = r) ∧
        ((renameRow (cstr old) req.path r).path = path → r.path = path)) :
    Marked path client (opRename sq req c).db.files := by
  by_cases hlen : c.lk.msg.pathlen = 0
  · rwa [opRename_files_zero hlen]
  · obtain ⟨old, hold⟩ := hold hlen
    rw [opRename_files hold, if_neg hlen]
    refine marked_update ?_ (fun _ => rfl) fun _ _ _ hd => hd
    intro r hr hp
    obtain ⟨s, hs, rfl⟩ := List.mem_map.mp hr
    have hsp := (hmove old hold s hs).2 hp
    rw [(hmove old hold s hs).1 hsp]
    exact h s hs hsp

/-- A message that leaves the client's mark keeps the rows of the path marked. -/
theorem serve_leavesMark (h : Marked path client db.files)
    (he : LeavesMark path client db (sq, m)) : Marked path client (serve db (sq, m)).files := by
  have hreq := request_proper m
  have hchecked : Marked path client (checked sq db (request m)).db.files :=
    marked_of_subset h fun r hr => mem_of_mem_checked hr
  have hact : Marked path client
      (opAction sq (request m) (checked sq db (request m))).db.files := by
    by_cases hop : m.hdr.op = .rename
    · have hact : opAction sq (request m) (checked sq db (request m)) =
          opRename sq (request m) (checked sq db (request m)) := by
        simp [opAction, hop]
      rw [hact]
      refine opRename_marked hchecked ?_ ?_
      · intro hlen
        exact hreq.packed (by rw [request_hdr_op, hop]; rfl) (lookup_hdr_pathlen hreq hlen)
      · exact fun old hold r hr => he.no_rename hop old hold r (mem_of_mem_checked hr)
    · refine opAction_preserves (Q := Marked path client) ?_ ?_ ?_ (by simpa using hop) hchecked
      · exact fun p t _ ht => marked_of_subset ht delete_subset
      · exact fun msg t _ ht => marked_update ht (fun _ => rfl) fun _ _ _ hd => hd
      · intro d t _ hd ht
        refine marked_update ht (fun _ => rfl) fun r hr hp _ => ?_
        have hpath : (request m).path = path := (atPath_iff.mp hr).symm.trans hp
        rcases hd with ⟨hop, rfl⟩ | ⟨hop, rfl⟩
        · rw [request_hdr_op] at hop
          show (lookup sq db (request m)).msg.client = client
          rw [lookup_msg_client hreq, request_hdr]
          exact he.no_mark hop hpath
        · rw [request_hdr_op] at hop
          exact absurd hpath (he.no_cancel hop)
  have hrow : aborts (request m) (lookup sq db (request m)) = false →
      ∀ r ∈ ((opAction sq (request m) (checked sq db (request m))).link.map
        fun h => linkRow h (request m).path).toList, r.path ≠ path := by
    intro hab r hr
    refine he.no_row r ?_
    rw [linked_eq hab]
    simpa using hr
  unfold serve pseudoOp
  refine handle_preserves ?_ ?_ ?_
  · intro _
    exact marked_of_subset h delete_subset
  · intro hab
    rw [run_files]
    intro r hr hp
    rcases List.mem_append.mp hr with hr | hr
    · exact hact r hr hp
    · exact absurd hp (hrow hab r hr)
  · rintro t rfl hab hd hfp hlen hrun
    by_cases hpath : (request m).path = path
    · -- the path was not found, so there is no row to mark
      have hplain : m.hdr.op.isPacked = false ∧ m.hdr.op ≠ .didUnlink ∧ m.hdr.op ≠ .rename := by
        rw [request_hdr_op] at hd
        cases h : m.hdr.op <;> simp_all [Op.onDescriptor, Op.isPacked]
      have hmsg := hreq.plain (by rw [request_hdr_op]; exact hplain.1)
      have hvacant := @opAction_vacant sq _ _ (by rw [request_hdr_op]; exact hplain.2.2)
        (checked_vacant hmsg (by rw [request_hdr_op]; exact hplain.2.1) hfp)
        (lookup_hdr_pathlen hreq hlen)
      intro r hr hp
      obtain ⟨s, hs, rfl⟩ := mem_update.mp hr
      have hsp : s.path = path := by
        split at hp <;> exact hp
      rw [run_files] at hs
      rcases List.mem_append.mp hs with hs | hs
      · exact absurd (hsp.trans hpath.symm) (hvacant s hs)
      · exact absurd hsp (hrow hab s hs)
    · refine marked_update hrun (fun _ => rfl) fun r hr hp _ => ?_
      exact absurd ((atPath_iff.mp hr).symm.trans hp) hpath

end Mark

end UnlinkLemmas

open UnlinkLemmas

/-- A new file is announced while another client is unlinking the old one at its path: `es₁`
holds that client's `OP_MAY_UNLINK` and whatever was handled before the announcement, `es₂` what
is handled until the `OP_DID_UNLINK`. If the announcement gets the file recorded, its row is
there afterwards. -/
theorem creation_survives_unlink (db : Db) (es₁ es₂ : List (Sqlite × PseudoMsg))
    (create did : Sqlite × PseudoMsg) (hop : create.2.hdr.op.announces = true)
    (hlen : create.2.hdr.pathlen ≠ 0)
    (hdid : did.2.hdr.op = .didUnlink) (hclient : did.2.hdr.client ≠ 0)
    (hrec : GetsRecorded (Run.run serve db es₁) create)
    (hes : Run.Guarded serve (Unrelated (request create.2).path create.2.hdr.key)
      (serve (Run.run serve db es₁) create) es₂) :
    ∃ r ∈ (Run.run serve db (es₁ ++ create :: es₂ ++ [did])).files,
      r.path = (request create.2).path ∧ columnInt64 r.dev = create.2.hdr.dev ∧
        r.ino = create.2.hdr.ino ∧ r.deleting = 0 := by
  obtain ⟨sq, m⟩ := create
  obtain ⟨sq', d⟩ := did
  obtain ⟨r, hr, hp, hk, hd⟩ := linked_announced hop hlen hrec
  have hrow : r ∈ (serve (Run.run serve db es₁) (sq, m)).files := by
    refine RecordLemmas.mem_serve_of_linked hr ?_
    revert hop
    cases m.hdr.op <;> simp [Op.announces, Op.onDescriptor]
  have hkeep : r ∈ (Run.run serve (serve (Run.run serve db es₁) (sq, m)) es₂).files := by
    refine hes.invariant (P := fun db => r ∈ db.files) ?_ hrow
    exact fun db e hr he => serve_keeps he hr hp hk
  have hino : r.ino = m.hdr.ino := (congrArg Prod.snd hk).trans (signedIno_eq _)
  refine ⟨r, ?_, hp, ?_, hino, hd⟩
  · simp only [Run.run_append, Run.run_cons, Run.run_nil, List.append_assoc]
    rw [serve_didUnlink hdid]
    refine mem_delete.mpr ⟨hkeep, ?_⟩
    rw [hd, beq_false_of_ne hclient.symm, Bool.and_false]
  · have hdev : r.dev = bindInt m.hdr.dev := congrArg Prod.fst hk
    rw [hdev]
    exact hrec.fits

/-- Client 1 creates `/d` and is about to remove it. -/
def exUnlinking : List (Sqlite × PseudoMsg) :=
  [(Sqlite.inOrder, exMsg .creat 1 (ascii ['/', 'd']) 5),
    (Sqlite.inOrder, exMsg .mayUnlink 1 (ascii ['/', 'd']) 5)]

/-- Client 1 has removed `/d`. -/
def exUnlinked : Sqlite × PseudoMsg :=
  (Sqlite.inOrder, exMsg .didUnlink 1 (ascii ['/', 'd']) 5)

/-- Client 2 makes a device node at `/d`, and something elsewhere, before client 1 is done. -/
theorem creation_survives_unlink_mknod :
    ∃ r ∈ (Run.run serve (Db.empty ⟨0, []⟩) (exUnlinking ++
        (Sqlite.inOrder, exMsg .mknod 2 (ascii ['/', 'd']) 6) ::
          [(Sqlite.inOrder, exMsg .creat 2 (ascii ['/', 'e']) 9)] ++ [exUnlinked])).files,
      r.path = ascii ['/', 'd'] ∧ columnInt64 r.dev = 1 ∧ r.ino = 6 ∧ r.deleting = 0 := by
  refine creation_survives_unlink _ exUnlinking _ _ exUnlinked (by decide) (by decide) rfl
    (by decide) ⟨by decide, by decide, fun h => absurd h (by decide)⟩ ⟨?_, trivial⟩
  exact ⟨fun _ => by decide, by decide, fun _ => by decide, fun h => absurd h (by decide),
    fun h => absurd h (by decide)⟩

/-- Client 2 creates a file at `/d` before client 1 is done. The server drops the marked row,
goes on as if it were there, and ignores the creation. -/
theorem creat_lost_to_unlink :
    ¬ ∃ r ∈ (Run.run serve (Db.empty ⟨0, []⟩) (exUnlinking ++
        [(Sqlite.inOrder, exMsg .creat 2 (ascii ['/', 'd']) 6), exUnlinked])).files,
      r.path = ascii ['/', 'd'] := by
  decide

/-- Between a client's last acknowledged `OP_MAY_UNLINK` of a path and its `OP_DID_UNLINK`,
messages that leave its mark alone do not keep the row alive. -/
theorem unlink_removes_row (db : Db) (path : Bytes) (client : BitVec 32)
    (may did : Sqlite × PseudoMsg) (es : List (Sqlite × PseudoMsg))
    (hmay : may.2.hdr.op = .mayUnlink ∧ may.2.hdr.client = client ∧ (request may.2).path = path)
    (hok : (pseudoOp may.1 db may.2).msg.result = .succeed)
    (hes : Run.Guarded serve (LeavesMark path client) (serve db may) es)
    (hdid : did.2.hdr.op = .didUnlink ∧ did.2.hdr.client = client ∧ (request did.2).path = path) :
    ∀ r ∈ (Run.run serve db (may :: es ++ [did])).files, r.path ≠ path := by
  obtain ⟨hmay, hmayClient, hmayPath⟩ := hmay
  obtain ⟨hdid, hdidClient, hdidPath⟩ := hdid
  have hmarked : Marked path client (Run.run serve (serve db may) es).files := by
    refine hes.invariant (P := fun db => Marked path client db.files) ?_ ?_
    · exact fun db e h he => serve_leavesMark h he
    · exact serve_mayUnlink_marked hmay hmayPath hmayClient hok
  intro r hr hp
  simp only [List.cons_append, Run.run_append, Run.run_cons, Run.run_nil] at hr
  rw [serve_didUnlink hdid, hdidClient, hdidPath, mem_delete] at hr
  simp [hp, hmarked r hr.1 hp] at hr

/-- Client 2 looks at `/d` before client 1 is done. -/
theorem unlink_removes_row_stat :
    (pseudoOp Sqlite.inOrder (serve (Db.empty ⟨0, []⟩) (Sqlite.inOrder,
        exMsg .creat 1 (ascii ['/', 'd']) 5))
      (exMsg .mayUnlink 1 (ascii ['/', 'd']) 5)).msg.result = .succeed ∧
    ∀ r ∈ (Run.run serve (serve (Db.empty ⟨0, []⟩) (Sqlite.inOrder,
        exMsg .creat 1 (ascii ['/', 'd']) 5)) ((Sqlite.inOrder,
          exMsg .mayUnlink 1 (ascii ['/', 'd']) 5) ::
            [(Sqlite.inOrder, exMsg .stat 2 (ascii ['/', 'd']) 5)] ++ [exUnlinked])).files,
      r.path ≠ ascii ['/', 'd'] := by
  refine ⟨by decide, unlink_removes_row _ _ 1 _ exUnlinked _ ⟨by decide, by decide, by decide⟩
    (by decide) ⟨⟨?_, ?_, ?_, ?_⟩, trivial⟩ ⟨by decide, by decide, by decide⟩⟩
  · intro r hr
    have hnone : linked Sqlite.inOrder (serve (serve (Db.empty ⟨0, []⟩) (Sqlite.inOrder,
        exMsg .creat 1 (ascii ['/', 'd']) 5)) (Sqlite.inOrder,
          exMsg .mayUnlink 1 (ascii ['/', 'd']) 5))
        (request (exMsg .stat 2 (ascii ['/', 'd']) 5)) = none := by decide
    exact absurd (hnone.symm.trans hr) (by simp)
  · exact fun h => absurd h (by decide)
  · exact fun h => absurd h (by decide)
  · exact fun h => absurd h (by decide)

/-- Client 2 is about to remove `/d` as well, or fails to, before client 1 is done: the row is
not removed, though client 1's mark was acknowledged. -/
theorem unlink_mark_overwritten :
    (pseudoOp Sqlite.inOrder (serve (Db.empty ⟨0, []⟩) (Sqlite.inOrder,
        exMsg .creat 1 (ascii ['/', 'd']) 5))
      (exMsg .mayUnlink 1 (ascii ['/', 'd']) 5)).msg.result = .succeed ∧
    ∀ op ∈ [Op.mayUnlink, Op.cancelUnlink],
      ∃ r ∈ (Run.run serve (Db.empty ⟨0, []⟩) (exUnlinking ++
          [(Sqlite.inOrder, exMsg op 2 (ascii ['/', 'd']) 5), exUnlinked])).files,
        r.path = ascii ['/', 'd'] := by
  decide

end Pseudo
