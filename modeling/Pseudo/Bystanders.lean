import Pseudo.Attributes
import Pseudo.Rename
import Pseudo.Sweeps

/-!
# The attributes of other files

A message is about its own inode and about the files at its path, at its old path and below them.
The attributes of every other file are to be left alone, also where that file has no row.

Two clean-ups do not know which inodes they are for, and sweep the whole table. The others compare
device numbers after `sqlite3_bind_int` has cut them to 32 bits.

Results:
1. `kept_iff`, `replaced_iff`: when a removal and a change of values leave a file alone.
2. `opRename_attrsOf`, `opSetXattr_attrsOf_iff`: what renames and requests about attributes do.
3. `bystanders_iff`: the attributes of other files are left alone exactly when the sweeps find no
   other file without a row, and no other file's device is taken for that of the message.
4. `unlink_sweeps_unrecorded`: removing a file removes the attributes of a file without a row.
-/

namespace Pseudo

open Table Cleanup

/-- The row is at the path or below it. -/
def Within (path : Bytes) (r : FileRow) : Prop := r.path = path ∨ below path r = true

instance (path : Bytes) (r : FileRow) : Decidable (Within path r) :=
  inferInstanceAs (Decidable (_ ∨ _))

/-- The old path of a rename. -/
def Request.oldName (req : Request) : Option Bytes :=
  if req.hdr.op = .rename then req.oldpath.map cstr else none

/-- The file `(dev, ino)` is not the message's own, and has no row at its path, at its old path or
below them. -/
structure Foreign (m : PseudoMsg) (t : List FileRow) (dev ino : BitVec 64) : Prop where
  own : (dev, ino) ≠ (m.hdr.dev, m.hdr.ino)
  path : m.hdr.pathlen ≠ 0 →
    ∀ r ∈ t, (columnInt64 r.dev, r.ino) = (dev, ino) → ¬ Within (request m).path r
  old : ∀ old ∈ (request m).oldName,
    ∀ r ∈ t, (columnInt64 r.dev, r.ino) = (dev, ino) → ¬ Within old r

instance (m : PseudoMsg) (t : List FileRow) (dev ino : BitVec 64) :
    Decidable (Foreign m t dev ino) :=
  decidable_of_iff ((dev, ino) ≠ (m.hdr.dev, m.hdr.ino) ∧
      (m.hdr.pathlen ≠ 0 →
        ∀ r ∈ t, (columnInt64 r.dev, r.ino) = (dev, ino) → ¬ Within (request m).path r) ∧
      ∀ old ∈ (request m).oldName,
        ∀ r ∈ t, (columnInt64 r.dev, r.ino) = (dev, ino) → ¬ Within old r)
    ⟨fun ⟨h1, h2, h3⟩ => ⟨h1, h2, h3⟩, fun ⟨h1, h2, h3⟩ => ⟨h1, h2, h3⟩⟩

/-- The attributes of a file. -/
def attrsOf (dev ino : BitVec 64) (t : List XattrRow) : List XattrRow :=
  t.filter fun x => x.dev == dev && x.ino == ino

section Foreign
variable {sq : Sqlite} {db : Db} {m : PseudoMsg} {t : List FileRow} {x : XattrRow}

/-- The rows of a foreign file are elsewhere. -/
theorem Foreign.apart (h : Foreign m t x.dev x.ino) (hlen : (request m).msg.pathlen ≠ 0)
    {r : FileRow} (hr : r ∈ t) (ho : r.owns x = true) :
    r.path ≠ (request m).path ∧ below (request m).path r = false := by
  have hout := h.path (request_pathlen hlen) r hr (owns_iff.mp ho)
  exact ⟨fun hp => hout (Or.inl hp), Bool.eq_false_iff.mpr fun hb => hout (Or.inr hb)⟩

theorem Foreign.outside (h : Foreign m t x.dev x.ino) : Outside (request m) t x :=
  ⟨fun hlen _ hr ho => (h.apart hlen hr ho).1, fun _ hlen _ hr ho => (h.apart hlen hr ho).2⟩

end Foreign

/-! ## Lists of attributes -/

section Lists
variable {dev ino : BitVec 64} {t : List XattrRow} {wiped p : XattrRow → Bool}
  {f : XattrRow → XattrRow} {x : XattrRow}

theorem mem_attrsOf : x ∈ attrsOf dev ino t ↔ x ∈ t ∧ x.dev = dev ∧ x.ino = ino := by
  rw [attrsOf, List.mem_filter, Bool.and_eq_true, beq_iff_eq, beq_iff_eq]

theorem attrsOf_append (t t' : List XattrRow) :
    attrsOf dev ino (t ++ t') = attrsOf dev ino t ++ attrsOf dev ino t' := List.filter_append ..

theorem attrsOf_delete : attrsOf dev ino (delete wiped t) = delete wiped (attrsOf dev ino t) := by
  rw [attrsOf, attrsOf, delete, delete, List.filter_filter, List.filter_filter]
  exact List.filter_congr fun x _ => Bool.and_comm ..

theorem attrsOf_update (hdev : ∀ x, (f x).dev = x.dev) (hino : ∀ x, (f x).ino = x.ino) :
    attrsOf dev ino (update p f t) = update p f (attrsOf dev ino t) := by
  rw [attrsOf, attrsOf, update, update, List.filter_map]
  refine congrArg _ (List.filter_congr fun x _ => ?_)
  show ((if p x then f x else x).dev == dev && (if p x then f x else x).ino == ino) = _
  split
  · rw [hdev, hino]
  · rfl

theorem delete_eq_self_iff {α : Type} {p : α → Bool} {t : List α} :
    delete p t = t ↔ ∀ r ∈ t, p r = false := by
  refine ⟨fun h r hr => ?_, delete_eq_self⟩
  rw [← h] at hr
  exact (mem_delete.mp hr).2

/-- When removing rows leaves a file alone. -/
theorem kept_iff : attrsOf dev ino (delete wiped t) = attrsOf dev ino t ↔
    ∀ x ∈ t, x.dev = dev ∧ x.ino = ino → wiped x = false := by
  rw [attrsOf_delete, delete_eq_self_iff]
  exact ⟨fun h x hx hk => h x (mem_attrsOf.mpr ⟨hx, hk⟩),
    fun h x hx => h x (mem_attrsOf.mp hx).1 (mem_attrsOf.mp hx).2⟩

/-- When removing rows and giving others new values leaves a file alone. -/
theorem replaced_iff (hdev : ∀ x, (f x).dev = x.dev) (hino : ∀ x, (f x).ino = x.ino) :
    attrsOf dev ino (update p f (delete wiped t)) = attrsOf dev ino t ↔
      ∀ x ∈ t, x.dev = dev ∧ x.ino = ino → wiped x = false ∧ (p x = true → f x = x) := by
  rw [attrsOf_update hdev hino, attrsOf_delete]
  constructor
  · intro h
    have hlen := congrArg List.length h
    have hsame : delete wiped (attrsOf dev ino t) = attrsOf dev ino t := by
      refine List.filter_sublist.eq_of_length ?_
      unfold update at hlen
      rwa [List.length_map] at hlen
    rw [hsame] at h
    intro x hx hk
    have hmem := mem_attrsOf.mpr ⟨hx, hk⟩
    refine ⟨delete_eq_self_iff.mp hsame x hmem, fun hp => ?_⟩
    have hmap : ∀ y ∈ attrsOf dev ino t, (if p y then f y else y) = y :=
      List.map_inj_left.mp (h.trans (List.map_id _).symm)
    have hy := hmap x hmem
    rwa [if_pos hp] at hy
  · intro h
    rw [delete_eq_self fun x hx => (h x (mem_attrsOf.mp hx).1 (mem_attrsOf.mp hx).2).1]
    exact update_eq_self fun x hx => (h x (mem_attrsOf.mp hx).1 (mem_attrsOf.mp hx).2).2

end Lists

/-! ## Renames -/

/-- The rows that copying appends to the table. -/
def copiedRows (t : List XattrRow) (dev ino : BitVec 64) : List XattrRow → List XattrRow
  | [] => []
  | x :: rest =>
    { id := nextId t, dev := dev, ino := ino, name := x.name, value := x.value } ::
      copiedRows (insertXattr t dev ino x.name x.value) dev ino rest

/-- The inode whose attributes a rename copies: that of the row which the static buffer leads to. -/
def renameSource (sq : Sqlite) (req : Request) (c : Checked) : Option (BitVec 32 × BitVec 64) :=
  if c.lk.msg.pathlen = 0 then none
  else (c.db.oldmsg.copy c.lk.msg req.path).find sq
    (pdbRenameFile true true c.db (req.oldpath.map cstr) c.lk.msg req.path).1.files

/-- The attributes that a rename gives to the inode in the buffer. -/
def renameCopies (sq : Sqlite) (req : Request) (c : Checked) : List XattrRow :=
  match renameSource sq req c with
  | none => []
  | some k =>
    copiedRows c.db.xattrs (columnInt64 (bindInt c.lk.msg.dev)) c.lk.msg.ino
      (c.db.xattrs.filter fun x => x.hasKey k)

section Rename
variable {sq : Sqlite} {db : Db} {m : PseudoMsg} {c : Checked} {req : Request}
  {dev ino : BitVec 64}

theorem pdbCopyXattrs_xattrs (db : Db) (k : BitVec 32 × BitVec 64) (msg : MsgHeader) :
    (pdbCopyXattrs db k msg).xattrs = db.xattrs ++ copiedRows db.xattrs
      (columnInt64 (bindInt msg.dev)) msg.ino (db.xattrs.filter fun x => x.hasKey k) := by
  have hfold : ∀ (found t : List XattrRow) (d i : BitVec 64),
      found.foldl (fun t x => insertXattr t d i x.name x.value) t =
        t ++ copiedRows t d i found := by
    intro found
    induction found with
    | nil =>
      intro t d i
      exact (List.append_nil t).symm
    | cons x rest ih =>
      intro t d i
      rw [List.foldl_cons, ih]
      exact List.append_assoc ..
  unfold pdbCopyXattrs
  dsimp only
  rw [signedIno_eq]
  exact hfold ..

theorem mem_copiedRows {t found : List XattrRow} {x : XattrRow}
    (h : x ∈ copiedRows t dev ino found) : x.dev = dev ∧ x.ino = ino := by
  induction found generalizing t with
  | nil => cases h
  | cons y rest ih =>
    rcases List.mem_cons.mp h with rfl | hrest
    · exact ⟨rfl, rfl⟩
    · exact ih hrest

theorem mem_renameCopies {x : XattrRow} (h : x ∈ renameCopies sq req c) :
    x.dev = columnInt64 (bindInt c.lk.msg.dev) ∧ x.ino = c.lk.msg.ino := by
  unfold renameCopies at h
  split at h
  · cases h
  · exact mem_copiedRows h

theorem pdbRenameFile_xattrs (old : Option Bytes) (msg : MsgHeader) (path : Bytes) (db : Db) :
    (pdbRenameFile true true db old msg path).1.xattrs = db.xattrs ∧
      (pdbRenameFile true true db old msg path).1.oldmsg = db.oldmsg := by
  unfold pdbRenameFile
  split <;> exact ⟨rfl, rfl⟩

/-- A rename adds its copies, and cleans up behind the inode that it copied from. -/
theorem opRename_xattrs : (opRename sq req c).db.xattrs =
    match renameSource sq req c with
    | none => c.db.xattrs
    | some k => delete (fun x => x.hasKey k && orphan FileRow.owns (opRename sq req c).db.files x)
        (c.db.xattrs ++ renameCopies sq req c) := by
  obtain ⟨hxattrs, holdmsg⟩ :=
    pdbRenameFile_xattrs (req.oldpath.map cstr) c.lk.msg req.path c.db
  unfold opRename pdbUpdateInode renameCopies renameSource
  dsimp only
  by_cases hlen : c.lk.msg.pathlen = 0
  · rw [if_pos hlen, if_pos hlen]
    exact hxattrs
  · rw [if_neg hlen, if_neg hlen, holdmsg]
    cases (c.db.oldmsg.copy c.lk.msg req.path).find sq
        (pdbRenameFile true true c.db (req.oldpath.map cstr) c.lk.msg req.path).1.files with
    | none => exact hxattrs
    | some k =>
      dsimp only
      rw [pdbCheckXattrs_eq, clearXattrs_eq]
      have hkey : MsgHeader.key { c.lk.msg with dev := columnInt64 k.1, ino := k.2 } = k := by
        simp [MsgHeader.key]
      rw [hkey]
      dsimp only [pdbClearXattrs_files, pdbCopyXattrs_files]
      rw [pdbCopyXattrs_xattrs]
      dsimp only
      rw [hxattrs]

theorem renameRow_key (old new : Bytes) (r : FileRow) : (renameRow old new r).key = r.key := by
  unfold renameRow
  dsimp only
  split <;> split <;> rfl

/-- Renaming leaves the rows outside of the old path as they are. -/
theorem mem_renameFile {old : Option Bytes} {msg : MsgHeader} {path : Bytes} {r : FileRow}
    (hr : r ∈ (pdbRenameFile true true db old msg path).1.files) :
    ∃ s ∈ db.files, s.key = r.key ∧ ((∀ p ∈ old, ¬ Within p s) → r = s) := by
  by_cases hlen : msg.pathlen = 0
  · have hsame : (pdbRenameFile true true db old msg path).1 = db := by
      unfold pdbRenameFile
      rw [hlen]
    rw [hsame] at hr
    exact ⟨r, hr, rfl, fun _ => rfl⟩
  · cases old with
    | none =>
      have hsame : (pdbRenameFile true true db none msg path).1 = db := by
        unfold pdbRenameFile
        split <;> first | rfl | (rename_i h; cases h)
      rw [hsame] at hr
      exact ⟨r, hr, rfl, fun _ => rfl⟩
    | some old =>
      rw [RenameLemmas.renameFile_files db old path msg hlen] at hr
      obtain ⟨s, hs, rfl⟩ := List.mem_map.mp hr
      refine ⟨s, hs, (renameRow_key old path s).symm, fun hout => ?_⟩
      have hnot : ¬ Within old s := hout old rfl
      exact RenameLemmas.renameRow_other (fun hp => hnot (Or.inl hp))
        (Bool.eq_false_iff.mpr fun hb => hnot (Or.inr hb))

/-- A rename takes no row from a foreign file. -/
theorem foreign_keeps_row {x : XattrRow} {k : BitVec 32 × BitVec 64}
    (hop : (request m).hdr.op = .rename) (h : Foreign m db.files x.dev x.ino)
    (hsource : renameSource sq (request m) (checked sq db (request m)) = some k)
    (hk : x.hasKey k = true) : orphan FileRow.owns
      (opRename sq (request m) (checked sq db (request m))).db.files x = false := by
  unfold renameSource at hsource
  split at hsource
  · cases hsource
  · rename_i hlen
    unfold OldMsg.find at hsource
    split at hsource
    · cases hsource
    · obtain ⟨r, hr, hrk⟩ := Option.map_eq_some_iff.mp hsource
      obtain ⟨s, hs, hsk, hsame⟩ := mem_renameFile (mem_of_select hr)
      have hmem := mem_of_mem_checked hs
      have hsx : s.owns x = true := (owns_iff_key hk).mpr (hsk.trans hrk)
      have hold : ∀ p ∈ (request m).oldpath.map cstr, ¬ Within p s := by
        intro p hp
        refine h.old p ?_ s hmem (owns_iff.mp hsx)
        unfold Request.oldName
        rwa [if_pos hop]
      have hrs := hsame hold
      have hout := h.apart (lookup_pathlen hlen) hmem hsx
      have hfiles : (opRename sq (request m) (checked sq db (request m))).db.files =
          setInode (lookup sq db (request m)).msg (request m).path
            (pdbRenameFile true true (checked sq db (request m)).db
              ((request m).oldpath.map cstr) (lookup sq db (request m)).msg
              (request m).path).1.files := by
        show (pdbUpdateInode ..).files = _
        rw [pdbUpdateInode_files]
        exact if_neg hlen
      rw [hfiles]
      refine orphan_eq_false.mpr ⟨s, mem_update_of_not (hrs ▸ mem_of_select hr) ?_, hsx⟩
      exact atPath_eq_false.mpr hout.1

/-- What a rename does to the attributes of a foreign file. -/
theorem opRename_attrsOf (hop : (request m).hdr.op = .rename) (h : Foreign m db.files dev ino) :
    attrsOf dev ino (opRename sq (request m) (checked sq db (request m))).db.xattrs =
      attrsOf dev ino (checked sq db (request m)).db.xattrs ++
        attrsOf dev ino (renameCopies sq (request m) (checked sq db (request m))) := by
  rw [← attrsOf_append, opRename_xattrs]
  cases hsource : renameSource sq (request m) (checked sq db (request m)) with
  | none =>
    have hnone : renameCopies sq (request m) (checked sq db (request m)) = [] := by
      unfold renameCopies
      rw [hsource]
    rw [hnone, List.append_nil]
  | some k =>
    dsimp only
    rw [attrsOf_delete, delete_eq_self]
    intro x hx
    obtain ⟨_, rfl, rfl⟩ := mem_attrsOf.mp hx
    cases hk : x.hasKey k with
    | false => rfl
    | true =>
      rw [foreign_keeps_row hop h hsource hk]
      rfl

end Rename

/-! ## Requests about attributes -/

/-- The flags of the requests that set an attribute. -/
def Op.setFlags : Op → Option XattrFlags
  | .createXattr => some .create
  | .replaceXattr => some .replace
  | .setXattr => some XattrFlags.none
  | _ => Option.none

/-- The row that a request sets, when it sets one that exists. -/
def setRow (sq : Sqlite) (req : Request) (c : Checked) : Option XattrRow :=
  if req.hdr.op.setFlags = some .create then none
  else select sq.xattrs (atName c.lk.msg (cstr (req.oldpath.getD []))) c.db.xattrs

section Set
variable {sq : Sqlite} {db : Db} {m : PseudoMsg} {dev ino : BitVec 64} {wiped : XattrRow → Bool}
  {flags : XattrFlags}

/-- The row that a request inserts belongs to the message's own file, or to the one at its path. -/
theorem Foreign.not_buffer (h : Foreign m db.files dev ino) :
    ¬ ((lookup sq db (request m)).msg.dev = dev ∧ (lookup sq db (request m)).msg.ino = ino) := by
  have hreq := request_proper m
  have hown : ¬ ((request m).hdr.dev = dev ∧ (request m).hdr.ino = ino) := by
    rintro ⟨hdev, hino⟩
    rw [request_hdr] at hdev hino
    exact h.own (by rw [← hdev, ← hino])
  have hmsg : (request m).msg.dev = (request m).hdr.dev ∧
      (request m).msg.ino = (request m).hdr.ino := by
    rw [hreq.msg_eq]
    exact ⟨rfl, rfl⟩
  rcases lookup_cases sq db (request m) with hex | hs | hab
  · obtain ⟨_, _, _, _, _, he⟩ := lookup_exact hex
    rw [he]
    exact hown
  · obtain ⟨r, hr, hp, hlen, _, he, _⟩ := lookup_stale hs
    rw [he]
    rintro ⟨hdev, hino⟩
    exact h.path (request_pathlen hlen) r hr (Prod.ext hdev hino) (Or.inl hp)
  · rw [(lookup_absent hab).2.1, hmsg.1, hmsg.2]
    exact hown

/-- An attribute that is inserted is none of a foreign file. -/
theorem Foreign.attrsOf_insertXattr (h : Foreign m db.files dev ino) (t : List XattrRow)
    (name value : Bytes) :
    attrsOf dev ino (insertXattr t (lookup sq db (request m)).msg.dev
      (signedIno (lookup sq db (request m)).msg.ino) name value) = attrsOf dev ino t := by
  unfold insertXattr
  rw [attrsOf_append, signedIno_eq]
  refine List.append_right_eq_self.mpr (List.filter_eq_nil_iff.mpr fun x hx hk => ?_)
  obtain rfl := List.mem_singleton.mp hx
  rw [Bool.and_eq_true, beq_iff_eq, beq_iff_eq] at hk
  exact h.not_buffer hk

/-- The condition of a request that sets no row which exists. -/
theorem unset_iff (hrow : setRow sq (request m) (checked sq db (request m)) = none)
    {t : List XattrRow} :
    (∀ x ∈ t, x.dev = dev ∧ x.ino = ino → wiped x = false) ↔
      ∀ x ∈ t, x.dev = dev ∧ x.ino = ino → wiped x = false ∧
        ∀ y ∈ setRow sq (request m) (checked sq db (request m)),
          x.id = (BitVec.ofInt 32 y.id).toInt →
            x.value = storedText ((request m).oldpath.getD []) (request m).oldpathlen := by
  rw [hrow]
  refine forall₂_congr fun x _ => forall_congr' fun _ => (and_iff_left fun y hy => ?_).symm
  cases hy

/-- When a request that sets an attribute leaves a foreign file alone. -/
theorem opSetXattr_attrsOf_iff (hflags : (request m).hdr.op.setFlags = some flags)
    (h : Foreign m db.files dev ino)
    (hwiped : (checked sq db (request m)).db.xattrs = delete wiped db.xattrs) :
    attrsOf dev ino (opSetXattr sq flags (request m) (checked sq db (request m))).db.xattrs =
        attrsOf dev ino db.xattrs ↔
      ∀ x ∈ db.xattrs, x.dev = dev ∧ x.ino = ino → wiped x = false ∧
        ∀ y ∈ setRow sq (request m) (checked sq db (request m)),
          x.id = (BitVec.ofInt 32 y.id).toInt →
            x.value = storedText ((request m).oldpath.getD []) (request m).oldpathlen := by
  have hkept : attrsOf dev ino (checked sq db (request m)).db.xattrs = attrsOf dev ino db.xattrs ↔
      ∀ x ∈ db.xattrs, x.dev = dev ∧ x.ino = ino → wiped x = false := by
    rw [hwiped]
    exact kept_iff
  unfold opSetXattr
  dsimp only
  cases hsel : select sq.xattrs (atName (lookup sq db (request m)).msg
      (cstr ((request m).oldpath.getD []))) (checked sq db (request m)).db.xattrs with
  | none =>
    have hrow : setRow sq (request m) (checked sq db (request m)) = none := by
      unfold setRow
      split
      · rfl
      · exact hsel
    rw [checked_lk, pdbSetXattr_none hsel, ← unset_iff hrow]
    split
    · exact hkept
    · dsimp only
      rw [h.attrsOf_insertXattr]
      exact hkept
  | some y =>
    rw [checked_lk, pdbSetXattr_some hsel]
    by_cases hcreate : flags = .create
    · have hrow : setRow sq (request m) (checked sq db (request m)) = none :=
        if_pos (hflags.trans (congrArg some hcreate))
      rw [if_pos hcreate, ← unset_iff hrow]
      exact hkept
    · have hrow : setRow sq (request m) (checked sq db (request m)) = some y := by
        unfold setRow
        rw [if_neg fun he => hcreate (Option.some.inj (hflags.symm.trans he))]
        exact hsel
      have hsame : ∀ x : XattrRow, ({ x with
          value := storedText ((request m).oldpath.getD []) (request m).oldpathlen } = x ↔
          x.value = storedText ((request m).oldpath.getD []) (request m).oldpathlen) :=
        fun x => ⟨fun h => (congrArg XattrRow.value h).symm, fun h => by rw [← h]⟩
      rw [if_neg hcreate, hrow, hwiped]
      refine (replaced_iff (f := fun y : XattrRow => { y with
        value := storedText ((request m).oldpath.getD []) (request m).oldpathlen })
        (fun _ => rfl) (fun _ => rfl)).trans ?_
      refine forall₂_congr fun x _ => forall_congr' fun _ => and_congr_right fun _ => ?_
      rw [beq_iff_eq, hsame]
      exact ⟨fun hx z hz hid => hx (by cases hz; exact hid), fun hx hid => hx y rfl hid⟩

end Set

/-! ## The whole message -/

/-- Handling the message sweeps the whole table of attributes. -/
def Sweeps (sq : Sqlite) (db : Db) (req : Request) : Prop :=
  Yields req (lookup sq db req) ∨
    aborts req (lookup sq db req) = false ∧ Empties req (lookup sq db req)

instance (sq : Sqlite) (db : Db) (req : Request) : Decidable (Sweeps sq db req) :=
  inferInstanceAs (Decidable (_ ∨ _ ∧ _))

/-- The message leaves the attributes of every foreign file as they are. -/
def LeavesForeign (sq : Sqlite) (db : Db) (m : PseudoMsg) : Prop :=
  ∀ dev ino, Foreign m db.files dev ino →
    attrsOf dev ino (pseudoOp sq db m).db.xattrs = attrsOf dev ino db.xattrs

/-- A sweep finds a row for every foreign file with attributes, and where the message is about its
own inode, no foreign file's device is taken for the message's: nothing is cleared or removed for
that inode, nothing else is set, and a rename copies exactly what the checks had cleared. -/
structure Spares (sq : Sqlite) (db : Db) (m : PseudoMsg) : Prop where
  swept : Sweeps sq db (request m) →
    ∀ x ∈ db.xattrs, Foreign m db.files x.dev x.ino → Owned db.files x
  cleared : aborts (request m) (lookup sq db (request m)) = false → m.hdr.op ≠ .rename →
    ClearsOwn (request m) (checked sq db (request m)) db.files →
      ∀ x ∈ db.xattrs, Foreign m db.files x.dev x.ino → x.hasKey m.hdr.key = false
  removed : aborts (request m) (lookup sq db (request m)) = false → m.hdr.op = .removeXattr →
    ∀ x ∈ db.xattrs, Foreign m db.files x.dev x.ino →
      atName (lookup sq db (request m)).msg
        (bindText ((request m).oldpath.getD []) (request m).oldpathlen) x = false
  set : aborts (request m) (lookup sq db (request m)) = false → m.hdr.op.setFlags.isSome →
    ∀ y ∈ setRow sq (request m) (checked sq db (request m)),
      ∀ x ∈ db.xattrs, Foreign m db.files x.dev x.ino → x.id = (BitVec.ofInt 32 y.id).toInt →
        x.value = storedText ((request m).oldpath.getD []) (request m).oldpathlen
  renamed : aborts (request m) (lookup sq db (request m)) = false → m.hdr.op = .rename →
    (lookup sq db (request m)).foundPath = false →
    Foreign m db.files (columnInt64 (bindInt m.hdr.dev)) m.hdr.ino →
      renameCopies sq (request m) (checked sq db (request m)) =
        if (lookup sq db (request m)).foundIno = true ∧
            typeMismatch (lookup sq db (request m)).byIno (request m).hdr = true then
          attrsOf (columnInt64 (bindInt m.hdr.dev)) m.hdr.ino db.xattrs
        else []

section Message
variable {sq : Sqlite} {db : Db} {m : PseudoMsg}

/-- A property of the files is one of their attributes. -/
theorem leavesForeign_iff_of {P : XattrRow → Prop}
    (h : ∀ dev ino, Foreign m db.files dev ino →
      (attrsOf dev ino (pseudoOp sq db m).db.xattrs = attrsOf dev ino db.xattrs ↔
        ∀ x ∈ db.xattrs, x.dev = dev ∧ x.ino = ino → P x)) :
    LeavesForeign sq db m ↔ ∀ x ∈ db.xattrs, Foreign m db.files x.dev x.ino → P x := by
  constructor
  · intro hl x hx hf
    exact (h x.dev x.ino hf).mp (hl x.dev x.ino hf) x hx ⟨rfl, rfl⟩
  · intro hp dev ino hf
    refine (h dev ino hf).mpr fun x hx hk => hp x hx ?_
    rwa [hk.1, hk.2]

/-- A message that is refused. -/
theorem refused_leavesForeign_iff (habort : aborts (request m) (lookup sq db (request m)) = true) :
    LeavesForeign sq db m ↔ Spares sq db m := by
  have hiff : LeavesForeign sq db m ↔ ∀ x ∈ db.xattrs, Foreign m db.files x.dev x.ino →
      clears (checkPathScript (request m) (lookup sq db (request m))) db.files x = false := by
    refine leavesForeign_iff_of fun dev ino _ => ?_
    rw [pseudoOp_refused_xattrs habort]
    exact kept_iff
  have hsweeps : Sweeps sq db (request m) ↔ Yields (request m) (lookup sq db (request m)) := by
    unfold Sweeps
    rw [habort]
    simp
  have hlive : ∀ {P : Prop}, aborts (request m) (lookup sq db (request m)) = false → P := by
    intro P hno
    rw [habort] at hno
    cases hno
  rw [hiff]
  constructor
  · intro h
    refine ⟨fun hs x hx hf => ?_, hlive, hlive, hlive, hlive⟩
    by_contra hown
    have hgone := (checkPath_clears_outside (request_proper m) hf.outside).mpr ⟨hsweeps.mp hs, hown⟩
    rw [h x hx hf] at hgone
    cases hgone
  · intro h x hx hf
    refine Bool.eq_false_iff.mpr fun hc => ?_
    obtain ⟨hy, hown⟩ := (checkPath_clears_outside (request_proper m) hf.outside).mp hc
    exact hown (h.swept (hsweeps.mpr hy) x hx hf)

/-- The part of the condition that is about the clean-ups. -/
theorem clears_false_iff (hlive : aborts (request m) (lookup sq db (request m)) = false) :
    (∀ x ∈ db.xattrs, Foreign m db.files x.dev x.ino →
        clears (script sq db (request m)) db.files x = false) ↔
      (Sweeps sq db (request m) →
          ∀ x ∈ db.xattrs, Foreign m db.files x.dev x.ino → Owned db.files x) ∧
        (ClearsOwn (request m) (checked sq db (request m)) db.files →
          ∀ x ∈ db.xattrs, Foreign m db.files x.dev x.ino → x.hasKey m.hdr.key = false) := by
  have hsweeps : Sweeps sq db (request m) ↔ Yields (request m) (lookup sq db (request m)) ∨
      Empties (request m) (lookup sq db (request m)) := by
    unfold Sweeps
    rw [hlive]
    simp
  constructor
  · intro h
    refine ⟨fun hs x hx hf => ?_, fun hc x hx hf => ?_⟩
    · by_contra hown
      have hgone := (script_clears_iff sq (request_proper m) hf.outside).mpr
        (Or.inl ⟨hsweeps.mp hs, hown⟩)
      rw [h x hx hf] at hgone
      cases hgone
    · refine Bool.eq_false_iff.mpr fun hk => ?_
      have hgone := (script_clears_iff sq (request_proper m) hf.outside).mpr
        (Or.inr ⟨hc, by rwa [request_hdr_key]⟩)
      rw [h x hx hf] at hgone
      cases hgone
  · rintro ⟨hswept, hcleared⟩ x hx hf
    refine Bool.eq_false_iff.mpr fun hc => ?_
    rcases (script_clears_iff sq (request_proper m) hf.outside).mp hc with ⟨hs, hown⟩ | ⟨hown, hk⟩
    · exact hown (hswept (hsweeps.mpr hs) x hx hf)
    · rw [request_hdr_key, hcleared hown x hx hf] at hk
      cases hk

/-- The operations that have no script start from what the checks leave. -/
theorem checked_xattrs (hop : m.hdr.op.scripted = false) :
    (checked sq db (request m)).db.xattrs =
      delete (clears (script sq db (request m)) db.files) db.xattrs := by
  have hnil : opScript (request m) (checked sq db (request m)) = [] := by
    unfold opScript
    rw [request_hdr_op]
    cases hkind : m.hdr.op <;> rw [hkind] at hop <;> first | rfl | cases hop
  have hscript : script sq db (request m) =
      checkScript (request m) (lookup sq db (request m)) := by
    unfold script
    rw [hnil, List.append_nil]
  rw [hscript]
  exact checked_follows.xattrs

theorem scripted_leavesForeign_iff (hop : m.hdr.op.scripted = true)
    (hlive : aborts (request m) (lookup sq db (request m)) = false) :
    LeavesForeign sq db m ↔ Spares sq db m := by
  have hiff : LeavesForeign sq db m ↔ ∀ x ∈ db.xattrs, Foreign m db.files x.dev x.ino →
      clears (script sq db (request m)) db.files x = false := by
    refine leavesForeign_iff_of fun dev ino _ => ?_
    rw [pseudoOp_xattrs hop hlive]
    exact kept_iff
  have hremove : m.hdr.op ≠ .removeXattr := by
    rintro he
    rw [he] at hop
    cases hop
  have hrename : m.hdr.op ≠ .rename := by
    rintro he
    rw [he] at hop
    cases hop
  have hset : ¬ m.hdr.op.setFlags.isSome := by
    revert hop
    cases m.hdr.op <;> simp [Op.scripted, Op.setFlags]
  rw [hiff, clears_false_iff hlive]
  constructor
  · rintro ⟨hswept, hcleared⟩
    exact ⟨hswept, fun _ _ => hcleared, fun _ he => absurd he hremove, fun _ he => absurd he hset,
      fun _ he => absurd he hrename⟩
  · intro h
    exact ⟨h.swept, h.cleared hlive hrename⟩

theorem remove_leavesForeign_iff (hop : m.hdr.op = .removeXattr)
    (hlive : aborts (request m) (lookup sq db (request m)) = false) :
    LeavesForeign sq db m ↔ Spares sq db m := by
  have hchecked : (checked sq db (request m)).db.xattrs =
      delete (clears (script sq db (request m)) db.files) db.xattrs :=
    checked_xattrs (by rw [hop]; rfl)
  have hout : (pseudoOp sq db m).db.xattrs =
      delete (atName (lookup sq db (request m)).msg
          (bindText ((request m).oldpath.getD []) (request m).oldpathlen))
        (delete (clears (script sq db (request m)) db.files) db.xattrs) := by
    rw [handled_xattrs hlive, ← hchecked]
    unfold opAction
    rw [request_hdr_op, hop]
    rfl
  have hiff : LeavesForeign sq db m ↔ ∀ x ∈ db.xattrs, Foreign m db.files x.dev x.ino →
      clears (script sq db (request m)) db.files x = false ∧
        atName (lookup sq db (request m)).msg
          (bindText ((request m).oldpath.getD []) (request m).oldpathlen) x = false := by
    refine leavesForeign_iff_of fun dev ino _ => ?_
    rw [hout, delete_delete, kept_iff]
    simp only [Bool.or_eq_false_iff]
  have hrename : m.hdr.op ≠ .rename := by
    rw [hop]
    simp
  have hset : ¬ m.hdr.op.setFlags.isSome := by
    rw [hop]
    simp [Op.setFlags]
  rw [hiff]
  constructor
  · intro h
    obtain ⟨hswept, hcleared⟩ := (clears_false_iff hlive).mp fun x hx hf => (h x hx hf).1
    exact ⟨hswept, fun _ _ => hcleared, fun _ _ x hx hf => (h x hx hf).2,
      fun _ he => absurd he hset, fun _ he => absurd he hrename⟩
  · intro h x hx hf
    exact ⟨(clears_false_iff hlive).mpr ⟨h.swept, h.cleared hlive hrename⟩ x hx hf,
      h.removed hlive hop x hx hf⟩

theorem set_leavesForeign_iff {flags : XattrFlags} (hop : m.hdr.op.setFlags = some flags)
    (hlive : aborts (request m) (lookup sq db (request m)) = false) :
    LeavesForeign sq db m ↔ Spares sq db m := by
  have hscripted : m.hdr.op.scripted = false := by
    revert hop
    cases m.hdr.op <;> simp [Op.setFlags, Op.scripted]
  have hrename : m.hdr.op ≠ .rename := by
    intro he
    rw [he] at hop
    cases hop
  have hremove : m.hdr.op ≠ .removeXattr := by
    intro he
    rw [he] at hop
    cases hop
  have hout : (pseudoOp sq db m).db.xattrs =
      (opSetXattr sq flags (request m) (checked sq db (request m))).db.xattrs := by
    rw [handled_xattrs hlive]
    unfold opAction
    rw [request_hdr_op]
    cases hkind : m.hdr.op <;> rw [hkind] at hop <;> cases hop <;> rfl
  have hflags : (request m).hdr.op.setFlags = some flags := by rwa [request_hdr_op]
  have hiff : LeavesForeign sq db m ↔ ∀ x ∈ db.xattrs, Foreign m db.files x.dev x.ino →
      clears (script sq db (request m)) db.files x = false ∧
        ∀ y ∈ setRow sq (request m) (checked sq db (request m)),
          x.id = (BitVec.ofInt 32 y.id).toInt →
            x.value = storedText ((request m).oldpath.getD []) (request m).oldpathlen := by
    refine leavesForeign_iff_of fun dev ino hf => ?_
    rw [hout]
    exact opSetXattr_attrsOf_iff hflags hf (checked_xattrs hscripted)
  rw [hiff]
  constructor
  · intro h
    obtain ⟨hswept, hcleared⟩ := (clears_false_iff hlive).mp fun x hx hf => (h x hx hf).1
    exact ⟨hswept, fun _ _ => hcleared, fun _ he => absurd he hremove,
      fun _ _ y hy x hx hf => (h x hx hf).2 y hy, fun _ he => absurd he hrename⟩
  · intro h x hx hf
    refine ⟨(clears_false_iff hlive).mpr ⟨h.swept, h.cleared hlive hrename⟩ x hx hf, ?_⟩
    exact fun y hy => h.set hlive (by rw [hop]; rfl) y hy x hx hf

/-- With no row for the path, a rename copies to the message's own inode. -/
theorem renameCopies_own (hfp : (lookup sq db (request m)).foundPath = false) :
    attrsOf (columnInt64 (bindInt m.hdr.dev)) m.hdr.ino
        (renameCopies sq (request m) (checked sq db (request m))) =
      renameCopies sq (request m) (checked sq db (request m)) := by
  have hmsg : (lookup sq db (request m)).msg.key = m.hdr.key := by
    rw [(lookup_absent hfp).2.1, (request_proper m).key, request_hdr_key]
  obtain ⟨hd, hi⟩ := key_eq_iff.mp hmsg
  refine List.filter_eq_self.mpr fun x hx => ?_
  obtain ⟨hxd, hxi⟩ := mem_renameCopies hx
  rw [Bool.and_eq_true, beq_iff_eq, beq_iff_eq, ← hd, ← hi]
  exact ⟨hxd, hxi⟩

variable (sq) in
/-- It copies to no other foreign file. -/
theorem renameCopies_other {dev ino : BitVec 64} (hf : Foreign m db.files dev ino)
    (hne : ¬ ((lookup sq db (request m)).foundPath = false ∧
      dev = columnInt64 (bindInt m.hdr.dev) ∧ ino = m.hdr.ino)) :
    attrsOf dev ino (renameCopies sq (request m) (checked sq db (request m))) = [] := by
  refine List.filter_eq_nil_iff.mpr fun x hx hx' => hne ?_
  obtain ⟨hxd, hxi⟩ := mem_renameCopies hx
  rw [Bool.and_eq_true, beq_iff_eq, beq_iff_eq] at hx'
  obtain ⟨rfl, rfl⟩ := hx'
  obtain ⟨hfp, hM⟩ := hf.outside.absent (request_proper m) (hasKey_iff.mpr ⟨hxd, hxi⟩)
  rw [request_hdr_key] at hM
  obtain ⟨hdevm, hinom⟩ := key_eq_iff.mp hM
  exact ⟨hfp, hxd.trans (congrArg columnInt64 hdevm), hxi.trans hinom⟩

/-- The attributes of the message's own inode, as a file of the table would hold it, when the
checks find no row for the path. -/
theorem rename_attrsOf_own (hop : m.hdr.op = .rename)
    (hfp : (lookup sq db (request m)).foundPath = false)
    (hf : Foreign m db.files (columnInt64 (bindInt m.hdr.dev)) m.hdr.ino) :
    attrsOf (columnInt64 (bindInt m.hdr.dev)) m.hdr.ino (checked sq db (request m)).db.xattrs =
      if (lookup sq db (request m)).foundIno = true ∧
          typeMismatch (lookup sq db (request m)).byIno (request m).hdr = true then []
      else attrsOf (columnInt64 (bindInt m.hdr.dev)) m.hdr.ino db.xattrs := by
  have hop' : (request m).hdr.op = .rename := by rwa [request_hdr_op]
  have hkey : ∀ x ∈ attrsOf (columnInt64 (bindInt m.hdr.dev)) m.hdr.ino db.xattrs,
      Foreign m db.files x.dev x.ino ∧ x.hasKey (request m).hdr.key = true := by
    intro x hx
    obtain ⟨_, hxd, hxi⟩ := mem_attrsOf.mp hx
    refine ⟨by rwa [hxd, hxi], ?_⟩
    rw [request_hdr_key]
    exact hasKey_iff.mpr ⟨hxd, hxi⟩
  have hclears : ∀ x ∈ attrsOf (columnInt64 (bindInt m.hdr.dev)) m.hdr.ino db.xattrs,
      (clears (script sq db (request m)) db.files x = true ↔
        (lookup sq db (request m)).foundIno = true ∧
          typeMismatch (lookup sq db (request m)).byIno (request m).hdr = true) := by
    intro x hx
    rw [script_clears_iff sq (request_proper m) (hkey x hx).1.outside, (hkey x hx).2]
    simp [Yields, Empties, ClearsOwn, hfp, hop, Op.replacesInode]
  rw [checked_xattrs (by rw [hop]; rfl), attrsOf_delete]
  split
  · rename_i hcond
    exact List.filter_eq_nil_iff.mpr fun x hx => by simp [(hclears x hx).mpr hcond]
  · rename_i hcond
    exact delete_eq_self fun x hx => Bool.eq_false_iff.mpr fun hc => hcond ((hclears x hx).mp hc)

theorem rename_attrsOf {dev ino : BitVec 64} (hop : m.hdr.op = .rename)
    (hlive : aborts (request m) (lookup sq db (request m)) = false)
    (hf : Foreign m db.files dev ino) :
    attrsOf dev ino (pseudoOp sq db m).db.xattrs =
      attrsOf dev ino (checked sq db (request m)).db.xattrs ++
        attrsOf dev ino (renameCopies sq (request m) (checked sq db (request m))) := by
  have hop' : (request m).hdr.op = .rename := by rwa [request_hdr_op]
  have haction : opAction sq (request m) (checked sq db (request m)) =
      opRename sq (request m) (checked sq db (request m)) := by
    unfold opAction
    rw [hop']
  rw [handled_xattrs hlive, haction]
  exact opRename_attrsOf hop' hf

/-- Any other foreign file has only the checks to fear. -/
theorem rename_kept_iff {dev ino : BitVec 64} (hop : m.hdr.op = .rename)
    (hlive : aborts (request m) (lookup sq db (request m)) = false)
    (hf : Foreign m db.files dev ino)
    (hne : ¬ ((lookup sq db (request m)).foundPath = false ∧
      dev = columnInt64 (bindInt m.hdr.dev) ∧ ino = m.hdr.ino)) :
    attrsOf dev ino (pseudoOp sq db m).db.xattrs = attrsOf dev ino db.xattrs ↔
      ∀ x ∈ db.xattrs, x.dev = dev ∧ x.ino = ino →
        clears (script sq db (request m)) db.files x = false := by
  rw [rename_attrsOf hop hlive hf, renameCopies_other sq hf hne, List.append_nil,
    checked_xattrs (by rw [hop]; rfl)]
  exact kept_iff

theorem rename_leavesForeign_iff (hop : m.hdr.op = .rename)
    (hlive : aborts (request m) (lookup sq db (request m)) = false) :
    LeavesForeign sq db m ↔ Spares sq db m := by
  have hop' : (request m).hdr.op = .rename := by rwa [request_hdr_op]
  have hset : ¬ m.hdr.op.setFlags.isSome := by
    rw [hop]
    simp [Op.setFlags]
  constructor
  · intro hl
    refine ⟨fun hs x hx hf => ?_, fun _ hne => absurd hop hne, fun _ he => ?_,
      fun _ he => absurd he hset, fun _ _ hfp hf => ?_⟩
    · -- the sweep is that of the checks by path, so a row was found for the path
      have hyields : Yields (request m) (lookup sq db (request m)) := by
        refine hs.resolve_right fun h => ?_
        have hunlink := h.2.1
        rw [hop'] at hunlink
        cases hunlink
      by_contra hown
      have hgone := (script_clears_iff sq (request_proper m) hf.outside).mpr
        (Or.inl ⟨Or.inl hyields, hown⟩)
      have hkept := (rename_kept_iff hop hlive hf fun h => by
        have hfound := hyields.1
        rw [h.1] at hfound
        cases hfound).mp (hl x.dev x.ino hf)
      rw [hkept x hx ⟨rfl, rfl⟩] at hgone
      cases hgone
    · rw [hop] at he
      cases he
    · have hsame := hl _ _ hf
      rw [rename_attrsOf hop hlive hf, rename_attrsOf_own hop hfp hf, renameCopies_own hfp] at hsame
      split at hsame
      · rename_i hcond
        rw [if_pos hcond]
        exact hsame
      · rename_i hcond
        rw [if_neg hcond]
        exact List.append_right_eq_self.mp hsame
  · intro h dev ino hf
    by_cases hown : (lookup sq db (request m)).foundPath = false ∧
        dev = columnInt64 (bindInt m.hdr.dev) ∧ ino = m.hdr.ino
    · obtain ⟨hfp, rfl, rfl⟩ := hown
      rw [rename_attrsOf hop hlive hf, renameCopies_own hfp, rename_attrsOf_own hop hfp hf,
        h.renamed hlive hop hfp hf]
      split
      · rfl
      · exact List.append_nil _
    · refine (rename_kept_iff hop hlive hf hown).mpr fun x hx hk => ?_
      obtain ⟨rfl, rfl⟩ := hk
      refine Bool.eq_false_iff.mpr fun hc => ?_
      rcases (script_clears_iff sq (request_proper m) hf.outside).mp hc with
        ⟨hs, hnone⟩ | ⟨hclears, hk⟩
      · exact hnone (h.swept (hs.imp_right fun he => ⟨hlive, he⟩) x hx hf)
      · rw [request_hdr_key] at hk
        rcases hclears with ⟨hnew, _⟩ | ⟨hfp, _⟩
        · rw [hop'] at hnew
          cases hnew
        · exact hown ⟨hfp, hasKey_iff.mp hk⟩

/-- The attributes of every file but those that the message is about are left as they are, exactly
when each sweep finds a row for every one of them and no other device is taken for the
message's. -/
theorem bystanders_iff (sq : Sqlite) (db : Db) (m : PseudoMsg) :
    LeavesForeign sq db m ↔ Spares sq db m := by
  cases hab : aborts (request m) (lookup sq db (request m)) with
  | true => exact refused_leavesForeign_iff hab
  | false =>
    cases hscripted : m.hdr.op.scripted with
    | true => exact scripted_leavesForeign_iff hscripted hab
    | false =>
      cases hop : m.hdr.op <;> rw [hop] at hscripted
      case rename => exact rename_leavesForeign_iff hop hab
      case removeXattr => exact remove_leavesForeign_iff hop hab
      case createXattr => exact set_leavesForeign_iff (by rw [hop]; rfl) hab
      case replaceXattr => exact set_leavesForeign_iff (by rw [hop]; rfl) hab
      case setXattr => exact set_leavesForeign_iff (by rw [hop]; rfl) hab
      all_goals cases hscripted

end Message

/-- `/b` is recorded with inode 6, and an attribute was set on inode 5, which has no row. -/
def exUnrecorded : Db where
  files := [exRow (ascii ['/', 'b']) 6]
  xattrs := [{ id := 1, dev := 1, ino := 5, name := ascii ['a'], value := ascii ['v'] }]
  oldmsg := ⟨0, []⟩

/-- Removing `/b` removes the attribute of inode 5. -/
theorem unlink_sweeps_unrecorded :
    Foreign (exMsg .unlink 1 (ascii ['/', 'b']) 6) exUnrecorded.files 1 5 ∧
      ¬ LeavesForeign Sqlite.inOrder exUnrecorded (exMsg .unlink 1 (ascii ['/', 'b']) 6) := by
  have hf : Foreign (exMsg .unlink 1 (ascii ['/', 'b']) 6) exUnrecorded.files 1 5 := by decide
  refine ⟨hf, fun h => ?_⟩
  have hsame := h 1 5 hf
  revert hsame
  decide

/-- So does a file with another inode at the marked path of a removed one. -/
example : ¬ LeavesForeign Sqlite.inOrder
    { exUnrecorded with files := [{ exRow (ascii ['/', 'b']) 6 with deleting := 1 }] }
    (exMsg .creat 1 (ascii ['/', 'b']) 7) := by
  intro h
  have hsame := h 1 5 (by decide)
  revert hsame
  decide

end Pseudo
