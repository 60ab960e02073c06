import Pseudo.Lookup
import Pseudo.Names

/-!
# Hard links

"Multiple entries per inode": the rows of one inode are the names of one file, so they are to
agree on owner, mode and device number. Updates go to all rows of an inode at once. What can
bring a row into an inode with attributes of its own is an insertion from a message, when the
rows of its inode were not all found, and the renumbering of a renamed row.

Results:
1. `opAction_coherent`: apart from renames, no operation takes rows of one inode apart.
2. `run_coherent`, `opRename_coherent`: when an insertion and a rename do not.
3. `coherent_of_keepsLinks`: the rows of one inode agree in every state of a run that keeps to
   these conditions.
4. `chown_of_replaced_link`: the owner of a directory goes to one of two names of a file.
-/

namespace Pseudo

open Table

/-- What the rows of one inode share. -/
def FileRow.attrs (r : FileRow) : BitVec 32 × BitVec 32 × BitVec 32 × BitVec 32 :=
  (r.uid, r.gid, r.mode, r.rdev)

/-- The attributes that a header stores. -/
def MsgHeader.attrs (msg : MsgHeader) : BitVec 32 × BitVec 32 × BitVec 32 × BitVec 32 :=
  (msg.uid, msg.gid, bindInt msg.mode, bindInt msg.rdev)

/-- Rows with the same inode agree on uid, gid, mode and rdev. -/
def Coherent (t : List FileRow) : Prop :=
  ∀ r ∈ t, ∀ s ∈ t, r.key = s.key → r.attrs = s.attrs

instance (t : List FileRow) : Decidable (Coherent t) :=
  inferInstanceAs (Decidable (∀ r ∈ t, ∀ s ∈ t, _))

/-- The rows of inode `k`, apart from those at the path of the message, have the attributes. -/
def Agree (req : Request) (t : List FileRow) (k : BitVec 32 × BitVec 64)
    (attrs : BitVec 32 × BitVec 32 × BitVec 32 × BitVec 32) : Prop :=
  ∀ r ∈ t, (req.hdr.pathlen ≠ 0 → r.path ≠ req.path) → r.key = k → r.attrs = attrs

/-- A change of an unknown file stores `new`, which has the inode of the stale row that was
dropped: the other rows of that inode have to agree. -/
def ChangeKeepsLinks (req : Request) (lk : Lookup) (t : List FileRow) (new : MsgHeader) : Prop :=
  lk.Stale → typeMismatch lk.byPath req.hdr = true → lk.foundIno = false →
    Agree req t lk.msg.key new.attrs

/-- A row made for the message's inode while a stale one has its path: the rows of the inode
have to be of the same type, and where they are not found, to agree. -/
def InsertKeepsLinks (req : Request) (lk : Lookup) (t : List FileRow) : Prop :=
  lk.Stale → (lk.foundIno = true → typeMismatch lk.byIno req.hdr = false) ∧
    (lk.foundIno = false → Agree req t req.hdr.key req.hdr.attrs)

/-- A symbolic link ignores the rows of its inode, so they have to agree with it. -/
def SymlinkKeepsLinks (req : Request) (lk : Lookup) (t : List FileRow) : Prop :=
  ¬ lk.Stale → lk.foundIno = true → typeMismatch lk.byIno req.hdr = false →
    Agree req t req.hdr.key req.hdr.attrs

/-- The rows that get the new name are given the inode of the message: they have to agree with
each other and with the rows of that inode. -/
def RenameKeepsLinks (req : Request) (lk : Lookup) (t : List FileRow) (old : Bytes) : Prop :=
  ∀ r ∈ t, (renameRow old req.path r).path = req.path →
    ∀ s ∈ t, (renameRow old req.path s).path = req.path ∨ s.key = lk.msg.key →
      r.attrs = s.attrs

/-- The condition on a message and the table before it under which links stay in step. -/
def KeepsLinks (db : Db) (e : Sqlite × PseudoMsg) : Prop :=
  let req := request e.2
  let lk := lookup e.1 db req
  aborts req lk = false →
    match e.2.hdr.op with
    | .chmod | .fchmod => ChangeKeepsLinks req lk db.files { lk.msg with mode := req.hdr.mode }
    | .chown | .fchown => ChangeKeepsLinks req lk db.files (setOwner req lk.msg)
    | .link | .mkdir | .mknod => InsertKeepsLinks req lk db.files
    | .symlink => InsertKeepsLinks req lk db.files ∧ SymlinkKeepsLinks req lk db.files
    | .rename => lk.msg.pathlen ≠ 0 → ∀ old, req.oldpath = some old →
        RenameKeepsLinks req lk (delete (dropped req lk) db.files) (cstr old)
    | _ => True

namespace LinksLemmas

open NamesLemmas

section Tables
variable {t t' : List FileRow} {r : FileRow} {p : FileRow → Bool} {f : FileRow → FileRow}

theorem coherent_of_subset (h : Coherent t) (hs : t' ⊆ t) : Coherent t' :=
  fun r hr s hs' => h r (hs hr) s (hs hs')

theorem coherent_append (h : Coherent t) (hr : ∀ s ∈ t, s.key = r.key → s.attrs = r.attrs) :
    Coherent (t ++ [r]) := by
  intro a ha b hb hk
  simp only [List.mem_append, List.mem_singleton] at ha hb
  rcases ha with ha | rfl <;> rcases hb with hb | rfl
  · exact h a ha b hb hk
  · exact hr a ha hk
  · exact (hr b hb hk.symm).symm
  · rfl

/-- An update that leaves inode and attributes alone. -/
theorem coherent_update (h : Coherent t) (hf : ∀ r, (f r).key = r.key ∧ (f r).attrs = r.attrs) :
    Coherent (update p f t) := by
  have hrow : ∀ a ∈ update p f t, ∃ r ∈ t, a.key = r.key ∧ a.attrs = r.attrs := by
    intro a ha
    obtain ⟨r, hr, rfl⟩ := mem_update.mp ha
    by_cases hp : p r = true
    · exact ⟨r, hr, by simp [hp, hf]⟩
    · exact ⟨r, hr, by simp [hp]⟩
  intro a ha b hb hk
  obtain ⟨r, hr, hrk, hra⟩ := hrow a ha
  obtain ⟨s, hs, hsk, hsa⟩ := hrow b hb
  rw [hra, hsa]
  exact h r hr s hs (hrk.symm.trans (hk.trans hsk))

/-- `pdb_update_file` gives all rows of the inode the same attributes. -/
theorem coherent_setMeta {k : BitVec 32 × BitVec 64} {msg : MsgHeader} (h : Coherent t) :
    Coherent (update (atKey k) (fun r => r.setMeta msg) t) := by
  have hrow : ∀ a ∈ update (atKey k) (fun r => r.setMeta msg) t, ∃ r ∈ t, a.key = r.key ∧
      (r.key = k → a.attrs = msg.attrs) ∧ (r.key ≠ k → a.attrs = r.attrs) := by
    intro a ha
    obtain ⟨r, hr, rfl⟩ := mem_update.mp ha
    by_cases hk : r.key = k
    · rw [if_pos (atKey_iff.mpr hk)]
      exact ⟨r, hr, rfl, fun _ => rfl, fun hn => absurd hk hn⟩
    · rw [if_neg (by simpa using hk)]
      exact ⟨r, hr, rfl, fun hy => absurd hy hk, fun _ => rfl⟩
  intro a ha b hb hkey
  obtain ⟨r, hr, hrk, hr1, hr2⟩ := hrow a ha
  obtain ⟨s, hs, hsk, hs1, hs2⟩ := hrow b hb
  have hrs : r.key = s.key := hrk.symm.trans (hkey.trans hsk)
  by_cases hk : r.key = k
  · rw [hr1 hk, hs1 (hrs ▸ hk)]
  · rw [hr2 hk, hs2 (hrs ▸ hk)]
    exact h r hr s hs hrs

end Tables

section Headers

@[simp] theorem linkRow_attrs (msg : MsgHeader) (path : Bytes) :
    (linkRow msg path).attrs = msg.attrs := rfl

@[simp] theorem readRow_attrs (msg : MsgHeader) (r : FileRow) :
    (msg.readRow r).attrs = r.attrs := by
  simp [MsgHeader.attrs, MsgHeader.readRow, FileRow.attrs]

@[simp] theorem takeRow_attrs (msg : MsgHeader) (r : FileRow) :
    (msg.takeRow r).attrs = r.attrs := by
  simp [MsgHeader.attrs, MsgHeader.takeRow, MsgHeader.readRow, FileRow.attrs]

end Headers

section Actions
variable {sq : Sqlite} {req : Request} {c : Checked}

/-- Apart from renames, no operation takes rows of one inode apart before it inserts its row. -/
theorem opAction_coherent (hop : req.hdr.op ≠ .rename) (h : Coherent c.db.files) :
    Coherent (opAction sq req c).db.files := by
  refine opAction_preserves (Q := Coherent) ?_ ?_ ?_ hop h
  · exact fun p t _ ht => coherent_of_subset ht delete_subset
  · exact fun msg t _ ht => coherent_setMeta ht
  · exact fun d t _ _ ht => coherent_update ht fun _ => ⟨rfl, rfl⟩

end Actions

/-! The row that an operation inserts: `t` is the table it is appended to. -/

section Insert
variable {sq : Sqlite} {db : Db} {req : Request} {t : List FileRow} {h : MsgHeader}

/-- The new row has the inode and the attributes of a row of the table. -/
theorem coherent_append_copy (hc : Coherent db.files) (ht : t ⊆ db.files) {r : FileRow}
    (hr : r ∈ db.files) (hk : h.key = r.key) (ha : h.attrs = r.attrs) :
    Coherent (t ++ [linkRow h req.path]) := by
  refine coherent_append (coherent_of_subset hc ht) fun s hs hsk => ?_
  rw [linkRow_attrs, ha]
  exact hc s (ht hs) r hr (hsk.trans ((linkRow_key _ _).trans hk))

/-- No row of the table has the new row's inode. -/
theorem coherent_append_fresh (hc : Coherent db.files) (ht : t ⊆ db.files)
    (hno : ∀ s ∈ t, s.key ≠ h.key) : Coherent (t ++ [linkRow h req.path]) := by
  refine coherent_append (coherent_of_subset hc ht) fun s hs hsk => ?_
  exact absurd (hsk.trans (linkRow_key _ _)) (hno s hs)

/-- The rows of the new row's inode have its attributes. -/
theorem coherent_append_agree (hc : Coherent db.files) (ht : t ⊆ db.files)
    (hv : Vacant req t) (ha : Agree req db.files h.key h.attrs) :
    Coherent (t ++ [linkRow h req.path]) := by
  refine coherent_append (coherent_of_subset hc ht) fun s hs hsk => ?_
  exact ha s (ht hs) (fun hlen => hv hlen s hs) (hsk.trans (linkRow_key _ _))

theorem opLink_subset : (opLink req (checked sq db req)).db.files ⊆ db.files := by
  rw [opLink_files]
  split
  · exact fun r hr => mem_of_mem_checked (delete_subset hr)
  · exact fun r hr => mem_of_mem_checked hr

variable (hmsg : req.msg = req.hdr) (hop : req.hdr.op ≠ .didUnlink)
  (hdev : req.hdr.dev ≠ 0) (hino : req.hdr.ino ≠ 0) (hc : Coherent db.files)
include hmsg hop hdev hino hc

theorem opCreat_coherent (hreq : req.Proper)
    (hl : (opCreat (checked sq db req)).link = some h) :
    Coherent ((opCreat (checked sq db req)).db.files ++ [linkRow h req.path]) := by
  have hfp : (checked sq db req).foundPath = false := by
    cases hfp : (checked sq db req).foundPath with
    | false => rfl
    | true => simp [opCreat, hfp] at hl
  obtain ⟨rfl, -⟩ := opCreat_vacant hmsg hop hl
  have hsub : (opCreat (checked sq db req)).db.files ⊆ db.files := by
    rw [opCreat_files]
    split
    · exact fun r hr => mem_of_mem_checked (delete_subset hr)
    · exact fun r hr => mem_of_mem_checked hr
  by_cases hst : (lookup sq db req).Stale
  · obtain ⟨r, hr, _, _, _, hlk, _⟩ := lookup_stale hst
    exact coherent_append_copy hc hsub hr (by rw [hlk, MsgHeader.takeRow_key])
      (by rw [hlk, takeRow_attrs])
  · refine coherent_append_fresh hc hsub ?_
    rw [lookup_msg hmsg hst, opCreat_files, checked_lk]
    cases hfi : (checked sq db req).foundIno with
    | false =>
      rw [if_neg (by simp)]
      exact checked_no_ino hmsg hop hdev hino hst hfi
    | true =>
      have hex : ¬ (lookup sq db req).foundExact = true := by
        intro hex
        rw [checked_exact hex, hfi] at hfp
        exact absurd hfp (by simp)
      have hino' : (lookup sq db req).foundIno = true := by
        rw [checked_foundIno, Bool.and_eq_true] at hfi
        exact hfi.1
      rw [if_pos ⟨rfl, hex⟩, lookup_byIno_key hreq hino']
      exact fun s hs => atKey_eq_false.mp (mem_delete.mp hs).2

theorem opChange_coherent {merge : MsgHeader → MsgHeader} {new : MsgHeader}
    (hkey : new.key = (lookup sq db req).msg.key)
    (hkeep : ChangeKeepsLinks req (lookup sq db req) db.files new)
    (hl : (opChange merge new (checked sq db req)).link = some h) :
    Coherent ((opChange merge new (checked sq db req)).db.files ++ [linkRow h req.path]) := by
  obtain ⟨rfl, hv⟩ := opChange_vacant hmsg hop hl
  rw [opChange_link] at hl
  obtain ⟨hfp, hfi⟩ : (checked sq db req).foundPath = false ∧
      (checked sq db req).foundIno = false := by
    split at hl
    · exact absurd hl (by simp)
    · rename_i hfound
      simpa using hfound
  rw [opChange_files, hfi, hfp, if_neg (by simp), if_neg (by simp)] at hv ⊢
  have hsub : (checked sq db req).db.files ⊆ db.files := fun r hr => mem_of_mem_checked hr
  by_cases hst : (lookup sq db req).Stale
  · cases hino' : (lookup sq db req).foundIno with
    | true =>
      refine coherent_append_fresh hc hsub ?_
      rw [hkey]
      exact checked_drop_ino hop hino' hfi
    | false =>
      have hmm : typeMismatch (lookup sq db req).byPath req.hdr = true := by
        simpa [checked_foundPath, hst.1, hop] using hfp
      refine coherent_append_agree hc hsub hv ?_
      rw [hkey]
      exact hkeep hst hmm hino'
  · refine coherent_append_fresh hc hsub ?_
    rw [hkey, lookup_msg hmsg hst]
    exact checked_no_ino hmsg hop hdev hino hst hfi

/-- A row with the header of the message, when its inode was not found. -/
theorem opLink_hdr_coherent (hkeep : InsertKeepsLinks req (lookup sq db req) db.files)
    (hfi : (checked sq db req).foundIno = false) :
    Coherent ((opLink req (checked sq db req)).db.files ++ [linkRow req.hdr req.path]) := by
  by_cases hst : (lookup sq db req).Stale
  · have hino' : (lookup sq db req).foundIno = false := by
      cases hino' : (lookup sq db req).foundIno with
      | false => rfl
      | true =>
        rw [checked_foundIno, hino', (hkeep hst).1 hino'] at hfi
        simp at hfi
    exact coherent_append_agree hc opLink_subset (opLink_vacant hmsg hop) ((hkeep hst).2 hino')
  · refine coherent_append_fresh hc opLink_subset fun s hs => ?_
    refine checked_no_ino hmsg hop hdev hino hst hfi s ?_
    rw [opLink_files] at hs
    split at hs
    · exact delete_subset hs
    · exact hs

/-- `OP_LINK`: the row copies the attributes found for its inode, or none was found. -/
theorem opLink_coherent (hreq : req.Proper)
    (hkeep : InsertKeepsLinks req (lookup sq db req) db.files)
    (hsym : req.hdr.op = .symlink → SymlinkKeepsLinks req (lookup sq db req) db.files)
    (hl : (opLink req (checked sq db req)).link = some h) :
    Coherent ((opLink req (checked sq db req)).db.files ++ [linkRow h req.path]) := by
  rw [opLink_link, checked_lk] at hl
  obtain rfl := Option.some.inj hl
  cases hfi : (checked sq db req).foundIno with
  | false =>
    rw [if_neg (by simp)]
    exact opLink_hdr_coherent hmsg hop hdev hino hc hkeep hfi
  | true =>
    rw [if_pos rfl]
    obtain ⟨hino', hmm⟩ : (lookup sq db req).foundIno = true ∧
        typeMismatch (lookup sq db req).byIno req.hdr = false := by
      simpa [checked_foundIno, hop] using hfi
    split
    · rename_i hs
      by_cases hst : (lookup sq db req).Stale
      · obtain ⟨r, hr, _, _, _, hlk, _⟩ := lookup_stale hst
        exact coherent_append_copy hc opLink_subset hr (by rw [hlk, MsgHeader.takeRow_key])
          (by rw [hlk, takeRow_attrs])
      · refine coherent_append_agree hc opLink_subset (opLink_vacant hmsg hop) ?_
        rw [lookup_msg hmsg hst]
        exact hsym hs hst hino' hmm
    · obtain ⟨r, hr, hk, _, msg, _, he⟩ := lookup_ino hreq hino'
      refine coherent_append_copy hc opLink_subset hr ?_ (by rw [he, readRow_attrs])
      rw [lookup_byIno_key hreq hino', hk]

theorem opMknod_coherent (hreq : req.Proper)
    (hkeep : InsertKeepsLinks req (lookup sq db req) db.files) :
    Coherent ((opMknod req (checked sq db req)).db.files ++ [linkRow req.hdr req.path]) := by
  rw [opMknod_files]
  cases hfi : (checked sq db req).foundIno with
  | false =>
    rw [if_neg (by simp)]
    exact opLink_hdr_coherent hmsg hop hdev hino hc hkeep hfi
  | true =>
    have hino' : (lookup sq db req).foundIno = true := by
      rw [checked_foundIno, Bool.and_eq_true] at hfi
      exact hfi.1
    rw [if_pos rfl, checked_lk, lookup_byIno_key hreq hino']
    refine coherent_append_fresh hc ?_ fun s hs => atKey_eq_false.mp (mem_delete.mp hs).2
    exact fun r hr => opLink_subset (delete_subset hr)

end Insert

section Rename
variable {t : List FileRow} {old new : Bytes} {msg : MsgHeader}

@[simp] theorem renameRow_key (r : FileRow) : (renameRow old new r).key = r.key := by
  unfold renameRow
  dsimp only
  split <;> split <;> rfl

@[simp] theorem renameRow_attrs (r : FileRow) : (renameRow old new r).attrs = r.attrs := by
  unfold renameRow
  dsimp only
  split <;> split <;> rfl

/-- A row after the rename: its attributes are those it had, and its inode is the buffer's if it
has the new path. -/
theorem mem_setInode_rename {a : FileRow} (h : a ∈ setInode msg new (t.map (renameRow old new))) :
    ∃ r ∈ t, a.attrs = r.attrs ∧
      ((renameRow old new r).path = new ∧ a.key = msg.key ∨
        (renameRow old new r).path ≠ new ∧ a.key = r.key) := by
  obtain ⟨b, hb, rfl⟩ := mem_update.mp h
  obtain ⟨r, hr, rfl⟩ := List.mem_map.mp hb
  by_cases hp : (renameRow old new r).path = new
  · rw [if_pos (atPath_iff.mpr hp)]
    exact ⟨r, hr, renameRow_attrs r, Or.inl ⟨hp, rfl⟩⟩
  · rw [if_neg (by simpa using hp)]
    exact ⟨r, hr, renameRow_attrs r, Or.inr ⟨hp, renameRow_key r⟩⟩

theorem opRename_coherent {sq : Sqlite} {req : Request} {c : Checked}
    (hold : req.oldpath = some old) (hc : Coherent c.db.files)
    (hkeep : c.lk.msg.pathlen ≠ 0 → RenameKeepsLinks req c.lk c.db.files (cstr old)) :
    Coherent (opRename sq req c).db.files := by
  rw [opRename_files hold]
  split
  · exact hc
  · rename_i hlen
    intro a ha b hb hk
    obtain ⟨r, hr, hra, hcase⟩ := mem_setInode_rename ha
    obtain ⟨s, hs, hsa, hcase'⟩ := mem_setInode_rename hb
    rw [hra, hsa]
    rcases hcase with ⟨hp, hrk⟩ | ⟨hp, hrk⟩ <;> rcases hcase' with ⟨hp', hsk⟩ | ⟨hp', hsk⟩
    · exact hkeep hlen r hr hp s hs (Or.inl hp')
    · exact hkeep hlen r hr hp s hs (Or.inr (hsk.symm.trans (hk.symm.trans hrk)))
    · exact (hkeep hlen s hs hp' r hr (Or.inr (hrk.symm.trans (hk.trans hsk)))).symm
    · exact hc r hr s hs (hrk.symm.trans (hk.trans hsk))

end Rename

/-- The operation with the row that it inserts. -/
theorem run_coherent {sq : Sqlite} {db : Db} {m : PseudoMsg} (hc : Coherent db.files)
    (hdev : m.hdr.dev ≠ 0) (hino : m.hdr.ino ≠ 0)
    (hab : aborts (request m) (lookup sq db (request m)) = false)
    (hkeep : KeepsLinks db (sq, m)) :
    Coherent ((opAction sq (request m) (checked sq db (request m))).run
      (request m).path).db.files := by
  have hreq := request_proper m
  have hdev' : (request m).hdr.dev ≠ 0 := by rwa [request_hdr]
  have hino' : (request m).hdr.ino ≠ 0 := by rwa [request_hdr]
  have hchecked : Coherent (checked sq db (request m)).db.files :=
    coherent_of_subset hc fun r hr => mem_of_mem_checked hr
  have hkeep := hkeep hab
  rw [run_files]
  cases hl : (opAction sq (request m) (checked sq db (request m))).link with
  | none =>
    simp only [Option.map_none, Option.toList_none, List.append_nil]
    by_cases hrename : m.hdr.op = .rename
    · have hact : opAction sq (request m) (checked sq db (request m)) =
          opRename sq (request m) (checked sq db (request m)) := by
        simp [opAction, hrename]
      rw [hact]
      by_cases hlen : (lookup sq db (request m)).msg.pathlen = 0
      · rwa [opRename_files_zero hlen]
      · obtain ⟨old, hold⟩ := hreq.packed (by rw [request_hdr_op, hrename]; rfl)
          (lookup_hdr_pathlen hreq hlen)
        refine opRename_coherent hold hchecked fun hlen => ?_
        rw [checked_files]
        simp only [hrename] at hkeep
        exact hkeep hlen old hold
    · exact opAction_coherent (by simpa using hrename) hchecked
  | some h =>
    simp only [Option.map_some, Option.toList_some]
    have hmsg : m.hdr.op.isPacked = false → (request m).msg = (request m).hdr := by
      intro hp
      exact hreq.plain (by simpa using hp)
    have hdid : m.hdr.op ≠ .didUnlink → (request m).hdr.op ≠ .didUnlink := by simp
    unfold opAction at hl ⊢
    rw [request_hdr_op] at hl ⊢
    cases hop : m.hdr.op <;> rw [hop] at hmsg hdid <;> simp only [hop] at hl hkeep ⊢
    case creat =>
      exact opCreat_coherent (hmsg rfl) (hdid (by simp)) hdev' hino' hc hreq hl
    case chmod | fchmod =>
      rw [opChmod, checked_lk] at hl ⊢
      exact opChange_coherent (hmsg rfl) (hdid (by simp)) hdev' hino' hc rfl hkeep hl
    case chown | fchown =>
      rw [opChown, checked_lk] at hl ⊢
      exact opChange_coherent (hmsg rfl) (hdid (by simp)) hdev' hino' hc rfl hkeep hl
    case link =>
      exact opLink_coherent (hmsg rfl) (hdid (by simp)) hdev' hino' hc hreq hkeep
        (fun h => absurd (h.symm.trans ((request_hdr_op m).trans hop)) (by simp)) hl
    case symlink =>
      exact opLink_coherent (hmsg rfl) (hdid (by simp)) hdev' hino' hc hreq hkeep.1
        (fun _ => hkeep.2) hl
    case mkdir | mknod =>
      obtain rfl := Option.some.inj hl
      exact opMknod_coherent (hmsg rfl) (hdid (by simp)) hdev' hino' hc hreq hkeep
    case stat | fstat =>
      simp only [opStat] at hl
      split at hl <;> exact absurd hl (by simp)
    all_goals exact absurd hl (by simp [opMayUnlink, opRename, opUnlink, opGetXattr, opSetXattr])

/-- Handling a message leaves the rows of each inode in agreement, under its condition. -/
theorem serve_coherent {db : Db} {e : Sqlite × PseudoMsg} (hc : Coherent db.files)
    (hdev : e.2.hdr.dev ≠ 0) (hino : e.2.hdr.ino ≠ 0) (hkeep : KeepsLinks db e) :
    Coherent (serve db e).files := by
  obtain ⟨sq, m⟩ := e
  unfold serve pseudoOp
  refine handle_preserves ?_ ?_ ?_
  · intro _
    exact coherent_of_subset hc delete_subset
  · intro hab
    exact run_coherent hc hdev hino hab hkeep
  · intro t _ _ _ _ _ hrun
    exact coherent_update hrun fun _ => ⟨rfl, rfl⟩

end LinksLemmas

open LinksLemmas

/-- From an empty table, messages with a device and an inode keep the rows of each inode in
agreement in every state of a run in which each of them meets its condition. -/
theorem coherent_of_keepsLinks (db : Db) (hempty : db.files = []) (es : List (Sqlite × PseudoMsg))
    (hnonzero : ∀ e ∈ es, e.2.hdr.dev ≠ 0 ∧ e.2.hdr.ino ≠ 0)
    (hkeep : Run.Guarded serve KeepsLinks db es) :
    ∀ pre, pre <+: es → Coherent (Run.run serve db pre).files := by
  intro pre hpre
  have hguard := hkeep.and_of_forall hnonzero
  refine hguard.invariant_of_prefix (P := fun db => Coherent db.files) ?_ ?_ hpre
  · exact fun db e hc he => serve_coherent hc he.1.1 he.1.2 he.2
  · show Coherent db.files
    rw [hempty]
    exact fun r hr => absurd hr List.not_mem_nil

/-- A file gets a second name. -/
def exLinking : List (Sqlite × PseudoMsg) :=
  [(Sqlite.inOrder, exMsg .creat 1 (ascii ['/', 'a']) 5),
    (Sqlite.inOrder, exMsg .link 1 (ascii ['/', 'q']) 5)]

/-- The owner of `/a` changes; it is a directory with inode 6. -/
def exChown : PseudoMsg :=
  PseudoMsg.plain
    { MsgHeader.zero with type := .op, op := .chown, client := 1, dev := 1, ino := 6, uid := 1000,
                          gid := 1000, mode := 0o040755, nlink := 1 } (ascii ['/', 'a'])

theorem coherent_of_keepsLinks_linking :
    (Run.run serve (Db.empty ⟨0, []⟩) exLinking).files =
        [exRow (ascii ['/', 'a']) 5, exRow (ascii ['/', 'q']) 5] ∧
      ∀ pre, pre <+: exLinking → Coherent (Run.run serve (Db.empty ⟨0, []⟩) pre).files := by
  refine ⟨by decide, coherent_of_keepsLinks _ rfl _ (by decide) ⟨?_, ?_, trivial⟩⟩
  · exact fun _ => trivial
  · exact fun _ hst => absurd hst (by decide)

/-- The table still has `/a` as a file with inode 5, and `/q` as its second name. A new row
is recorded with that inode and the owner of the directory, and `/q` keeps the old one. -/
theorem chown_of_replaced_link : ¬ Coherent
    (Run.run serve (Db.empty ⟨0, []⟩) (exLinking ++ [(Sqlite.inOrder, exChown)])).files := by
  decide

end Pseudo
