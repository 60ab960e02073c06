import Pseudo.Lookup

/-!
# Which object a new row is recorded for

`pseudo_op` inserts rows while handling the four creations, and when the mode or the owner of a
file is changed that it has never seen. The search by path overwrites the header in the buffer
with the row it finds, and only some of the operations restore it from `msg_header` before
`pdb_link_file` stores it.

Results:
1. `linked_fresh`: unless a stale header is stored, the row holds the message's values.
2. `linked_stale`: a stale header carries another inode than the message.
3. `linked_carries_iff`: exactly when the rows inserted carry the message's values.
4. `linked_stale_directory`: a file created where a directory was is recorded with the
   directory's inode.
-/

namespace Pseudo

open Table

/-- `OP_CREAT`, `OP_MKDIR`, `OP_MKNOD` and `OP_SYMLINK`. -/
def Op.creates : Op → Bool
  | .creat | .mkdir | .mknod | .symlink => true
  | _ => false

/-- The operations that may record a file never seen before, other than links. -/
def Op.records : Op → Bool
  | .chmod | .fchmod | .chown | .fchown => true
  | op => op.creates

/-- The row, read back, holds the values of the message; the creations carry all of them. -/
structure Carries (m : MsgHeader) (r : FileRow) : Prop where
  dev : columnInt64 r.dev = m.dev
  ino : r.ino = m.ino
  rdev : columnInt64 r.rdev = m.rdev
  type : columnInt64 r.mode &&& sIfmt = m.mode &&& sIfmt
  created : m.op.creates = true → r.uid = m.uid ∧ r.gid = m.gid ∧ columnInt64 r.mode = m.mode

/-- The values that go through `sqlite3_bind_int` survive being read back. -/
structure Fits (m : MsgHeader) : Prop where
  dev : columnInt64 (bindInt m.dev) = m.dev
  rdev : columnInt64 (bindInt m.rdev) = m.rdev
  mode : m.op.creates = true → columnInt64 (bindInt m.mode) = m.mode

/-- A row is inserted: the file is not known, or what is known of it was dropped. -/
def Inserts (sq : Sqlite) (db : Db) (m : PseudoMsg) : Prop :=
  let lk := lookup sq db (request m)
  aborts (request m) lk = false ∧
    match m.hdr.op with
    | .creat => lk.foundPath = true → typeMismatch lk.byPath m.hdr = true
    | .chmod | .fchmod | .chown | .fchown =>
      (lk.foundPath = true → typeMismatch lk.byPath m.hdr = true) ∧
        (lk.foundIno = true → typeMismatch lk.byIno m.hdr = true)
    | _ => True

/-- A row is inserted from the header of a stale row at the path of the message: by the three
operations that do not restore the whole of `msg_header`. -/
def InsertsStale (sq : Sqlite) (db : Db) (m : PseudoMsg) : Prop :=
  let lk := lookup sq db (request m)
  lk.Stale ∧ Inserts sq db m ∧
    match m.hdr.op with
    | .creat | .chmod | .fchmod | .chown | .fchown => True
    | .symlink => lk.foundIno = true ∧ typeMismatch lk.byIno m.hdr = false
    | _ => False

namespace RecordLemmas

/-- The file type survives the 32-bit column. -/
theorem columnInt64_bindInt_type (v : BitVec 64) :
    columnInt64 (bindInt v) &&& sIfmt = v &&& sIfmt := by
  refine BitVec.eq_of_getLsbD_eq fun i hi => ?_
  rw [BitVec.getLsbD_and, BitVec.getLsbD_and]
  by_cases h : i < 32
  · have hbit : (columnInt64 (bindInt v)).getLsbD i = v.getLsbD i := by
      simp only [columnInt64, bindInt, BitVec.getLsbD_signExtend, BitVec.getLsbD_setWidth, hi, h,
        decide_true, Bool.true_and, if_true]
    rw [hbit]
  · have htype : sIfmt.getLsbD i = false := by
      refine Nat.testBit_lt_two_pow ?_
      calc sIfmt.toNat < 2 ^ 32 := by decide
        _ ≤ 2 ^ i := Nat.pow_le_pow_right (by decide) (by omega)
    rw [htype, Bool.and_false, Bool.and_false]

theorem isPacked_of_records {op : Op} (h : op.records = true) : op.isPacked = false := by
  cases op <;> simp_all [Op.records, Op.creates, Op.isPacked]

theorem ne_didUnlink_of_records {op : Op} (h : op.records = true) : op ≠ .didUnlink := by
  rintro rfl
  exact absurd h (by decide)

section Row
variable {m : PseudoMsg} {path : Bytes}

/-- The row of the message's own header carries what fits. -/
theorem carries_linkRow_iff :
    Carries m.hdr (linkRow { m.hdr with result := .succeed } path) ↔ Fits m.hdr := by
  constructor
  · intro h
    exact ⟨h.dev, h.rdev, fun hc => (h.created hc).2.2⟩
  · intro h
    refine ⟨h.dev, by simp [linkRow], h.rdev, columnInt64_bindInt_type _, fun hc => ?_⟩
    exact ⟨rfl, rfl, h.mode hc⟩

/-- A row that carries the message's values has its inode. -/
theorem key_of_carries {r : FileRow} (h : Carries m.hdr r) : r.key = m.hdr.key := by
  have hdev : r.dev = bindInt m.hdr.dev := by rw [← h.dev, bindInt_columnInt64]
  simp [FileRow.key, MsgHeader.key, hdev, h.ino]

end Row

section Linked
variable {sq : Sqlite} {db : Db} {m : PseudoMsg}

theorem request_records (hop : m.hdr.op.records = true) :
    (request m).msg = (request m).hdr ∧ (request m).hdr = { m.hdr with result := .succeed } := by
  rw [request_plain (isPacked_of_records hop)]
  exact ⟨rfl, rfl⟩

theorem typeMismatch_request {h : MsgHeader} :
    typeMismatch h (request m).hdr = typeMismatch h m.hdr := by
  rw [request_hdr]
  rfl

theorem checked_foundPath_records (hop : m.hdr.op.records = true) :
    (checked sq db (request m)).foundPath = ((lookup sq db (request m)).foundPath &&
      !typeMismatch (lookup sq db (request m)).byPath m.hdr) := by
  rw [checked_foundPath, request_hdr_op, beq_false_of_ne (ne_didUnlink_of_records hop),
    typeMismatch_request, Bool.false_or]

theorem checked_foundIno_records (hop : m.hdr.op.records = true) :
    (checked sq db (request m)).foundIno = ((lookup sq db (request m)).foundIno &&
      !typeMismatch (lookup sq db (request m)).byIno m.hdr) := by
  rw [checked_foundIno, request_hdr_op, beq_false_of_ne (ne_didUnlink_of_records hop),
    typeMismatch_request, Bool.false_or]

/-- What the four creations and the changes of unknown files store. -/
theorem linked_eq {req : Request} (hab : aborts req (lookup sq db req) = false) :
    linked sq db req =
      (opAction sq req (checked sq db req)).link.map fun h => linkRow h req.path := by
  simp [linked, hab]

theorem and_not_eq_false {a b : Bool} : (a && !b) = false ↔ (a = true → b = true) := by
  cases a <;> cases b <;> simp

/-- The condition for a new row in terms of the flags that the checks leave. -/
theorem inserts_iff (hop : m.hdr.op.records = true) : Inserts sq db m ↔
    aborts (request m) (lookup sq db (request m)) = false ∧
      match m.hdr.op with
      | .creat => (checked sq db (request m)).foundPath = false
      | .chmod | .fchmod | .chown | .fchown =>
        (checked sq db (request m)).foundPath = false ∧
          (checked sq db (request m)).foundIno = false
      | _ => True := by
  rw [checked_foundPath_records hop, checked_foundIno_records hop]
  simp only [and_not_eq_false]
  rfl

/-- The inserted row is in the table afterwards, as it was inserted unless it is a descriptor's
that is marked at once. -/
theorem mem_serve_of_linked {r : FileRow} (hr : linked sq db (request m) = some r)
    (hop : m.hdr.op.onDescriptor = false) : r ∈ (serve db (sq, m)).files := by
  cases hab : aborts (request m) (lookup sq db (request m)) with
  | true => simp [linked, hab] at hr
  | false =>
    rw [linked_eq hab] at hr
    have hrun : r ∈ ((opAction sq (request m) (checked sq db (request m))).run
        (request m).path).db.files := by
      rw [run_files, hr]
      simp
    unfold serve pseudoOp
    rwa [handle_acts (by rw [request_hdr_op, hop]) hab]

theorem linked_none (hop : m.hdr.op.records = true) (h : ¬ Inserts sq db m) :
    linked sq db (request m) = none := by
  rw [inserts_iff hop] at h
  cases hab : aborts (request m) (lookup sq db (request m)) with
  | true => simp [linked, hab]
  | false =>
    rw [linked_eq hab, Option.map_eq_none_iff]
    simp only [hab, true_and] at h
    unfold opAction
    rw [request_hdr_op]
    cases hop' : m.hdr.op <;> simp only [hop', not_true_eq_false] at h
    case creat => simp [opCreat, h]
    case chmod | fchmod =>
      simp only [opChmod, opChange_link, ite_eq_left_iff, reduceCtorEq, imp_false, not_not]
      grind
    case chown | fchown =>
      simp only [opChown, opChange_link, ite_eq_left_iff, reduceCtorEq, imp_false, not_not]
      grind

/-- A row that is inserted holds the header of the message as it came, unless the path lookup
left a stale one. -/
theorem linked_fresh (hop : m.hdr.op.records = true) (h : Inserts sq db m)
    (hst : ¬ InsertsStale sq db m) :
    linked sq db (request m) = some (linkRow (request m).hdr (request m).path) := by
  have hins := h
  obtain ⟨hmsg, hhdr⟩ := request_records hop
  obtain ⟨hab, hflags⟩ := (inserts_iff hop).mp h
  have hlk : ¬ (lookup sq db (request m)).Stale →
      (lookup sq db (request m)).msg = (request m).hdr := lookup_msg hmsg
  have hi := @checked_foundIno_records sq db _ hop
  rw [linked_eq hab]
  simp only [InsertsStale, hins, true_and] at hst
  unfold opAction
  rw [request_hdr_op]
  cases hop' : m.hdr.op <;> simp only [hop', Op.records, Op.creates, Bool.false_eq_true] at hop
  all_goals simp only [hop', and_true, and_false, not_false_eq_true] at hst hflags
  case creat => simp [opCreat, hflags, hlk hst]
  case chmod | fchmod =>
    rw [opChmod, opChange_link, if_neg (by simp [hflags]), checked_lk, hlk hst]
    rfl
  case chown | fchown =>
    rw [opChown, opChange_link, if_neg (by simp [hflags]), checked_lk, hlk hst]
    rfl
  case mkdir | mknod => rfl
  case symlink =>
    simp only [opLink_link, request_hdr_op, hop', if_true, checked_lk, Option.map_some]
    cases hfi : (checked sq db (request m)).foundIno with
    | false => simp
    | true =>
      rw [hfi] at hi
      simp only [Bool.true_eq, Bool.and_eq_true, Bool.not_eq_true'] at hi
      rw [if_pos rfl, hlk fun hs => hst ⟨hs, hi⟩]

theorem exists_linkRow {h : MsgHeader} {path : Bytes} {k : BitVec 32 × BitVec 64}
    (hk : h.key ≠ k) :
    ∃ r, (some h).map (fun h => linkRow h path) = some r ∧ r.key ≠ k :=
  ⟨_, rfl, by rwa [linkRow_key]⟩

/-- A row that is inserted from a stale header has another inode than the message. -/
theorem linked_stale (hop : m.hdr.op.records = true) (hdev : m.hdr.dev ≠ 0)
    (hino : m.hdr.ino ≠ 0) (h : InsertsStale sq db m) :
    ∃ r, linked sq db (request m) = some r ∧ r.key ≠ m.hdr.key := by
  obtain ⟨hs, hins, hstored⟩ := h
  obtain ⟨hab, hflags⟩ := (inserts_iff hop).mp hins
  obtain ⟨hmsg, hhdr⟩ := request_records hop
  obtain ⟨r, _, _, _, hkey, hlk, _⟩ := lookup_stale hs
  have hk : (lookup sq db (request m)).msg.key ≠ m.hdr.key := by
    rw [hlk, MsgHeader.takeRow_key]
    rw [hmsg, request_hdr_key] at hkey
    exact hkey (by rw [hhdr]; exact hdev) (by rw [hhdr]; exact hino)
  have hi := @checked_foundIno_records sq db _ hop
  rw [linked_eq hab]
  unfold opAction
  rw [request_hdr_op]
  cases hop' : m.hdr.op <;> simp only [hop', Op.records, Op.creates, Bool.false_eq_true] at hop
  all_goals simp only [hop'] at hstored hflags
  case creat =>
    rw [opCreat, hflags, checked_lk]
    exact exists_linkRow hk
  case chmod | fchmod =>
    rw [opChmod, opChange_link, if_neg (by simp [hflags]), checked_lk]
    exact exists_linkRow hk
  case chown | fchown =>
    rw [opChown, opChange_link, if_neg (by simp [hflags]), checked_lk]
    exact exists_linkRow hk
  case symlink =>
    simp only [opLink_link, request_hdr_op, hop', if_true, checked_lk, Option.map_some]
    rw [hstored.1, hstored.2] at hi
    rw [hi]
    exact exists_linkRow hk

end Linked

end RecordLemmas

open RecordLemmas

/-- The rows that `pseudo_op` inserts carry the values of the message exactly when none is
inserted from the header of a stale row, and the numbers of the message fit the columns. -/
theorem linked_carries_iff (sq : Sqlite) (db : Db) (m : PseudoMsg)
    (hop : m.hdr.op.records = true) (hdev : m.hdr.dev ≠ 0) (hino : m.hdr.ino ≠ 0) :
    (∀ r, linked sq db (request m) = some r → Carries m.hdr r) ↔
      ¬ InsertsStale sq db m ∧ (Inserts sq db m → Fits m.hdr) := by
  constructor
  · intro h
    have hst : ¬ InsertsStale sq db m := by
      intro hst
      obtain ⟨r, hr, hk⟩ := linked_stale hop hdev hino hst
      exact hk (key_of_carries (h r hr))
    refine ⟨hst, fun hins => ?_⟩
    have hc := h _ (linked_fresh hop hins hst)
    rw [(request_records hop).2] at hc
    exact carries_linkRow_iff.mp hc
  · rintro ⟨hst, hfits⟩ r hr
    by_cases hins : Inserts sq db m
    · rw [linked_fresh hop hins hst, (request_records hop).2] at hr
      obtain rfl := Option.some.inj hr
      exact carries_linkRow_iff.mpr (hfits hins)
    · rw [linked_none hop hins] at hr
      exact absurd hr (by simp)

/-- A file that the table does not know is recorded as the message describes it. -/
theorem linked_carries_empty :
    linked Sqlite.inOrder (Db.empty ⟨0, []⟩) (request (exMsg .creat 1 (ascii ['/', 'd']) 6)) =
        some (exRow (ascii ['/', 'd']) 6) ∧
      ∀ r, linked Sqlite.inOrder (Db.empty ⟨0, []⟩)
          (request (exMsg .creat 1 (ascii ['/', 'd']) 6)) = some r →
        Carries (exMsg .creat 1 (ascii ['/', 'd']) 6).hdr r := by
  refine ⟨by decide, (linked_carries_iff _ _ _ (by decide) (by decide) (by decide)).mpr ⟨?_, ?_⟩⟩
  · rintro ⟨hs, _⟩
    exact absurd hs (by decide)
  · exact fun _ => ⟨by decide, by decide, fun _ => by decide⟩

/-- `/d` is a directory. -/
def exDirectory : Db where
  files := [{ exRow (ascii ['/', 'd']) 5 with mode := 0o040755 }]
  xattrs := []
  oldmsg := ⟨0, []⟩

/-- Where a directory with inode 5 is still recorded, a file created with inode 6 is recorded
with inode 5 and the mode of the directory. -/
theorem linked_stale_directory :
    linked Sqlite.inOrder exDirectory (request (exMsg .creat 1 (ascii ['/', 'd']) 6)) =
        exDirectory.files.head? ∧
      ¬ ∀ r, linked Sqlite.inOrder exDirectory
          (request (exMsg .creat 1 (ascii ['/', 'd']) 6)) = some r →
        Carries (exMsg .creat 1 (ascii ['/', 'd']) 6).hdr r := by
  have hrow : linked Sqlite.inOrder exDirectory (request (exMsg .creat 1 (ascii ['/', 'd']) 6)) =
      exDirectory.files.head? := by decide
  refine ⟨hrow, fun h => ?_⟩
  exact absurd (h _ hrow).ino (by decide)

end Pseudo
