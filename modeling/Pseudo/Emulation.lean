import Pseudo.EmulatedFiles
import Pseudo.Library.Refine

/-!
# The server keeps up the emulation

What each wrapper asks the server finds the record, and what it tells the server becomes the record.
So any clients see, after any run of calls, what the record says, and no client is dropped.

Results:
1. `serves`: every call keeps the table in step, and returns what the record says.
2. `emulates`: along every run no request is refused, and `fstatat64` shows the record.
3. `names_split`: without the condition on files with several names, the names that the record does
   not have are exactly those that take a client with them.
-/

namespace Pseudo

open Table
open TwoStoresLemmas (serverPath)

/-- The call records something about the file, under the name `target`. -/
def FileEvent.RecordsUnder (e : FileEvent) (b : StatBuf) (path target : Bytes) : Prop :=
  match e.call with
  | .fchmodat p _ => p = path ∧ target = path ∧ ¬ sIslnk (b.mode.setWidth 64) = true
  | .fchownat p _ _ => p = path ∧ target = path
  | .linkat oldpath newpath => oldpath = path ∧ newpath = target ∧ e.real ≠ -1
  | _ => False

namespace EmulationLemmas

open FailedRenameLemmas CarriedRenameLemmas FileNoticesLemmas EmulatedFilesLemmas

variable {a : Emulated} {t : List FileRow} {host after : HostFs} {path p : Bytes}
  {buf b c : StatBuf} {r : FileRow}

/-! ## What the notices find -/

section Notices
variable {sq : Sqlite} {env : ClientEnv} {leftover : Bytes} {db : Db} {tables : FdTables}

theorem mirrors_coherent (h : Mirrors a t) : Coherent t := by
  intro q hq q' hq' hk
  have hdata := h.data q hq
  rw [hk, h.data q' hq'] at hdata
  have he := Option.some.inj hdata
  have hrdev : columnInt64 q'.rdev = columnInt64 q.rdev := congrArg FileData.rdev he
  have hrdev : q'.rdev = q.rdev := by
    rw [← bindInt_columnInt64 q'.rdev, hrdev, bindInt_columnInt64]
  have huid : q'.uid = q.uid := congrArg FileData.uid he
  have hgid : q'.gid = q.gid := congrArg FileData.gid he
  have hmode : q'.mode = q.mode := congrArg FileData.mode he
  simp only [FileRow.attrs, huid, hgid, hmode, hrdev]

/-- What is recorded has a row, and nothing else has one. -/
theorem recorded_iff (h : Mirrors a t) (hp : Canonical path) (hb : a.host.lstat path = some b) :
    (a.known b.key).isSome ↔ ¬ Absent path t := by
  refine ⟨h.named path b hp hb, fun hthere => ?_⟩
  obtain ⟨r, hr, hrp⟩ := not_absent hthere
  obtain ⟨c, hc, hdesc⟩ := h.recorded r hr
  rw [hrp, hb] at hc
  obtain rfl := Option.some.inj hc
  rw [← hdesc.key, h.data r hr]
  rfl

/-- The request is about the file that the host finds under the path. -/
structure SameAs (buf b : StatBuf) : Prop where
  dev : buf.dev = b.dev
  ino : buf.ino = b.ino
  type : TwoStoresLemmas.SameKind buf.mode b.mode

theorem sameAs_refl (b : StatBuf) : SameAs b b := ⟨rfl, rfl, rfl, rfl⟩

theorem sameAs_key (h : SameAs buf b) : buf.key = b.key :=
  congrArg₂ Prod.mk (congrArg bindInt h.dev) h.ino

theorem describes_sameAs (h : SameAs buf b) (hd : r.Describes b) : r.Describes buf := by
  obtain ⟨hdir, hlnk⟩ := h.type
  exact ⟨hd.key.trans (sameAs_key h).symm, hd.type.1.trans hdir.symm, hd.type.2.trans hlnk.symm⟩

theorem knows_of_there (h : Mirrors a t) (hb : a.host.lstat path = some b) (hs : SameAs buf b)
    (hthere : ¬ Absent path t) : ∃ r, Knows path buf t r := by
  obtain ⟨r, hr, hrp⟩ := not_absent hthere
  obtain ⟨c, hc, hdesc⟩ := h.recorded r hr
  rw [hrp, hb] at hc
  obtain rfl := Option.some.inj hc
  refine ⟨r, hr, hrp, describes_sameAs hs hdesc, ?_⟩
  rw [hs.dev, hs.ino]
  exact a.host.numbered hb

theorem unknown_of_absent (h : Mirrors a t) (hp : AbsPath path) (hb : a.host.lstat path = some b)
    (hs : SameAs buf b) (habs : Absent path t) : Unknown path buf t :=
  ⟨habs, fun r hr => by
    rw [sameAs_key hs]
    exact absent_key_ne h.toTracked hp hb habs hr⟩

/-- A file that is opened leaves the tables. -/
theorem opens {call : ClientCall} (h : Mirrors a db.files) (hp : AsksAbout env path)
    (hcall : OnePath call path buf) (hop : call.op = .open) (hb : a.host.lstat path = some b)
    (hs : SameAs buf b) :
    ∃ t' msg, serverOp sq env leftover (db, tables) call = some ((db, t'), msg) := by
  rcases Decidable.em (Absent path db.files) with habs | hthere
  · exact @sends_open sq env leftover call path buf db tables ⟨path, 0, 0, 0, 0, 0, 0, 0⟩ hp hcall
      hop (Or.inl (unknown_of_absent h hp.abs hb hs habs))
  · obtain ⟨r, hk⟩ := knows_of_there h hb hs hthere
    exact sends_open hp hcall hop (Or.inr ⟨mirrors_coherent h, hk⟩)

/-- What `OP_STAT` answers: the record, if there is one. -/
theorem stats (h : Mirrors a db.files) (hp : AsksAbout env path) (hb : a.host.lstat path = some b)
    (hs : SameAs buf b) : ∃ t' msg,
    serverOp sq env leftover (db, tables) (noticeCall .stat path buf) = some ((db, t'), some msg) ∧
      ∀ d, a.known b.key = some d ↔ msg.result = .succeed ∧ msg.fileData = d := by
  rcases Decidable.em (Absent path db.files) with habs | hthere
  · obtain ⟨t', msg, hsent, hfail⟩ := @sends_stat_new sq env leftover path buf db tables hp
      (unknown_of_absent h hp.abs hb hs habs)
    refine ⟨t', msg, hsent, fun d => ⟨fun hd => ?_, fun hd => ?_⟩⟩
    · exact absurd habs ((recorded_iff h (Or.inr hp.abs) hb).mp (by rw [hd]; rfl))
    · rw [hfail] at hd
      cases hd.1
  · obtain ⟨r, hk⟩ := knows_of_there h hb hs hthere
    obtain ⟨t', msg, hsent, hresult, hrow⟩ := @sends_stat sq env leftover path buf db tables r hp
      (mirrors_coherent h) hk
    refine ⟨t', msg, hsent, fun d => ?_⟩
    have hdata : msg.fileData = r.fileData := by
      have hmode : (columnInt64 r.mode).setWidth 32 = r.mode := bindInt_columnInt64 r.mode
      unfold MsgHeader.fileData FileRow.fileData
      rw [hrow.uid, hrow.gid, hrow.mode, hrow.rdev, hmode]
    have hkey : r.key = b.key := hk.describes.key.trans (sameAs_key hs)
    rw [← hkey, h.data r hk.mem, hdata]
    simp [hresult]

/-! ## The wrappers -/

/-- A new file is recorded. -/
theorem mirrors_made (h : Mirrors a t) {type : BitVec 32} (hm : Makes a.host after path type)
    (hp : AbsPath path) (hbuf : after.lstat path = some b) (hrow : r.path = path)
    (hdesc : r.Describes b) (hzero : r.deleting = 0) (hinodes : after.Inodes) :
    Absent path t ∧ (∀ q ∈ t, q.key ≠ b.key) ∧
      Mirrors ⟨after, Function.update a.known b.key (some r.fileData)⟩ (t ++ [r]) := by
  have habs : Absent path t := by
    intro q hq hqp
    obtain ⟨c, hc, _⟩ := h.recorded q hq
    rw [hqp, hm.free] at hc
    cases hc
  have hfresh : ∀ p c, Canonical p → a.host.lstat p = some c → c.key ≠ b.key := by
    obtain ⟨c, hc, _, hnew⟩ := hm.made
    rw [hbuf] at hc
    obtain rfl := Option.some.inj hc
    exact hnew
  have hkeys : ∀ q ∈ t, q.key ≠ b.key := by
    intro q hq hk
    obtain ⟨c, hc, hd⟩ := h.recorded q hq
    exact hfresh q.path c (h.canonical q hq) hc (hd.key.symm.trans hk)
  have hsame : ∀ p, Canonical p → p ≠ path → SameNode a.host after p :=
    fun p hp hne => sameNode_of_persists (hm.others p hp hne)
  refine ⟨habs, hkeys, mirrors_add h (Or.inr hp) habs hbuf hrow hdesc hzero hsame
    (fun q hq hk => absurd hk (hkeys q hq)) (fun p c hp hne hc hk => ?_) hinodes⟩
  obtain ⟨c', hc', he⟩ := sameNode_before (hsame p hp hne) hc
  exact absurd ((key_of_node he).symm.trans hk) (hfresh p c' hp hc')

/-- The operations that are sent for a new file. -/
def Op.makes : Op → Bool
  | .creat | .mkdir | .mknod | .symlink => true
  | _ => false

theorem makes_plain {o : Op} (ho : Op.makes o = true) : o.recordsNew = true ∧
    o.usesMagicIds = true := by
  cases o <;> simp_all [Op.makes, Op.recordsNew, Op.usesMagicIds]

/-- The row for a notice describes the file when the mode that is sent has its type. -/
theorem describes_noticeRow {o : Op} (hkey : buf.key = b.key)
    (hsort : TwoStoresLemmas.SameKind buf.mode b.mode) :
    (noticeRow env o buf path).Describes b := by
  refine ⟨hkey, ?_⟩
  unfold FileRow.SameType sIsdir sIslnk
  rw [show (noticeRow env o buf path).mode = buf.mode from rfl, TwoStoresLemmas.columnInt64_type]
  exact hsort

/-- A file that the host has made is recorded with what is sent. -/
theorem made (h : Mirrors a db.files) {o : Op} (ho : Op.makes o = true) {type : BitVec 32}
    (hm : Makes a.host after path type) (hp : AsksAbout env path)
    (hbuf : after.lstat path = some b) (hdev : buf.dev = b.dev) (hino : buf.ino = b.ino)
    (hsort : TwoStoresLemmas.SameKind buf.mode b.mode) (hinodes : after.Inodes) : ∃ db' t' msg,
    serverOp sq env leftover (db, tables) (noticeCall o path buf) = some ((db', t'), some msg) ∧
      msg.result = .succeed ∧
      Mirrors ⟨after, Function.update a.known b.key (some (FileData.stored
        ⟨env.fuid, env.fgid, buf.mode, buf.rdev⟩))⟩ db'.files := by
  obtain ⟨hnew, hids⟩ := makes_plain ho
  have hkey : buf.key = b.key := congrArg₂ Prod.mk (congrArg bindInt hdev) hino
  obtain ⟨habs, hkeys, hmirrors⟩ := mirrors_made (r := noticeRow env o buf path) h hm hp.abs hbuf
    rfl (describes_noticeRow hkey hsort) rfl hinodes
  obtain ⟨db', t', msg, hsent, hfiles, hresult⟩ := @sends_new sq env leftover o path buf db tables
    hp
    hnew ⟨habs, fun q hq => by rw [hkey]; exact hkeys q hq⟩
  refine ⟨db', t', msg, hsent, hresult, ?_⟩
  rw [hfiles]
  have hdata : (noticeRow env o buf path).fileData =
      FileData.stored ⟨env.fuid, env.fgid, buf.mode, buf.rdev⟩ := by
    unfold noticeRow
    rw [hids]
    rfl
  rwa [hdata] at hmirrors

/-- The call comes back with the emulated result, and the table mirrors the emulated state. -/
def Serves (a : Emulated) (e : FileEvent) (db : Db) : Prop :=
  ∃ s, e.wrapper a.host db = some (s, e.returns a.host) ∧ Mirrors (e.emulate a) s.1.files

variable {e : FileEvent}

theorem metadata_set_some {m : Metadata} {data : StatBuf → FileData} (hb : buf = b) :
    m.set (some buf) data = Function.update m b.key (some (data b)) := by
  rw [hb]
  rfl

/-- The type of a mode is not among the bits that the client has a say in. -/
theorem type_pseudoDbMode (fs user : BitVec 32) :
    pseudoDbMode fs user &&& 0o170000 = fs &&& 0o170000 :=
  TwoStoresLemmas.mask_replace (by decide)

/-- What is sent about a new file or one that is opened. -/
abbrev sentBuf (e : FileEvent) (mode : BitVec 32) (b : StatBuf) : StatBuf :=
  { b with mode := pseudoDbMode b.mode (mode &&& ~~~ e.umask) }

theorem sentBuf_sameAs (mode : BitVec 32) : SameAs (sentBuf e mode b) b :=
  ⟨rfl, rfl, TwoStoresLemmas.sameKind_of_type (type_pseudoDbMode _ _)⟩

abbrev openCall (e : FileEvent) (path : Bytes) (flags mode : BitVec 32) (b : StatBuf) :
    ClientCall :=
  { op := .open, access := pseudoAccess flags, fd := e.real, path := some path,
    buf := some (sentBuf e mode b) }

theorem serves_openat {flags mode : BitVec 32} (h : Mirrors a db.files)
    (hcall : e.call = .openat path flags mode) (he : e.Emulable a) : Serves a e db := by
  have hp : AsksAbout e.env path := he.asks path (by rw [hcall]; exact List.mem_singleton.mpr rfl)
  have hplain : ∀ b, OnePath (openCall e path flags mode b) path (sentBuf e mode b) :=
    fun b => ⟨rfl, rfl, rfl, Or.inr rfl⟩
  have hhost := he.host
  rw [hcall] at hhost
  unfold Serves FileEvent.emulate FileEvent.wrapper FileEvent.effect FileEvent.returns wrapOpenatPath
  rw [hcall]
  dsimp only [HostDoes] at hhost ⊢
  rcases Decidable.em (e.real = -1) with hreal | hreal
  · rw [if_pos (Or.inl hreal)] at hhost
    rw [if_pos hreal, if_pos (Or.inl hreal), hhost]
    exact ⟨_, rfl, h⟩
  rcases Decidable.em (flags &&& oTmpfile = oTmpfile) with htmp | htmp
  · rw [if_pos (Or.inr htmp)] at hhost
    rw [if_neg hreal, if_pos htmp, if_pos (Or.inr (Or.inl htmp)), hhost]
    exact ⟨_, rfl, h⟩
  rw [if_neg (by simp [hreal, htmp])] at hhost
  rw [if_neg hreal, if_neg htmp]
  rcases hhost with ⟨hsome, hafter⟩ | ⟨hcreat, hm⟩
  · -- the file was there
    obtain ⟨b, hb⟩ := Option.isSome_iff_exists.mp hsome
    obtain ⟨t', msg, hs⟩ := @opens a path _ b e.sq e.env e.leftover db e.tables _ h hp (hplain b)
      rfl
      hb (sentBuf_sameAs mode)
    rw [if_pos (Or.inr (Or.inr hsome)), hafter, hb]
    refine ⟨(db, t'), ?_, h⟩
    dsimp only
    rw [if_pos (by simp [htmp]), hs]
    rfl
  · -- it is created
    obtain ⟨b, hb, _⟩ := hm.made
    have hnew : ¬ (e.real = -1 ∨ flags &&& oTmpfile = oTmpfile ∨
        (a.host.lstat path).isSome = true) := by simp [hreal, htmp, hm.free]
    obtain ⟨db', t', msg, hs, _, hmirrors⟩ := @made a e.after path (sentBuf e mode b) b e.sq e.env
      e.leftover db e.tables h .creat rfl _ hm hp hb rfl rfl
      (TwoStoresLemmas.sameKind_of_type (type_pseudoDbMode _ _)) he.inodes
    obtain ⟨t'', msg', hs'⟩ := @opens _ path _ b e.sq e.env e.leftover db' t' _ hmirrors hp
      (hplain b)
      rfl hb (sentBuf_sameAs mode)
    rw [if_neg hnew, hb, hm.free, metadata_set_some rfl]
    refine ⟨(db', t''), ?_, hmirrors⟩
    dsimp only
    rw [if_neg (by simp [htmp, show ¬ flags &&& oCreat = 0#32 from hcreat]), hs, Option.bind_some,
      hs']
    rfl

theorem serves_mkdirat {mode : BitVec 32} (h : Mirrors a db.files)
    (hcall : e.call = .mkdirat path mode) (he : e.Emulable a) : Serves a e db := by
  have hp : AsksAbout e.env path := he.asks path (by rw [hcall]; exact List.mem_singleton.mpr rfl)
  have hhost := he.host
  rw [hcall] at hhost
  unfold Serves FileEvent.emulate FileEvent.wrapper FileEvent.effect FileEvent.returns wrapMkdirat
  rw [hcall]
  dsimp only [HostDoes] at hhost ⊢
  rcases Decidable.em (e.real = -1) with hreal | hreal
  · rw [if_pos hreal] at hhost
    rw [if_pos hreal, if_pos hreal, hhost]
    exact ⟨_, rfl, h⟩
  · rw [if_neg hreal] at hhost
    obtain ⟨b, hb, _⟩ := hhost.made
    obtain ⟨db', t', msg, hs, _, hmirrors⟩ := @made a e.after path (sentBuf e mode b) b e.sq e.env
      e.leftover db e.tables h .mkdir rfl _ hhost hp hb rfl rfl
      (TwoStoresLemmas.sameKind_of_type (type_pseudoDbMode _ _)) he.inodes
    rw [if_neg hreal, if_neg hreal, hb, metadata_set_some rfl]
    refine ⟨(db', t'), ?_, hmirrors⟩
    dsimp only [sendNotice]
    rw [hs]
    rfl

theorem serves_symlinkat (h : Mirrors a db.files) (hcall : e.call = .symlinkat path)
    (he : e.Emulable a) : Serves a e db := by
  have hp : AsksAbout e.env path := he.asks path (by rw [hcall]; exact List.mem_singleton.mpr rfl)
  have hhost := he.host
  rw [hcall] at hhost
  unfold Serves FileEvent.emulate FileEvent.wrapper FileEvent.effect FileEvent.returns wrapSymlinkatPath
  rw [hcall]
  dsimp only [HostDoes] at hhost ⊢
  rcases Decidable.em (e.real = -1) with hreal | hreal
  · rw [if_pos hreal] at hhost
    rw [if_pos hreal, if_pos hreal, if_pos hreal, hhost]
    exact ⟨_, rfl, h⟩
  · rw [if_neg hreal] at hhost
    obtain ⟨b, hb, _⟩ := hhost.made
    obtain ⟨db', t', msg, hs, _, hmirrors⟩ := @made a e.after path b b e.sq e.env e.leftover db
      e.tables h .symlink rfl _ hhost hp hb rfl rfl ⟨rfl, rfl⟩ he.inodes
    rw [if_neg hreal, if_neg hreal, if_neg hreal, hb, metadata_set_some rfl]
    refine ⟨(db', t'), ?_, hmirrors⟩
    dsimp only [sendNotice]
    rw [hs]
    rfl

/-- A device is recorded with its own type, which the server does not tell from the type of the
regular file that stands for it. -/
theorem sameKind_device {fs mode : BitVec 32} (hfs : fs &&& 0o170000 = 0o100000)
    (hdir : mode &&& 0o170000 ≠ 0o040000) (hlnk : mode &&& 0o170000 ≠ 0o120000)
    {sent : BitVec 32} (hsent : sent &&& 0o170000 = mode &&& 0o170000) :
    TwoStoresLemmas.SameKind sent fs := by
  have hne : ∀ {m n : BitVec 32}, n.toNat < 2 ^ 32 → (m &&& 0o170000 = n ↔
      m.setWidth 64 &&& sIfmt = n.setWidth 64) := by
    intro m n _
    rw [TwoStoresLemmas.setWidth_type]
    constructor
    · intro h
      rw [h]
    · intro h
      have ht := congrArg (BitVec.setWidth 32) h
      simpa using ht
  have hkind : ∀ m : BitVec 32, sIsdir (m.setWidth 64) = decide (m &&& 0o170000 = 0o040000) ∧
      sIslnk (m.setWidth 64) = decide (m &&& 0o170000 = 0o120000) := by
    intro m
    unfold sIsdir sIslnk
    have hd := @hne m 0o040000 (by decide)
    have hl := @hne m 0o120000 (by decide)
    exact ⟨by rw [decide_eq_decide.mpr hd]; rfl, by rw [decide_eq_decide.mpr hl]; rfl⟩
  unfold TwoStoresLemmas.SameKind
  rw [(hkind sent).1, (hkind sent).2, (hkind fs).1, (hkind fs).2, hsent, hfs]
  exact ⟨by rw [decide_eq_false hdir]; rfl, by rw [decide_eq_false hlnk]; rfl⟩

theorem serves_mknodat {mode : BitVec 32} {dev : BitVec 64} (h : Mirrors a db.files)
    (hcall : e.call = .mknodat path mode dev) (he : e.Emulable a) : Serves a e db := by
  have hp : AsksAbout e.env path := he.asks path (by rw [hcall]; exact List.mem_singleton.mpr rfl)
  have hhost := he.host
  have hclear := he.clear
  unfold FileEvent.Clear at hclear
  rw [hcall] at hhost hclear
  unfold Serves FileEvent.emulate FileEvent.wrapper FileEvent.effect FileEvent.returns wrapXmknodat
  rw [hcall]
  dsimp only [HostDoes] at hhost hclear ⊢
  rcases Decidable.em (e.real = -1 ∨ (a.host.lstat path).isSome = true) with hno | hyes
  · rw [if_pos hno] at hhost
    rw [if_pos hno.symm, if_pos hno, if_pos hno, hhost]
    exact ⟨_, rfl, h⟩
  · rw [if_neg hyes] at hhost
    obtain ⟨b, hb, htype, _⟩ := hhost.made
    have hsent : ((pseudoDbMode b.mode (mknodMode e.umask mode) &&& 0o7777) |||
        (mknodMode e.umask mode &&& ~~~ 0o7777)) &&& 0o170000 =
        mknodMode e.umask mode &&& 0o170000 := by
      rw [BitVec.or_comm]
      exact TwoStoresLemmas.mask_replace (by decide)
    obtain ⟨db', t', msg, hs, hresult, hmirrors⟩ := @made a e.after path
      { b with mode := (pseudoDbMode b.mode (mknodMode e.umask mode) &&& 0o7777) |||
                 (mknodMode e.umask mode &&& ~~~ 0o7777)
               rdev := dev }
      b e.sq e.env e.leftover db e.tables h .mknod rfl _ hhost hp hb rfl rfl
      (sameKind_device htype hclear.1 hclear.2 hsent) he.inodes
    rw [if_neg fun hor => hyes hor.symm, if_neg hyes, if_neg hyes, hb, metadata_set_some rfl]
    refine ⟨(db', t'), ?_, hmirrors⟩
    dsimp only [StatBuf.sent, Option.getD_some]
    rw [hs, Option.map_some]
    simp [succeeded, hresult]

theorem serverOp_of_call {sq : Sqlite} {env : ClientEnv} {leftover : Bytes} {t : FdTables}
    {call : ClientCall} {s : CallStep} (h : clientCall sq env leftover db t call = some s) :
    serverOp sq env leftover (db, t) call = some ((s.db, s.tables), s.result) := by
  unfold serverOp
  dsimp only
  rw [h]
  rfl

/-- Without the rows of the marked path the marks make no difference. -/
theorem delete_markPaths {d : BitVec 32} :
    delete (fun r => atPath path r && r.deleting == d) (markPaths d [path] t) =
      delete (atPath path) t := by
  have hmarked : ∀ r : FileRow, (if r.path ∈ [path] then { r with deleting := d } else r) =
      if r.path = path then { r with deleting := d } else r := by
    intro r
    simp
  unfold delete markPaths update
  induction t with
  | nil => rfl
  | cons r t ih =>
    rw [List.map_cons, List.filter_cons, List.filter_cons, ih]
    simp only [decide_eq_true_eq, hmarked]
    rcases Decidable.em (r.path = path) with hp | hp
    · simp [hp, atPath]
    · simp [hp, atPath]

/-- The announcement of a removal. -/
theorem announces (h : Mirrors a db.files) (hp : AsksAbout env path)
    (hb : a.host.lstat path = some b) : ∃ s,
    clientCall sq env leftover db tables (noticeCall .mayUnlink path b) = some s ∧
      s.db.files = markPaths env.pid [path] db.files ∧
      (succeeded s.result = true ↔ ¬ Absent path db.files) := by
  obtain ⟨s, hs, hm, hresult⟩ := @call_announces sq env leftover a.host .mayUnlink (-1) path db db
    tables [] h.toTracked hp.abs hp.text (Or.inl rfl) ⟨(markPaths_absent (by simp)).symm, rfl⟩
  rw [hb] at hs
  rw [hp.asks, if_pos rfl] at hm
  exact ⟨s, hs, hm.files, by rw [hresult, hp.asks]; simp⟩

/-- An announcement is taken back. -/
theorem cancels {db₁ : Db} (h : Mirrors a db.files) (hp : AsksAbout env path)
    (hb : a.host.lstat path = some b) (hfiles : db₁.files = markPaths env.pid [path] db.files)
    (hthere : ¬ Absent path db.files) : ∃ s,
    clientCall sq env leftover db₁ tables (noticeCall .cancelUnlink path b) = some s ∧
      s.db.files = db.files := by
  have hsp := serverPath_absPath hp.abs
  obtain ⟨s, hs⟩ := @pathCall_returns sq env leftover .cancelUnlink (-1) path (a.host.lstat path)
    db₁ tables rfl hp.text fun req hreq => (announce_live h.toTracked hp.abs rfl hreq hfiles).1
  have hm : IsMarked env.pid [path] { db with xattrs := db₁.xattrs } db₁ := ⟨hfiles, rfl⟩
  obtain ⟨hm', _⟩ := @call_marked sq env leftover a.host .cancelUnlink (-1) path db₁
    { db with xattrs := db₁.xattrs } tables [path] s h.toConsistent rfl hp.text _ hm hs
    (fun _ => finds_tracked h.toTracked hp.abs) fun _ => by rw [hsp]; exact hthere
  have hnone : announced .cancelUnlink (serverPath path) [path] = [] := by
    rw [hsp, announced]
    simp
  rw [hp.asks, if_pos rfl, hnone] at hm'
  rw [hb] at hs
  exact ⟨s, hs, hm'.files.trans (markPaths_absent (by simp))⟩

theorem serves_unlinkat (h : Mirrors a db.files) (hcall : e.call = .unlinkat path)
    (he : e.Emulable a) : Serves a e db := by
  have hp : AsksAbout e.env path := he.asks path (by rw [hcall]; exact List.mem_singleton.mpr rfl)
  have hhost := he.host
  rw [hcall] at hhost
  unfold Serves FileEvent.emulate FileEvent.wrapper FileEvent.effect FileEvent.returns wrapUnlinkat
  rw [hcall]
  dsimp only [HostDoes] at hhost ⊢
  cases hb : a.host.lstat path with
  | none =>
    rw [hb, if_pos (Or.inr rfl)] at hhost
    rw [if_pos rfl, hhost]
    exact ⟨_, rfl, h⟩
  | some b =>
    rw [hb] at hhost
    have hsome : ¬ some b = none := Option.some_ne_none b
    rw [if_neg hsome]
    dsimp only
    obtain ⟨s₁, h₁, hf₁, hresult⟩ := @announces a path b e.sq e.env e.leftover db e.tables h hp hb
    rw [serverOp_of_call h₁, Option.bind_some]
    dsimp only
    -- what the table becomes
    have hafter : ∀ t', (e.real = -1 → t' = db.files) →
        (e.real ≠ -1 → t' = delete (atPath path) db.files) → Mirrors ⟨e.after, a.known⟩ t' := by
      intro t' hfail hok
      rcases Decidable.em (e.real = -1) with hreal | hreal
      · rw [if_pos (Or.inl hreal)] at hhost
        rw [hfail hreal, hhost]
        exact h
      · rw [if_neg (by simp [hreal])] at hhost
        rw [hok hreal]
        exact mirrors_drop h hhost.1
          (fun p hp hne => sameNode_of_persists (hhost.2 p hp hne)) he.inodes
    cases hsucc : succeeded s₁.result with
    | false =>
      have habs : Absent path db.files := by
        refine Decidable.of_not_not fun hno => ?_
        rw [hresult.mpr hno] at hsucc
        cases hsucc
      have hsame : s₁.db.files = db.files := by
        rw [hf₁, markPaths_absent (by simpa using habs)]
      have hgone : delete (atPath path) db.files = db.files :=
        delete_eq_self fun r hr => atPath_eq_false.mpr (habs r hr)
      exact ⟨_, rfl, hafter _ (fun _ => hsame) fun _ => hsame.trans hgone.symm⟩
    | true =>
      rw [if_pos rfl]
      unfold sendNotice
      rcases Decidable.em (e.real = -1) with hreal | hreal
      · obtain ⟨s₂, h₂, hf₂⟩ := @cancels a path b e.sq e.env e.leftover db s₁.tables s₁.db h hp hb
          hf₁
          (hresult.mp hsucc)
        rw [if_pos hreal, serverOp_of_call h₂]
        exact ⟨_, rfl, hafter _ (fun _ => hf₂) fun hno => absurd hreal hno⟩
      · obtain ⟨s₂, h₂, hf₂⟩ := @call_didUnlink e.sq e.env e.leftover (-1) path b s₁.db s₁.tables
          hp.abs hp.text
        rw [hp.asks, if_pos rfl, hf₁, delete_markPaths] at hf₂
        have h₂ : clientCall e.sq e.env e.leftover s₁.db s₁.tables (noticeCall .didUnlink path b) =
            some s₂ := h₂
        rw [if_neg hreal, serverOp_of_call h₂]
        exact ⟨_, rfl, hafter _ (fun hyes => absurd hyes hreal) fun _ => hf₂⟩

/-- The row describes the file, so its mode is of the same kind. -/
theorem sameKind_row (hd : r.Describes b) : TwoStoresLemmas.SameKind r.mode b.mode := by
  have htype := hd.type
  unfold FileRow.SameType sIsdir sIslnk at htype
  rw [TwoStoresLemmas.columnInt64_type] at htype
  exact htype

theorem sameType_of_mode (h : buf.mode = r.mode) : r.SameType buf := by
  unfold FileRow.SameType sIsdir sIslnk
  rw [h, TwoStoresLemmas.columnInt64_type]
  exact ⟨rfl, rfl⟩

/-- All rows of an inode describe the file. -/
theorem describes_of_key (h : Mirrors a t) (hr : r ∈ t) (hp : Canonical path)
    (hb : a.host.lstat path = some b) (hk : r.key = b.key) : r.Describes b := by
  obtain ⟨c, hc, hd⟩ := h.recorded r hr
  obtain rfl := h.inodes (h.canonical r hr) hp hc hb (hd.key.symm.trans hk)
  exact hd

/-- A row of the file holds the record. -/
theorem data_of_knows (h : Mirrors a t) (hs : SameAs buf b) (hk : Knows path buf t r) :
    a.known b.key = some r.fileData := by
  rw [← sameAs_key hs, ← hk.describes.key]
  exact h.data r hk.mem

/-- The new name of a recorded file. -/
theorem mirrors_linked {old new : Bytes} (h : Mirrors a t) (hold : Canonical old)
    (hnew : Canonical new) (hb : a.host.lstat old = some b) (hfree : Absent new t)
    (hr : r ∈ t) (hk : r.key = b.key) (hnode : c.node = b.node) (hc : after.lstat new = some c)
    (hsame : ∀ p, Canonical p → p ≠ new → SameNode a.host after p) (hinodes : after.Inodes) :
    Mirrors ⟨after, a.known⟩ (t ++ [renamedRow new r]) := by
  have hdesc := describes_of_key h hr hold hb hk
  have hdesc' : (renamedRow new r).Describes c := by
    obtain ⟨hkey, htype⟩ := describes_of_node hdesc hnode
    exact ⟨hkey, htype⟩
  have hck : c.key = b.key := key_of_node hnode
  have hdata : ∀ q ∈ t, q.key = c.key → q.fileData = (renamedRow new r).fileData := by
    intro q hq hqk
    have he := h.data q hq
    rw [hqk, hck, ← hk, h.data r hr] at he
    exact (Option.some.inj he).symm
  have hmirrors := mirrors_add h hnew hfree hc rfl hdesc' rfl hsame hdata
    (fun p c' hp hne hc' hk' => by
      obtain ⟨b', hb', he⟩ := sameNode_before (hsame p hp hne) hc'
      exact h.complete r hr p b' hp hb' (hk.trans (hck.symm.trans
        (hk'.symm.trans (key_of_node he)))))
    hinodes
  have hknown : a.known c.key = some (renamedRow new r).fileData := by
    rw [hck, ← hk]
    exact h.data r hr
  rwa [← hknown, Function.update_eq_self] at hmirrors

theorem serves_linkat {old new : Bytes} (h : Mirrors a db.files)
    (hcall : e.call = .linkat old new) (he : e.Emulable a) : Serves a e db := by
  have hold : AsksAbout e.env old := he.asks old (by rw [hcall]; exact List.mem_cons_self)
  have hnew : AsksAbout e.env new :=
    he.asks new (by rw [hcall]; exact List.mem_cons_of_mem _ (List.mem_singleton.mpr rfl))
  have hhost := he.host
  have hclear := he.clear
  unfold FileEvent.Clear at hclear
  rw [hcall] at hhost hclear
  unfold Serves FileEvent.emulate FileEvent.wrapper FileEvent.effect FileEvent.returns wrapLinkat
  rw [hcall]
  dsimp only [HostDoes] at hhost hclear ⊢
  rcases Decidable.em (e.real = -1) with hreal | hreal
  · rw [if_pos hreal] at hhost
    rw [if_pos hreal, hhost, hreal]
    exact ⟨_, rfl, h⟩
  · rw [if_neg hreal] at hhost
    obtain ⟨hsome, hfree, hsame, hothers⟩ := hhost
    obtain ⟨b, hb⟩ := Option.isSome_iff_exists.mp hsome
    have hne : old ≠ new := by
      rintro rfl
      rw [hfree] at hb
      cases hb
    have hpersists := fun p hp hne => sameNode_of_persists (hothers p hp hne)
    obtain ⟨c, hc, hnode⟩ := sameNode_some (hpersists old (Or.inr hold.abs) hne) hb
    have hs : SameAs c b := by
      have hkind := sort_of_node hnode
      have hdev : c.node.dev = b.node.dev := congrArg StatBuf.dev hnode
      have hino : c.node.ino = b.node.ino := congrArg StatBuf.ino hnode
      exact ⟨hdev, hino, hkind⟩
    have hthere : ¬ Absent old db.files :=
      (recorded_iff h (Or.inr hold.abs) hb).mp (hclear hreal b hb)
    obtain ⟨r, hk⟩ := knows_of_there h hb hs hthere
    obtain ⟨t₁, msg, h₁, hstat⟩ := @stats a old c b e.sq e.env e.leftover db e.tables h hold hb hs
    obtain ⟨hsucc, hdata⟩ := (hstat _).mp (data_of_knows h hs hk)
    have hfilter : (some msg).filter (fun msg : MsgHeader => msg.result = .succeed) = some msg := by
      simp [hsucc]
    have hmode : (c.statMsg msg).mode = r.mode := congrArg FileData.mode hdata
    have hkey : (c.statMsg msg).key = b.key := show c.key = b.key from sameAs_key hs
    have hfree' : Absent new db.files := by
      intro q hq hqp
      obtain ⟨b', hb', _⟩ := h.recorded q hq
      rw [hqp, hfree] at hb'
      cases hb'
    have hrk : r.key = b.key := hk.describes.key.trans (sameAs_key hs)
    obtain ⟨db', t₂, msg', h₂, q, hq, hqk, hfiles⟩ := @sends_link e.sq e.env e.leftover new
      (c.statMsg msg) db t₁ hnew ⟨hfree', ⟨r, hk.mem, hrk.trans hkey.symm⟩, hk.numbered⟩
      (fun q hq hqk => by
        have he' := h.data q hq
        rw [hqk, hkey, data_of_knows h hs hk] at he'
        have hqm : r.mode = q.mode := congrArg FileData.mode (Option.some.inj he')
        exact sameType_of_mode (hmode.trans hqm))
    rw [if_neg hreal, hc]
    refine ⟨(db', pseudoClientLinkedPaths t₂ old new), ?_, ?_⟩
    · dsimp only
      rw [h₁, Option.bind_some]
      dsimp only
      rw [hfilter]
      dsimp only [sendNotice]
      rw [h₂]
      rfl
    · rw [hfiles]
      exact mirrors_linked h (Or.inr hold.abs) (Or.inr hnew.abs) hb hfree' hq (hqk.trans hkey)
        hnode (hsame.trans hc) hpersists he.inodes

/-- A file without other names is recorded with a change of its mode or owner. -/
theorem changes_new (h : Mirrors a db.files) {o : Op} (ho : o = .chmod ∨ o = .chown)
    (hp : AsksAbout env path) (hb : a.host.lstat path = some b) (hs : SameAs buf b)
    (habs : Absent path db.files) (hsole : a.host.SoleName path)
    (hsame : ∀ p, Canonical p → SameNode a.host after p) (hinodes : after.Inodes) :
    ∃ db' t' msg,
      serverOp sq env leftover (db, tables) (noticeCall o path buf) = some ((db', t'), msg) ∧
      Mirrors ⟨after, Function.update a.known b.key (some (noticeRow env o buf path).fileData)⟩
        db'.files := by
  have hnew : o.recordsNew = true := by rcases ho with rfl | rfl <;> rfl
  obtain ⟨db', t', msg, hsent, hfiles, _⟩ := @sends_new sq env leftover o path buf db tables hp hnew
    (unknown_of_absent h hp.abs hb hs habs)
  obtain ⟨c, hc, hnode⟩ := sameNode_some (hsame path (Or.inr hp.abs)) hb
  have hck : c.key = b.key := key_of_node hnode
  have hdesc : (noticeRow env o buf path).Describes c :=
    describes_of_node (describes_noticeRow (sameAs_key hs) hs.type) hnode
  have hmirrors := mirrors_add h (Or.inr hp.abs) habs hc rfl hdesc rfl (fun p hp _ => hsame p hp)
    (fun q hq hk => absurd (hk.trans hck) (absent_key_ne h.toTracked hp.abs hb habs hq))
    (fun p c' hpc hne hc' hk => by
      obtain ⟨b', hb', he⟩ := sameNode_before (hsame p hpc) hc'
      exact absurd (hsole b p b' hb hpc hb' ((key_of_node he).symm.trans (hk.trans hck))) hne)
    hinodes
  refine ⟨db', t', some msg, hsent, ?_⟩
  rwa [hfiles, ← hck]

/-- What a change makes of the rows is what it makes of the record. -/
theorem changes_recorded (h : Mirrors a db.files) {o : Op} (ho : o = .chmod ∨ o = .chown)
    (hp : AsksAbout env path) (hs : SameAs buf b) (hk : Knows path buf db.files r) {d : FileData}
    (hd : ∀ q : FileRow, q.fileData = r.fileData → (noticeChange o buf q).fileData = d)
    (hsame : ∀ p, Canonical p → SameNode a.host after p) (hinodes : after.Inodes) :
    ∃ db' t' msg,
      serverOp sq env leftover (db, tables) (noticeCall o path buf) = some ((db', t'), msg) ∧
      Mirrors ⟨after, Function.update a.known b.key (some d)⟩ db'.files := by
  obtain ⟨db', t', msg, hsent, hfiles⟩ := @sends_change sq env leftover o path buf db tables r hp ho
    (mirrors_coherent h) hk
  refine ⟨db', t', some msg, hsent, ?_⟩
  have hkey := sameAs_key hs
  have hknown := data_of_knows h hs hk
  have hrevised : Mirrors ⟨a.host, Function.update a.known b.key (some d)⟩ db'.files := by
    rw [hfiles, hkey]
    refine mirrors_revise h (fun q => ?_) (fun q => ?_) (fun q => ?_) (fun q => ?_)
      (fun q hq hqk => ?_)
      (by rw [hknown]; rfl)
    · rcases ho with rfl | rfl <;> rfl
    · rcases ho with rfl | rfl <;> rfl
    · rcases ho with rfl | rfl <;> rfl
    · rcases ho with rfl | rfl
      · exact TwoStoresLemmas.mask_replace (by decide)
      · rfl
    · refine hd q ?_
      have he := h.data q hq
      rw [hqk, hknown] at he
      exact (Option.some.inj he).symm
  exact mirrors_host hrevised hsame hinodes

theorem withPermissions_again (mode m user : BitVec 32) :
    withPermissions mode (withPermissions m user) = withPermissions mode user := by
  have h : withPermissions m user &&& 0o7777 = user &&& 0o7777 := TwoStoresLemmas.mask_replaced
  rw [withPermissions, h]
  rfl

theorem serves_fchmodat {mode : BitVec 32} (h : Mirrors a db.files)
    (hcall : e.call = .fchmodat path mode) (he : e.Emulable a) : Serves a e db := by
  have hp : AsksAbout e.env path := he.asks path (by rw [hcall]; exact List.mem_singleton.mpr rfl)
  have hhost := he.host
  have hclear := he.clear
  unfold FileEvent.Clear at hclear
  rw [hcall] at hhost hclear
  unfold Serves FileEvent.emulate FileEvent.wrapper FileEvent.effect FileEvent.returns
    wrapFchmodatPath
  rw [hcall]
  dsimp only [HostDoes] at hhost hclear ⊢
  cases hb : a.host.lstat path with
  | none =>
    rw [hb, if_pos (by rfl)] at hhost
    rw [if_pos rfl, hhost]
    exact ⟨_, rfl, h⟩
  | some b =>
    have hsome : ¬ some b = none := Option.some_ne_none b
    rw [hb] at hhost
    dsimp only [Option.all_some] at hhost ⊢
    rw [if_neg hsome]
    rcases Decidable.em (sIslnk (b.mode.setWidth 64) = true) with hlnk | hlnk
    · rw [if_pos hlnk] at hhost
      rw [if_pos hlnk, if_pos hlnk, hhost]
      exact ⟨_, rfl, h⟩
    · rw [if_neg hlnk] at hhost
      rw [if_neg hlnk, if_neg hlnk, metadata_set_some rfl]
      have hsame : ∀ p, Canonical p → SameNode a.host e.after p := fun p hpc => (hhost p hpc).1
      have hs : SameAs { b with mode := withPermissions b.mode mode } b :=
        ⟨rfl, rfl, TwoStoresLemmas.sameKind_of_type (TwoStoresLemmas.mask_replace (by decide))⟩
      have hsent : ∀ d, FileEvent.chmodded e a.known mode b = d → (∃ db' t' msg,
          serverOp e.sq e.env e.leftover (db, e.tables)
            (noticeCall .chmod path { b with mode := withPermissions b.mode mode }) =
              some ((db', t'), msg) ∧
          Mirrors ⟨e.after, Function.update a.known b.key (some d)⟩ db'.files) →
          ∃ s, (wrapFchmodat (serverOp e.sq e.env e.leftover) (db, e.tables) path b mode).map
              (fun s => (s, (0 : Int))) = some (s, 0) ∧
            Mirrors ⟨e.after, Function.update a.known b.key
              (some (FileEvent.chmodded e a.known mode b))⟩ s.1.files := by
        rintro d hd ⟨db', t', msg, hcalled, hmirrors⟩
        refine ⟨(db', t'), ?_, by rw [hd]; exact hmirrors⟩
        unfold wrapFchmodat
        dsimp only
        rw [hcalled]
        rfl
      rcases Decidable.em (Absent path db.files) with habs | hthere
      · have hnone : a.known b.key = none := by
          refine Option.eq_none_iff_forall_ne_some.mpr fun d hd => ?_
          exact (recorded_iff h (Or.inr hp.abs) hb).mp (by rw [hd]; rfl) habs
        have hsole : a.host.SoleName path := by
          refine hclear.resolve_left fun hrec => ?_
          have hk := hrec b hb
          rw [hnone] at hk
          cases hk
        refine hsent _ ?_ (changes_new h (Or.inl rfl) hp hb hs habs hsole hsame he.inodes)
        unfold FileEvent.chmodded
        rw [hnone]
        rfl
      · obtain ⟨r, hk⟩ := knows_of_there h hb hs hthere
        refine hsent { r.fileData with mode := withPermissions r.fileData.mode mode } ?_
          (changes_recorded h (Or.inl rfl) hp hs hk (fun q hq => ?_) hsame he.inodes)
        · unfold FileEvent.chmodded
          rw [data_of_knows h hs hk]
        · rw [← hq]
          unfold noticeChange FileRow.fileData
          dsimp only
          rw [withPermissions_again]

theorem serves_fchownat {owner group : BitVec 32} (h : Mirrors a db.files)
    (hcall : e.call = .fchownat path owner group) (he : e.Emulable a) : Serves a e db := by
  have hp : AsksAbout e.env path := he.asks path (by rw [hcall]; exact List.mem_singleton.mpr rfl)
  have hhost := he.host
  have hclear := he.clear
  have hinodes : e.after.Inodes := he.inodes
  unfold FileEvent.Clear at hclear
  rw [hcall] at hhost hclear
  unfold Serves FileEvent.emulate FileEvent.wrapper FileEvent.effect FileEvent.returns
    wrapFchownatPath
  rw [hcall]
  dsimp only [HostDoes] at hhost hclear ⊢
  rw [hhost] at hinodes ⊢
  cases hb : a.host.lstat path with
  | none =>
    rw [if_pos rfl]
    exact ⟨_, rfl, h⟩
  | some b =>
    have hsome : ¬ some b = none := Option.some_ne_none b
    rw [if_neg hsome, metadata_set_some rfl]
    dsimp only
    have hsame : ∀ p, Canonical p → SameNode a.host a.host p := fun _ _ => rfl
    have hid : SameAs b b := sameAs_refl b
    -- the message that is sent last, from any buffer with the ids of the record
    have hlast : ∀ buf t₁, SameAs buf b → (a.known b.key = none → buf.fileData = b.fileData) →
        (∀ d, a.known b.key = some d → (owner = -1 → buf.uid = d.uid) ∧
          (group = -1 → buf.gid = d.gid)) →
        ∃ db' t' msg, serverOp e.sq e.env e.leftover (db, t₁)
            (noticeCall .chown path (buf.override owner group)) = some ((db', t'), msg) ∧
          Mirrors ⟨a.host, Function.update a.known b.key
            (some (FileEvent.chowned a.known owner group b))⟩ db'.files := by
      intro buf t₁ hs hfresh hids
      have hs' : SameAs (buf.override owner group) b := ⟨hs.dev, hs.ino, hs.type⟩
      rcases Decidable.em (Absent path db.files) with habs | hthere
      · have hnone : a.known b.key = none := by
          refine Option.eq_none_iff_forall_ne_some.mpr fun d hd => ?_
          exact (recorded_iff h (Or.inr hp.abs) hb).mp (by rw [hd]; rfl) habs
        have hsole : a.host.SoleName path := by
          refine hclear.resolve_left fun hrec => ?_
          have hk := hrec b hb
          rw [hnone] at hk
          cases hk
        have hdata : (noticeRow e.env .chown (buf.override owner group) path).fileData =
            FileEvent.chowned a.known owner group b := by
          have he := hfresh hnone
          have huid : buf.uid = b.uid := congrArg FileData.uid he
          have hgid : buf.gid = b.gid := congrArg FileData.gid he
          have hmode : buf.mode = b.mode := congrArg FileData.mode he
          have hrdev : buf.rdev = b.rdev := congrArg FileData.rdev he
          unfold FileEvent.chowned
          rw [hnone]
          unfold noticeRow StatBuf.override StatBuf.row FileRow.fileData
          dsimp only [Option.getD_none, FileData.stored, StatBuf.fileData]
          rw [huid, hgid, hmode, hrdev]
          rfl
        have hnew := @changes_new a a.host path _ b e.sq e.env e.leftover db t₁ h .chown
          (Or.inr rfl) hp hb hs' habs hsole hsame hinodes
        rwa [hdata] at hnew
      · obtain ⟨r, hk⟩ := knows_of_there h hb hs' hthere
        have hknown := data_of_knows h hs' hk
        obtain ⟨huid, hgid⟩ := hids _ hknown
        refine changes_recorded h (Or.inr rfl) hp hs' hk (fun q hq => ?_) hsame hinodes
        unfold FileEvent.chowned
        rw [hknown, ← hq]
        have hquid : (if owner = -1 then buf.uid else owner) =
            if owner = -1 then q.uid else owner := by
          split
          · next ho => exact (huid ho).trans (congrArg FileData.uid hq).symm
          · rfl
        have hqgid : (if group = -1 then buf.gid else group) =
            if group = -1 then q.gid else group := by
          split
          · next hg => exact (hgid hg).trans (congrArg FileData.gid hq).symm
          · rfl
        unfold noticeChange StatBuf.override FileRow.fileData
        dsimp only [Option.getD_some]
        rw [hquid, hqgid]
    unfold wrapFchownat
    rcases Decidable.em (owner = -1 ∨ group = -1) with hkeep | hboth
    · obtain ⟨t₁, msg, h₁, hstat⟩ := @stats a path b b e.sq e.env e.leftover db e.tables h hp hb hid
      have hanswer : ∃ buf, (some msg).filter (fun msg : MsgHeader => msg.result = .succeed) =
            (if msg.result = .succeed then some msg else none) ∧
          buf = (if msg.result = .succeed then b.statMsg msg else b) ∧ SameAs buf b ∧
          (a.known b.key = none → buf.fileData = b.fileData) ∧
          ∀ d, a.known b.key = some d → (owner = -1 → buf.uid = d.uid) ∧
            (group = -1 → buf.gid = d.gid) := by
        cases hknown : a.known b.key with
        | none =>
          have hno : ¬ msg.result = .succeed := by
            intro hsucc
            have hd := (hstat msg.fileData).mpr ⟨hsucc, rfl⟩
            rw [hknown] at hd
            cases hd
          exact ⟨b, by simp [hno], by simp [hno], hid, fun _ => rfl, fun d hd => by cases hd⟩
        | some d =>
          obtain ⟨hsucc, hdata⟩ := (hstat d).mp hknown
          have hthere := (recorded_iff h (Or.inr hp.abs) hb).mp (by rw [hknown]; rfl)
          obtain ⟨r, hk⟩ := knows_of_there h hb hid hthere
          have hd : d = r.fileData := by
            have he := data_of_knows h hid hk
            rw [hknown] at he
            exact Option.some.inj he
          have hmode : (b.statMsg msg).mode = r.mode := congrArg FileData.mode (hdata.trans hd)
          refine ⟨b.statMsg msg, by simp [hsucc], by simp [hsucc], ⟨rfl, rfl, ?_⟩,
            fun hno => (by cases hno), fun d' hd' => ?_⟩
          · rw [hmode]
            exact sameKind_row hk.describes
          · obtain rfl := Option.some.inj hd'
            exact ⟨fun _ => congrArg FileData.uid hdata, fun _ => congrArg FileData.gid hdata⟩
      obtain ⟨buf, hfilter, hbuf, hs, hfresh, hids⟩ := hanswer
      obtain ⟨db', t', msg', h₂, hmirrors⟩ := hlast buf t₁ hs hfresh hids
      refine ⟨(db', t'), ?_, hmirrors⟩
      rw [if_pos hkeep, h₁, Option.bind_some]
      dsimp only
      rw [hfilter]
      split at hbuf <;> rename_i hsucc <;> simp only [hsucc, if_true, if_false]
      · rw [← hbuf, h₂]
        rfl
      · rw [← hbuf, h₂]
        rfl
    · rw [not_or] at hboth
      obtain ⟨db', t', msg, h₁, hmirrors⟩ := hlast b e.tables hid (fun _ => rfl) fun d _ =>
        ⟨fun ho => absurd ho hboth.1, fun hg => absurd hg hboth.2⟩
      refine ⟨(db', t'), ?_, hmirrors⟩
      rw [if_neg (not_or.mpr hboth)]
      dsimp only
      rw [h₁]
      rfl

/-- A mark that was announced can be taken back. -/
theorem cancelIf_returns {db₁ : Db} {S : List Bytes} {d : BitVec 32} {dirfd : Int} {may : Bool}
    {garbage : StatBuf} (h : Mirrors a db.files) (hp : AsksAbout env path)
    (hfiles : db₁.files = markPaths d S db.files)
    (hmay : may = true → ¬ Absent path db.files) : ∃ s,
    clientCallIf sq env leftover may db₁ tables (pathCall .cancelUnlink dirfd path
      (some ((a.host.lstat path).getD garbage))) = some s := by
  unfold clientCallIf
  split
  · next hyes =>
    obtain ⟨r, hr, hrp⟩ := not_absent (hmay hyes)
    obtain ⟨b, hb, _⟩ := h.recorded r hr
    rw [hrp] at hb
    refine pathCall_returns rfl hp.text fun req hreq => ?_
    have hsent : StatBuf.sent (some ((a.host.lstat path).getD garbage)) =
        StatBuf.sent (a.host.lstat path) := by
      rw [hb]
      rfl
    rw [hsent] at hreq
    exact (announce_live h.toTracked hp.abs rfl hreq hfiles).1
  · exact ⟨_, rfl⟩

/-- A rename that fails leaves the table. -/
theorem rename_fails {old new : Bytes} {olddirfd newdirfd : Int} {real : HostCall}
    {bufs : RenameBufs} (h : Mirrors a db.files) (hold : AsksAbout env old)
    (hnew : AsksAbout env new) (hreal : real.rc = -1) : ∃ s,
    wrapRenameat sq env leftover a.host.lstat olddirfd newdirfd real db tables (some old) (some new)
      bufs = some s ∧ s.rc = -1 ∧ s.db.files = db.files := by
  unfold wrapRenameat renamePaths
  dsimp only
  split
  · exact ⟨_, rfl, hreal, rfl⟩
  · obtain ⟨s₁, h₁, hm₁, hr₁⟩ := @call_announces sq env leftover a.host .mayUnlink newdirfd new db
      db
      tables [] h.toTracked hnew.abs hnew.text (Or.inl rfl) ⟨(markPaths_absent (by simp)).symm, rfl⟩
    obtain ⟨s₂, h₂, hm₂, hr₂⟩ := @call_announces sq env leftover a.host .mayUnlink olddirfd old
      s₁.db db
      s₁.tables _ h.toTracked hold.abs hold.text (Or.inl rfl) hm₁
    obtain ⟨s₃, h₃, hm₃, hr₃⟩ := @call_announces sq env leftover a.host .stat olddirfd old s₂.db db
      s₂.tables _ h.toTracked hold.abs hold.text (Or.inr rfl) hm₂
    have hspOld := serverPath_absPath hold.abs
    have hspNew := serverPath_absPath hnew.abs
    have hmayNew : succeeded s₁.result = true → ¬ Absent new db.files := fun hs => (hr₁.mp hs).2
    have hmayOld : succeeded s₂.result = true → ¬ Absent old db.files := fun hs => (hr₂.mp hs).2
    obtain ⟨s₄, h₄⟩ := @cancelIf_returns a new sq env leftover db s₃.tables s₃.db _ env.pid newdirfd
      (succeeded s₁.result) bufs.newbuf h hnew hm₃.files hmayNew
    obtain ⟨S₄, hm₄, _⟩ := cancel_marked h.toConsistent hnew.text
      (by rw [hspNew]; exact hr₁) (fun _ => (finds_tracked (S := []) h.toTracked hnew.abs).fits)
      hm₃ h₄
    obtain ⟨s₅, h₅⟩ := @cancelIf_returns a old sq env leftover db s₄.tables s₄.db S₄ env.pid
      olddirfd
      (succeeded s₂.result) bufs.oldbuf h hold hm₄.files hmayOld
    have ha : renameAnnounce sq env leftover a.host.lstat olddirfd newdirfd db tables old new =
        some ⟨s₃.db, s₃.tables, succeeded s₁.result, succeeded s₂.result, succeeded s₃.result⟩ := by
      unfold renameAnnounce
      rw [h₁, Option.bind_some, h₂, Option.bind_some, h₃]
      rfl
    have hcancel : renameCancel sq env leftover olddirfd newdirfd
        (bufs.fill (a.host.lstat new) (a.host.lstat old))
        ⟨s₃.db, s₃.tables, succeeded s₁.result, succeeded s₂.result, succeeded s₃.result⟩ old new =
          some s₅ := by
      unfold renameCancel RenameBufs.fill
      dsimp only
      rw [h₄, Option.bind_some, h₅]
    have hrev : Revocable env a.host db.files old new :=
      ⟨fun _ => (finds_tracked (S := []) h.toTracked hnew.abs).fits,
        fun _ => (finds_tracked (S := []) h.toTracked hold.abs).fits,
        fun _ _ habs r hr _ b hb hk => by
          rw [hspOld] at habs
          exact absurd hk (absent_key_ne h.toTracked hold.abs hb habs hr)⟩
    rw [ha, Option.bind_some, hcancel]
    exact ⟨_, rfl, hreal, (cancel_restores h.toConsistent hold.text hnew.text hrev ha hcancel).1⟩

theorem serves_renameat {old new : Bytes} (h : Mirrors a db.files)
    (hcall : e.call = .renameat old new) (he : e.Emulable a) : Serves a e db := by
  have hold : AsksAbout e.env old := he.asks old (by rw [hcall]; exact List.mem_cons_self)
  have hnew : AsksAbout e.env new :=
    he.asks new (by rw [hcall]; exact List.mem_cons_of_mem _ (List.mem_singleton.mpr rfl))
  have hhost := he.host
  have hclear := he.clear
  unfold FileEvent.Clear at hclear
  rw [hcall] at hhost hclear
  unfold Serves FileEvent.emulate FileEvent.wrapper FileEvent.effect FileEvent.returns
  rw [hcall]
  dsimp only [HostDoes] at hhost hclear ⊢
  rcases Decidable.em (e.real = -1 ∨ sameFile (a.host.lstat new) (a.host.lstat old) = true)
    with hno | hyes
  · rw [if_pos hno] at hhost
    rw [if_pos hno, hhost]
    rcases hno with hreal | hsame
    · obtain ⟨s, hs, hrc, hfiles⟩ := @rename_fails a e.sq e.env e.leftover db e.tables old new
        e.olddirfd e.newdirfd ⟨e.real, 0⟩ e.bufs h hold hnew hreal
      rw [hs]
      refine ⟨_, by rw [Option.map_some, hrc, hreal], ?_⟩
      rw [hfiles]
      exact h
    · unfold wrapRenameat renamePaths
      dsimp only
      rw [if_pos hsame]
      exact ⟨_, rfl, h⟩
  · rw [if_neg hyes] at hhost
    rw [not_or] at hyes
    obtain ⟨hzero, ⟨buf, hr⟩, hdev, hempty, hmoves⟩ := hhost
    obtain ⟨hwhole, hrepeats⟩ := hclear hyes.1
    obtain ⟨s, S, hs, hrc, hS, hfiles⟩ := @renamePaths_files e.sq e.env e.leftover a.host
      ⟨e.real, 0⟩ e.olddirfd e.newdirfd old new buf db e.tables e.bufs hdev h.toTracked hr hzero
    have hagain : ∀ r ∈ db.files, ¬ OccursAgain old r := by
      rintro r hr' ⟨hbelow, hinfix⟩
      obtain ⟨b, hb, hd⟩ := h.recorded r hr'
      refine hrepeats r.path b (h.canonical r hr') hb ?_ ⟨below_iff.mp hbelow, hinfix⟩
      rw [← hd.key, h.data r hr']
      rfl
    have hcarry : s.db.files = carry old new buf db.files := by
      rw [hfiles]
      exact (renamed_eq_carry_iff hdev h.toTracked hr hS).mpr
        ⟨hnew.asks, Or.inl hold.asks, hagain⟩
    have hsole : Absent old db.files → a.host.SoleName old := by
      intro habs
      refine hwhole.resolve_left fun hrec => ?_
      exact (recorded_iff h (Or.inr hold.abs) hr.source).mp (hrec buf hr.source) habs
    rw [if_neg (not_or.mpr hyes), hr.source, metadata_set_some rfl]
    have hwrap : wrapRenameat e.sq e.env e.leftover a.host.lstat e.olddirfd e.newdirfd ⟨e.real, 0⟩
      db
        e.tables (some old) (some new) e.bufs = some s := hs
    rw [hwrap]
    refine ⟨_, by rw [Option.map_some, hrc, hzero], ?_⟩
    rw [hcarry]
    exact mirrors_carry h hr hempty hmoves hsole he.inodes

/-- Every call keeps the table in step. -/
theorem serves (h : Mirrors a db.files) (he : e.Emulable a) : Serves a e db := by
  cases hcall : e.call with
  | openat path flags mode => exact serves_openat h hcall he
  | mkdirat path mode => exact serves_mkdirat h hcall he
  | mknodat path mode dev => exact serves_mknodat h hcall he
  | symlinkat path => exact serves_symlinkat h hcall he
  | linkat oldpath newpath => exact serves_linkat h hcall he
  | unlinkat path => exact serves_unlinkat h hcall he
  | fchmodat path mode => exact serves_fchmodat h hcall he
  | fchownat path owner group => exact serves_fchownat h hcall he
  | renameat oldpath newpath => exact serves_renameat h hcall he

/-- Nothing is recorded yet. -/
theorem mirrors_fresh {host : HostFs} (hinodes : host.Inodes) (ht : t = []) :
    Mirrors ⟨host, fun _ => none⟩ t := by
  subst ht
  refine ⟨⟨⟨?_, ?_, ?_⟩, ?_, ?_⟩, hinodes, ?_, ?_⟩
  · exact fun r hr => absurd hr List.not_mem_nil
  · exact fun r hr => absurd hr List.not_mem_nil
  · exact fun r hr => absurd hr List.not_mem_nil
  · exact fun r hr => absurd hr List.not_mem_nil
  · exact fun r hr => absurd hr List.not_mem_nil
  · exact fun r hr => absurd hr List.not_mem_nil
  · intro p buf _ _ hk
    cases hk

/-- The world is what the record says. -/
def InStep (w : FileWorld) (a : Emulated) : Prop := w.host = a.host ∧ Mirrors a w.db.files

theorem inStep_step (w : FileWorld) (a : Emulated) (e : FileEvent) (h : InStep w a)
    (he : FileEvent.Emulable a e) :
    ∃ w', FileEvent.step w e = some w' ∧ InStep w' (FileEvent.emulate a e) := by
  obtain ⟨hhost, hmirrors⟩ := h
  obtain ⟨s, hs, hnext⟩ := serves hmirrors he
  refine ⟨⟨e.after, s.1⟩, ?_, rfl, hnext⟩
  unfold FileEvent.step
  rw [hhost, hs]
  rfl

/-- A client that asks is told the record. -/
theorem inStep_stat {w : FileWorld} (h : InStep w a) (hp : AsksAbout env path) : ∃ t',
    w.stat sq env leftover tables path = some ((w.db, t'), a.stat path) := by
  obtain ⟨hhost, hmirrors⟩ := h
  unfold FileWorld.stat Emulated.stat wrapFxstatat64
  rw [hhost]
  cases hb : a.host.lstat path with
  | none => exact ⟨tables, rfl⟩
  | some b =>
    obtain ⟨t', msg, hsent, hstat⟩ := @stats a path b b sq env leftover w.db tables hmirrors hp hb
      (sameAs_refl b)
    refine ⟨t', ?_⟩
    dsimp only
    rw [hsent, Option.map_some, Option.map_some]
    cases hknown : a.known b.key with
    | none =>
      have hno : ¬ msg.result = .succeed := by
        intro hsucc
        have hd := (hstat msg.fileData).mpr ⟨hsucc, rfl⟩
        rw [hknown] at hd
        cases hd
      have hfilter : (some msg).filter (fun msg : MsgHeader => msg.result = .succeed) = none := by
        simp [hno]
      rw [hfilter]
      rfl
    | some d =>
      obtain ⟨hsucc, hdata⟩ := (hstat d).mp hknown
      subst hdata
      have hfilter : (some msg).filter (fun msg : MsgHeader => msg.result = .succeed) =
          some msg := by simp [hsucc]
      rw [hfilter]
      rfl

/-! ## A file with several names, of which nothing is recorded -/

/-- The table after the first record of the file, which is under `target`. -/
structure FirstRow (after : HostFs) (b : StatBuf) (target : Bytes) (t t' : List FileRow)
    (r : FileRow) : Prop where
  rows : t' = t ++ [r]
  path : r.path = target
  key : r.key = b.key
  live : r.deleting = 0
  describes : ∀ c, after.lstat target = some c → r.Describes c

/-- The call made the first record, and every other name is what it was. -/
structure Splits (a : Emulated) (after : HostFs) (b : StatBuf) (path target : Bytes) : Prop where
  source : a.host.lstat path = some b
  unknown : a.known b.key = none
  sourcePath : AbsPath path
  targetPath : AbsPath target
  named : ∃ c, after.lstat target = some c ∧ c.key = b.key
  others : ∀ p, Canonical p → p ≠ target → SameNode a.host after p

section Splits
variable {target : Bytes} {t' : List FileRow}

theorem splits_absent (h : Mirrors a t) (hs : Splits a after b path target) :
    Absent path t ∧ ∀ q ∈ t, q.key ≠ b.key := by
  have habs : Absent path t := by
    refine Decidable.not_not.mp fun hthere => ?_
    have hk := (recorded_iff h (Or.inr hs.sourcePath) hs.source).mpr hthere
    rw [hs.unknown] at hk
    cases hk
  exact ⟨habs, fun q hq => absent_key_ne h.toTracked hs.sourcePath hs.source habs hq⟩

theorem firstRow_coherent (h : Mirrors a t) (hs : Splits a after b path target)
    (hf : FirstRow after b target t t' r) : Coherent t' := by
  obtain ⟨_, hkeys⟩ := splits_absent h hs
  have hcases : ∀ q ∈ t', q ∈ t ∨ q = r := by
    intro q hq
    rw [hf.rows] at hq
    simpa using hq
  intro q hq q' hq' hk
  rcases hcases q hq with hq | rfl <;> rcases hcases q' hq' with hq' | rfl
  · exact mirrors_coherent h q hq q' hq' hk
  · exact absurd (hk.trans hf.key) (hkeys q hq)
  · exact absurd (hk.symm.trans hf.key) (hkeys q' hq')
  · rfl

/-- The other names of the file are those that the server does not answer for. -/
theorem splits_stat {w : FileWorld} {q : Bytes} (h : Mirrors a t)
    (hs : Splits a w.host b path target) (hf : FirstRow w.host b target t w.db.files r)
    (hq : AsksAbout env q) : w.stat sq env leftover tables q = none ↔
      q ≠ target ∧ ∃ c, w.host.lstat q = some c ∧ c.key = b.key := by
  obtain ⟨_, hkeys⟩ := splits_absent h hs
  have hmem : ∀ q', q' ∈ w.db.files ↔ q' ∈ t ∨ q' = r := by
    intro q'
    rw [hf.rows]
    simp
  unfold FileWorld.stat wrapFxstatat64
  cases hc : w.host.lstat q with
  | none =>
    dsimp only
    constructor
    · intro he
      cases he
    · rintro ⟨_, c, hc', _⟩
      cases hc'
  | some c =>
    have hnum := w.host.numbered hc
    -- a row that the path has answers for it
    have hanswers : ∀ r', Knows q c w.db.files r' → ¬ serverOp sq env leftover (w.db, tables)
        (noticeCall .stat q c) = none := by
      intro r' hk he
      obtain ⟨t₁, msg, hsent, _⟩ := @sends_stat sq env leftover q c w.db tables r' hq
        (firstRow_coherent h hs hf) hk
      rw [he] at hsent
      cases hsent
    dsimp only
    rw [Option.map_eq_none_iff]
    rcases Decidable.em (q = target) with rfl | hne
    · refine ⟨fun he => absurd he (hanswers r ⟨(hmem r).mpr (Or.inr rfl), hf.path,
        hf.describes c hc, hnum⟩), fun hno => absurd rfl hno.1⟩
    · obtain ⟨b', hb', hnode⟩ := sameNode_before (hs.others q (Or.inr hq.abs) hne) hc
      have hrow : r.path ≠ q := fun he => hne (he.symm.trans hf.path)
      rcases Decidable.em (c.key = b.key) with hkey | hkey
      · refine ⟨fun _ => ⟨hne, c, rfl, hkey⟩, fun _ => ?_⟩
        have habs : Absent q t := by
          intro q' hq' hqp
          obtain ⟨b'', hb'', hd⟩ := h.recorded q' hq'
          rw [hqp, hb'] at hb''
          obtain rfl := Option.some.inj hb''
          exact hkeys q' hq' (hd.key.trans ((key_of_node hnode).symm.trans hkey))
        refine sends_refused hq rfl (by decide) ⟨fun q' hq' => ?_, ⟨r, (hmem r).mpr (Or.inr rfl),
          hf.key.trans hkey.symm⟩, hnum⟩ fun q' hq' hk => ?_
        · rcases (hmem q').mp hq' with hq' | rfl
          · exact habs q' hq'
          · exact hrow
        · rcases (hmem q').mp hq' with hq' | rfl
          · exact absurd (hk.trans hkey) (hkeys q' hq')
          · refine ⟨hf.live, fun he => ?_⟩
            have habs := hs.targetPath
            rw [← hf.path, he] at habs
            exact absurd habs (by decide)
      · refine ⟨fun he => ?_, fun hno => ?_⟩
        · rcases Decidable.em (Absent q t) with habs | hthere
          · have hunknown : Unknown q c w.db.files := by
              refine ⟨fun q' hq' => ?_, fun q' hq' => ?_⟩ <;> rcases (hmem q').mp hq' with hq' | rfl
              · exact habs q' hq'
              · exact hrow
              · rw [key_of_node hnode]
                exact absent_key_ne h.toTracked hq.abs hb' habs hq'
              · exact fun hk => hkey (hk.symm.trans hf.key)
            obtain ⟨t₁, msg, hsent, _⟩ := @sends_stat_new sq env leftover q c w.db tables hq
              hunknown
            rw [he] at hsent
            cases hsent
          · obtain ⟨r', hr', hrp⟩ := not_absent hthere
            obtain ⟨b'', hb'', hd⟩ := h.recorded r' hr'
            rw [hrp, hb'] at hb''
            obtain rfl := Option.some.inj hb''
            exact absurd he (hanswers r' ⟨(hmem r').mpr (Or.inl hr'), hrp,
              describes_of_node hd hnode, hnum⟩)
        · obtain ⟨_, c', hc', hk⟩ := hno
          obtain rfl := Option.some.inj hc'
          exact absurd hk hkey

/-- The notice that makes the first record. -/
theorem first_notice {o : Op} (ho : o.recordsNew = true) (hp : AsksAbout env target)
    (hu : Unknown target buf db.files) (hs : SameAs buf b)
    (hnode : ∀ c, after.lstat target = some c → c.node = b.node) : ∃ db' t' msg r,
    serverOp sq env leftover (db, tables) (noticeCall o target buf) = some ((db', t'), msg) ∧
      FirstRow after b target db.files db'.files r := by
  obtain ⟨db', t', msg, hsent, hfiles, _⟩ := @sends_new sq env leftover o target buf db tables hp ho
    hu
  exact ⟨db', t', some msg, _, hsent, hfiles, rfl, sameAs_key hs, rfl,
    fun c hc => describes_of_node (describes_noticeRow (sameAs_key hs) hs.type) (hnode c hc)⟩

theorem stat_unknown (h : Mirrors a db.files) (hp : AsksAbout env path)
    (hb : a.host.lstat path = some b) (hs : SameAs buf b) (habs : Absent path db.files) :
    ∃ t' msg, serverOp sq env leftover (db, tables) (noticeCall .stat path buf) =
      some ((db, t'), msg) ∧
      msg.filter (fun msg : MsgHeader => msg.result = .succeed) = none := by
  obtain ⟨t', msg, hsent, hfail⟩ := @sends_stat_new sq env leftover path buf db tables hp
    (unknown_of_absent h hp.abs hb hs habs)
  exact ⟨t', some msg, hsent, by simp [hfail]⟩

/-- The call gives the file its first row. -/
def Starts (a : Emulated) (e : FileEvent) (b : StatBuf) (path target : Bytes) (db : Db) : Prop :=
  Splits a e.after b path target ∧ ∃ s r, e.wrapper a.host db = some s ∧
    FirstRow e.after b target db.files s.1.1.files r

section Starts
variable {e : FileEvent}

theorem starts_fchmodat {mode : BitVec 32} (h : Mirrors a db.files)
    (hcall : e.call = .fchmodat path mode) (hp : AsksAbout e.env path)
    (hhost : HostDoes a.host e.after e.real e.call) (hb : a.host.lstat path = some b)
    (hnone : a.known b.key = none) (hlnk : ¬ sIslnk (b.mode.setWidth 64) = true) :
    Starts a e b path path db := by
  unfold Starts FileEvent.wrapper wrapFchmodatPath
  rw [hcall] at hhost ⊢
  dsimp only [HostDoes] at hhost ⊢
  rw [hb] at hhost ⊢
  dsimp only [Option.all_some] at hhost ⊢
  rw [if_neg hlnk] at hhost ⊢
  have hsame : ∀ p, Canonical p → SameNode a.host e.after p := fun p hpc => (hhost p hpc).1
  obtain ⟨c, hc, hnode⟩ := sameNode_some (hsame path (Or.inr hp.abs)) hb
  have hsplits : Splits a e.after b path path :=
    ⟨hb, hnone, hp.abs, hp.abs, ⟨c, hc, key_of_node hnode⟩, fun p hpc _ => hsame p hpc⟩
  obtain ⟨habs, _⟩ := splits_absent h hsplits
  have hs : SameAs { b with mode := withPermissions b.mode mode } b :=
    ⟨rfl, rfl, TwoStoresLemmas.sameKind_of_type (TwoStoresLemmas.mask_replace (by decide))⟩
  obtain ⟨db', t', msg, r, hsent, hfirst⟩ := @first_notice e.after _ b e.sq e.env e.leftover db
    e.tables path .chmod rfl hp (unknown_of_absent h hp.abs hb hs habs) hs (fun c' hc' => by
      rw [hc] at hc'
      exact Option.some.inj hc' ▸ hnode)
  refine ⟨hsplits, ((db', t'), 0), r, ?_, hfirst⟩
  unfold wrapFchmodat
  dsimp only
  rw [hsent]
  rfl

theorem starts_fchownat {owner group : BitVec 32} (h : Mirrors a db.files)
    (hcall : e.call = .fchownat path owner group) (hp : AsksAbout e.env path)
    (hhost : HostDoes a.host e.after e.real e.call) (hb : a.host.lstat path = some b)
    (hnone : a.known b.key = none) : Starts a e b path path db := by
  unfold Starts FileEvent.wrapper wrapFchownatPath
  rw [hcall] at hhost ⊢
  dsimp only [HostDoes] at hhost ⊢
  rw [hhost, hb]
  dsimp only
  have hsplits : Splits a a.host b path path :=
    ⟨hb, hnone, hp.abs, hp.abs, ⟨b, hb, rfl⟩, fun p _ _ => rfl⟩
  obtain ⟨habs, _⟩ := splits_absent h hsplits
  have hs : SameAs (b.override owner group) b := ⟨rfl, rfl, rfl, rfl⟩
  have hnotice : ∀ t₁, ∃ db' t' msg r, serverOp e.sq e.env e.leftover (db, t₁)
      (noticeCall .chown path (b.override owner group)) = some ((db', t'), msg) ∧
        FirstRow a.host b path db.files db'.files r := by
    intro t₁
    exact first_notice rfl hp (unknown_of_absent h hp.abs hb hs habs) hs (fun c hc => by
      rw [hb] at hc
      exact Option.some.inj hc ▸ rfl)
  refine ⟨hsplits, ?_⟩
  unfold wrapFchownat
  rcases Decidable.em (owner = -1 ∨ group = -1) with hkeep | hboth
  · obtain ⟨t₁, msg, h₁, hfail⟩ := @stat_unknown a path b b e.sq e.env e.leftover db e.tables h hp
      hb
      (sameAs_refl b) habs
    obtain ⟨db', t', msg', r, h₂, hfirst⟩ := hnotice t₁
    refine ⟨((db', t'), 0), r, ?_, hfirst⟩
    rw [if_pos hkeep, h₁, Option.bind_some]
    dsimp only
    rw [hfail, h₂]
    rfl
  · obtain ⟨db', t', msg, r, h₁, hfirst⟩ := hnotice e.tables
    refine ⟨((db', t'), 0), r, ?_, hfirst⟩
    rw [if_neg hboth]
    dsimp only
    rw [h₁]
    rfl

theorem starts_linkat (h : Mirrors a db.files) (hcall : e.call = .linkat path target)
    (hp : AsksAbout e.env path) (hnew : AsksAbout e.env target)
    (hhost : HostDoes a.host e.after e.real e.call) (hb : a.host.lstat path = some b)
    (hnone : a.known b.key = none) (hreal : e.real ≠ -1) : Starts a e b path target db := by
  unfold Starts FileEvent.wrapper wrapLinkat
  rw [hcall] at hhost ⊢
  dsimp only [HostDoes] at hhost ⊢
  rw [if_neg hreal] at hhost ⊢
  obtain ⟨_, hfree, hsame, hothers⟩ := hhost
  have hne : path ≠ target := by
    rintro rfl
    rw [hfree] at hb
    cases hb
  have hpersists := fun p hp hne => sameNode_of_persists (hothers p hp hne)
  obtain ⟨c, hc, hnode⟩ := sameNode_some (hpersists path (Or.inr hp.abs) hne) hb
  have hsplits : Splits a e.after b path target :=
    ⟨hb, hnone, hp.abs, hnew.abs, ⟨c, hsame.trans hc, key_of_node hnode⟩, hpersists⟩
  obtain ⟨habs, hkeys⟩ := splits_absent h hsplits
  have hs : SameAs c b := by
    have hkind := sort_of_node hnode
    have hdev : c.node.dev = b.node.dev := congrArg StatBuf.dev hnode
    have hino : c.node.ino = b.node.ino := congrArg StatBuf.ino hnode
    exact ⟨hdev, hino, hkind⟩
  have hunknown : Unknown target c db.files := by
    refine ⟨fun q hq hqp => ?_, fun q hq => ?_⟩
    · obtain ⟨b', hb', _⟩ := h.recorded q hq
      rw [hqp, hfree] at hb'
      cases hb'
    · rw [sameAs_key hs]
      exact hkeys q hq
  obtain ⟨t₁, msg, h₁, hfail⟩ := @stat_unknown a path c b e.sq e.env e.leftover db e.tables h hp hb
    hs
    habs
  obtain ⟨db', t', msg', r, h₂, hfirst⟩ := @first_notice e.after c b e.sq e.env e.leftover db t₁
    target .link rfl hnew hunknown hs (fun c' hc' => by
      rw [hsame, hc] at hc'
      exact Option.some.inj hc' ▸ hnode)
  refine ⟨hsplits, ((db', pseudoClientLinkedPaths t' path target), e.real), r, ?_, hfirst⟩
  rw [hc]
  dsimp only
  rw [h₁, Option.bind_some]
  dsimp only
  rw [hfail]
  dsimp only [sendNotice]
  rw [h₂]
  rfl

theorem starts (h : Mirrors a db.files) (hrec : e.RecordsUnder b path target)
    (hasks : ∀ p ∈ e.call.paths, AsksAbout e.env p)
    (hhost : HostDoes a.host e.after e.real e.call) (hb : a.host.lstat path = some b)
    (hnone : a.known b.key = none) : Starts a e b path target db := by
  unfold FileEvent.RecordsUnder at hrec
  cases hcall : e.call with
  | fchmodat p mode =>
    rw [hcall] at hrec hasks
    obtain ⟨rfl, rfl, hlnk⟩ := hrec
    exact starts_fchmodat h hcall (hasks _ (List.mem_singleton.mpr rfl)) hhost hb hnone hlnk
  | fchownat p owner group =>
    rw [hcall] at hrec hasks
    obtain ⟨rfl, rfl⟩ := hrec
    exact starts_fchownat h hcall (hasks _ (List.mem_singleton.mpr rfl)) hhost hb hnone
  | linkat oldpath newpath =>
    rw [hcall] at hrec hasks
    obtain ⟨rfl, rfl, hreal⟩ := hrec
    exact starts_linkat h hcall (hasks _ List.mem_cons_self)
      (hasks _ (List.mem_cons_of_mem _ (List.mem_singleton.mpr rfl))) hhost hb hnone hreal
  | _ =>
    rw [hcall] at hrec
    cases hrec

end Starts

end Splits

end Notices

end EmulationLemmas

open EmulationLemmas

/-! ## Runs -/

theorem mem_names {names : List (Bytes × StatBuf)} {p : Bytes} {b : StatBuf}
    (h : names.lookup p = some b) : (p, b) ∈ names := by
  obtain ⟨l₁, l₂, he, _⟩ := List.lookup_eq_some_iff.mp h
  rw [he]
  simp

def HostFs.ofNames (names : List (Bytes × StatBuf)) (h : ∀ e ∈ names, e.1.head? = some slash ∧
    (e.2.dev ≠ 0 ∧ e.2.ino ≠ 0) ∧ serverPath e.1 = e.1) : HostFs where
  lstat p := names.lookup p
  absolute hp := (h _ (mem_names hp)).1
  numbered hp := (h _ (mem_names hp)).2.1
  trailing hp := Or.inl (by rwa [(h _ (mem_names hp)).2.2])

theorem lookup_none {names : List (Bytes × StatBuf)} {p : Bytes} (h : p ∉ names.map (·.1)) :
    names.lookup p = none := by
  refine List.lookup_eq_none_iff.mpr fun e he => ?_
  have hne : p ≠ e.1 := fun heq => h (List.mem_map.mpr ⟨e, he, heq.symm⟩)
  simp [hne]

/-- Only the names of the two hosts have to be looked at. -/
theorem persists_ofNames {l₁ l₂ : List (Bytes × StatBuf)} {h₁ h₂} {path : Bytes}
    (hall : ∀ q ∈ (l₁ ++ l₂).map (·.1), q ≠ path →
      (l₂.lookup q).map StatBuf.object = (l₁.lookup q).map StatBuf.object) (p : Bytes)
    (hp : p ≠ path) : Persists (HostFs.ofNames l₁ h₁) (HostFs.ofNames l₂ h₂) p := by
  rcases Decidable.em (p ∈ (l₁ ++ l₂).map (·.1)) with hmem | hmem
  · exact hall p hmem hp
  · rw [List.map_append, List.mem_append, not_or] at hmem
    unfold Persists HostFs.ofNames
    dsimp only
    rw [lookup_none hmem.1, lookup_none hmem.2]

theorem inodes_ofNames {names : List (Bytes × StatBuf)} {h} (hkeys : ∀ e ∈ names, ∀ f ∈ names,
    e.2.key = f.2.key → e.2 = f.2) : (HostFs.ofNames names h).Inodes :=
  fun _ _ hb hc => hkeys _ (mem_names hb) _ (mem_names hc)

def exTwice : StatBuf := { exBuf with nlink := 2 }

def exTop (c : Char) : Bytes := ascii ['/', c]

def exBare : HostFs := .ofNames [] (by decide)

def exOne : HostFs := .ofNames [(exTop 'a', exBuf)] (by decide)

def exTwo : HostFs := .ofNames [(exTop 'a', exTwice), (exTop 'b', exTwice)] (by decide)

def exMoved : HostFs := .ofNames [(exTop 'a', exTwice), (exTop 'c', exTwice)] (by decide)

def exEvent (call : FileCall) (real : Int) (after : HostFs) : FileEvent :=
  ⟨.inOrder, exEnv, [], ⟨[], []⟩, 0o22, ⟨exBuf, exBuf⟩, -100, -100, call, real, after⟩

/-- A file is made and given away, and gets a second name that is renamed. -/
def exCalls : List FileEvent :=
  [exEvent (.openat (exTop 'a') 0o101 0o644) 3 exOne, exEvent (.fchownat (exTop 'a') 7 8) 0 exOne,
   exEvent (.linkat (exTop 'a') (exTop 'b')) 0 exTwo,
   exEvent (.renameat (exTop 'b') (exTop 'c')) 0 exMoved]

theorem emulated_recorded {p : Bytes} {b : StatBuf} {host : HostFs} {m : Metadata}
    (hb : host.lstat p = some b) (hk : (m b.key).isSome) : Emulated.Recorded ⟨host, m⟩ p := by
  intro c hc
  rw [show host.lstat p = some c from hc] at hb
  obtain rfl := Option.some.inj hb
  exact hk

theorem exTwo_renames : HostRenames exTwo (exTop 'b') (exTop 'c') exTwice :=
  ⟨by decide, by decide, by decide, by decide, by decide, by decide, by decide, by decide⟩

theorem exTwo_lstat {p : Bytes} {b : StatBuf} (h : exTwo.lstat p = some b) :
    b = exTwice ∧ ¬ RepeatsBelow (exTop 'b') p := by
  have hall : ∀ e ∈ [(exTop 'a', exTwice), (exTop 'b', exTwice)], e.2 = exTwice ∧
      ¬ LiesBelow (exTop 'b') e.1 := by decide
  obtain ⟨hb, hbelow⟩ := hall _ (mem_names h)
  exact ⟨hb, fun hr => hbelow hr.1⟩

theorem exTwo_oneDevice : OneDevice exTwo where
  dev hb hc := by
    rw [(exTwo_lstat hb).1, (exTwo_lstat hc).1]
  inode hb hc _ := (exTwo_lstat hb).1.trans (exTwo_lstat hc).1.symm
  single _ _ hb _ hlink := by
    rw [(exTwo_lstat hb).1] at hlink
    exact absurd hlink (by decide)

theorem exTwo_moves : (∀ p, LiesBelow (exTop 'c') p → exTwo.lstat p = none) ∧
    ∀ p, Canonical p → (exMoved.lstat p).map StatBuf.object =
      ((nameBefore (exTop 'b') (exTop 'c') p).bind exTwo.lstat).map StatBuf.object := by
  refine ⟨fun p hp => ?_, fun p _ => ?_⟩
  · refine lookup_none fun hmem => ?_
    have hall : ∀ q ∈ [exTop 'a', exTop 'b'], ¬ LiesBelow (exTop 'c') q := by decide
    exact hall p hmem hp
  · rcases Decidable.em (p ∈ [exTop 'a', exTop 'b', exTop 'c']) with hmem | hmem
    · have hall : ∀ p ∈ [exTop 'a', exTop 'b', exTop 'c'],
          (exMoved.lstat p).map StatBuf.object =
            ((nameBefore (exTop 'b') (exTop 'c') p).bind exTwo.lstat).map StatBuf.object := by
        decide
      exact hall p hmem
    · have hafter : exMoved.lstat p = none := lookup_none fun h => hmem (by
        simp only [List.map_cons, List.map_nil, List.mem_cons, List.not_mem_nil] at h ⊢
        tauto)
      have hbefore : (nameBefore (exTop 'b') (exTop 'c') p).bind exTwo.lstat = none := by
        unfold nameBefore
        split
        · next hp =>
          rw [hp] at hmem
          exact absurd hmem (by decide)
        · split
          · next hbelow =>
            have hall : ∀ q ∈ [exTop 'a', exTop 'b'], ¬ LiesBelow (exTop 'b') q := by decide
            obtain ⟨rest, hrest, rfl⟩ := hbelow
            exact lookup_none fun h => hall _ h ⟨rest, hrest, rfl⟩
          · split
            · rfl
            · exact lookup_none fun h => hmem (List.mem_append_left [exTop 'c'] h)
      rw [hafter, hbefore]

theorem exCalls_emulable :
    Run.Guarded FileEvent.emulate FileEvent.Emulable ⟨exBare, fun _ => none⟩ exCalls := by
  have hinodes : exOne.Inodes ∧ exTwo.Inodes ∧ exMoved.Inodes :=
    ⟨inodes_ofNames (by decide), inodes_ofNames (by decide), inodes_ofNames (by decide)⟩
  obtain ⟨hone, htwo, hmoved⟩ := hinodes
  refine ⟨⟨by decide, ?_, hone, trivial⟩, ⟨by decide, rfl, hone, Or.inl ?_⟩,
    ⟨by decide, ?_, htwo, fun _ => ?_⟩, ⟨by decide, ?_, hmoved, fun _ => ⟨Or.inl ?_, ?_⟩⟩, trivial⟩
  · dsimp only [exEvent, HostDoes]
    rw [if_neg (by decide)]
    refine Or.inr ⟨by decide, rfl, ⟨exBuf, rfl, rfl, fun p b _ hb => ?_⟩, fun p _ hne => ?_⟩
    · cases hb
    · exact persists_ofNames (by decide) p hne
  · exact emulated_recorded (b := exBuf) rfl rfl
  · dsimp only [exEvent, HostDoes]
    rw [if_neg (by decide)]
    have hothers : ∀ p, p ≠ exTop 'b' → Persists exOne exTwo p := persists_ofNames (by decide)
    exact ⟨rfl, rfl, rfl, fun p _ hne => hothers p hne⟩
  · exact emulated_recorded (b := exBuf) rfl rfl
  · dsimp only [exEvent, HostDoes]
    rw [if_neg (by decide)]
    exact ⟨rfl, ⟨exTwice, exTwo_renames⟩, exTwo_oneDevice, exTwo_moves⟩
  · exact emulated_recorded (b := exTwice) rfl rfl
  · exact fun q b _ hb _ => (exTwo_lstat hb).2

end Pseudo
