import Pseudo.Changes
import Pseudo.FileCalls

/-!
# Notices about files of a tracked table

What a request with one path does when the table has the row of its file, or nothing of it: neither
check objects, and the operation works on the rows of one inode or adds a row.

Results:
1. `serverOp_sends`: a request that is not refused comes back with the server's answer.
2. `sends_new`, `sends_change`, `sends_stat`, `sends_open`: the table after each notice, and what
   `OP_STAT` answers.
3. `sends_link`: a new name for a recorded inode gets the values of its rows.
4. `sends_refused`: a name without a row, of an inode that has one, is refused.
-/

namespace Pseudo

open Table

/-- The operations with one path that a client always sends and that go through the checks. -/
def Op.notice : Op → Bool
  | .creat | .mkdir | .mknod | .symlink | .link | .chmod | .chown | .stat => true
  | _ => false

/-- Those that record a file without a row. -/
def Op.recordsNew : Op → Bool
  | .creat | .mkdir | .mknod | .symlink | .link | .chmod | .chown => true
  | _ => false

/-- A path of a client that the server is asked about. -/
structure AsksAbout (env : ClientEnv) (path : Bytes) : Prop where
  abs : AbsPath path
  text : IsCString path
  asks : asks env path = true

instance (env : ClientEnv) (path : Bytes) : Decidable (AsksAbout env path) :=
  decidable_of_iff (AbsPath path ∧ (¬ 0 ∈ path) ∧ asks env path = true)
    ⟨fun h => ⟨h.1, h.2.1, h.2.2⟩, fun h => ⟨h.abs, h.text, h.asks⟩⟩

/-- The message of a call with one path and a buffer. -/
def plainMsg (env : ClientEnv) (leftover : Bytes) (call : ClientCall) (path : Bytes) : PseudoMsg :=
  (clientRequest env call (TwoStoresLemmas.noticeSent path)).received leftover

/-- A call with one path and a buffer. -/
structure OnePath (call : ClientCall) (path : Bytes) (buf : StatBuf) : Prop where
  path : call.path = some path
  buf : call.buf = some buf
  extra1 : call.extra1 = none
  op : call.op.notice = true ∨ call.op = .open

/-- What the server reads in it. -/
structure Reads (env : ClientEnv) (o : Op) (path : Bytes) (buf : StatBuf) (req : Request) :
    Prop where
  proper : req.Proper
  msg : req.msg = req.hdr
  path : req.path = path
  header : TwoStoresLemmas.NoticeHeader env o buf req.hdr
  dev : req.hdr.dev = buf.dev
  ino : req.hdr.ino = buf.ino

/-- The row of a file that is recorded for a notice. -/
def noticeRow (env : ClientEnv) (o : Op) (buf : StatBuf) (path : Bytes) : FileRow :=
  { buf.row path with uid := if o.usesMagicIds then env.fuid else buf.uid
                      gid := if o.usesMagicIds then env.fgid else buf.gid }

/-- What becomes of the rows of the inode when a file is recorded already. -/
def noticeChange (o : Op) (buf : StatBuf) (r : FileRow) : FileRow :=
  match o with
  | .chmod => { r with mode := withPermissions r.mode buf.mode }
  | .chown => { r with uid := buf.uid, gid := buf.gid }
  | _ => r

/-- The row is found by the path and the numbers of the file. -/
structure Knows (path : Bytes) (buf : StatBuf) (t : List FileRow) (r : FileRow) : Prop where
  mem : r ∈ t
  path : r.path = path
  describes : r.Describes buf
  numbered : buf.dev ≠ 0 ∧ buf.ino ≠ 0

namespace FileNoticesLemmas

open TwoStoresLemmas (serverPath noticeSent noticeSent_cstr NoticeHeader)
open CarriedRenameLemmas (serverPath_absPath)
open RefusedLemmas ChangesLemmas OneFileLemmas

variable {sq : Sqlite} {env : ClientEnv} {leftover : Bytes} {call : ClientCall} {o : Op}
  {path : Bytes} {buf : StatBuf} {req : Request} {db : Db} {t : FdTables} {r : FileRow}

/-! ## Sending -/

theorem plain_notice (ho : o.notice = true) : OnePath (noticeCall o path buf) path buf :=
  ⟨rfl, rfl, rfl, Or.inl ho⟩

theorem plain_isPacked (h : OnePath call path buf) : call.op.isPacked = false := by
  rcases h.op with ho | ho
  · cases hop : call.op <;> rw [hop] at ho <;> first | rfl | cases ho
  · rw [ho]
    rfl

theorem plain_reads (hp : AsksAbout env path) (h : OnePath call path buf) :
    Reads env call.op path buf (request (plainMsg env leftover call path)) := by
  have hhdr : (plainMsg env leftover call path).hdr = clientHeader env call (noticeSent path).1 :=
    rfl
  have hlen : (clientHeader env call (noticeSent path).1).pathlen ≠ 0 := by
    rw [clientHeader_pathlen]
    unfold noticeSent
    split <;> simp
  have hop : (plainMsg env leftover call path).hdr.op = call.op := by
    rw [hhdr, clientHeader, h.buf]
    dsimp only
    split <;> rfl
  have hplain : (plainMsg env leftover call path).hdr.op.isPacked = false := by
    rw [hop]
    exact plain_isPacked h
  have hpath : cstr (plainMsg env leftover call path).buffer = path :=
    (noticeSent_cstr hp.text rfl).trans (serverPath_absPath hp.abs)
  have hproper := request_proper (plainMsg env leftover call path)
  rw [request_plain hplain] at hproper ⊢
  rw [hhdr] at hproper ⊢
  have hids : ∀ b : Bool, call.op.usesMagicIds = b →
      NoticeHeader env call.op buf
        { clientHeader env call (noticeSent path).1 with result := .succeed } ∧
      (clientHeader env call (noticeSent path).1).dev = buf.dev ∧
      (clientHeader env call (noticeSent path).1).ino = buf.ino := by
    intro b hb
    unfold clientHeader at hlen ⊢
    rw [h.buf] at hlen ⊢
    dsimp only at hlen ⊢
    cases b with
    | true =>
      rw [hb, if_pos rfl] at hlen ⊢
      exact ⟨⟨rfl, rfl, hlen, by simp [MsgHeader.key, MsgHeader.stat], rfl, rfl, by rw [hb]; rfl,
        by rw [hb]; rfl⟩, rfl, rfl⟩
    | false =>
      rw [hb, if_neg (by simp)] at hlen ⊢
      exact ⟨⟨rfl, rfl, hlen, by simp [MsgHeader.key, MsgHeader.stat], rfl, rfl, by rw [hb]; rfl,
        by rw [hb]; rfl⟩, rfl, rfl⟩
  obtain ⟨hheader, hdev, hino⟩ := hids _ rfl
  exact ⟨hproper, rfl, hpath, hheader, hdev, hino⟩

/-- What `pseudo_client_op` does with the call. -/
theorem plain_clientOp (hp : AsksAbout env path) (h : OnePath call path buf) :
    ∃ t', pseudoClientOp env t call = some ⟨t', if doRequest env call.op then
      some (clientRequest env call (noticeSent path)) else none⟩ := by
  have hasks := hp.asks
  unfold asks at hasks
  have hsent : sentPath (some path) none call.extra2 = some (noticeSent path) := rfl
  have hpath : callPath t call = some path := by
    unfold callPath
    rw [h.path]
  have hren : call.op ≠ .rename := by
    rcases h.op with ho | ho
    · intro he
      rw [he] at ho
      cases ho
    · rw [ho]
      decide
  simp only [Bool.and_eq_true, Bool.not_eq_true'] at hasks
  unfold pseudoClientOp
  dsimp only
  rw [hpath, h.extra1, hsent, if_neg (by simp [hasks.1]), if_neg (by simp [hren])]
  exact ⟨dispatchTables env t call (noticeSent path).1, by simp [hasks.2]⟩

/-- A request that is not refused comes back with the server's answer. -/
theorem serverOp_sends (hp : AsksAbout env path) (h : OnePath call path buf)
    (hreq : doRequest env call.op = true)
    (hlive : aborts (request (plainMsg env leftover call path))
      (lookup sq db (request (plainMsg env leftover call path))) = false) :
    ∃ t', serverOp sq env leftover (db, t) call =
      some (((pseudoOp sq db (plainMsg env leftover call path)).db, t'),
        some (pseudoOp sq db (plainMsg env leftover call path)).msg) := by
  obtain ⟨t', hop⟩ := @plain_clientOp env call path buf t hp h
  rw [hreq, if_pos rfl] at hop
  refine ⟨t', ?_⟩
  unfold serverOp clientCall
  dsimp only
  rw [callServer_sent hop ((result_live_iff sq db _).mpr hlive)]
  rfl

/-- A refused request takes the client with it. -/
theorem serverOp_refused (hp : AsksAbout env path) (h : OnePath call path buf)
    (hreq : doRequest env call.op = true)
    (habort : aborts (request (plainMsg env leftover call path))
      (lookup sq db (request (plainMsg env leftover call path))) = true) :
    serverOp sq env leftover (db, t) call = none := by
  obtain ⟨t', hop⟩ := @plain_clientOp env call path buf t hp h
  rw [hreq, if_pos rfl] at hop
  have hanswer : (pseudoOp sq db (plainMsg env leftover call path)).msg.result = .abort :=
    (result_abort_iff sq db _).mpr habort
  unfold serverOp clientCall callServer
  dsimp only
  rw [hop, Option.bind_some]
  dsimp only
  unfold plainMsg at hanswer
  rw [if_pos hanswer]
  rfl

/-! ## A file without a row -/

/-- Nothing of the file is in the table. -/
structure Unknown (path : Bytes) (buf : StatBuf) (t : List FileRow) : Prop where
  path : Absent path t
  inode : ∀ r ∈ t, r.key ≠ buf.key

theorem reads_key (h : Reads env o path buf req) : req.hdr.key = buf.key := h.header.key

theorem recordsNew_cases (ho : o.recordsNew = true) : o = .creat ∨ o = .mkdir ∨ o = .mknod ∨
    o = .symlink ∨ o = .link ∨ o = .chmod ∨ o = .chown := by
  cases o <;> simp_all [Op.recordsNew]

theorem unknown_hits (h : Reads env o path buf req) (hu : Unknown path buf db.files) :
    hits sq db.files req = ⟨false, none, none⟩ := by
  refine hits_nothing (fun _ => ?_) fun _ => ?_
  · rw [h.path]
    exact hu.path
  · rw [reads_key h]
    exact hu.inode

theorem unknown_missing (h : Reads env o path buf req) (hu : Unknown path buf db.files) :
    Missing db req (checked sq db req) := by
  have he := @unknown_hits sq _ _ _ _ _ _ h hu
  have hcalm : Calm req (hits sq db.files req) := by
    rw [he]
    exact calm_nothing
  rw [hcalm.checked h.proper]
  refine ⟨hcalm.live h.proper, rfl, ?_, ?_, ?_⟩
  · rw [lookup_foundPath h.proper, he]
    rfl
  · rw [lookup_foundIno h.proper, he]
    rfl
  · rw [lookup_hits h.proper, he, Hits.lookup, if_neg (by simp)]
    exact h.msg

/-- The operation records the header of the message. -/
theorem action_new (ho : o.recordsNew = true) (hop : req.hdr.op = o) {c : Checked}
    (hm : Missing db req c) :
    opAction sq req c = { db := db, msg := req.hdr, link := some req.hdr } := by
  have hdb := hm.db
  have hmsg := hm.msg
  have hpath := hm.foundPath
  have hino := hm.foundIno
  unfold opAction
  rw [hop]
  rcases recordsNew_cases ho with rfl | rfl | rfl | rfl | rfl | rfl | rfl <;>
    simp [opCreat, opChmod, opChown, opChange, opLink, opMknod, setOwner, hdb, hmsg, hpath, hino]

theorem linkRow_reads (h : Reads env o path buf req) :
    linkRow req.hdr path = noticeRow env o buf path := by
  have hh := h.header
  unfold linkRow noticeRow StatBuf.row
  rw [if_pos hh.pathlen, hh.uid, hh.gid, hh.mode, hh.rdev, h.dev, h.ino]
  simp

theorem recordsNew_plain (ho : o.recordsNew = true) :
    o.notice = true ∧ doRequest env o = true ∧ o.onDescriptor = false := by
  rcases recordsNew_cases ho with rfl | rfl | rfl | rfl | rfl | rfl | rfl <;> exact ⟨rfl, rfl, rfl⟩

/-- A file without a row is recorded. -/
theorem sends_new (hp : AsksAbout env path) (ho : o.recordsNew = true)
    (hu : Unknown path buf db.files) : ∃ db' t' msg,
      serverOp sq env leftover (db, t) (noticeCall o path buf) = some ((db', t'), some msg) ∧
      db'.files = db.files ++ [noticeRow env o buf path] ∧ msg.result = .succeed := by
  obtain ⟨hnotice, hreq, hdesc⟩ := @recordsNew_plain env o ho
  have hplain : OnePath (noticeCall o path buf) path buf := plain_notice hnotice
  have hreads := @plain_reads env leftover _ _ _ hp hplain
  have hm := @unknown_missing sq _ _ _ _ _ _ hreads hu
  have hact := @action_new sq _ _ _ ho hreads.header.op _ hm
  have hlive : aborts (request (plainMsg env leftover (noticeCall o path buf) path))
      (lookup sq db (request (plainMsg env leftover (noticeCall o path buf) path))) = false :=
        hm.live
  obtain ⟨t', hs⟩ := @serverOp_sends sq env leftover _ _ _ db t hp hplain hreq hlive
  refine ⟨_, t', _, hs, ?_, ?_⟩
  · rw [pseudoOp, handle_acts (by rw [hreads.header.op]; exact hdesc) hlive, hact, run_files,
      Option.map_some, Option.toList_some, hreads.path, linkRow_reads hreads]
    rfl
  · rw [pseudoOp, handle_acts (by rw [hreads.header.op]; exact hdesc) hlive, hact, run_msg]
    exact hreads.header.result

/-- The operation finds no row to answer with. -/
theorem action_stat (hop : req.hdr.op = .stat) {c : Checked} (hm : Missing db req c) :
    opAction sq req c = { db := db, msg := { req.hdr with result := .fail } } := by
  have hdb := hm.db
  have hmsg := hm.msg
  have hpath := hm.foundPath
  have hino := hm.foundIno
  unfold opAction
  rw [hop]
  simp [opStat, hdb, hmsg, hpath, hino]

/-- `OP_STAT` finds nothing of the file, and changes nothing. -/
theorem sends_stat_new (hp : AsksAbout env path) (hu : Unknown path buf db.files) : ∃ t' msg,
    serverOp sq env leftover (db, t) (noticeCall .stat path buf) = some ((db, t'), some msg) ∧
      msg.result = .fail := by
  have hplain : OnePath (noticeCall .stat path buf) path buf := plain_notice rfl
  have hreads := @plain_reads env leftover _ _ _ hp hplain
  have hm := @unknown_missing sq _ _ _ _ _ _ hreads hu
  obtain ⟨t', hs⟩ := @serverOp_sends sq env leftover _ _ _ db t hp hplain rfl hm.live
  rw [pseudoOp, handle_acts (by rw [hreads.header.op]; rfl) hm.live,
    action_stat hreads.header.op hm] at hs
  exact ⟨t', _, hs, rfl⟩

/-! ## A file with a row -/

theorem knows_names {m : PseudoMsg} (h : Reads env o path buf (request m))
    (hplain : o.isPacked = false) (hk : Knows path buf db.files r) : NamesRow m r := by
  have hop : m.hdr.op.isPacked = false := by
    rw [← request_hdr_op m, h.header.op]
    exact hplain
  have hhdr := request_hdr m
  have hlen := h.header.pathlen
  rw [request_plain hop] at hlen
  refine ⟨⟨hk.path.trans h.path.symm, hk.describes.key.trans (reads_key h).symm, ?_, ?_⟩, hlen, ?_,
    ?_⟩
  · rw [h.header.mode]
    exact hk.describes.type.1
  · rw [h.header.mode]
    exact hk.describes.type.2
  · have hdev := h.dev
    rw [hhdr] at hdev
    exact fun he => hk.numbered.1 (hdev.symm.trans he)
  · have hino := h.ino
    rw [hhdr] at hino
    exact fun he => hk.numbered.2 (hino.symm.trans he)

/-- The same of the header as it was received. -/
theorem received_header {m : PseudoMsg} (h : Reads env o path buf (request m)) :
    m.hdr.op = o ∧ m.hdr.mode = buf.mode.setWidth 64 ∧
      m.hdr.uid = (if o.usesMagicIds then env.fuid else buf.uid) ∧
      m.hdr.gid = if o.usesMagicIds then env.fgid else buf.gid := by
  have hh := h.header
  rw [request_hdr m] at hh
  exact ⟨hh.op, hh.mode, hh.uid, hh.gid⟩

/-- The request finds its row. -/
theorem knows_found (hp : AsksAbout env path) (hplain : OnePath call path buf)
    (hcoh : Coherent db.files) (hk : Knows path buf db.files r) :
    Found db (request (plainMsg env leftover call path)) r
      (checked sq db (request (plainMsg env leftover call path))) := by
  have hreads := @plain_reads env leftover _ _ _ hp hplain
  obtain ⟨hop, _⟩ := received_header hreads
  have hpacked := plain_isPacked hplain
  refine found_coherent (by rw [hop]; exact hpacked) ?_ hcoh hk.mem
    (knows_names hreads hpacked hk)
  rw [hop]
  rcases hplain.op with ho | ho
  · intro he
    rw [he] at ho
    cases ho
  · rw [ho]
    decide

/-- The change of the message is the one that the buffer asks for. -/
theorem changed_notice {msg : MsgHeader} (hop : msg.op = .chmod ∨ msg.op = .chown)
    (hmode : msg.mode = buf.mode.setWidth 64) (huid : msg.op = .chown → msg.uid = buf.uid)
    (hgid : msg.op = .chown → msg.gid = buf.gid) : r.changed msg = noticeChange msg.op buf r := by
  unfold FileRow.changed noticeChange withPermissions
  rcases hop with ho | ho
  · rw [ho]
    dsimp only
    rw [hmode, TwoStoresLemmas.bindInt_setWidth]
  · rw [ho]
    dsimp only
    rw [huid ho, hgid ho]

/-- `OP_CHMOD` and `OP_CHOWN` change all rows of the inode. -/
theorem sends_change (hp : AsksAbout env path) (ho : o = .chmod ∨ o = .chown)
    (hcoh : Coherent db.files) (hk : Knows path buf db.files r) : ∃ db' t' msg,
    serverOp sq env leftover (db, t) (noticeCall o path buf) = some ((db', t'), some msg) ∧
      db'.files = db.files.map fun q => if q.key = buf.key then noticeChange o buf q else q := by
  have hnotice : o.notice = true ∧ doRequest env o = true ∧ o.changes = true ∧
      o.isPacked = false := by
    rcases ho with rfl | rfl <;> exact ⟨rfl, rfl, rfl, rfl⟩
  have hplain : OnePath (noticeCall o path buf) path buf := plain_notice hnotice.1
  have hreads := @plain_reads env leftover _ _ _ hp hplain
  have hf := @knows_found sq env leftover _ _ _ db r hp hplain hcoh hk
  obtain ⟨t', hs⟩ := @serverOp_sends sq env leftover _ _ _ db t hp hplain hnotice.2.1 hf.live
  obtain ⟨hop, hmode, huid, hgid⟩ := received_header hreads
  have hkey : (plainMsg env leftover (noticeCall o path buf) path).hdr.key = buf.key := by
    rw [← request_hdr_key]
    exact reads_key hreads
  have hdb := @changes_db sq db _ r (by rw [hop]; exact hnotice.2.2.1) hcoh hk.mem
    (knows_names hreads hnotice.2.2.2 hk)
  refine ⟨_, t', _, hs, ?_⟩
  rw [hdb, hkey]
  refine List.map_congr_left fun q _ => ?_
  split
  · rw [changed_notice (by rw [hop]; exact ho) hmode, hop]
    · rfl
    · intro h
      rw [huid, ← hop, h]
      rfl
    · intro h
      rw [hgid, ← hop, h]
      rfl
  · rfl

/-- A request that only asks leaves the tables. -/
theorem found_asks (hf : Found db req r (checked sq db req))
    (ho : req.hdr.op = .stat ∨ req.hdr.op = .open) : (handle sq db req).db = db := by
  rw [handle_found hf]
  unfold opAction
  rcases ho with ho | ho
  · rw [ho]
    dsimp only
    rw [opStat, if_pos (Or.inr hf.foundPath)]
    exact hf.db
  · rw [ho]
    exact hf.db

/-- `OP_STAT` answers with the row. -/
theorem sends_stat (hp : AsksAbout env path) (hcoh : Coherent db.files)
    (hk : Knows path buf db.files r) : ∃ t' msg,
    serverOp sq env leftover (db, t) (noticeCall .stat path buf) = some ((db, t'), some msg) ∧
      msg.result = .succeed ∧ HasRow msg r := by
  have hplain : OnePath (noticeCall .stat path buf) path buf := plain_notice rfl
  have hreads := @plain_reads env leftover _ _ _ hp hplain
  have hf := @knows_found sq env leftover _ _ _ db r hp hplain hcoh hk
  obtain ⟨t', hs⟩ := @serverOp_sends sq env leftover _ _ _ db t hp hplain rfl hf.live
  obtain ⟨hop, _⟩ := received_header hreads
  obtain ⟨hresult, hrow⟩ := @stat_found sq db _ r (by rw [hop]; rfl) hcoh hk.mem
    (knows_names hreads rfl hk)
  rw [pseudoOp, found_asks hf (Or.inl hreads.header.op)] at hs
  exact ⟨t', _, hs, hresult, hrow⟩

/-- A file that is opened leaves the tables, whether it is recorded or not. -/
theorem sends_open (hp : AsksAbout env path) (hplain : OnePath call path buf)
    (hop : call.op = .open)
    (h : Unknown path buf db.files ∨ Coherent db.files ∧ Knows path buf db.files r) :
    ∃ t' msg, serverOp sq env leftover (db, t) call = some ((db, t'), msg) := by
  have hreads := @plain_reads env leftover _ _ _ hp hplain
  have hopen : (request (plainMsg env leftover call path)).hdr.op = .open :=
    hreads.header.op.trans hop
  have hkept : aborts (request (plainMsg env leftover call path))
        (lookup sq db (request (plainMsg env leftover call path))) = false ∧
      (pseudoOp sq db (plainMsg env leftover call path)).db = db := by
    rcases h with hu | ⟨hcoh, hk⟩
    · have hm := @unknown_missing sq _ _ _ _ _ _ hreads hu
      refine ⟨hm.live, ?_⟩
      have hact : ∀ c, opAction sq (request (plainMsg env leftover call path)) c =
          { db := c.db, msg := c.lk.msg } := by
        intro c
        rw [opAction, hopen]
      rw [pseudoOp, handle_acts (by rw [hopen]; rfl) hm.live, hact]
      exact hm.db
    · have hf := @knows_found sq env leftover _ _ _ db r hp hplain hcoh hk
      exact ⟨hf.live, found_asks hf (Or.inr hopen)⟩
  cases hlog : doRequest env call.op with
  | true =>
    obtain ⟨t', hs⟩ := @serverOp_sends sq env leftover _ _ _ db t hp hplain hlog hkept.1
    rw [hkept.2] at hs
    exact ⟨t', _, hs⟩
  | false =>
    obtain ⟨t', hcall⟩ := @plain_clientOp env call path buf t hp hplain
    rw [hlog, if_neg (by simp)] at hcall
    refine ⟨t', none, ?_⟩
    unfold serverOp clientCall callServer
    dsimp only
    rw [hcall]
    rfl

/-! ## A name without a row, of an inode that has one -/

/-- The path is free, and the inode has a row. -/
structure OtherName (path : Bytes) (buf : StatBuf) (t : List FileRow) : Prop where
  path : Absent path t
  inode : ∃ r ∈ t, r.key = buf.key
  numbered : buf.dev ≠ 0 ∧ buf.ino ≠ 0

/-- The row of the inode is found, and none for the path. -/
theorem otherName_hits (h : Reads env o path buf req) (hn : OtherName path buf db.files) :
    ∃ r ∈ db.files, r.key = buf.key ∧ hits sq db.files req = ⟨false, none, some r⟩ := by
  have hno : ∀ r ∈ db.files, r.path ≠ req.path := by
    rw [h.path]
    exact hn.path
  have hexact : (hits sq db.files req).exact = false := by
    refine Bool.eq_false_iff.mpr fun he => ?_
    obtain ⟨r, hr, _, _, hp, _⟩ := hits_exact he
    exact hno r hr hp
  have hpath : pathRow sq db.files req = none := by
    unfold pathRow
    split
    · exact select_eq_none_iff.mpr fun r hr => atPath_eq_false.mpr (hno r hr)
    · rfl
  have hinode : searchesInode req none :=
    ⟨by rw [h.dev]; exact hn.numbered.1, by rw [h.ino]; exact hn.numbered.2⟩
  have hino : inoRow sq db.files req = select sq.files (atKey req.hdr.key) db.files := by
    unfold inoRow
    rw [hpath, if_pos hinode]
  cases hs : select sq.files (atKey req.hdr.key) db.files with
  | none =>
    obtain ⟨r, hr, hk⟩ := hn.inode
    have hfree := select_eq_none_iff.mp hs r hr
    rw [reads_key h, atKey_eq_false] at hfree
    exact absurd hk hfree
  | some r =>
    have hk := atKey_iff.mp (prop_of_select hs)
    refine ⟨r, mem_of_select hs, hk.trans (reads_key h), ?_⟩
    rw [(hits_not_exact hexact).2, hpath, hino, hs]

/-- A row under another name. -/
def renamedRow (path : Bytes) (r : FileRow) : FileRow := { r with path := path, deleting := 0 }

theorem linkRow_renamed (h : Reads env o path buf req) (hk : r.key = buf.key) :
    linkRow (req.hdr.readRow r) path = renamedRow path r := by
  have hkey : (bindInt req.hdr.dev, signedIno req.hdr.ino) = (r.dev, r.ino) :=
    (reads_key h).trans hk.symm
  obtain ⟨hdev, hino⟩ := Prod.mk.inj hkey
  have hlen : (req.hdr.readRow r).pathlen ≠ 0 := h.header.pathlen
  unfold linkRow renamedRow
  rw [if_pos hlen]
  simp only [MsgHeader.readRow, hdev, hino, bindInt_columnInt64]

/-- A new name for a recorded inode gets the values of one of its rows. -/
theorem sends_link (hp : AsksAbout env path) (hn : OtherName path buf db.files)
    (htype : ∀ r ∈ db.files, r.key = buf.key → r.SameType buf) : ∃ db' t' msg,
    serverOp sq env leftover (db, t) (noticeCall .link path buf) = some ((db', t'), some msg) ∧
      ∃ r ∈ db.files, r.key = buf.key ∧ db'.files = db.files ++ [renamedRow path r] := by
  have hplain : OnePath (noticeCall .link path buf) path buf := plain_notice rfl
  have hreads := @plain_reads env leftover _ _ _ hp hplain
  obtain ⟨r, hr, hk, he⟩ := @otherName_hits sq env .link _ _ _ db hreads hn
  have hop : (request (plainMsg env leftover (noticeCall .link path buf) path)).hdr.op = .link :=
    hreads.header.op
  have hcalm : Calm (request (plainMsg env leftover (noticeCall .link path buf) path))
      (hits sq db.files (request (plainMsg env leftover (noticeCall .link path buf) path))) := by
    rw [he]
    refine ⟨fun q hq => (by cases hq), fun q hq => ?_⟩
    obtain rfl := Option.some.inj hq
    refine ⟨fun _ _ hmm => ?_, ?_⟩
    · rw [pathMismatch, hop] at hmm
      cases hmm
    · have hsame := htype r hr hk
      unfold typeMismatch
      rw [hreads.header.mode]
      show (sIsdir (columnInt64 r.mode) != _ || sIslnk (columnInt64 r.mode) != _) = false
      rw [hsame.1, hsame.2]
      simp
  have hlive := hcalm.live hreads.proper
  obtain ⟨t', hs⟩ := @serverOp_sends sq env leftover _ _ _ db t hp hplain rfl hlive
  refine ⟨_, t', _, hs, r, hr, hk, ?_⟩
  have hact : ∀ c,
      opAction sq (request (plainMsg env leftover (noticeCall .link path buf) path)) c =
      opLink (request (plainMsg env leftover (noticeCall .link path buf) path)) c := by
    intro c
    rw [opAction, hop]
  have hfound : (lookup sq db (request (plainMsg env leftover (noticeCall .link path buf) path))) =
      (⟨false, none, some r⟩ : Hits).lookup
        (request (plainMsg env leftover (noticeCall .link path buf) path)) := by
    rw [lookup_hits hreads.proper, he]
  rw [pseudoOp, handle_acts (by rw [hop]; rfl) hlive, hact, run_files, opLink_link, opLink_files,
    hcalm.checked hreads.proper, hfound, hop]
  simp only [Hits.lookup, Bool.false_eq_true, if_false, Option.map_none, Option.isSome_none,
    false_and, Option.map_some, Option.isSome_some, Option.getD_some, if_true, hreads.path,
    linkRow_renamed hreads hk, Option.toList_some, reduceCtorEq]

/-- Any other request for such a name is refused. -/
theorem sends_refused (hp : AsksAbout env path) (ho : o.notice = true) (hlink : o ≠ .link)
    (hn : OtherName path buf db.files)
    (hrows : ∀ r ∈ db.files, r.key = buf.key → r.deleting = 0 ∧ r.path ≠ namelessFile) :
    serverOp sq env leftover (db, t) (noticeCall o path buf) = none := by
  have hplain : OnePath (noticeCall o path buf) path buf := plain_notice ho
  have hreads := @plain_reads env leftover _ _ _ hp hplain
  obtain ⟨r, hr, hk, he⟩ := @otherName_hits sq env o _ _ _ db hreads hn
  obtain ⟨hzero, hnamed⟩ := hrows r hr hk
  have hop : (request (plainMsg env leftover (noticeCall o path buf) path)).hdr.op = o :=
    hreads.header.op
  have hreq : doRequest env o = true ∧ o ≠ .didUnlink ∧ o ≠ .exec ∧ o ≠ .rename := by
    cases o <;> simp_all [Op.notice, doRequest]
  refine serverOp_refused hp hplain hreq.1 ((aborts_iff hreads.proper (r := r) (by rw [he])).mpr ?_)
  refine ⟨by rw [hop]; exact hreq.2.1, ?_, ?_, hzero⟩
  · show (request (plainMsg env leftover (noticeCall o path buf) path)).msg.pathlen ≠ 0
    rw [hreads.msg]
    exact hreads.header.pathlen
  · have hne : path ≠ r.path := fun h => hn.path r hr h.symm
    have hmm : (path != r.path && r.path != namelessFile) = true := by simp [hne, hnamed]
    unfold pathMismatch
    rw [hop, hreads.path]
    obtain ⟨_, _, hexec, hren⟩ := hreq
    split
    · exact absurd rfl hlink
    · exact absurd rfl hexec
    · exact absurd rfl hren
    · exact hmm

end FileNoticesLemmas

end Pseudo
