import Pseudo.Compound
import Pseudo.FailedRename
import Pseudo.Names
import Pseudo.Subtrees
import Pseudo.Unlink

/-!
# A rename that the host carries out

Up to six requests tell the server about one rename: both paths may go, the old one is looked up,
the new one is gone, the old one is recorded if it was not, and the rows are moved. When the first
of them is sent the table agrees with the host, when the last ones are sent it does not.

Results:
1. `call_announces`: the requests before the host is asked mark the rows of the two paths.
2. `call_didUnlink`, `call_link`, `call_rename`: what each of the later ones does to the rows.
3. `renamePaths_files`: the table after the whole call, which is never refused.
4. `rename_carried_iff`: when that is the former table under the new names.
-/

namespace Pseudo

open Table
open TwoStoresLemmas (serverPath noticeSent noticeSent_cstr)

/-! ## What the host promises, and what the table should become -/

/-- The root, or an absolute path without a slash behind it. -/
def Canonical (p : Bytes) : Prop := p = [slash] ∨ AbsPath p

instance (p : Bytes) : Decidable (Canonical p) := inferInstanceAs (Decidable (_ ∨ _))

/-- All files are on one device. The names of an inode have one `stat` buffer, and its link count,
of which a message keeps 32 bits, counts them. -/
structure OneDevice (host : HostFs) : Prop where
  dev : ∀ {p q b c}, host.lstat p = some b → host.lstat q = some c → b.dev = c.dev
  inode : ∀ {p q b c}, host.lstat p = some b → host.lstat q = some c → b.ino = c.ino → b = c
  single : ∀ {p q b}, Canonical p → Canonical q → host.lstat p = some b →
    host.lstat q = some b → b.nlink.setWidth 32 = (1 : BitVec 32) → p = q

/-- The table agrees with the host, and has all names of an inode or none. -/
structure Tracked (host : HostFs) (t : List FileRow) : Prop extends Consistent host t where
  canonical : ∀ r ∈ t, Canonical r.path
  complete : ∀ r ∈ t, ∀ p buf, Canonical p → host.lstat p = some buf → r.key = buf.key →
    ¬ Absent p t

/-- A rename that the host carries out: of two canonical paths below `PATH_MAX` that are not the
same object, the old one is there and the new one is not below it. -/
structure HostRenames (host : HostFs) (old new : Bytes) (buf : StatBuf) : Prop where
  oldPath : AbsPath old
  newPath : AbsPath new
  oldText : IsCString old
  newText : IsCString new
  short : old.length < 4096 ∧ new.length < 4096
  source : host.lstat old = some buf
  distinct : sameFile (host.lstat new) (host.lstat old) = false
  notBelow : ¬ LiesBelow old new

instance (path : Bytes) (t : List FileRow) : Decidable (Absent path t) :=
  inferInstanceAs (Decidable (∀ r ∈ t, _))

/-- A row for the file as the host describes it. -/
def StatBuf.row (buf : StatBuf) (path : Bytes) : FileRow where
  path := path
  dev := bindInt buf.dev
  ino := buf.ino
  uid := buf.uid
  gid := buf.gid
  mode := buf.mode
  rdev := bindInt buf.rdev
  deleting := 0

/-- `old` becomes `new`, and `old/rest` becomes `new/rest`. -/
def carryRow (old new : Bytes) (r : FileRow) : FileRow :=
  if r.path = old then { r with path := new }
  else if LiesBelow old r.path then { r with path := new ++ r.path.drop old.length }
  else r

/-- The table after a rename: the row of `new` is gone, the names have changed, and a file that
had no row is recorded. -/
def carry (old new : Bytes) (buf : StatBuf) (t : List FileRow) : List FileRow :=
  (delete (atPath new) t).map (carryRow old new) ++
    if Absent old t then [buf.row new] else []

/-- The call returns 0, none of its requests having been answered with `RESULT_ABORT`; the table
is the renamed one, and no row is marked. -/
def CarriesOver (db : Db) (old new : Bytes) (buf : StatBuf) (call : Option RenameStep) : Prop :=
  ∃ s, call = some s ∧ s.rc = 0 ∧ s.db.files = carry old new buf db.files ∧
    ∀ r ∈ s.db.files, r.deleting = 0

namespace CarriedRenameLemmas

open RenameLemmas NamesLemmas FailedRenameLemmas
open RefusedLemmas (lookup_result)
open UnlinkLemmas (serve_didUnlink)

/-! ## Paths and keys -/

section Facts
variable {host : HostFs} {t : List FileRow} {old new p : Bytes} {buf : StatBuf} {r : FileRow}

theorem serverPath_absPath (hp : AbsPath p) : serverPath p = p := by
  unfold serverPath
  rw [if_neg]
  simp [stripSlash, hp.2]

/-- Files with the same key are the same. -/
theorem eq_of_key (h : OneDevice host) {q : Bytes} {b c : StatBuf}
    (hb : host.lstat p = some b) (hc : host.lstat q = some c) (hk : b.key = c.key) : b = c :=
  h.inode hb hc (congrArg Prod.snd hk)

theorem old_ne_new (h : HostRenames host old new buf) : old ≠ new := by
  rintro rfl
  have hdistinct := h.distinct
  simp [sameFile, h.source] at hdistinct

/-- No row of the new path has the inode of the old one. -/
theorem target_key_ne (h : HostRenames host old new buf) (hdev : OneDevice host)
    (ht : Tracked host t) (hr : r ∈ t) (hp : r.path = new) : r.key ≠ buf.key := by
  intro hk
  obtain ⟨b, hb, hdesc⟩ := ht.recorded r hr
  rw [hp] at hb
  obtain rfl := eq_of_key hdev hb h.source (hdesc.key.symm.trans hk)
  have hdistinct := h.distinct
  simp [sameFile, h.source, hb] at hdistinct

/-- A path without a row has an inode without a row. -/
theorem absent_key_ne (ht : Tracked host t) (hp : AbsPath p) (hb : host.lstat p = some buf)
    (habs : Absent p t) (hr : r ∈ t) : r.key ≠ buf.key :=
  fun hk => ht.complete r hr p buf (.inr hp) hb hk habs

end Facts

/-! ## The requests before the host is asked -/

section Announce
variable {sq : Sqlite} {env : ClientEnv} {leftover : Bytes} {host : HostFs} {o : Op} {dirfd : Int}
  {p : Bytes} {req : Request} {m : PseudoMsg} {db db₀ : Db} {t : FdTables} {S : List Bytes}
  {d : BitVec 32}

/-- A path without a row leads to no row at all. -/
theorem hits_absent (ht : Tracked host db₀.files) (hp : AbsPath p)
    (h : Tells o p (StatBuf.sent (host.lstat p)) req) (hfiles : db.files = markPaths d S db₀.files)
    (habs : Absent p db₀.files) : hits sq db.files req = ⟨false, none, none⟩ := by
  refine hits_nothing (fun _ => ?_) fun hino r hr => ?_
  · rw [hfiles, h.path, serverPath_absPath hp]
    exact absent_markPaths.mpr habs
  · rw [h.key]
    obtain ⟨s, hs, _, hk, _⟩ := of_mem_markPaths (hfiles ▸ hr)
    rw [hk]
    cases hb : host.lstat p with
    | none =>
      rw [hb] at h
      exact absurd h.dev hino.1
    | some buf => exact absent_key_ne ht hp hb habs hs

/-- A path with a row leads to it. -/
theorem hits_present (ht : Tracked host db₀.files) (hp : AbsPath p)
    (h : Tells o p (StatBuf.sent (host.lstat p)) req) (hfiles : db.files = markPaths d S db₀.files)
    (hthere : ¬ Absent p db₀.files) :
    ∃ s, s.path = p ∧ hits sq db.files req = ⟨true, some s, some s⟩ := by
  obtain ⟨r, hr, hrp⟩ := not_absent hthere
  obtain ⟨b, hb, hdesc⟩ := ht.recorded r hr
  rw [hrp] at hb
  rw [hb] at h
  have hmem : (if r.path ∈ S then { r with deleting := d } else r) ∈ db.files := by
    rw [hfiles]
    exact mem_markPaths.mpr ⟨r, hr, rfl⟩
  obtain ⟨s, _, hsp, _, he⟩ := hits_recorded sq h (host.numbered hb) hmem
    (by split <;> exact hrp.trans (serverPath_absPath hp).symm) (by split <;> exact hdesc.key)
  exact ⟨s, hsp.trans (serverPath_absPath hp), he⟩

/-- Neither is refused; the row is found both ways or not at all. -/
theorem announce_live (ht : Tracked host db₀.files) (hp : AbsPath p) (ho : o.onlyMarks = true)
    (h : Tells o p (StatBuf.sent (host.lstat p)) req)
    (hfiles : db.files = markPaths d S db₀.files) :
    aborts req (lookup sq db req) = false ∧
      (lookup sq db req).foundPath = !decide (Absent p db₀.files) ∧
      (lookup sq db req).foundIno = !decide (Absent p db₀.files) := by
  rw [lookup_foundPath h.proper, lookup_foundIno h.proper]
  by_cases habs : Absent p db₀.files
  · have he := @hits_absent sq _ _ _ _ _ _ _ _ ht hp h hfiles habs
    refine ⟨aborts_none h.proper (by rw [he]), ?_⟩
    rw [he]
    simp [habs]
  · obtain ⟨s, hsp, he⟩ := @hits_present sq _ _ _ _ _ _ _ _ ht hp h hfiles habs
    refine ⟨Bool.eq_false_iff.mpr fun ha => ?_, ?_⟩
    · obtain ⟨_, _, hmm, _⟩ := (aborts_iff h.proper (r := s) (by rw [he])).mp ha
      rw [not_pathMismatch h ho (hsp.trans (serverPath_absPath hp).symm)] at hmm
      cases hmm
    · rw [he]
      simp [habs]

/-- What is sent about a path is about its row. -/
theorem finds_tracked (ht : Tracked host db₀.files) (hp : AbsPath p) :
    Finds host db₀.files S p (StatBuf.sent (host.lstat p)) where
  stat := sent_lstat host p
  fits := by
    intro r hr hrp
    obtain ⟨b, hb, hdesc⟩ := ht.recorded r hr
    rw [hrp, serverPath_absPath hp] at hb
    exact ⟨b, hb, hdesc⟩
  apart := by
    intro habs r hr _ hb hk
    rw [serverPath_absPath hp] at habs
    exact absurd hk (absent_key_ne ht hp hb habs hr)

/-- `OP_STAT` succeeds when it finds a row. -/
theorem stat_result (ht : Tracked host db₀.files) (hp : AbsPath p)
    (h : Tells .stat p (StatBuf.sent (host.lstat p)) (request m))
    (hfiles : db.files = markPaths d S db₀.files) :
    (pseudoOp sq db m).msg.result = .succeed ↔ ¬ Absent p db₀.files := by
  obtain ⟨hlive, hpath, hino⟩ := @announce_live sq _ _ _ _ _ _ _ _ ht hp rfl h hfiles
  have hcalm := (calm_marked ht.toConsistent h rfl hfiles (finds_tracked ht hp) hlive).1
  obtain ⟨_, hpathResult, hinoResult⟩ := lookup_result sq db m
  have hact : opAction sq (request m) (checked sq db (request m)) =
      opStat (request m) (checked sq db (request m)) := by
    unfold opAction
    rw [h.op]
  rw [pseudoOp, (handle_action h rfl hlive).2, hact, opStat, hcalm.checked h.proper]
  dsimp only
  rw [hpath, hino]
  by_cases habs : Absent p db₀.files
  · simp [habs]
  · simp only [habs, decide_false, Bool.not_false, or_self, if_true, not_false_eq_true, iff_true]
    exact RefusedLemmas.dbHeader_result (fun _ => hinoResult (by simp [hino, habs]))
      (fun _ => hpathResult (by simp [hpath, habs])) (Or.inl rfl)

/-- A request about one of the paths, before the host is asked, only marks its row. -/
theorem call_announces (ht : Tracked host db₀.files) (hp : AbsPath p) (hcs : IsCString p)
    (ho : o = .mayUnlink ∨ o = .stat) (hm : IsMarked env.pid S db₀ db) :
    ∃ s, clientCall sq env leftover db t (pathCall o dirfd p (host.lstat p)) = some s ∧
      IsMarked env.pid (if asks env p then announced o p S else S) db₀ s.db ∧
      (succeeded s.result = true ↔ asks env p = true ∧ ¬ Absent p db₀.files) := by
  have honly : o.onlyMarks = true := by rcases ho with rfl | rfl <;> rfl
  have hcancel : o = .cancelUnlink → ¬ Absent (serverPath p) db₀.files := by
    rcases ho with rfl | rfl <;> exact fun h => (nomatch h)
  obtain ⟨s, hs⟩ := @pathCall_returns sq env leftover o dirfd p (host.lstat p) db t honly hcs
    fun req h => (announce_live ht hp honly h hm.files).1
  obtain ⟨hm', hmay⟩ := call_marked ht.toConsistent honly hcs hm hs
    (fun _ => finds_tracked ht hp) hcancel
  rw [serverPath_absPath hp] at hm' hmay
  refine ⟨s, hs, hm', ?_⟩
  rcases ho with rfl | rfl
  · exact hmay rfl
  · rcases pathCall_cases honly hcs hs with ⟨hasks, rfl⟩ | ⟨hasks, m, htells, _, _, rfl⟩
    · simp [succeeded, hasks]
    · simp only [succeeded, beq_iff_eq, hasks, true_and]
      exact stat_result ht hp htells hm.files

end Announce

/-! ## The requests after the host has renamed the file -/

section Confirm
variable {sq : Sqlite} {env : ClientEnv} {leftover : Bytes} {o : Op} {dirfd : Int} {p : Bytes}
  {buf : StatBuf} {db : Db} {t : FdTables}

/-- The request goes out, whatever happens to the client's own tables. -/
theorem pseudoClientOp_sends (ho : o = .didUnlink ∨ o = .link) :
    ∃ t', pseudoClientOp env t (pathCall o dirfd p (some buf)) =
      some ⟨t', if asks env p then
        some (clientRequest env (pathCall o dirfd p (some buf)) (noticeSent p)) else none⟩ := by
  have hsent : sentPath (some p) none none = some (noticeSent p) := rfl
  unfold pseudoClientOp asks
  cases hig : pseudoClientIgnorePath env (some p) <;> cases hlocal : env.localOnly <;>
    rcases ho with rfl | rfl <;>
    simp_all [pathCall, callPath, Op.neverIgnored, doRequest]

theorem call_sends (ho : o = .didUnlink ∨ o = .link) (hp : IsCString p)
    (hlive : asks env p = true → ∀ req, Tells o p buf req →
      aborts req (lookup sq db req) = false) :
    ∃ s, clientCall sq env leftover db t (pathCall o dirfd p (some buf)) = some s ∧
      s.db = if asks env p then
        (pseudoOp sq db (pathMsg env leftover o dirfd p (some buf))).db else db := by
  obtain ⟨t', hop⟩ := @pseudoClientOp_sends env o dirfd p buf t ho
  have hplain : o.usesMagicIds = false ∧ o.isPacked = false := by
    rcases ho with rfl | rfl <;> exact ⟨rfl, rfl⟩
  obtain ⟨htells, _⟩ := @pathMsg_tells env leftover o dirfd p (some buf) hplain hp
  rw [clientCall, callServer, hop, Option.bind_some]
  dsimp only
  cases hasks : asks env p with
  | false => exact ⟨_, rfl, rfl⟩
  | true =>
    have hanswer := (result_live_iff sq db _).mpr (hlive hasks _ htells)
    rw [if_pos rfl, if_pos rfl]
    dsimp only
    exact ⟨_, if_neg hanswer, rfl⟩

/-- The marked row of the path goes. -/
theorem call_didUnlink (hp : AbsPath p) (hcs : IsCString p) :
    ∃ s, clientCall sq env leftover db t (pathCall .didUnlink dirfd p (some buf)) = some s ∧
      s.db.files = if asks env p then
        delete (fun r => atPath p r && r.deleting == env.pid) db.files else db.files := by
  obtain ⟨s, hs, hdb⟩ := @call_sends sq env leftover .didUnlink dirfd p buf db t (Or.inl rfl) hcs
    fun _ req h => by simp [aborts, h.op]
  obtain ⟨htells, _⟩ := @pathMsg_tells env leftover .didUnlink dirfd p (some buf) ⟨rfl, rfl⟩ hcs
  refine ⟨s, hs, ?_⟩
  rw [hdb]
  split
  · have hserve := @serve_didUnlink sq db (pathMsg env leftover .didUnlink dirfd p (some buf)) rfl
    rw [htells.path, serverPath_absPath hp] at hserve
    exact hserve
  · rfl

/-- `OP_LINK` for a file of which nothing is known. -/
theorem handle_link {req : Request} (h : Tells .link p buf req)
    (he : hits sq db.files req = ⟨false, none, none⟩) :
    (handle sq db req).db.files = db.files ++ [linkRow req.hdr req.path] := by
  have hcalm : Calm req (hits sq db.files req) := by
    rw [he]
    exact calm_nothing
  have hfound : (lookup sq db req).foundPath = false ∧ (lookup sq db req).foundIno = false := by
    rw [lookup_foundPath h.proper, lookup_foundIno h.proper, he]
    exact ⟨rfl, rfl⟩
  have hact : opAction sq req (checked sq db req) = opLink req (checked sq db req) := by
    unfold opAction
    rw [h.op]
  have hlive : aborts req (lookup sq db req) = false := hcalm.live h.proper
  rw [handle_acts (by rw [h.op]; rfl) hlive, hact, run_files, opLink_link, opLink_files,
    hcalm.checked h.proper, hfound.1, hfound.2]
  simp

/-- What is recorded is what the host says. -/
theorem linkRow_pathMsg (hcs : IsCString p) :
    linkRow (request (pathMsg env leftover .link dirfd p (some buf))).hdr p = buf.row p := by
  have hlen := (@pathMsg_tells env leftover .link dirfd p (some buf) ⟨rfl, rfl⟩ hcs).1.pathlen
  rw [request_plain rfl] at hlen ⊢
  have hhdr : (pathMsg env leftover .link dirfd p (some buf)).hdr =
      clientHeader env (pathCall .link dirfd p (some buf)) (noticeSent p).1 := rfl
  rw [hhdr] at hlen ⊢
  unfold linkRow StatBuf.row
  rw [if_pos hlen]
  simp [clientHeader, pathCall, Op.usesMagicIds, MsgHeader.stat, signedIno_eq]

/-- A file without a row is recorded. -/
theorem call_link (hp : AbsPath p) (hcs : IsCString p)
    (hnone : asks env p = true → Absent p db.files ∧ ∀ r ∈ db.files, r.key ≠ buf.key) :
    ∃ s, clientCall sq env leftover db t (pathCall .link dirfd p (some buf)) = some s ∧
      s.db.files = if asks env p then db.files ++ [buf.row p] else db.files := by
  have hhits : asks env p = true → ∀ req, Tells .link p buf req →
      hits sq db.files req = ⟨false, none, none⟩ := by
    intro hasks req h
    refine hits_nothing (fun _ => ?_) fun _ => ?_
    · rw [h.path, serverPath_absPath hp]
      exact (hnone hasks).1
    · rw [h.key]
      exact (hnone hasks).2
  obtain ⟨s, hs, hdb⟩ := @call_sends sq env leftover .link dirfd p buf db t (Or.inr rfl) hcs
    fun hasks req h => aborts_none h.proper (by rw [hhits hasks req h])
  obtain ⟨htells, _⟩ := @pathMsg_tells env leftover .link dirfd p (some buf) ⟨rfl, rfl⟩ hcs
  refine ⟨s, hs, ?_⟩
  rw [hdb]
  split
  · next hasks =>
    rw [pseudoOp, handle_link htells (hhits hasks _ htells), htells.path, serverPath_absPath hp,
      linkRow_pathMsg hcs]
  · rfl

end Confirm

/-! ## The rename itself -/

/-- The call of `pseudo_client_op` for `OP_RENAME`. -/
def renameCall (olddirfd newdirfd : Int) (old new : Bytes) (buf : StatBuf) : ClientCall :=
  { op := .rename, fd := olddirfd, dirfd := newdirfd, path := some new, buf := some buf,
    extra1 := some old }

def renameMsg (env : ClientEnv) (leftover : Bytes) (olddirfd newdirfd : Int) (old new : Bytes)
    (buf : StatBuf) : PseudoMsg :=
  (clientRequest env (renameCall olddirfd newdirfd old new buf)
    ⟨packPaths new old none, fun _ => packPaths_nul new old none⟩).received leftover

/-- The server's view of an `OP_RENAME`. -/
structure TellsRename (old new : Bytes) (buf : StatBuf) (req : Request) : Prop where
  proper : req.Proper
  op : req.hdr.op = .rename
  path : req.path = new
  oldpath : ∃ b, req.oldpath = some b ∧ cstr b = old
  pathlen : req.msg.pathlen ≠ 0
  dev : req.hdr.dev = buf.dev
  ino : req.hdr.ino = buf.ino
  mode : req.hdr.mode = buf.mode.setWidth 64
  nlink : req.hdr.nlink = buf.nlink.setWidth 32

/-- The rows that `OP_RENAME` meets: the new path is free, the row of the old one has the inode of
the file, and so has none of another type, nor of another name if the file has only one. -/
structure Ready (old new : Bytes) (buf : StatBuf) (t : List FileRow) : Prop where
  free : Absent new t
  source : ∀ r ∈ t, r.path = old → r.key = buf.key
  type : ∀ r ∈ t, r.key = buf.key → r.SameType buf
  single : ∀ r ∈ t, r.key = buf.key → buf.nlink.setWidth 32 = (1 : BitVec 32) → r.path = old

section Rename
variable {sq : Sqlite} {env : ClientEnv} {leftover : Bytes} {host : HostFs}
  {olddirfd newdirfd : Int} {old new : Bytes} {buf : StatBuf} {db : Db} {t : FdTables}
  {req : Request}

theorem packPaths_absPath (hnew : AbsPath new) :
    packPaths new old none = new ++ 0 :: (old ++ [0]) := by
  unfold packPaths
  rw [if_neg (by simp [stripSlash, hnew.2])]
  simp

theorem renameMsg_tells (h : HostRenames host old new buf) :
    TellsRename old new buf
      (request (renameMsg env leftover olddirfd newdirfd old new buf)) := by
  have hbytes : (renameMsg env leftover olddirfd newdirfd old new buf).path =
      new ++ 0 :: (old ++ [0]) := packPaths_absPath h.newPath
  have hlen : (renameMsg env leftover olddirfd newdirfd old new buf).path.length < 2 ^ 64 := by
    have hshort := h.short
    rw [hbytes]
    simp only [List.length_append, List.length_cons, List.length_nil]
    omega
  have hop : (renameMsg env leftover olddirfd newdirfd old new buf).hdr.op = .rename := rfl
  obtain ⟨hpath, hpathlen, _, tail, hold, _⟩ :=
    request_packed (by rw [hop]; rfl) hbytes h.newText h.newPath.2 hlen
  have hkept : keptExtra (renameMsg env leftover olddirfd newdirfd old new buf).hdr.op old = old :=
    keptExtra_kept fun _ => h.oldPath.2
  rw [hkept] at hold
  have hhdr := request_hdr (renameMsg env leftover olddirfd newdirfd old new buf)
  refine ⟨request_proper _, by rw [hhdr]; rfl, hpath, ⟨_, hold, cstr_append_nul h.oldText tail⟩,
    ?_, by rw [hhdr]; rfl, by rw [hhdr]; rfl, by rw [hhdr]; rfl, by rw [hhdr]; rfl⟩
  rw [hpathlen]
  exact fun hnil => absPath_ne_nil h.newPath (List.length_eq_zero_iff.mp hnil)

theorem tellsRename_key (h : TellsRename old new buf req) : req.hdr.key = buf.key := by
  unfold MsgHeader.key StatBuf.key
  rw [h.dev, h.ino, signedIno_eq]

/-- Only the inode may be found, and what is found for it fits. -/
theorem rename_calm (h : TellsRename old new buf req) (ht : Ready old new buf db.files) :
    Calm req (hits sq db.files req) ∧ (hits sq db.files req).path = none ∧
      (hits sq db.files req).exact = false := by
  have hfree : ∀ r ∈ db.files, r.path ≠ req.path := by
    rw [h.path]
    exact ht.free
  have hexact : (hits sq db.files req).exact = false := by
    refine Bool.eq_false_iff.mpr fun hyes => ?_
    obtain ⟨s, hs, _, _, hp, _⟩ := hits_exact hyes
    exact hfree s hs hp
  have hnone : (hits sq db.files req).path = none := by
    cases hp : (hits sq db.files req).path with
    | none => rfl
    | some r =>
      obtain ⟨hr, _, hrp⟩ := hits_path hp
      exact absurd hrp (hfree r hr)
  refine ⟨⟨fun r hr => ?_, fun r hr => ?_⟩, hnone, hexact⟩
  · rw [hnone] at hr
    cases hr
  · obtain ⟨hmem, hk⟩ := hits_ino hr
    have hk := hk.trans (tellsRename_key h)
    refine ⟨fun _ _ hmm => ?_, ?_⟩
    · obtain ⟨b, hold, hcstr⟩ := h.oldpath
      unfold pathMismatch at hmm
      rw [h.op, h.nlink, hold] at hmm
      simp only [Option.map_some, Option.getD_some, hcstr, Bool.and_eq_true, beq_iff_eq,
        bne_iff_ne] at hmm
      exact absurd (ht.single r hmem hk hmm.1).symm hmm.2
    · have htype := ht.type r hmem hk
      unfold FileRow.SameType at htype
      unfold typeMismatch
      rw [h.mode]
      simp [MsgHeader.readRow, htype.1, htype.2]

/-- A row that has the new path after the two updates is the one of the old path. -/
theorem renameRow_new {r : FileRow} (hold : old ≠ []) (hnew : new ≠ []) (hfree : r.path ≠ new)
    (hp : (renameRow old new r).path = new) : r.path = old := by
  by_contra hother
  cases hb : below old r with
  | false =>
    rw [renameRow_other hother hb] at hp
    exact hfree hp
  | true =>
    obtain ⟨rest, hrest, he⟩ := below_iff.mp hb
    rw [renameRow_sub hold hrest he] at hp
    have hrep : Text.replace old new (slash :: rest) = [] := by
      have hlen := congrArg List.length hp
      simp only [List.length_append] at hlen
      exact List.length_eq_zero_iff.mp (by omega)
    unfold Text.replace at hrep
    rw [if_neg hold] at hrep
    exact Text.replaceFrom_ne_nil hold hnew slash rest hrep

/-- The rows of the new path already have the inode that `pdb_update_inode` gives them. -/
theorem setInode_renamed {t : List FileRow} {msg : MsgHeader} (h : HostRenames host old new buf)
    (ht : Ready old new buf t) (hkey : msg.key = buf.key) :
    setInode msg new (t.map (renameRow old new)) = t.map (renameRow old new) := by
  have hdev : bindInt msg.dev = bindInt buf.dev := congrArg Prod.fst hkey
  have hino : signedIno msg.ino = buf.ino := congrArg Prod.snd hkey
  refine update_eq_self fun r hr hp => ?_
  obtain ⟨s, hs, rfl⟩ := List.mem_map.mp hr
  have hsp := renameRow_new (absPath_ne_nil h.oldPath) (absPath_ne_nil h.newPath)
    (ht.free s hs) (atPath_iff.mp hp)
  have hrow : renameRow old new s = { s with path := new, deleting := 0 } :=
    renameRow_exact (fun rest hrest he => h.notBelow ⟨rest, hrest, he⟩) hsp
  have hk := ht.source s hs hsp
  have hsdev : s.dev = bindInt buf.dev := congrArg Prod.fst hk
  have hsino : s.ino = buf.ino := congrArg Prod.snd hk
  rw [hrow, hdev, hino, ← hsdev, ← hsino]

theorem handle_rename (hr : HostRenames host old new buf) (h : TellsRename old new buf req)
    (ht : Ready old new buf db.files) :
    aborts req (lookup sq db req) = false ∧
      (handle sq db req).db.files = db.files.map (renameRow old new) := by
  obtain ⟨hcalm, hnone, hexact⟩ := @rename_calm sq _ _ _ _ _ h ht
  have hlive : aborts req (lookup sq db req) = false := hcalm.live h.proper
  have hmsg : (lookup sq db req).msg = req.msg := by
    rw [lookup_hits h.proper, Hits.lookup, hexact, hnone]
    rfl
  have hkey : (lookup sq db req).msg.key = buf.key := by
    rw [hmsg, h.proper.key, tellsRename_key h]
  have hact : opAction sq req (checked sq db req) = opRename sq req (checked sq db req) := by
    unfold opAction
    rw [h.op]
  have hlink : (opRename sq req (checked sq db req)).link = none := rfl
  obtain ⟨b, hold, hcstr⟩ := h.oldpath
  refine ⟨hlive, ?_⟩
  rw [handle_acts (by rw [h.op]; rfl) hlive, hact, run_files, hlink, opRename_files hold,
    checked_lk, hcalm.checked h.proper, if_neg (by rw [hmsg]; exact h.pathlen), hcstr, h.path]
  dsimp only
  rw [setInode_renamed hr ht hkey]
  simp

theorem pseudoClientOp_rename : ∃ t',
    pseudoClientOp env t (renameCall olddirfd newdirfd old new buf) =
      some ⟨t', if asks env new then
        some (clientRequest env (renameCall olddirfd newdirfd old new buf)
          ⟨packPaths new old none, fun _ => packPaths_nul new old none⟩) else none⟩ := by
  have hsent : sentPath (some new) (some old) none =
      some ⟨packPaths new old none, fun _ => packPaths_nul new old none⟩ := rfl
  unfold pseudoClientOp asks
  cases hig : pseudoClientIgnorePath env (some new) <;> cases hlocal : env.localOnly <;>
    simp_all [renameCall, callPath, Op.neverIgnored, doRequest]

/-- The rows are moved as the two updates move them. -/
theorem call_rename (h : HostRenames host old new buf)
    (ht : asks env new = true → Ready old new buf db.files) :
    ∃ s, clientCall sq env leftover db t (renameCall olddirfd newdirfd old new buf) = some s ∧
      s.db.files = if asks env new then db.files.map (renameRow old new) else db.files := by
  obtain ⟨t', hop⟩ := @pseudoClientOp_rename env olddirfd newdirfd old new buf t
  have htells := @renameMsg_tells env leftover host olddirfd newdirfd old new buf h
  rw [clientCall, callServer, hop, Option.bind_some]
  dsimp only
  cases hasks : asks env new with
  | false => exact ⟨_, rfl, rfl⟩
  | true =>
    obtain ⟨hlive, hfiles⟩ := @handle_rename sq _ _ _ _ _ _ h htells (ht hasks)
    have hanswer := (result_live_iff sq db _).mpr hlive
    rw [if_pos rfl]
    dsimp only
    exact ⟨_, if_neg hanswer, hfiles⟩

end Rename

/-! ## The whole call -/

/-- The paths that are marked when the host is asked. -/
structure Marks (env : ClientEnv) (old new : Bytes) (S : List Bytes) : Prop where
  source : ∀ p ∈ S, p = old ∨ p = new ∧ asks env new = true
  target : asks env new = true → new ∈ S

/-- The rows that `OP_RENAME` meets. -/
def renameMeets (env : ClientEnv) (old new : Bytes) (buf : StatBuf) (S : List Bytes)
    (t : List FileRow) : List FileRow :=
  (if asks env new then delete (atPath new) (markPaths env.pid S t) else markPaths env.pid S t) ++
    if asks env old = true ∧ Absent old t then [buf.row old] else []

section Whole
variable {sq : Sqlite} {env : ClientEnv} {leftover : Bytes} {host : HostFs} {real : HostCall}
  {olddirfd newdirfd : Int} {old new : Bytes} {buf : StatBuf} {db : Db} {t : FdTables}
  {bufs : RenameBufs} {S : List Bytes} {files : List FileRow}

/-- What the three requests before the host is asked come to. -/
theorem announce_files (ht : Tracked host db.files) (h : HostRenames host old new buf) :
    ∃ a S, renameAnnounce sq env leftover host.lstat olddirfd newdirfd db t old new = some a ∧
      Marks env old new S ∧ a.db.files = markPaths env.pid S db.files ∧
      (a.mayUnlinkNew = true ↔ asks env new = true ∧ ¬ Absent new db.files) ∧
      (a.oldDbEntry = true ↔ asks env old = true ∧ ¬ Absent old db.files) := by
  have hempty : IsMarked env.pid [] db db := ⟨(markPaths_absent (by simp)).symm, rfl⟩
  obtain ⟨s₁, h₁, hm₁, hr₁⟩ := @call_announces sq env leftover host .mayUnlink newdirfd new db db t
    [] ht h.newPath h.newText (Or.inl rfl) hempty
  obtain ⟨s₂, h₂, hm₂, hr₂⟩ := @call_announces sq env leftover host .mayUnlink olddirfd old s₁.db db
    s₁.tables _ ht h.oldPath h.oldText (Or.inl rfl) hm₁
  obtain ⟨s₃, h₃, hm₃, hr₃⟩ := @call_announces sq env leftover host .stat olddirfd old s₂.db db
    s₂.tables _ ht h.oldPath h.oldText (Or.inr rfl) hm₂
  refine ⟨⟨s₃.db, s₃.tables, succeeded s₁.result, succeeded s₂.result, succeeded s₃.result⟩, _,
    ?_, ?_, hm₃.files, hr₁, hr₃⟩
  · unfold renameAnnounce
    rw [h₁, Option.bind_some, h₂, Option.bind_some, h₃]
    rfl
  · cases hnew : asks env new <;> cases hold : asks env old <;>
      exact ⟨by simp [announced, hnew], by simp [announced, hnew]⟩

/-- A row that `OP_RENAME` meets: one of the table, or the one recorded for the file. -/
theorem of_mem_renameMeets {r : FileRow} (h : r ∈ renameMeets env old new buf S files) :
    (∃ s ∈ files, r.path = s.path ∧ r.key = s.key ∧ r.mode = s.mode ∧
      (asks env new = true → r.path ≠ new)) ∨ r = buf.row old := by
  unfold renameMeets at h
  rcases List.mem_append.mp h with htable | hrow
  · left
    split at htable
    · obtain ⟨hmem, hne⟩ := mem_delete.mp htable
      obtain ⟨s, hs, hp, hk, hm, _⟩ := of_mem_markPaths hmem
      exact ⟨s, hs, hp, hk, hm, fun _ => atPath_eq_false.mp hne⟩
    · next hasks =>
      obtain ⟨s, hs, hp, hk, hm, _⟩ := of_mem_markPaths htable
      exact ⟨s, hs, hp, hk, hm, fun hyes => absurd hyes hasks⟩
  · right
    split at hrow
    · exact List.mem_singleton.mp hrow
    · cases hrow

/-- The table is ready for the rename. -/
theorem ready_renameMeets (hdev : OneDevice host) (ht : Tracked host files)
    (h : HostRenames host old new buf) (hasks : asks env new = true) :
    Ready old new buf (renameMeets env old new buf S files) := by
  have hfile : ∀ s ∈ files, s.key = buf.key → host.lstat s.path = some buf ∧ s.Describes buf := by
    intro s hs hk
    obtain ⟨b, hb, hdesc⟩ := ht.recorded s hs
    obtain rfl := eq_of_key hdev hb h.source (hdesc.key.symm.trans hk)
    exact ⟨hb, hdesc⟩
  refine ⟨fun r hr => ?_, fun r hr hp => ?_, fun r hr hk => ?_, fun r hr hk hone => ?_⟩
  · rcases of_mem_renameMeets hr with ⟨_, _, _, _, _, hne⟩ | rfl
    · exact hne hasks
    · exact old_ne_new h
  · rcases of_mem_renameMeets hr with ⟨s, hs, hsp, hsk, _⟩ | rfl
    · obtain ⟨b, hb, hdesc⟩ := ht.recorded s hs
      rw [← hsp, hp] at hb
      obtain rfl := Option.some.inj (hb.symm.trans h.source)
      exact hsk.trans hdesc.key
    · rfl
  · rcases of_mem_renameMeets hr with ⟨s, hs, _, hsk, hsm, _⟩ | rfl
    · have htype := (hfile s hs (hsk.symm.trans hk)).2.type
      unfold FileRow.SameType at htype ⊢
      rwa [hsm]
    · have hmode : columnInt64 (buf.row old).mode &&& sIfmt = buf.mode.setWidth 64 &&& sIfmt :=
        TwoStoresLemmas.columnInt64_type buf.mode
      unfold FileRow.SameType sIsdir sIslnk
      rw [hmode]
      exact ⟨rfl, rfl⟩
  · rcases of_mem_renameMeets hr with ⟨s, hs, hsp, hsk, _⟩ | rfl
    · rw [hsp]
      exact hdev.single (ht.canonical s hs) (.inr h.oldPath) (hfile s hs (hsk.symm.trans hk)).1
        h.source hone
    · rfl

/-- The row of the new path has the client's mark, and goes. -/
theorem delete_marked (hS : Marks env old new S) (hasks : asks env new = true) :
    delete (fun r => atPath new r && r.deleting == env.pid) (markPaths env.pid S files) =
      delete (atPath new) (markPaths env.pid S files) := by
  refine List.filter_congr fun r hr => ?_
  obtain ⟨s, _, rfl⟩ := mem_markPaths.mp hr
  by_cases hp : s.path = new
  · have hmem : s.path ∈ S := by
      rw [hp]
      exact hS.target hasks
    rw [if_pos hmem]
    simp
  · have hno : atPath new (if s.path ∈ S then { s with deleting := env.pid } else s) = false := by
      rw [atPath_eq_false]
      split <;> exact hp
    simp [hno]

/-- The inode of the target would only be taken if it were on another device. -/
theorem renameOldbuf_same (hdev : OneDevice host) (h : HostRenames host old new buf)
    (entry : Bool) : renameOldbuf (host.lstat new) entry buf = buf := by
  unfold renameOldbuf
  cases hb : host.lstat new with
  | none => rfl
  | some b =>
    dsimp only
    rw [if_neg]
    exact fun hne => hne.2 (hdev.dev hb h.source)

/-- "confirm that the file was removed". -/
theorem confirm_target {a : Announced} {newbuf : StatBuf} (h : HostRenames host old new buf)
    (hS : Marks env old new S) (hfiles : a.db.files = markPaths env.pid S files)
    (hmay : a.mayUnlinkNew = true ↔ asks env new = true ∧ ¬ Absent new files) :
    ∃ s, clientCallIf sq env leftover a.mayUnlinkNew a.db a.tables
        (pathCall .didUnlink newdirfd new (some newbuf)) = some s ∧
      s.db.files = if asks env new then delete (atPath new) (markPaths env.pid S files)
        else markPaths env.pid S files := by
  unfold clientCallIf
  split
  · next hyes =>
    obtain ⟨hasks, _⟩ := hmay.mp hyes
    obtain ⟨s, hs, hdeleted⟩ := @call_didUnlink sq env leftover newdirfd new newbuf a.db a.tables
      h.newPath h.newText
    refine ⟨s, hs, ?_⟩
    rw [hdeleted, if_pos hasks, if_pos hasks, hfiles, delete_marked hS hasks]
  · next hno =>
    refine ⟨_, rfl, ?_⟩
    split
    · next hasks =>
      have habs : Absent new files := by
        by_contra hthere
        exact hno (hmay.mpr ⟨hasks, hthere⟩)
      rw [hfiles, delete_eq_self]
      exact fun r hr => atPath_eq_false.mpr (absent_markPaths.mpr habs r hr)
    · exact hfiles

/-- "create an entry under the old name, which will then be renamed". -/
theorem confirm_source {db' : Db} {t' : FdTables} {oldDbEntry : Bool} (ht : Tracked host files)
    (h : HostRenames host old new buf)
    (hfiles : db'.files = if asks env new then delete (atPath new) (markPaths env.pid S files)
      else markPaths env.pid S files)
    (hentry : oldDbEntry = true ↔ asks env old = true ∧ ¬ Absent old files) :
    ∃ s, clientCallIf sq env leftover (!oldDbEntry) db' t'
        (pathCall .link olddirfd old (some buf)) = some s ∧
      s.db.files = renameMeets env old new buf S files := by
  have hrows : ∀ r ∈ db'.files, ∃ s ∈ files, r.path = s.path ∧ r.key = s.key := by
    intro r hr
    rw [hfiles] at hr
    have hmem : r ∈ markPaths env.pid S files := by
      split at hr
      · exact (mem_delete.mp hr).1
      · exact hr
    obtain ⟨s, hs, hp, hk, _⟩ := of_mem_markPaths hmem
    exact ⟨s, hs, hp, hk⟩
  unfold clientCallIf renameMeets
  rw [← hfiles]
  split
  · next hno =>
    have habs : asks env old = true → Absent old files := by
      intro hasks
      by_contra hthere
      rw [hentry.mpr ⟨hasks, hthere⟩] at hno
      cases hno
    have hnone : asks env old = true → Absent old db'.files ∧ ∀ r ∈ db'.files, r.key ≠ buf.key := by
      refine fun hasks => ⟨fun r hr hp => ?_, fun r hr hk => ?_⟩
      · obtain ⟨s, hs, hsp, _⟩ := hrows r hr
        exact habs hasks s hs (hsp.symm.trans hp)
      · obtain ⟨s, hs, _, hsk⟩ := hrows r hr
        exact absent_key_ne ht h.oldPath h.source (habs hasks) hs (hsk.symm.trans hk)
    obtain ⟨s, hs, hlinked⟩ := @call_link sq env leftover olddirfd old buf db' t' h.oldPath
      h.oldText hnone
    refine ⟨s, hs, ?_⟩
    rw [hlinked]
    cases hasks : asks env old with
    | false => simp
    | true => simp [habs hasks]
  · next hyes =>
    obtain ⟨_, hthere⟩ := hentry.mp (by simpa using hyes)
    refine ⟨_, rfl, ?_⟩
    rw [if_neg fun hadd => hthere hadd.2, List.append_nil]

/-- The table after the call, which is never refused. -/
theorem renamePaths_files (hdev : OneDevice host) (ht : Tracked host db.files)
    (h : HostRenames host old new buf) (hreal : real.rc = 0) :
    ∃ s S, renamePaths sq env leftover host.lstat olddirfd newdirfd real db t (some old) (some new)
        bufs = some s ∧ s.rc = 0 ∧ Marks env old new S ∧
      s.db.files = if asks env new then
          (renameMeets env old new buf S db.files).map (renameRow old new)
        else renameMeets env old new buf S db.files := by
  obtain ⟨a, S, ha, hS, hfiles, hmay, hentry⟩ := @announce_files sq env leftover host olddirfd
    newdirfd old new buf db t ht h
  obtain ⟨s₄, h₄, hf₄⟩ := @confirm_target sq env leftover host newdirfd old new buf S db.files a
    ((host.lstat new).getD bufs.newbuf) h hS hfiles hmay
  obtain ⟨s₅, h₅, hf₅⟩ := @confirm_source sq env leftover host olddirfd old new buf S db.files
    s₄.db s₄.tables a.oldDbEntry ht h hf₄ hentry
  obtain ⟨s₆, h₆, hf₆⟩ := @call_rename sq env leftover host olddirfd newdirfd old new buf s₅.db
    s₅.tables h fun hasks => hf₅ ▸ ready_renameMeets hdev ht h hasks
  refine ⟨⟨s₆.db, s₆.tables, real.rc, real.errno⟩, S, ?_, hreal, hS, by rw [hf₆, hf₅]⟩
  have hconfirm : renameConfirm sq env leftover host.lstat olddirfd newdirfd
      (bufs.fill (host.lstat new) (host.lstat old)) a old new = some s₆ := by
    unfold renameConfirm RenameBufs.fill
    dsimp only
    rw [h₄, Option.bind_some, h.source, Option.getD_some, renameOldbuf_same hdev h, h₅,
      Option.bind_some]
    exact h₆
  unfold renamePaths
  dsimp only
  rw [if_neg (by rw [h.distinct]; simp), ha, Option.bind_some, if_neg (by rw [hreal]; decide),
    hconfirm]
  rfl

end Whole

/-! ## The table that it should become -/

section Carry
variable {host : HostFs} {env : ClientEnv} {old new : Bytes} {buf : StatBuf} {S : List Bytes}
  {t : List FileRow} {r : FileRow} {d : BitVec 32}

theorem moved_carryRow (hzero : r.deleting = 0) : Moved old new r (carryRow old new r) := by
  have hmark : ∀ p, { r with path := p } = { r with path := p, deleting := 0 } := by
    intro p
    rw [← hzero]
  constructor
  · intro hp
    rw [carryRow, if_pos hp, hmark]
  · intro rest hrest he
    have hne : r.path ≠ old := fun hp => ne_append_slash (hp.symm.trans he)
    rw [carryRow, if_neg hne, if_pos ⟨rest, hrest, he⟩, hmark, he, List.drop_left]
  · intro hp hbelow
    rw [carryRow, if_neg hp, if_neg]
    rintro ⟨rest, hrest, he⟩
    exact hbelow rest hrest he

theorem moved_unique {a b : FileRow} (ha : Moved old new r a) (hb : Moved old new r b) : a = b := by
  by_cases hp : r.path = old
  · rw [ha.exact hp, hb.exact hp]
  · by_cases hbelow : LiesBelow old r.path
    · obtain ⟨rest, hrest, he⟩ := hbelow
      rw [ha.sub rest hrest he, hb.sub rest hrest he]
    · have hno : ∀ rest, rest ≠ [] → r.path ≠ old ++ slash :: rest :=
        fun rest hrest he => hbelow ⟨rest, hrest, he⟩
      rw [ha.other hp hno, hb.other hp hno]

/-- The updates do to a row what they should, unless its path repeats the old one. -/
theorem renameRow_eq_carryRow_iff (h : HostRenames host old new buf) (hzero : r.deleting = 0) :
    renameRow old new r = carryRow old new r ↔ ¬ OccursAgain old r := by
  rw [← moved_renameRow_iff (absPath_ne_nil h.oldPath) (old_ne_new h)
    (fun rest hrest he => h.notBelow ⟨rest, hrest, he⟩) r]
  constructor
  · intro he
    rw [he]
    exact moved_carryRow hzero
  · intro hm
    exact moved_unique hm (moved_carryRow hzero)

/-- The rename takes the marks away. -/
theorem map_renameRow_marked (h : HostRenames host old new buf) (hS : Marks env old new S) :
    (delete (atPath new) (markPaths d S t)).map (renameRow old new) =
      (delete (atPath new) t).map (renameRow old new) := by
  have hcomm : delete (atPath new) (markPaths d S t) =
      markPaths d S (delete (atPath new) t) := by
    unfold delete markPaths update
    rw [List.filter_map]
    congr 1
    refine List.filter_congr fun r _ => ?_
    simp only [Function.comp_apply]
    split <;> rfl
  rw [hcomm]
  unfold markPaths update
  rw [List.map_map]
  refine List.map_congr_left fun r hr => ?_
  have hne : r.path ≠ new := atPath_eq_false.mp (mem_delete.mp hr).2
  simp only [Function.comp_apply, decide_eq_true_eq]
  split
  · next hmem =>
    have hp : r.path = old := (hS.source _ hmem).resolve_right fun hno => hne hno.1
    have hexact : ∀ rest, rest ≠ [] → new ≠ old ++ slash :: rest :=
      fun rest hrest he => h.notBelow ⟨rest, hrest, he⟩
    have hmarked : ({ r with deleting := d } : FileRow).path = old := hp
    rw [renameRow_exact hexact hmarked, renameRow_exact hexact hp]
  · rfl

/-- The row of the file under its new name. -/
theorem renameRow_row (h : HostRenames host old new buf) :
    renameRow old new (buf.row old) = buf.row new := by
  rw [renameRow_exact (fun rest hrest he => h.notBelow ⟨rest, hrest, he⟩) rfl]
  rfl

theorem carry_unmarked (hzero : ∀ r ∈ t, r.deleting = 0) :
    ∀ r ∈ carry old new buf t, r.deleting = 0 := by
  intro r hr
  unfold carry at hr
  rcases List.mem_append.mp hr with hmoved | hadded
  · obtain ⟨s, hs, rfl⟩ := List.mem_map.mp hmoved
    have hsz := hzero s (mem_delete.mp hs).1
    unfold carryRow
    split
    · exact hsz
    · split <;> exact hsz
  · split at hadded
    · obtain rfl := List.mem_singleton.mp hadded
      rfl
    · cases hadded

/-- After the rename the file is recorded under its new name. -/
theorem exists_carried (ht : Tracked host t) (h : HostRenames host old new buf) :
    ∃ r ∈ carry old new buf t, r.path = new ∧ r.key = buf.key := by
  unfold carry
  by_cases habs : Absent old t
  · exact ⟨buf.row new, by simp [habs], rfl, rfl⟩
  · obtain ⟨r, hr, hp⟩ := not_absent habs
    obtain ⟨b, hb, hdesc⟩ := ht.recorded r hr
    rw [hp] at hb
    obtain rfl := Option.some.inj (hb.symm.trans h.source)
    have hkept : r ∈ delete (atPath new) t := by
      refine mem_delete.mpr ⟨hr, atPath_eq_false.mpr ?_⟩
      rw [hp]
      exact old_ne_new h
    refine ⟨carryRow old new r, List.mem_append_left _ (List.mem_map.mpr ⟨r, hkept, rfl⟩), ?_⟩
    rw [carryRow, if_pos hp]
    exact ⟨rfl, hdesc.key⟩

/-- The updates do what they should to every row that stays. -/
theorem map_renameRow_iff (ht : Tracked host t) (h : HostRenames host old new buf) :
    (delete (atPath new) t).map (renameRow old new) =
        (delete (atPath new) t).map (carryRow old new) ↔ ∀ r ∈ t, ¬ OccursAgain old r := by
  rw [List.map_inj_left]
  constructor
  · intro hall r hr hagain
    by_cases hp : r.path = new
    · obtain ⟨rest, hrest, he⟩ := below_iff.mp hagain.1
      exact h.notBelow ⟨rest, hrest, hp ▸ he⟩
    · have hkept := hall r (mem_delete.mpr ⟨hr, atPath_eq_false.mpr hp⟩)
      exact (renameRow_eq_carryRow_iff h (ht.unmarked r hr)).mp hkept hagain
  · intro hall r hr
    have hmem := (mem_delete.mp hr).1
    exact (renameRow_eq_carryRow_iff h (ht.unmarked r hmem)).mpr (hall r hmem)

/-- If the server is not told of the rename, the file is not recorded under its new name. -/
theorem renameMeets_ne_carry (hdev : OneDevice host) (ht : Tracked host t)
    (h : HostRenames host old new buf) : renameMeets env old new buf S t ≠ carry old new buf t := by
  intro he
  obtain ⟨r, hr, hp, hk⟩ := exists_carried ht h
  rw [← he] at hr
  rcases of_mem_renameMeets hr with ⟨s, hs, hsp, hsk, _⟩ | rfl
  · exact target_key_ne h hdev ht hs (hsp.symm.trans hp) (hsk.symm.trans hk)
  · exact old_ne_new h hp

theorem renamed_eq_carry_iff (hdev : OneDevice host) (ht : Tracked host t)
    (h : HostRenames host old new buf) (hS : Marks env old new S) :
    (if asks env new then (renameMeets env old new buf S t).map (renameRow old new)
      else renameMeets env old new buf S t) = carry old new buf t ↔
      asks env new = true ∧ (asks env old = true ∨ ¬ Absent old t) ∧
        ∀ r ∈ t, ¬ OccursAgain old r := by
  cases hasks : asks env new with
  | false => simp [renameMeets_ne_carry hdev ht h]
  | true =>
    rw [← map_renameRow_iff ht h, if_pos rfl, renameMeets, hasks, if_pos rfl, List.map_append,
      map_renameRow_marked h hS, carry]
    by_cases habs : Absent old t
    · cases hold : asks env old with
      | false =>
        -- nothing is recorded under the old name
        refine iff_of_false (fun he => ?_) (by simp [habs])
        have hlen := congrArg List.length he
        simp [habs] at hlen
      | true => simp [habs, renameRow_row h]
    · simp [habs]

end Carry

end CarriedRenameLemmas

open CarriedRenameLemmas RenameLemmas FailedRenameLemmas

/-- A rename that the host carries out leaves the former table under the new names, with no mark
and no refused request, exactly when the server is asked about the new path, and about the old one
unless it has a row, and no path below the old one repeats it. -/
theorem rename_carried_iff (sq : Sqlite) (env : ClientEnv) (leftover : Bytes) (host : HostFs)
    (real : HostCall) (db : Db) (t : FdTables) (old new : Bytes) (buf : StatBuf) (bufs : RenameBufs)
    (hdev : OneDevice host) (ht : Tracked host db.files) (h : HostRenames host old new buf)
    (hreal : real.rc = 0) :
    CarriesOver db old new buf
        (wrapRename sq env leftover host.lstat real db t (some old) (some new) bufs) ↔
      asks env new = true ∧ (asks env old = true ∨ ¬ Absent old db.files) ∧
        ∀ r ∈ db.files, ¬ OccursAgain old r := by
  obtain ⟨s, S, hs, hrc, hS, hfiles⟩ := @renamePaths_files sq env leftover host real (-1) (-1) old
    new buf db t bufs hdev ht h hreal
  have hcarries : CarriesOver db old new buf
      (wrapRename sq env leftover host.lstat real db t (some old) (some new) bufs) ↔
        s.db.files = carry old new buf db.files := by
    unfold CarriesOver wrapRename
    rw [hs]
    constructor
    · rintro ⟨s', hs', _, hcarry, _⟩
      obtain rfl := Option.some.inj hs'
      exact hcarry
    · intro hcarry
      exact ⟨s, rfl, hrc, hcarry, hcarry ▸ carry_unmarked ht.unmarked⟩
  rw [hcarries, hfiles]
  exact renamed_eq_carry_iff hdev ht h hS

/-! ## Concrete calls -/

/-- The directory `/a`, in it the directory `/a/x`, and in that the file `/a/x/a`. -/
def exNested : List (Bytes × StatBuf) :=
  [(ascii ['/', 'a'], { exBuf with ino := 5, mode := 0o040755, nlink := 3 }),
    (ascii ['/', 'a', '/', 'x'], { exBuf with ino := 6, mode := 0o040755, nlink := 2 }),
    (ascii ['/', 'a', '/', 'x', '/', 'a'], { exBuf with ino := 7 })]

theorem mem_exNested {p : Bytes} {b : StatBuf} (h : exNested.lookup p = some b) :
    (p, b) ∈ exNested := by
  obtain ⟨l₁, l₂, he, _⟩ := List.lookup_eq_some_iff.mp h
  rw [he]
  simp

def exNestedHost : HostFs where
  lstat p := exNested.lookup p
  absolute h := by
    have hall : ∀ e ∈ exNested, e.1.head? = some slash := by decide
    exact hall _ (mem_exNested h)
  numbered h := by
    have hall : ∀ e ∈ exNested, e.2.dev ≠ 0 ∧ e.2.ino ≠ 0 := by decide
    exact hall _ (mem_exNested h)
  trailing {p b} h := by
    have hall : ∀ e ∈ exNested, serverPath e.1 = e.1 := by decide
    have hp : serverPath p = p := hall _ (mem_exNested h)
    rw [hp]
    exact Or.inl h

theorem exNestedHost_oneDevice : OneDevice exNestedHost where
  dev hb hc := by
    have hall : ∀ e ∈ exNested, ∀ f ∈ exNested, e.2.dev = f.2.dev := by decide
    exact hall _ (mem_exNested hb) _ (mem_exNested hc)
  inode hb hc := by
    have hall : ∀ e ∈ exNested, ∀ f ∈ exNested, e.2.ino = f.2.ino → e.2 = f.2 := by decide
    exact hall _ (mem_exNested hb) _ (mem_exNested hc)
  single _ _ hb hc _ := by
    have hall : ∀ e ∈ exNested, ∀ f ∈ exNested, e.2 = f.2 → e.1 = f.1 := by decide
    exact hall _ (mem_exNested hb) _ (mem_exNested hc) rfl

/-- All three are recorded. -/
def exNestedDb : Db where
  files := exNested.map fun e => e.2.row e.1
  xattrs := []
  oldmsg := ⟨0, []⟩

theorem exNestedDb_tracked : Tracked exNestedHost exNestedDb.files where
  recorded := by
    have hall : ∀ e ∈ exNested, exNestedHost.lstat e.1 = some e.2 ∧
        (e.2.row e.1).SameType e.2 := by decide
    intro r hr
    obtain ⟨e, he, rfl⟩ := List.mem_map.mp hr
    exact ⟨e.2, (hall e he).1, rfl, (hall e he).2⟩
  unique := by decide
  unmarked := by decide
  canonical := by decide
  complete := by
    intro _ _ p buf _ hb _ habs
    exact habs _ (List.mem_map.mpr ⟨(p, buf), mem_exNested hb, rfl⟩) rfl

/-- `rename("/a/x", "/b")`. -/
theorem rename_carried_directory : CarriesOver exNestedDb (ascii ['/', 'a', '/', 'x'])
    (ascii ['/', 'b']) { exBuf with ino := 6, mode := 0o040755, nlink := 2 }
    (wrapRename .inOrder exEnv [] exNestedHost.lstat ⟨0, 0⟩ exNestedDb ⟨[], []⟩
      (some (ascii ['/', 'a', '/', 'x'])) (some (ascii ['/', 'b'])) ⟨exBuf, exBuf⟩) := by
  refine (rename_carried_iff .inOrder exEnv [] exNestedHost ⟨0, 0⟩ exNestedDb ⟨[], []⟩
    (ascii ['/', 'a', '/', 'x']) (ascii ['/', 'b'])
    { exBuf with ino := 6, mode := 0o040755, nlink := 2 } ⟨exBuf, exBuf⟩ exNestedHost_oneDevice
    exNestedDb_tracked ?_ rfl).mpr ⟨by decide, Or.inl (by decide), by decide⟩
  exact ⟨by decide, by decide, by decide, by decide, by decide, by decide, by decide, by decide⟩

theorem exNested_renames : HostRenames exNestedHost (ascii ['/', 'a']) (ascii ['/', 'b'])
    { exBuf with ino := 5, mode := 0o040755, nlink := 3 } :=
  ⟨by decide, by decide, by decide, by decide, by decide, by decide, by decide, by decide⟩

/-- `rename("/a", "/b")` records `/a/x/a` as `/b/x/b`. -/
theorem rename_repeats_name :
    OneDevice exNestedHost ∧ Tracked exNestedHost exNestedDb.files ∧
    HostRenames exNestedHost (ascii ['/', 'a']) (ascii ['/', 'b'])
      { exBuf with ino := 5, mode := 0o040755, nlink := 3 } ∧
    ((wrapRename .inOrder exEnv [] exNestedHost.lstat ⟨0, 0⟩ exNestedDb ⟨[], []⟩
      (some (ascii ['/', 'a'])) (some (ascii ['/', 'b'])) ⟨exBuf, exBuf⟩).map
        fun s => s.db.files.map (·.path)) =
      some [ascii ['/', 'b'], ascii ['/', 'b', '/', 'x'], ascii ['/', 'b', '/', 'x', '/', 'b']] ∧
    ¬ CarriesOver exNestedDb (ascii ['/', 'a']) (ascii ['/', 'b'])
      { exBuf with ino := 5, mode := 0o040755, nlink := 3 }
      (wrapRename .inOrder exEnv [] exNestedHost.lstat ⟨0, 0⟩ exNestedDb ⟨[], []⟩
        (some (ascii ['/', 'a'])) (some (ascii ['/', 'b'])) ⟨exBuf, exBuf⟩) := by
  have hrun : ((wrapRename .inOrder exEnv [] exNestedHost.lstat ⟨0, 0⟩ exNestedDb ⟨[], []⟩
      (some (ascii ['/', 'a'])) (some (ascii ['/', 'b'])) ⟨exBuf, exBuf⟩).map
        fun s => s.db.files.map (·.path)) =
      some [ascii ['/', 'b'], ascii ['/', 'b', '/', 'x'],
        ascii ['/', 'b', '/', 'x', '/', 'b']] := by decide
  refine ⟨exNestedHost_oneDevice, exNestedDb_tracked, exNested_renames, hrun, ?_⟩
  rintro ⟨s, hs, _, hfiles, _⟩
  rw [hs, Option.map_some, Option.some.injEq, hfiles] at hrun
  exact absurd hrun (by decide)

end Pseudo
