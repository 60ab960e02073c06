import Pseudo.WrapRename

/-!
# A rename that the host refuses

Before the host is asked, the rows of both paths are marked, and afterwards the marks are taken
back with whatever is in the buffers of `lstat`. Where `lstat` failed that is nothing in
particular, although the row may exist: the client strips a trailing slash from the path, `lstat`
does not.

Results:
1. `call_marked`: as long as every message finds the host's own file, the table is the old one
   with some paths marked.
2. `call_descends`, `call_removes`: the messages insert nothing, and a row of another type goes.
3. `failedRename_restores_iff`: exactly when the tables are as before, whatever the stack holds.
4. `failedRename_loses_target`: a regular file with a slash behind its name.
-/

namespace Pseudo

open Table
open TwoStoresLemmas (serverPath)
open RefusedLemmas (lookup_result)

/-! ## The host, and what the tables should say about it -/

/-- The host's files under absolute paths, with numbers other than 0, which the server takes for
none. A path with a slash behind it, if it leads anywhere, leads to what it names without the
slash, or from a link to something that is none. -/
structure HostFs where
  lstat : Bytes → Option StatBuf
  absolute : ∀ {p b}, lstat p = some b → p.head? = some slash
  numbered : ∀ {p b}, lstat p = some b → b.dev ≠ 0 ∧ b.ino ≠ 0
  trailing : ∀ {p b}, lstat p = some b → lstat (serverPath p) = some b ∨
    ∃ l, lstat (serverPath p) = some l ∧ sIslnk (l.mode.setWidth 64) = true ∧
      sIslnk (b.mode.setWidth 64) = false

/-- The row is about the file. -/
structure FileRow.Describes (r : FileRow) (buf : StatBuf) : Prop where
  key : r.key = buf.key
  type : r.SameType buf

/-- The table agrees with the host, and no removal is under way. That an inode is recorded with
all of its names or with none makes no difference here. -/
structure Consistent (host : HostFs) (t : List FileRow) : Prop where
  recorded : ∀ r ∈ t, ∃ buf, host.lstat r.path = some buf ∧ r.Describes buf
  unique : ∀ r ∈ t, ∀ s ∈ t, r.path = s.path → r = s
  unmarked : ∀ r ∈ t, r.deleting = 0

/-- `lstat` finds the file of the row that the server takes for the path. -/
def HostFs.Fits (host : HostFs) (t : List FileRow) (path : Bytes) : Prop :=
  ∀ r ∈ t, r.path = serverPath path → ∃ buf, host.lstat path = some buf ∧ r.Describes buf

/-- The row of the new path is not taken for one of another type, with the inode of the old path:
the database keeps 32 bits of a device number. -/
def HostFs.Apart (host : HostFs) (t : List FileRow) (old new : Bytes) : Prop :=
  Absent (serverPath old) t → ∀ r ∈ t, r.path = serverPath new →
    ∀ buf, host.lstat old = some buf → r.key = buf.key → r.SameType buf

/-- The paths that the server is asked about can be marked and unmarked. -/
structure Revocable (env : ClientEnv) (host : HostFs) (t : List FileRow) (old new : Bytes) :
    Prop where
  target : asks env new = true → host.Fits t new
  source : asks env old = true → host.Fits t old
  apart : asks env new = true → asks env old = true → host.Apart t old new

/-- The two paths lead to one file, or they can be marked and unmarked; there is nothing to do
without them. -/
def Revoked (env : ClientEnv) (host : HostFs) (t : List FileRow) (oldpath newpath : Option Bytes) :
    Prop :=
  ∀ old, oldpath = some old → ∀ new, newpath = some new →
    sameFile (host.lstat new) (host.lstat old) = true ∨ Revocable env host t old new

/-- Both tables are as before, whatever the buffers on the stack held. -/
def Restores (db : Db) (call : RenameBufs → Option RenameStep) : Prop :=
  ∀ bufs s, call bufs = some s → s.rc = -1 → s.db.files = db.files ∧ s.db.xattrs = db.xattrs

/-- The call comes back: none of its requests is answered with `RESULT_ABORT`. -/
def ComesBack (call : RenameBufs → Option RenameStep) : Prop := ∃ bufs s, call bufs = some s

namespace FailedRenameLemmas

/-! ## Marked paths -/

/-- The table with the rows of some paths marked. -/
def markPaths (d : BitVec 32) (S : List Bytes) (t : List FileRow) : List FileRow :=
  update (fun r => decide (r.path ∈ S)) (fun r => { r with deleting := d }) t

/-- The paths that are marked after a message. -/
def announced (o : Op) (path : Bytes) (S : List Bytes) : List Bytes :=
  match o with
  | .mayUnlink => path :: S
  | .cancelUnlink => S.filter (· ≠ path)
  | _ => S

section Marks
variable {d : BitVec 32} {S : List Bytes} {t : List FileRow} {r : FileRow} {path : Bytes} {o : Op}

theorem mem_markPaths : r ∈ markPaths d S t ↔
    ∃ s ∈ t, (if s.path ∈ S then { s with deleting := d } else s) = r := by
  simp [markPaths, mem_update]

/-- A marked table has the same files. -/
theorem of_mem_markPaths (h : r ∈ markPaths d S t) : ∃ s ∈ t, r.path = s.path ∧ r.key = s.key ∧
    r.mode = s.mode ∧ (s.path ∉ S → r = s) := by
  obtain ⟨s, hs, rfl⟩ := mem_markPaths.mp h
  refine ⟨s, hs, ?_⟩
  split
  · exact ⟨rfl, rfl, rfl, fun hno => absurd ‹_› hno⟩
  · exact ⟨rfl, rfl, rfl, fun _ => rfl⟩

theorem absent_markPaths : Absent path (markPaths d S t) ↔ Absent path t := by
  constructor
  · intro h r hr hp
    refine h _ (mem_markPaths.mpr ⟨r, hr, rfl⟩) ?_
    split <;> exact hp
  · intro h r hr hp
    obtain ⟨s, hs, hps, _⟩ := of_mem_markPaths hr
    exact h s hs (hps.symm.trans hp)

/-- Marks on paths that no row has. -/
theorem markPaths_absent (h : ∀ p ∈ S, Absent p t) : markPaths d S t = t := by
  refine update_eq_self fun r hr hp => ?_
  exact absurd rfl (h r.path (of_decide_eq_true hp) r hr)

/-- What a message does to the marks. -/
theorem markPaths_remark (ho : o.onlyMarks = true) (hfree : ∀ r ∈ t, r.deleting = 0) :
    update (atPath path) (o.remark d) (markPaths d S t) = markPaths d (announced o path S) t := by
  unfold markPaths update
  rw [List.map_map]
  refine List.map_congr_left fun r hr => ?_
  have hzero : { r with deleting := 0 } = r := by rw [← hfree r hr]
  rcases onlyMarks_cases ho with rfl | rfl | rfl
  · by_cases hp : r.path = path <;> by_cases hS : r.path ∈ S <;>
      simp_all [announced, Op.remark, atPath]
  · by_cases hp : r.path = path <;> by_cases hS : r.path ∈ S <;>
      simp_all [announced, Op.remark, atPath]
  · by_cases hp : r.path = path <;> by_cases hS : r.path ∈ S <;>
      simp_all [announced, Op.remark, atPath]

end Marks

/-- The host has no file under the name for rows without one. -/
theorem recorded_named {host : HostFs} {t : List FileRow} {r : FileRow} (hc : Consistent host t)
    (hr : r ∈ t) : r.path ≠ namelessFile := by
  obtain ⟨b, hb, _⟩ := hc.recorded r hr
  intro hn
  have habsolute := host.absolute hb
  rw [hn] at habsolute
  cases habsolute

/-! ## Messages that find the host's own file -/

/-- What is sent about a path whose rows, those of `S` being marked, are the host's. -/
structure Finds (host : HostFs) (t : List FileRow) (S : List Bytes) (path : Bytes)
    (buf : StatBuf) : Prop where
  stat : host.lstat path = some buf ∨ host.lstat path = none ∧ buf.dev = 0
  fits : host.Fits t path
  apart : Absent (serverPath path) t → ∀ r ∈ t, r.path ∈ S → host.lstat path = some buf →
    r.key = buf.key → r.SameType buf

/-- The tables, with some paths marked. -/
structure IsMarked (d : BitVec 32) (S : List Bytes) (db₀ db : Db) : Prop where
  files : db.files = markPaths d S db₀.files
  xattrs : db.xattrs = db₀.xattrs

section Calls
variable {sq : Sqlite} {env : ClientEnv} {leftover : Bytes} {host : HostFs} {o : Op} {dirfd : Int}
  {path : Bytes} {buf : StatBuf} {req : Request} {db db₀ : Db} {t : FdTables} {S : List Bytes}
  {s : CallStep} {d : BitVec 32}

/-- A message about a path without rows: what is found for the inode is marked. -/
theorem calm_absent (hc : Consistent host db₀.files) (h : Tells o path buf req)
    (ho : o.onlyMarks = true) (hfiles : db.files = markPaths d S db₀.files)
    (hfinds : Finds host db₀.files S path buf)
    (hlive : aborts req (lookup sq db req) = false) (habs : Absent (serverPath path) db₀.files) :
    Calm req (hits sq db.files req) := by
  have hpath : ∀ q ∈ db.files, q.path ≠ req.path := by
    rw [hfiles, h.path]
    exact absent_markPaths.mpr habs
  rcases hfinds.stat with hbuf | ⟨_, hdev⟩
  · refine ⟨fun q hq => ?_, fun q hq => ?_⟩
    · obtain ⟨hmem, _, hp⟩ := hits_path hq
      exact absurd hp (hpath q hmem)
    · obtain ⟨hmem, hk⟩ := hits_ino hq
      obtain ⟨r, hr, hrp, hrk, hrm, hsame⟩ := of_mem_markPaths (hfiles ▸ hmem)
      have hmarked : r.path ∈ S := by
        by_contra hS
        obtain rfl := hsame hS
        refine marked_of_hit h ho hlive hq ?_ (recorded_named hc hr) (hc.unmarked _ hr)
        rw [← h.path]
        exact hpath q hmem
      have htype := hfinds.apart habs r hr hmarked hbuf (hrk.symm.trans (hk.trans h.key))
      refine (inoFits_iff h.proper hq).mpr ⟨hlive, ?_⟩
      refine (typeMismatch_readRow (r := q) ?_).trans ((typeMismatch_iff h).mpr ?_)
      · rw [lookup_hits h.proper, Hits.lookup, hq]
        split <;> rfl
      · unfold FileRow.SameType at htype ⊢
        rwa [hrm]
  · have hino : ¬ req.HasInode := fun hino => hino.1 (h.dev.trans hdev)
    rw [hits_nothing (fun _ => hpath) fun hyes => absurd hyes hino]
    exact calm_nothing

/-- A message about a path with a row: it is the host's own file. -/
theorem calm_present (hc : Consistent host db₀.files) (h : Tells o path buf req)
    (ho : o.onlyMarks = true) (hfiles : db.files = markPaths d S db₀.files)
    (hfinds : Finds host db₀.files S path buf) (habs : ¬ Absent (serverPath path) db₀.files) :
    Calm req (hits sq db.files req) ∧
      ∃ r ∈ db.files, r.key = (lookup sq db req).msg.key := by
  unfold Absent at habs
  push Not at habs
  obtain ⟨r, hr, hp⟩ := habs
  obtain ⟨b, hb, hdesc⟩ := hfinds.fits r hr hp
  obtain rfl : b = buf := by
    rcases hfinds.stat with hbuf | ⟨hbuf, _⟩
    · exact Option.some.inj (hb.symm.trans hbuf)
    · rw [hbuf] at hb
      cases hb
  have hnum := host.numbered hb
  have hall : ∀ q ∈ db.files, q.path = serverPath path → q.key = b.key ∧ q.SameType b := by
    intro q hq hqp
    obtain ⟨r', hr', hrp, hrk, hrm, _⟩ := of_mem_markPaths (hfiles ▸ hq)
    obtain rfl := hc.unique r hr r' hr' (hp.trans (hqp.symm.trans hrp))
    refine ⟨hrk.trans hdesc.key, ?_⟩
    have htype := hdesc.type
    unfold FileRow.SameType at htype ⊢
    rwa [hrm]
  have hmem : (if r.path ∈ S then { r with deleting := d } else r) ∈ db.files := by
    rw [hfiles]
    exact mem_markPaths.mpr ⟨r, hr, rfl⟩
  have hmp : (if r.path ∈ S then { r with deleting := d } else r).path = serverPath path := by
    split <;> exact hp
  have hk := (hall _ hmem hmp).1
  exact ⟨calm_recorded h ho hnum hmem hmp hall,
    _, hmem, hk.trans (recorded_key sq h hnum hmem hmp hk).symm⟩

/-- A message about a marked table finds nothing wrong, if the host's file is the row's. -/
theorem calm_marked (hc : Consistent host db₀.files) (h : Tells o path buf req)
    (ho : o.onlyMarks = true) (hfiles : db.files = markPaths d S db₀.files)
    (hfinds : Finds host db₀.files S path buf)
    (hlive : aborts req (lookup sq db req) = false) :
    Calm req (hits sq db.files req) ∧ (¬ Absent (serverPath path) db₀.files →
      ∃ r ∈ db.files, r.key = (lookup sq db req).msg.key) := by
  rcases Classical.em (Absent (serverPath path) db₀.files) with habs | habs
  · exact ⟨calm_absent hc h ho hfiles hfinds hlive habs, fun hno => absurd habs hno⟩
  · obtain ⟨hcalm, howned⟩ := calm_present hc h ho hfiles hfinds habs
    exact ⟨hcalm, fun _ => howned⟩

/-- `OP_MAY_UNLINK` succeeds when it leaves a row of the path. -/
theorem call_mayUnlink_result (hpath : IsCString path) {sent : Option StatBuf}
    (hs : clientCall sq env leftover db t (pathCall .mayUnlink dirfd path sent) = some s) :
    succeeded s.result = true ↔
      asks env path = true ∧ ¬ Absent (serverPath path) s.db.files := by
  rcases pathCall_cases rfl hpath hs with ⟨hasks, rfl⟩ | ⟨hasks, m, htells, _, hlive, rfl⟩
  · simp [succeeded, hasks]
  · show ((pseudoOp sq db m).msg.result == .succeed) = true ↔ _
    rw [beq_iff_eq, hasks]
    exact (handle_mayUnlink_result htells (lookup_result sq db m).1 hlive).trans (by simp; rfl)

/-- No call inserts a row. -/
theorem call_descends (ho : o.onlyMarks = true) (hpath : IsCString path) {sent : Option StatBuf}
    (hs : clientCall sq env leftover db t (pathCall o dirfd path sent) = some s) :
    Descends s.db.files db.files := by
  rcases pathCall_cases ho hpath hs with ⟨_, rfl⟩ | ⟨_, m, htells, _, hlive, rfl⟩
  · exact Descends.refl _
  · exact handle_descends_db htells ho hlive

/-- A row of another type than is sent goes. -/
theorem call_removes (ho : o.onlyMarks = true) (hpath : IsCString path) {sent : Option StatBuf}
    (hs : clientCall sq env leftover db t (pathCall o dirfd path sent) = some s)
    (hasks : asks env path = true)
    (hmm : ∀ r ∈ db.files, r.path = serverPath path → ¬ r.SameType (StatBuf.sent sent)) :
    Absent (serverPath path) s.db.files := by
  rcases pathCall_cases ho hpath hs with ⟨hno, rfl⟩ | ⟨_, m, htells, _, hlive, rfl⟩
  · rw [hasks] at hno
    cases hno
  · exact mismatch_removes htells ho hlive hmm

/-- A call about a file that is recorded is not refused. -/
theorem call_recorded (ho : o.onlyMarks = true) (hpath : IsCString path)
    (hnum : buf.dev ≠ 0 ∧ buf.ino ≠ 0) {r : FileRow} (hr : r ∈ db.files)
    (hp : r.path = serverPath path) (hk : r.key = buf.key) :
    ∃ s, clientCall sq env leftover db t (pathCall o dirfd path (some buf)) = some s :=
  pathCall_returns ho hpath fun _ htells => recorded_live htells ho hnum hr hp hk

/-- Nor is one about an inode that has no row. -/
theorem call_unknown (ho : o.onlyMarks = true) (hpath : IsCString path)
    (hk : ∀ r ∈ db.files, r.key ≠ buf.key) :
    ∃ s, clientCall sq env leftover db t (pathCall o dirfd path (some buf)) = some s := by
  refine pathCall_returns ho hpath fun req htells => aborts_none htells.proper ?_
  cases hq : (hits sq db.files req).ino with
  | none => rfl
  | some q =>
    obtain ⟨hmem, hqk⟩ := hits_ino hq
    exact absurd (hqk.trans htells.key) (hk q hmem)

/-- With the row of a wrong type go all rows of its inode, and no others. -/
theorem call_forgets (ho : o.onlyMarks = true) (hpath : IsCString path)
    (hasks : asks env path = true) (hnum : buf.dev ≠ 0 ∧ buf.ino ≠ 0)
    {r : FileRow} (hr : r ∈ db.files) (hp : r.path = serverPath path) (hk : r.key = buf.key)
    (hmm : ∀ r ∈ db.files, r.path = serverPath path → ¬ r.SameType buf)
    (hs : clientCall sq env leftover db t (pathCall o dirfd path (some buf)) = some s) :
    (∀ q ∈ s.db.files, q.key ≠ buf.key) ∧
      ∀ q ∈ db.files, q.path ≠ serverPath path → q.key ≠ buf.key →
        ∃ q' ∈ s.db.files, q'.path = q.path ∧ q'.key = q.key := by
  rcases pathCall_cases ho hpath hs with ⟨hno, rfl⟩ | ⟨_, m, htells, _, hlive, rfl⟩
  · rw [hasks] at hno
    cases hno
  · obtain ⟨q, hq, hqp, _, he⟩ := hits_recorded sq htells hnum hr hp hk
    have hkey := recorded_key sq htells hnum hr hp hk
    refine ⟨mismatch_removes_inode htells ho hlive (by rw [he]) (hmm q hq hqp) hkey, ?_⟩
    intro q hq hqp hqk
    have hkept : q ∈ (checked sq db (request m)).db.files := by
      refine mem_checked hq ?_ ?_
      · rw [htells.path]
        exact hqp
      · rw [hkey]
        exact hqk
    refine ⟨_, ?_, rfl, rfl⟩
    rw [pseudoOp, handle_files htells ho hlive]
    exact mem_update_of_not hkept (atPath_eq_false.mpr hqp)

/-- A call about a path leaves the tables as they were, but for the marks. -/
theorem call_marked (hc : Consistent host db₀.files) (ho : o.onlyMarks = true)
    (hpath : IsCString path) {sent : Option StatBuf} (hm : IsMarked env.pid S db₀ db)
    (hs : clientCall sq env leftover db t (pathCall o dirfd path sent) = some s)
    (hfinds : asks env path = true → Finds host db₀.files S path (StatBuf.sent sent))
    (hcancel : o = .cancelUnlink → ¬ Absent (serverPath path) db₀.files) :
    IsMarked env.pid (if asks env path then announced o (serverPath path) S else S) db₀ s.db ∧
      (o = .mayUnlink → (succeeded s.result = true ↔
        asks env path = true ∧ ¬ Absent (serverPath path) db₀.files)) := by
  have hresult : o = .mayUnlink → (succeeded s.result = true ↔
      asks env path = true ∧ ¬ Absent (serverPath path) s.db.files) := by
    rintro rfl
    exact call_mayUnlink_result hpath hs
  rcases pathCall_cases ho hpath hs with ⟨hasks, rfl⟩ | ⟨hasks, m, htells, hclient, hlive, rfl⟩
  · rw [hasks] at hresult ⊢
    rw [if_neg (by simp)]
    exact ⟨hm, fun hop => by simpa using hresult hop⟩
  · rw [hasks, if_pos rfl]
    rw [hasks] at hresult
    obtain ⟨hcalm, howned⟩ := calm_marked hc htells ho hm.files (hfinds hasks) hlive
    have hfiles : (pseudoOp sq db m).db.files =
        markPaths env.pid (announced o (serverPath path) S) db₀.files := by
      rw [pseudoOp, calm_files htells ho hcalm, hclient, hm.files,
        markPaths_remark ho hc.unmarked]
    refine ⟨⟨hfiles, ?_⟩, fun hop => ?_⟩
    · rw [pseudoOp, calm_xattrs htells ho hcalm fun hop => howned (hcancel hop), hm.xattrs]
    · rw [hresult hop, hfiles, absent_markPaths]

end Calls

/-! ## Where everything is found, everything is restored -/

section Restore
variable {sq : Sqlite} {env : ClientEnv} {leftover : Bytes} {host : HostFs} {db : Db}
  {t : FdTables} {old new : Bytes} {olddirfd newdirfd : Int} {bufs : RenameBufs}

/-- What `lstat` says is sent as it is, or a header of zeros. -/
theorem sent_lstat (host : HostFs) (path : Bytes) :
    host.lstat path = some (StatBuf.sent (host.lstat path)) ∨
      host.lstat path = none ∧ (StatBuf.sent (host.lstat path)).dev = 0 := by
  cases host.lstat path with
  | none => exact Or.inr ⟨rfl, rfl⟩
  | some buf => exact Or.inl rfl

/-- The three messages before the host is asked. -/
structure Announces (sq : Sqlite) (env : ClientEnv) (leftover : Bytes) (host : HostFs)
    (olddirfd newdirfd : Int) (db : Db) (t : FdTables) (old new : Bytes) (s₁ s₂ s₃ : CallStep) :
    Prop where
  target : clientCall sq env leftover db t
    (pathCall .mayUnlink newdirfd new (host.lstat new)) = some s₁
  source : clientCall sq env leftover s₁.db s₁.tables
    (pathCall .mayUnlink olddirfd old (host.lstat old)) = some s₂
  stat : clientCall sq env leftover s₂.db s₂.tables
    (pathCall .stat olddirfd old (host.lstat old)) = some s₃

theorem renameAnnounce_some {a : Announced}
    (ha : renameAnnounce sq env leftover host.lstat olddirfd newdirfd db t old new = some a) :
    ∃ s₁ s₂ s₃, Announces sq env leftover host olddirfd newdirfd db t old new s₁ s₂ s₃ ∧
      a = ⟨s₃.db, s₃.tables, succeeded s₁.result, succeeded s₂.result, succeeded s₃.result⟩ := by
  unfold renameAnnounce at ha
  obtain ⟨s₁, h₁, ha⟩ := Option.bind_eq_some_iff.mp ha
  obtain ⟨s₂, h₂, ha⟩ := Option.bind_eq_some_iff.mp ha
  obtain ⟨s₃, h₃, rfl⟩ := Option.map_eq_some_iff.mp ha
  exact ⟨s₁, s₂, s₃, ⟨h₁, h₂, h₃⟩, rfl⟩

/-- The marks that the three messages leave, and which of them found a row. -/
theorem announce_marked (hc : Consistent host db.files) (hold : IsCString old)
    (hnew : IsCString new) (hrev : Revocable env host db.files old new) {a : Announced}
    (ha : renameAnnounce sq env leftover host.lstat olddirfd newdirfd db t old new = some a) :
    ∃ S, IsMarked env.pid S db a.db ∧
      (∀ p ∈ S, p = serverPath new ∧ asks env new = true ∨
        p = serverPath old ∧ asks env old = true) ∧
      (a.mayUnlinkNew = true ↔ asks env new = true ∧ ¬ Absent (serverPath new) db.files) ∧
      (a.mayUnlinkOld = true ↔ asks env old = true ∧ ¬ Absent (serverPath old) db.files) := by
  obtain ⟨s₁, s₂, s₃, ⟨h₁, h₂, h₃⟩, rfl⟩ := renameAnnounce_some ha
  have hempty : IsMarked env.pid [] db db := ⟨(markPaths_absent (by simp)).symm, rfl⟩
  obtain ⟨hm₁, hr₁⟩ := call_marked hc rfl hnew hempty h₁
    (fun hasks => ⟨sent_lstat host new, hrev.target hasks, by simp⟩) (by simp)
  -- a row that is marked by now is the one of the new path
  have hapart : ∀ S, (∀ p ∈ S, p = serverPath new ∧ asks env new = true ∨
      p = serverPath old) → asks env old = true →
      Finds host db.files S old (StatBuf.sent (host.lstat old)) := by
    intro S hS hasks
    refine ⟨sent_lstat host old, hrev.source hasks, fun habs r hr hrS hb hk => ?_⟩
    rcases hS _ hrS with ⟨hp, hasks'⟩ | hp
    · exact hrev.apart hasks' hasks habs r hr hp _ hb hk
    · exact absurd hp (habs r hr)
  obtain ⟨hm₂, hr₂⟩ := call_marked hc rfl hold hm₁ h₂
    (hapart _ fun p hp => by
      revert hp
      cases asks env new <;> simp +contextual [announced]) (by simp)
  obtain ⟨hm₃, _⟩ := call_marked hc rfl hold hm₂ h₃
    (hapart _ fun p hp => by
      revert hp
      cases asks env new with
      | false => cases asks env old <;> simp +contextual [announced]
      | true => cases asks env old <;> simp +contextual [announced, or_imp]) (by simp)
  refine ⟨_, hm₃, fun p hp => ?_, hr₁ rfl, hr₂ rfl⟩
  revert hp
  cases asks env new <;> cases asks env old <;> simp [announced]
  tauto

/-- A row at the path means that `lstat` has filled the buffer. -/
theorem finds_present {S : List Bytes} (hfits : host.Fits db.files path)
    (habs : ¬ Absent (serverPath path) db.files) (garbage : StatBuf) :
    Finds host db.files S path ((host.lstat path).getD garbage) := by
  refine ⟨?_, hfits, fun hno => absurd hno habs⟩
  unfold Absent at habs
  push Not at habs
  obtain ⟨r, hr, hp⟩ := habs
  obtain ⟨b, hb, _⟩ := hfits r hr hp
  rw [hb]
  exact Or.inl rfl

/-- A cancellation takes the mark of its path back, and sets none. -/
theorem cancel_marked (hc : Consistent host db.files) (hpath : IsCString path) {cond : Bool}
    {dirfd : Int} {garbage : StatBuf} {S : List Bytes} {db' : Db} {t' : FdTables} {s' : CallStep}
    (hcond : cond = true ↔ asks env path = true ∧ ¬ Absent (serverPath path) db.files)
    (hfits : asks env path = true → host.Fits db.files path) (hm : IsMarked env.pid S db db')
    (hs : clientCallIf sq env leftover cond db' t' (pathCall .cancelUnlink dirfd path
      (some ((host.lstat path).getD garbage))) = some s') :
    ∃ S', IsMarked env.pid S' db s'.db ∧ (∀ p ∈ S', p ∈ S) ∧
      (asks env path = true → serverPath path ∈ S' → Absent (serverPath path) db.files) := by
  unfold clientCallIf at hs
  split at hs
  · rename_i htrue
    obtain ⟨hasks, habs⟩ := hcond.mp htrue
    obtain ⟨hm', _⟩ := call_marked hc rfl hpath hm hs
      (fun _ => finds_present (hfits hasks) habs garbage) (fun _ => habs)
    rw [hasks, if_pos rfl] at hm'
    refine ⟨_, hm', fun p hp => (List.mem_filter.mp hp).1, fun _ hp => ?_⟩
    exact absurd rfl (of_decide_eq_true (List.mem_filter.mp hp).2)
  · rename_i hfalse
    obtain rfl := Option.some.inj hs
    refine ⟨S, hm, fun _ hp => hp, fun hasks _ => ?_⟩
    by_contra habs
    exact hfalse (hcond.mpr ⟨hasks, habs⟩)

/-- The cancellations take all marks back. -/
theorem cancel_restores (hc : Consistent host db.files) (hold : IsCString old)
    (hnew : IsCString new) (hrev : Revocable env host db.files old new) {a : Announced}
    {s : CallStep}
    (ha : renameAnnounce sq env leftover host.lstat olddirfd newdirfd db t old new = some a)
    (hs : renameCancel sq env leftover olddirfd newdirfd
      (bufs.fill (host.lstat new) (host.lstat old)) a old new = some s) :
    s.db.files = db.files ∧ s.db.xattrs = db.xattrs := by
  obtain ⟨S, hm, hS, hmayNew, hmayOld⟩ := announce_marked hc hold hnew hrev ha
  unfold renameCancel at hs
  obtain ⟨s₄, h₄, h₅⟩ := Option.bind_eq_some_iff.mp hs
  obtain ⟨S₄, hm₄, hsub₄, hnew₄⟩ := cancel_marked hc hnew hmayNew hrev.target hm h₄
  obtain ⟨S₅, hm₅, hsub₅, hold₅⟩ := cancel_marked hc hold hmayOld hrev.source hm₄ h₅
  have habsent : ∀ p ∈ S₅, Absent p db.files := by
    intro p hp
    rcases hS p (hsub₄ p (hsub₅ p hp)) with ⟨rfl, hasks⟩ | ⟨rfl, hasks⟩
    · exact hnew₄ hasks (hsub₅ _ hp)
    · exact hold₅ hasks hp
  exact ⟨hm₅.files.trans (markPaths_absent habsent), hm₅.xattrs⟩

end Restore

/-! ## Where something is not found, something is lost -/

section Lost
variable {sq : Sqlite} {env : ClientEnv} {leftover : Bytes} {host : HostFs} {db : Db}
  {t : FdTables} {old new path : Bytes} {olddirfd newdirfd : Int} {bufs : RenameBufs}
  {s₁ s₂ s₃ : CallStep} {r : FileRow} {buf : StatBuf}

/-- The file with a mode of another type than the row's. -/
theorem exists_other_type (r : FileRow) (buf : StatBuf) : ∃ bad : StatBuf,
    bad.dev = buf.dev ∧ bad.ino = buf.ino ∧ ∀ q : FileRow, q.mode = r.mode → ¬ q.SameType bad := by
  cases hdir : sIsdir (columnInt64 r.mode) with
  | true =>
    refine ⟨{ buf with mode := 0 }, rfl, rfl, fun q hq h => ?_⟩
    have hmode := h.1
    rw [hq, hdir] at hmode
    exact absurd hmode (by dsimp only; decide)
  | false =>
    refine ⟨{ buf with mode := 0o040000 }, rfl, rfl, fun q hq h => ?_⟩
    have hmode := h.1
    rw [hq, hdir] at hmode
    exact absurd hmode (by dsimp only; decide)

/-- The rows that are left of a path are the old one. -/
theorem rows_of_path (hc : Consistent host db.files) {t' : List FileRow}
    (ht : Descends t' db.files) (hr : r ∈ db.files) :
    ∀ q ∈ t', q.path = r.path → q.key = r.key ∧ q.mode = r.mode := by
  intro q hq hqp
  obtain ⟨q', hq', hqp', hqk, hqm⟩ := ht q hq
  obtain rfl := hc.unique r hr q' hq' (hqp.symm.trans hqp')
  exact ⟨hqk, hqm⟩

theorem not_absent {t' : List FileRow} (h : ¬ Absent path t') : ∃ q ∈ t', q.path = path := by
  unfold Absent at h
  push Not at h
  exact h

/-- A buffer that does harm: the inode of the row, and another type. -/
structure Bad (t : List FileRow) (r : FileRow) (bad : StatBuf) : Prop where
  numbered : bad.dev ≠ 0 ∧ bad.ino ≠ 0
  key : r.key = bad.key
  rows : ∀ {t'}, Descends t' t → ∀ q ∈ t', q.path = r.path → q.key = bad.key ∧ ¬ q.SameType bad

theorem exists_bad (hc : Consistent host db.files) (hr : r ∈ db.files)
    (hb : host.lstat r.path = some buf) (hdesc : r.Describes buf) :
    ∃ bad, Bad db.files r bad := by
  obtain ⟨bad, hdev, hino, htype⟩ := exists_other_type r buf
  have hkey : r.key = bad.key := by
    rw [hdesc.key, StatBuf.key, StatBuf.key, hdev, hino]
  refine ⟨bad, ⟨?_, hkey, fun ht q hq hqp => ?_⟩⟩
  · rw [hdev, hino]
    exact host.numbered hb
  · obtain ⟨hqk, hqm⟩ := rows_of_path hc ht hr q hq hqp
    exact ⟨hqk.trans hkey, htype q hqm⟩

/-- What `lstat` finds under the path of a row is the row's file, unless the types disagree. -/
theorem lstat_describes (hc : Consistent host db.files) (hr : r ∈ db.files)
    (hp : r.path = serverPath path) (hb : host.lstat path = some buf) (htype : r.SameType buf) :
    r.Describes buf := by
  obtain ⟨b, hlstat, hdesc⟩ := hc.recorded r hr
  rw [hp] at hlstat
  rcases host.trailing hb with hsame | ⟨l, hl, hlink, hnolink⟩
  · obtain rfl := Option.some.inj (hsame.symm.trans hlstat)
    exact hdesc
  · obtain rfl := Option.some.inj (hl.symm.trans hlstat)
    have hrow := hdesc.type.2
    rw [htype.2, hlink, hnolink] at hrow
    cases hrow

/-- Where a row does not fit, `lstat` has failed, unless the types disagree. -/
theorem lstat_none (hc : Consistent host db.files) (hr : r ∈ db.files)
    (hp : r.path = serverPath path) (htype : r.SameType (StatBuf.sent (host.lstat path)))
    (hno : ¬ ∃ buf, host.lstat path = some buf ∧ r.Describes buf) : host.lstat path = none := by
  cases hb : host.lstat path with
  | none => rfl
  | some buf =>
    rw [hb] at htype
    exact absurd ⟨buf, hb, lstat_describes hc hr hp hb htype⟩ hno

theorem clientCallIf_descends {cond : Bool} {db' : Db} {t' : FdTables} {o : Op} {dirfd : Int}
    {sent : Option StatBuf} {s : CallStep} (ho : o.onlyMarks = true) (hpath : IsCString path)
    (hs : clientCallIf sq env leftover cond db' t' (pathCall o dirfd path sent) = some s) :
    Descends s.db.files db'.files := by
  unfold clientCallIf at hs
  split at hs
  · exact call_descends ho hpath hs
  · obtain rfl := Option.some.inj hs
    exact Descends.refl _

theorem renameCancel_descends {a : Announced} {s : CallStep} (hold : IsCString old)
    (hnew : IsCString new)
    (hs : renameCancel sq env leftover olddirfd newdirfd bufs a old new = some s) :
    Descends s.db.files a.db.files := by
  unfold renameCancel at hs
  obtain ⟨s₄, h₄, h₅⟩ := Option.bind_eq_some_iff.mp hs
  exact (clientCallIf_descends rfl hold h₅).trans (clientCallIf_descends rfl hnew h₄)

/-- A run in which every row is still there at the end. -/
structure Kept (sq : Sqlite) (env : ClientEnv) (leftover : Bytes) (host : HostFs)
    (olddirfd newdirfd : Int) (db : Db) (t : FdTables) (old new : Bytes) (s₁ s₂ s₃ : CallStep) :
    Prop where
  announces : Announces sq env leftover host olddirfd newdirfd db t old new s₁ s₂ s₃
  returns : ∃ bufs s, renameCancel sq env leftover olddirfd newdirfd
    (RenameBufs.fill bufs (host.lstat new) (host.lstat old))
    ⟨s₃.db, s₃.tables, succeeded s₁.result, succeeded s₂.result, succeeded s₃.result⟩ old new =
      some s
  keeps : ∀ bufs s, renameCancel sq env leftover olddirfd newdirfd
    (RenameBufs.fill bufs (host.lstat new) (host.lstat old))
    ⟨s₃.db, s₃.tables, succeeded s₁.result, succeeded s₂.result, succeeded s₃.result⟩ old new =
      some s → s.db.files = db.files

section Kept
variable (hk : Kept sq env leftover host olddirfd newdirfd db t old new s₁ s₂ s₃)
  (hold : IsCString old) (hnew : IsCString new)
include hk hold hnew

theorem Kept.descends : Descends s₁.db.files db.files ∧ Descends s₂.db.files s₁.db.files ∧
    Descends s₃.db.files s₂.db.files :=
  ⟨call_descends rfl hnew hk.announces.target, call_descends rfl hold hk.announces.source,
    call_descends rfl hold hk.announces.stat⟩

/-- No path is lost on the way. -/
theorem Kept.present (hr : r ∈ db.files) : ¬ Absent r.path s₁.db.files ∧
    ¬ Absent r.path s₂.db.files ∧ ¬ Absent r.path s₃.db.files := by
  obtain ⟨bufs, s, hs⟩ := hk.returns
  obtain ⟨_, h₂, h₃⟩ := hk.descends hold hnew
  have hend : ¬ Absent r.path s.db.files := by
    rw [hk.keeps bufs s hs]
    exact fun ha => ha r hr rfl
  have hcancel := renameCancel_descends hold hnew hs
  exact ⟨fun ha => hend (hcancel.absent (h₃.absent (h₂.absent ha))),
    fun ha => hend (hcancel.absent (h₃.absent ha)), fun ha => hend (hcancel.absent ha)⟩

/-- The row of the old path has the type of what is sent about it. -/
theorem Kept.source_type (hc : Consistent host db.files) (hasks : asks env old = true)
    (hr : r ∈ db.files) (hp : r.path = serverPath old) :
    r.SameType (StatBuf.sent (host.lstat old)) := by
  by_contra htype
  refine (hk.present hold hnew hr).2.1 ?_
  rw [hp]
  refine call_removes rfl hold hk.announces.source hasks fun q hq hqp => ?_
  have hqm := (rows_of_path hc (hk.descends hold hnew).1 hr q hq (hqp.trans hp.symm)).2
  unfold FileRow.SameType at htype ⊢
  rwa [hqm]

theorem Kept.target_type (hc : Consistent host db.files) (hasks : asks env new = true)
    (hr : r ∈ db.files) (hp : r.path = serverPath new) :
    r.SameType (StatBuf.sent (host.lstat new)) := by
  by_contra htype
  refine (hk.present hold hnew hr).1 ?_
  rw [hp]
  refine call_removes rfl hnew hk.announces.target hasks fun q hq hqp => ?_
  obtain rfl := hc.unique r hr q hq (hp.trans hqp.symm)
  exact htype

/-- The buffer of the old path, where its row is found: garbage would be sent otherwise. -/
theorem Kept.source_fits (hc : Consistent host db.files) (hasks : asks env old = true) :
    host.Fits db.files old := by
  intro r hr hp
  by_contra hno
  have hnone := lstat_none hc hr hp (hk.source_type hold hnew hc hasks hr hp) hno
  obtain ⟨b, hb, hdesc⟩ := hc.recorded r hr
  obtain ⟨bad, hbad⟩ := exists_bad hc hr hb hdesc
  obtain ⟨h₁₀, h₂₁, h₃₂⟩ := hk.descends hold hnew
  have hpresent := (hk.present hold hnew hr).2.1
  rw [hp] at hpresent
  have hmay : succeeded s₂.result = true :=
    (call_mayUnlink_result hold hk.announces.source).mpr ⟨hasks, hpresent⟩
  obtain ⟨bufs, s, hs⟩ := hk.returns
  have hkept := hk.keeps bufs s hs
  unfold renameCancel at hs
  obtain ⟨s₄, h₄, h₅⟩ := Option.bind_eq_some_iff.mp hs
  have hrows := hbad.rows (((clientCallIf_descends rfl hnew h₄).trans h₃₂).trans (h₂₁.trans h₁₀))
  rw [hp] at hrows
  have hthere : ¬ Absent (serverPath old) s₄.db.files := by
    intro habs
    have hend := (clientCallIf_descends rfl hold h₅).absent habs
    rw [hkept] at hend
    exact hend r hr hp
  obtain ⟨q, hq, hqp⟩ := not_absent hthere
  -- another run, with a buffer of the wrong type
  obtain ⟨s₅, hs₅⟩ := call_recorded (o := .cancelUnlink) rfl hold hbad.numbered hq hqp
    (hrows q hq hqp).1
  have hrun : renameCancel sq env leftover olddirfd newdirfd
      (RenameBufs.fill ⟨bufs.newbuf, bad⟩ (host.lstat new) (host.lstat old))
      ⟨s₃.db, s₃.tables, succeeded s₁.result, succeeded s₂.result, succeeded s₃.result⟩ old new =
        some s₅ := by
    unfold renameCancel
    refine Option.bind_eq_some_iff.mpr ⟨s₄, h₄, ?_⟩
    dsimp only
    rw [clientCallIf, if_pos hmay, RenameBufs.fill, hnone]
    exact hs₅
  have hgone : Absent (serverPath old) s₅.db.files :=
    call_removes rfl hold hs₅ hasks fun q hq hqp => (hrows q hq hqp).2
  rw [hk.keeps _ _ hrun] at hgone
  exact hgone r hr hp

/-- What is sent when the mark of the old path is taken back, if `lstat` finds nothing there
with its own buffer as garbage: the file of the row. -/
theorem Kept.source_buf (hc : Consistent host db.files) (hmay : succeeded s₂.result = true) :
    ∃ buf, ∃ r ∈ db.files, r.path = serverPath old ∧ r.key = buf.key ∧
      (buf.dev ≠ 0 ∧ buf.ino ≠ 0) ∧ (host.lstat old).getD buf = buf := by
  obtain ⟨hasks, hthere⟩ := (call_mayUnlink_result hold hk.announces.source).mp hmay
  obtain ⟨h₁₀, h₂₁, _⟩ := hk.descends hold hnew
  obtain ⟨r, hr, hp⟩ := not_absent fun habs => hthere ((h₂₁.trans h₁₀).absent habs)
  cases hb : host.lstat old with
  | none =>
    obtain ⟨b, hb, hdesc⟩ := hc.recorded r hr
    exact ⟨b, r, hr, hp, hdesc.key, host.numbered hb, rfl⟩
  | some b =>
    have htype := hk.source_type hold hnew hc hasks hr hp
    rw [hb] at htype
    exact ⟨b, r, hr, hp, (lstat_describes hc hr hp hb htype).key, host.numbered hb, rfl⟩

/-- Once the row of the new path has gone with its inode, the mark of the old path can still be
taken back: its row is there, or none of its inode. -/
theorem Kept.source_cancels (hc : Consistent host db.files) (hr : r ∈ db.files)
    (hp : r.path = serverPath new) {s₄ : CallStep}
    (hforgets : ∀ q ∈ s₄.db.files, q.key ≠ r.key)
    (hothers : ∀ q ∈ s₃.db.files, q.path ≠ serverPath new → q.key ≠ r.key →
      ∃ q' ∈ s₄.db.files, q'.path = q.path ∧ q'.key = q.key) :
    ∃ garbage s₅, clientCallIf sq env leftover (succeeded s₂.result) s₄.db s₄.tables
      (pathCall .cancelUnlink olddirfd old (some ((host.lstat old).getD garbage))) = some s₅ := by
  unfold clientCallIf
  split
  · rename_i hmay
    obtain ⟨buf, ro, hro, hrop, hrok, hnum, hget⟩ := hk.source_buf hold hnew hc hmay
    refine ⟨buf, ?_⟩
    rw [hget]
    rcases Classical.em (buf.key = r.key) with hsame | hother
    · exact call_unknown rfl hold fun q hq hqk => hforgets q hq (hqk.trans hsame)
    · obtain ⟨h₁₀, h₂₁, h₃₂⟩ := hk.descends hold hnew
      obtain ⟨q, hq, hqp⟩ := not_absent (hk.present hold hnew hro).2.2
      have hqk := (rows_of_path hc ((h₃₂.trans h₂₁).trans h₁₀) hro q hq hqp).1.trans hrok
      have hne : q.path ≠ serverPath new := by
        intro hqn
        obtain rfl := hc.unique r hr ro hro (hp.trans (hqn.symm.trans hqp))
        exact hother hrok.symm
      obtain ⟨q', hq', hp', hk'⟩ := hothers q hq hne fun hqb => hother (hqk.symm.trans hqb)
      exact call_recorded rfl hold hnum hq' (hp'.trans (hqp.trans hrop)) (hk'.trans hqk)
  · exact ⟨StatBuf.sent none, _, rfl⟩

/-- The buffer of the new path, where its row is found. -/
theorem Kept.target_fits (hc : Consistent host db.files) (hasks : asks env new = true) :
    host.Fits db.files new := by
  intro r hr hp
  by_contra hno
  have hnone := lstat_none hc hr hp (hk.target_type hold hnew hc hasks hr hp) hno
  obtain ⟨b, hb, hdesc⟩ := hc.recorded r hr
  obtain ⟨bad, hbad⟩ := exists_bad hc hr hb hdesc
  obtain ⟨h₁₀, h₂₁, h₃₂⟩ := hk.descends hold hnew
  obtain ⟨hthere₁, _, hthere₃⟩ := hk.present hold hnew hr
  rw [hp] at hthere₁ hthere₃
  have hmay : succeeded s₁.result = true :=
    (call_mayUnlink_result hnew hk.announces.target).mpr ⟨hasks, hthere₁⟩
  have hrows := hbad.rows ((h₃₂.trans h₂₁).trans h₁₀)
  rw [hp] at hrows
  obtain ⟨q, hq, hqp⟩ := not_absent hthere₃
  -- a run with a buffer of the wrong type: the row goes, and with it all rows of its inode
  obtain ⟨s₄, hs₄⟩ := call_recorded (o := .cancelUnlink) rfl hnew hbad.numbered hq hqp
    (hrows q hq hqp).1
  have hgone : Absent (serverPath new) s₄.db.files :=
    call_removes rfl hnew hs₄ hasks fun q hq hqp => (hrows q hq hqp).2
  obtain ⟨hforgets, hothers⟩ := call_forgets rfl hnew hasks hbad.numbered hq hqp (hrows q hq hqp).1
    (fun q hq hqp => (hrows q hq hqp).2) hs₄
  rw [← hbad.key] at hforgets hothers
  obtain ⟨garbage, s₅, hs₅⟩ := hk.source_cancels hold hnew hc hr hp hforgets hothers
  have hrun : renameCancel sq env leftover olddirfd newdirfd
      (RenameBufs.fill ⟨bad, garbage⟩ (host.lstat new) (host.lstat old))
      ⟨s₃.db, s₃.tables, succeeded s₁.result, succeeded s₂.result, succeeded s₃.result⟩ old new =
        some s₅ := by
    unfold renameCancel
    refine Option.bind_eq_some_iff.mpr ⟨s₄, ?_, hs₅⟩
    dsimp only
    rw [clientCallIf, if_pos hmay, RenameBufs.fill, hnone]
    exact hs₄
  have hend := (clientCallIf_descends rfl hold hs₅).absent hgone
  rw [hk.keeps _ _ hrun] at hend
  exact hend r hr hp

/-- The row of the new path is found for the inode of the old one: only its rows are marked. -/
theorem Kept.source_hits (hc : Consistent host db.files) (hasksNew : asks env new = true)
    (habs : Absent (serverPath old) db.files) (hr : r ∈ db.files)
    (hp : r.path = serverPath new) {m : PseudoMsg} (h : Tells .mayUnlink old buf (request m))
    (hlive : aborts (request m) (lookup sq s₁.db (request m)) = false)
    (hnum : buf.dev ≠ 0 ∧ buf.ino ≠ 0) (hkey : r.key = buf.key) :
    ∃ q ∈ s₁.db.files, (hits sq s₁.db.files (request m)).ino = some q ∧ q.path = r.path ∧
      (lookup sq s₁.db (request m)).msg.key = buf.key := by
  obtain ⟨h₁₀, _, _⟩ := hk.descends hold hnew
  have hfree : ∀ q ∈ s₁.db.files, q.path ≠ (request m).path := by
    rw [h.path]
    exact h₁₀.absent habs
  have hst : ¬ (lookup sq s₁.db (request m)).Stale := by
    rintro ⟨hyes, _⟩
    rw [lookup_foundPath h.proper, Option.isSome_iff_exists] at hyes
    obtain ⟨q, hq⟩ := hyes
    obtain ⟨hmem, _, hqp⟩ := hits_path hq
    exact hfree q hmem hqp
  have hfi : (lookup sq s₁.db (request m)).foundIno = true := by
    obtain ⟨q, hq, hqp⟩ := not_absent (hk.present hold hnew hr).1
    have hqk := (rows_of_path hc h₁₀ hr q hq hqp).1
    refine Bool.of_not_eq_false fun hno => ?_
    refine lookup_no_ino ?_ ?_ hst hno q hq ((hqk.trans hkey).trans h.key.symm)
    · rw [h.msg, h.dev]
      exact hnum.1
    · rw [h.msg, h.ino]
      exact hnum.2
  rw [lookup_foundIno h.proper, Option.isSome_iff_exists] at hfi
  obtain ⟨q, hq⟩ := hfi
  obtain ⟨hmem, _⟩ := hits_ino hq
  refine ⟨q, hmem, hq, ?_, ?_⟩
  · by_contra hne
    obtain ⟨q₀, hq₀, hqp₀, _⟩ := h₁₀ q hmem
    have hnamed : q.path ≠ namelessFile := by
      rw [hqp₀]
      exact recorded_named hc hq₀
    refine marked_of_hit h rfl hlive hq (by rw [← h.path]; exact hfree q hmem) hnamed ?_
    rcases pathCall_cases rfl hnew hk.announces.target with ⟨hno, _⟩ | ⟨_, m', h', _, hlive', hs⟩
    · rw [hasksNew] at hno
      cases hno
    rw [hs, pseudoOp, handle_files h' rfl hlive'] at hmem
    obtain ⟨q', hq', rfl⟩ := mem_update.mp hmem
    have hno : ¬ atPath (serverPath new) q' = true := by
      intro hyes
      rw [if_pos hyes] at hne
      exact hne ((remark_path.trans (atPath_iff.mp hyes)).trans hp.symm)
    rw [if_neg hno]
    exact hc.unmarked q' (mem_of_mem_checked hq')
  · rw [lookup_msg h.msg hst]
    exact h.key

/-- The row of the new path is not taken for another file. -/
theorem Kept.apart (hc : Consistent host db.files) (hasksNew : asks env new = true)
    (hasksOld : asks env old = true) : host.Apart db.files old new := by
  intro habs r hr hp buf hb hkey
  by_contra htype
  obtain ⟨h₁₀, _, _⟩ := hk.descends hold hnew
  rcases pathCall_cases rfl hold hk.announces.source with ⟨hno, _⟩ | ⟨_, m, h, _, hlive, rfl⟩
  · rw [hasksOld] at hno
    cases hno
  rw [hb] at h
  obtain ⟨q, hmem, hq, hqp, hmsg⟩ := hk.source_hits hold hnew hc hasksNew habs hr hp h hlive
    (host.numbered hb) hkey
  have hrow := rows_of_path hc h₁₀ hr
  have hqtype : ¬ q.SameType buf := by
    unfold FileRow.SameType at htype ⊢
    rwa [(hrow q hmem hqp).2]
  -- its rows go with their inode
  have hgone := mismatch_removes_inode h rfl hlive hq hqtype hmsg
  refine (hk.present hold hnew hr).2.1 fun s hs hsp => ?_
  obtain ⟨q', hq', hqp', hqk', _⟩ := handle_descends_db h rfl hlive s hs
  refine hgone s hs ?_
  rw [hqk', (hrow q' hq' (hqp'.symm.trans hsp)).1, hkey]
  rfl

end Kept

end Lost

/-! ## The whole call -/

section Whole
variable {sq : Sqlite} {env : ClientEnv} {leftover : Bytes} {host : HostFs} {real : HostCall}
  {db : Db} {t : FdTables} {old new : Bytes} {olddirfd newdirfd : Int} {bufs : RenameBufs}

/-- What a call about two different files comes to when the host refuses. -/
theorem renamePaths_failed (hfail : real.rc = -1)
    (hdiff : sameFile (host.lstat new) (host.lstat old) = false) :
    renamePaths sq env leftover host.lstat olddirfd newdirfd real db t (some old) (some new) bufs =
      (renameAnnounce sq env leftover host.lstat olddirfd newdirfd db t old new).bind fun a =>
        (renameCancel sq env leftover olddirfd newdirfd
          (bufs.fill (host.lstat new) (host.lstat old)) a old new).map
          fun s => ⟨s.db, s.tables, real.rc, real.errno⟩ := by
  unfold renamePaths
  dsimp only
  rw [if_neg (by rw [hdiff]; simp)]
  simp only [hfail, if_true]

theorem renamePaths_same (hsame : sameFile (host.lstat new) (host.lstat old) = true) :
    renamePaths sq env leftover host.lstat olddirfd newdirfd real db t (some old) (some new) bufs =
      some ⟨db, t, real.rc, real.errno⟩ := by
  unfold renamePaths
  dsimp only
  rw [if_pos hsame]

theorem revocable_of_restores (hc : Consistent host db.files) (hold : IsCString old)
    (hnew : IsCString new) (hfail : real.rc = -1)
    (hdiff : sameFile (host.lstat new) (host.lstat old) = false)
    (hreturns : ComesBack (renamePaths sq env leftover host.lstat olddirfd newdirfd real db t
      (some old) (some new)))
    (hrestores : Restores db (renamePaths sq env leftover host.lstat olddirfd newdirfd real db t
      (some old) (some new))) : Revocable env host db.files old new := by
  obtain ⟨bufs, s, hs⟩ := hreturns
  rw [renamePaths_failed hfail hdiff] at hs
  obtain ⟨a, ha, hs⟩ := Option.bind_eq_some_iff.mp hs
  obtain ⟨s', hs', _⟩ := Option.map_eq_some_iff.mp hs
  obtain ⟨s₁, s₂, s₃, hannounces, rfl⟩ := renameAnnounce_some ha
  have hk : Kept sq env leftover host olddirfd newdirfd db t old new s₁ s₂ s₃ := by
    refine ⟨hannounces, ⟨bufs, s', hs'⟩, fun bufs' s'' hs'' => ?_⟩
    refine (hrestores bufs' ⟨s''.db, s''.tables, real.rc, real.errno⟩ ?_ hfail).1
    rw [renamePaths_failed hfail hdiff, ha, Option.bind_some, hs'']
    rfl
  exact ⟨hk.target_fits hold hnew hc, hk.source_fits hold hnew hc, hk.apart hold hnew hc⟩

/-- The tables are as before exactly when the marks can be taken back, if the call returns. -/
theorem renamePaths_restores_iff {oldpath newpath : Option Bytes} (hc : Consistent host db.files)
    (hold : ∀ old, oldpath = some old → IsCString old)
    (hnew : ∀ new, newpath = some new → IsCString new) (hfail : real.rc = -1) :
    Restores db (renamePaths sq env leftover host.lstat olddirfd newdirfd real db t oldpath
        newpath) ↔
      (ComesBack (renamePaths sq env leftover host.lstat olddirfd newdirfd real db t oldpath
        newpath) → Revoked env host db.files oldpath newpath) := by
  constructor
  · rintro hrestores hreturns old rfl new rfl
    cases hsame : sameFile (host.lstat new) (host.lstat old) with
    | true => exact Or.inl rfl
    | false =>
      exact Or.inr (revocable_of_restores hc (hold old rfl) (hnew new rfl) hfail hsame hreturns
        hrestores)
  · intro hrevoked bufs s hs _
    have hgood := hrevoked ⟨bufs, s, hs⟩
    cases oldpath with
    | none =>
      obtain rfl := Option.some.inj hs
      exact ⟨rfl, rfl⟩
    | some old =>
      cases newpath with
      | none =>
        obtain rfl := Option.some.inj hs
        exact ⟨rfl, rfl⟩
      | some new =>
        cases hsame : sameFile (host.lstat new) (host.lstat old) with
        | true =>
          rw [renamePaths_same hsame] at hs
          obtain rfl := Option.some.inj hs
          exact ⟨rfl, rfl⟩
        | false =>
          have hrev := (hgood old rfl new rfl).resolve_left (by rw [hsame]; simp)
          rw [renamePaths_failed hfail hsame] at hs
          obtain ⟨a, ha, hs⟩ := Option.bind_eq_some_iff.mp hs
          obtain ⟨s', hs', rfl⟩ := Option.map_eq_some_iff.mp hs
          exact cancel_restores hc (hold old rfl) (hnew new rfl) hrev ha hs'

end Whole

end FailedRenameLemmas

open FailedRenameLemmas

/-- A rename that the host refuses leaves both tables as they were, whatever was on the stack,
exactly when the call does not come back or `lstat` finds the files of the rows that are marked
for the two paths. -/
theorem failedRename_restores_iff (sq : Sqlite) (env : ClientEnv) (leftover : Bytes)
    (host : HostFs) (olddirfd newdirfd : Int) (real : HostCall) (db : Db) (t : FdTables)
    (oldpath newpath : Option Bytes) (hc : Consistent host db.files)
    (hold : ∀ old, oldpath = some old → IsCString old)
    (hnew : ∀ new, newpath = some new → IsCString new) (hfail : real.rc = -1) :
    (Restores db (wrapRename sq env leftover host.lstat real db t oldpath newpath) ↔
      (ComesBack (wrapRename sq env leftover host.lstat real db t oldpath newpath) →
        Revoked env host db.files oldpath newpath)) ∧
    (Restores db
        (wrapRenameat sq env leftover host.lstat olddirfd newdirfd real db t oldpath newpath) ↔
      (ComesBack
          (wrapRenameat sq env leftover host.lstat olddirfd newdirfd real db t oldpath newpath) →
        Revoked env host db.files oldpath newpath)) :=
  ⟨renamePaths_restores_iff hc hold hnew hfail, renamePaths_restores_iff hc hold hnew hfail⟩

/-! ## Concrete calls -/

/-- Two regular files, `/a` and `/f`. -/
def exTwoFiles : HostFs where
  lstat path :=
    if path = ascii ['/', 'a'] then some exBuf
    else if path = ascii ['/', 'f'] then some { exBuf with ino := 6 }
    else none
  absolute := by
    intro p b h
    split at h
    · rename_i hp
      rw [hp]
      rfl
    · split at h
      · rename_i hp
        rw [hp]
        rfl
      · cases h
  numbered := by
    intro p b h
    split at h
    · obtain rfl := Option.some.inj h
      decide
    · split at h
      · obtain rfl := Option.some.inj h
        decide
      · cases h
  trailing := by
    intro p b h
    split at h
    · rename_i hp
      rw [hp]
      exact Or.inl h
    · split at h
      · rename_i hp
        rw [hp]
        exact Or.inl h
      · cases h

/-- Both are recorded. -/
def exRecorded : Db where
  files := [exRow (ascii ['/', 'a']) 5, exRow (ascii ['/', 'f']) 6]
  xattrs := []
  oldmsg := ⟨0, []⟩

theorem exRecorded_consistent : Consistent exTwoFiles exRecorded.files := by
  refine ⟨fun r hr => ?_, by decide, by decide⟩
  rcases List.mem_pair.mp hr with rfl | rfl
  · exact ⟨exBuf, rfl, by decide, by decide⟩
  · exact ⟨{ exBuf with ino := 6 }, rfl, by decide, by decide⟩

/-- `rename("/a", "/f")`, refused with `EPERM`. -/
theorem failedRename_restores_regular : Restores exRecorded
    (wrapRename Sqlite.inOrder exEnv [] exTwoFiles.lstat ⟨-1, 1⟩ exRecorded ⟨[], []⟩
      (some (ascii ['/', 'a'])) (some (ascii ['/', 'f']))) := by
  refine (failedRename_restores_iff Sqlite.inOrder exEnv [] exTwoFiles (-1) (-1) ⟨-1, 1⟩ exRecorded
    ⟨[], []⟩ _ _ exRecorded_consistent ?_ ?_ rfl).1.mpr fun _ => ?_
  · rintro old ⟨⟩
    decide
  · rintro new ⟨⟩
    decide
  · rintro old ⟨⟩ new ⟨⟩
    refine Or.inr ⟨fun _ r hr hp => ?_, fun _ r hr hp => ?_, fun _ _ habs => ?_⟩
    · rcases List.mem_pair.mp hr with rfl | rfl
      · exact absurd hp (by decide)
      · exact ⟨{ exBuf with ino := 6 }, rfl, by decide, by decide⟩
    · rcases List.mem_pair.mp hr with rfl | rfl
      · exact ⟨exBuf, rfl, by decide, by decide⟩
      · exact absurd hp (by decide)
    · exact absurd rfl (habs (exRow (ascii ['/', 'a']) 5) (by decide))

/-- `rename("/a", "/f/")`, refused with `ENOTDIR`: `lstat("/f/")` has failed, the row of `/f` was
marked, and the buffer that nobody has written holds the mode of a directory. -/
theorem failedRename_loses_target :
    Consistent exTwoFiles exRecorded.files ∧
    (∀ path buf, exTwoFiles.lstat path = some buf → (∃ r ∈ exRecorded.files, r.key = buf.key) →
      ∃ r ∈ exRecorded.files, r.path = path) ∧
    ∃ s, wrapRename Sqlite.inOrder exEnv [] exTwoFiles.lstat ⟨-1, 20⟩ exRecorded ⟨[], []⟩
        (some (ascii ['/', 'a'])) (some (ascii ['/', 'f', '/']))
        ⟨{ exBuf with mode := 0o040755 }, exBuf⟩ = some s ∧
      s.rc = -1 ∧ s.db.files = [exRow (ascii ['/', 'a']) 5] ∧
      ¬ Restores exRecorded (wrapRename Sqlite.inOrder exEnv [] exTwoFiles.lstat ⟨-1, 20⟩ exRecorded
        ⟨[], []⟩ (some (ascii ['/', 'a'])) (some (ascii ['/', 'f', '/']))) := by
  have hrun : ∃ s, wrapRename Sqlite.inOrder exEnv [] exTwoFiles.lstat ⟨-1, 20⟩ exRecorded ⟨[], []⟩
        (some (ascii ['/', 'a'])) (some (ascii ['/', 'f', '/']))
        ⟨{ exBuf with mode := 0o040755 }, exBuf⟩ = some s ∧
      s.rc = -1 ∧ s.db.files = [exRow (ascii ['/', 'a']) 5] :=
    ⟨⟨{ exRecorded with files := [exRow (ascii ['/', 'a']) 5] }, ⟨[], []⟩, -1, 20⟩, by decide, rfl,
      rfl⟩
  refine ⟨exRecorded_consistent, fun path buf hb _ => ?_, ?_⟩
  · have hb : (if path = ascii ['/', 'a'] then some exBuf
        else if path = ascii ['/', 'f'] then some { exBuf with ino := 6 } else none) =
        some buf := hb
    split at hb
    · rename_i hp
      exact ⟨exRow (ascii ['/', 'a']) 5, by decide, hp.symm⟩
    · split at hb
      · rename_i hp
        exact ⟨exRow (ascii ['/', 'f']) 6, by decide, hp.symm⟩
      · cases hb
  · obtain ⟨s, hs, hrc, hfiles⟩ := hrun
    refine ⟨s, hs, hrc, hfiles, fun hrestores => ?_⟩
    have hsame := (hrestores _ s hs hrc).1
    rw [hfiles] at hsame
    exact absurd hsame (by decide)

end Pseudo
