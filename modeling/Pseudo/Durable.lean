import Pseudo.OneServer

/-!
# What is in the file

A server reads the file when it enters its loop, and has the database to itself from then on. The
file follows at every tenth idle timeout, when a shutdown is refused, and at the end; a killed
server leaves it as it was at the last copy.

Results:
1. `disk_serial`: in every run, the file is what the servers make of it one after the other, each by
   all its messages up to some point; a server that ended by itself left none of them out.
-/

namespace Pseudo

/-! ## 1. What the servers did -/

/-- A message changes the database. -/
def Handled.apply (db : Db) (r : Handled) : Db := (pseudoOp r.sq db r.msg).db

/-- A server, from its loop on: the messages in the last copy, and those since. -/
structure Session where
  pid : Pid
  oldmsg : OldMsg
  saved : List Handled
  since : List Handled

/-- What the server makes of the tables, by some of its messages. -/
def Session.load (x : Session) (d : Tables) (rs : List Handled) : Db :=
  rs.foldl Handled.apply ⟨d.files, d.xattrs, x.oldmsg⟩

/-- What is in the file once the server was there. -/
def Session.leave (d : Tables) (x : Session) : Tables := (x.load d x.saved).tables

def leaveAll (d : Tables) (xs : List Session) : Tables := xs.foldl Session.leave d

/-- The server that copies its database in this step. -/
def World.copies (w : World) : WorldEvent → Option Pid
  | .refuse p | .exit p => some p
  | .idle p =>
    match w.pc p with
    | some (.loop s) => if (s.occasional + 1) % 10 = 0 then some p else none
    | _ => none
  | _ => none

/-- The server that handles a message in this step. -/
def World.handles (w : World) : WorldEvent → Option (Pid × Handled)
  | .handle c r => (w.server? c).map fun p => (p, r)
  | _ => none

def Session.note (w : World) (e : WorldEvent) (x : Session) : Session :=
  match w.handles e with
  | some (p, r) => if p = x.pid then { x with since := x.since ++ [r] } else x
  | none =>
    if w.copies e = some x.pid then { x with saved := x.saved ++ x.since, since := [] } else x

def noteAll (w : World) (e : WorldEvent) (xs : List Session) : List Session :=
  match e with
  | .enter p oldmsg => xs ++ [⟨p, oldmsg, [], []⟩]
  | e => xs.map (Session.note w e)

/-- The servers of a run, in the order in which they entered their loops. -/
def sessions (disk : Tables) (es : List WorldEvent) : List Session :=
  Refine.along World.step noteAll (.start disk) [] es

/-! ## 2. The invariant -/

def Proc.serving : Option Proc → Option Serving
  | some (.server _ pc) => pc.serving
  | _ => none

/-- The process is in its loop, or past it. -/
def Proc.entered : Option Proc → Bool
  | some (.server _ pc) => pc.serving.isSome
  | some (.ended _) => true
  | _ => false

/-- The database of a server is the file as it was, and all its messages. -/
structure Behind (w : World) (x : Session) (past : Tables) (s : Serving) : Prop where
  db : s.db = x.load past (x.saved ++ x.since)
  clean : s.dirty = false → w.disk = s.db.tables

structure Serial (d : Tables) (w : World) (xs : List Session) : Prop where
  disk : w.disk = leaveAll d xs
  once : (xs.map Session.pid).Nodup
  entered : ∀ x ∈ xs, Proc.entered (w.procs x.pid) = true
  serving : ∀ p s, Proc.serving (w.procs p) = some s →
    ∃ past x, xs = past ++ [x] ∧ x.pid = p ∧ Behind w x (leaveAll d past) s
  complete : ∀ x ∈ xs, w.procs x.pid = some (.ended .success) → x.since = []

open OneServerLemmas

namespace DurableLemmas

variable {w w' : World} {p q : Pid} {d : Tables} {xs past : List Session} {x y : Session}
  {e : WorldEvent} {s t : Serving} {parent : Option Pid} {pc : ServerPc}

/-! ## 3. Sessions -/

theorem leaveAll_append : leaveAll d (xs ++ [x]) = Session.leave (leaveAll d xs) x := by
  unfold leaveAll
  rw [List.foldl_append]
  rfl

theorem load_append {rs rs' : List Handled} {past : Tables} :
    x.load past (rs ++ rs') = rs'.foldl Handled.apply (x.load past rs) := List.foldl_append

/-- Messages that are not in the copy do not show in the file. -/
theorem leaveAll_map {f : Session → Session} (h : ∀ y ∈ xs, ∀ d, (f y).leave d = y.leave d) :
    leaveAll d (xs.map f) = leaveAll d xs := by
  induction xs generalizing d with
  | nil => rfl
  | cons y ys ih =>
    obtain ⟨hy, hys⟩ := List.forall_mem_cons.mp h
    unfold leaveAll at ih ⊢
    rw [List.map_cons, List.foldl_cons, List.foldl_cons, hy d]
    exact ih hys

theorem note_pid : (x.note w e).pid = x.pid := by
  unfold Session.note
  split
  · split <;> rfl
  · split <;> rfl

theorem note_pids : (xs.map (Session.note w e)).map Session.pid = xs.map Session.pid := by
  rw [List.map_map]
  exact List.map_congr_left fun y _ => note_pid

/-- A step of another server. -/
theorem note_other (hh : ∀ r, w.handles e ≠ some (y.pid, r)) (hc : w.copies e ≠ some y.pid) :
    y.note w e = y := by
  unfold Session.note
  split
  · next p r he =>
    refine if_neg fun hp => hh r ?_
    rw [he, hp]
  · exact if_neg hc

/-- A step that neither handles a message nor copies. -/
theorem note_same (hh : w.handles e = none) (hc : w.copies e = none) :
    xs.map (Session.note w e) = xs := by
  refine (List.map_congr_left fun y _ => ?_).trans (List.map_id xs)
  exact note_other (by simp [hh]) (by simp [hc])

/-- A step of the last server. -/
theorem note_last (hn : ((past ++ [x]).map Session.pid).Nodup)
    (hh : ∀ q r, w.handles e = some (q, r) → q = x.pid)
    (hc : ∀ q, w.copies e = some q → q = x.pid) :
    (past ++ [x]).map (Session.note w e) = past ++ [x.note w e] := by
  rw [List.map_append, List.map_cons, List.map_nil]
  refine congrArg (· ++ _) ?_
  refine (List.map_congr_left fun y hy => ?_).trans (List.map_id past)
  have hne : y.pid ≠ x.pid := by
    intro he
    rw [List.map_append, List.nodup_append] at hn
    exact hn.2.2 _ (List.mem_map_of_mem hy) x.pid (List.mem_singleton.mpr rfl) he
  exact note_other (fun r he => hne (hh _ r he)) fun he => hne (hc _ he)

/-! ## 4. The copy -/

theorem backup_db {disk : Tables} : (pdbBackup s disk).1.db = s.db := by
  unfold pdbBackup
  split <;> rfl

/-- The file is the database afterwards, also where nothing is written. -/
theorem backup_disk {disk : Tables} (h : s.dirty = false → disk = s.db.tables) :
    (pdbBackup s disk).2 = s.db.tables := by
  unfold pdbBackup
  split
  · rfl
  · next hclean => exact h (Bool.eq_false_iff.mpr hclean)

theorem handle_behind {r : Handled} {past : Tables} (h : Behind w x past s)
    (hdisk : w'.disk = w.disk) :
    Behind w' { x with since := x.since ++ [r] } past (s.handle r) where
  db := by
    have hdb : (s.handle r).db = Handled.apply s.db r := rfl
    have happend : x.load past (x.saved ++ x.since ++ [r]) = _ := load_append
    rw [hdb, h.db, ← List.append_assoc]
    exact happend.symm
  clean hclean := by
    have hc : (s.dirty || opDirty r.sq s.db r.msg) = false := hclean
    rw [Bool.or_eq_false_iff] at hc
    have hdb : (s.handle r).db = s.db := handle_clean hc.2
    rw [hdisk, hdb]
    exact h.clean hc.1

/-! ## 5. One step -/

theorem serving_locks (hok : WorldOk w) (hs : Proc.serving (w.procs p) = some s) :
    w.lock = some p := by
  refine (hok.lock p).mpr ?_
  cases hproc : w.procs p with
  | none =>
    rw [hproc] at hs
    cases hs
  | some proc =>
    rw [hproc] at hs
    cases proc with
    | server parent pc => cases pc <;> first | (simp [Proc.hold, ServerPc.hold]; done) | cases hs
    | _ => cases hs

theorem serving_alone (hok : WorldOk w) (hp : w.lock = some p)
    (hq : Proc.serving (w.procs q) = some t) : q = p :=
  Option.some.inj ((serving_locks hok hq).symm.trans hp)

/-- Nothing changes for those that are in their loops or past them. -/
theorem serial_frame (h : Serial d w xs) (hdisk : w'.disk = w.disk)
    (hentered : ∀ q, Proc.entered (w.procs q) = true → Proc.entered (w'.procs q) = true)
    (hserving : ∀ q s, Proc.serving (w'.procs q) = some s → Proc.serving (w.procs q) = some s)
    (hended : ∀ q, Proc.entered (w.procs q) = true → w'.procs q = some (.ended .success) →
      w.procs q = some (.ended .success)) : Serial d w' xs where
  disk := hdisk.trans h.disk
  once := h.once
  entered x hx := hentered _ (h.entered x hx)
  serving p s hs := by
    obtain ⟨past, x, hxs, hpid, hbehind⟩ := h.serving p s (hserving p s hs)
    refine ⟨past, x, hxs, hpid, hbehind.db, fun hclean => ?_⟩
    rw [hdisk]
    exact hbehind.clean hclean
  complete x hx he := h.complete x hx (hended _ (h.entered x hx) he)

/-- A process that is not in its loop changes. -/
theorem serial_aside (h : Serial d w xs) (hp : Proc.entered (w.procs p) = false)
    (hdisk : w'.disk = w.disk) (hothers : ∀ q, q ≠ p → w'.procs q = w.procs q)
    (hnew : Proc.serving (w'.procs p) = none) : Serial d w' xs := by
  have hne : ∀ q, Proc.entered (w.procs q) = true → q ≠ p := by
    rintro q hq rfl
    rw [hp] at hq
    cases hq
  refine serial_frame h hdisk (fun q hq => ?_) (fun q s hs => ?_) fun q hq he => ?_
  · rw [hothers q (hne q hq)]
    exact hq
  · rcases Decidable.em (q = p) with rfl | hqp
    · rw [hnew] at hs
      cases hs
    · rw [← hothers q hqp]
      exact hs
  · rw [← hothers q (hne q hq)]
    exact he

/-- The server that has the database goes on. -/
theorem serial_last (hok : WorldOk w) (h : Serial d w (past ++ [x]))
    (hs : Proc.serving (w.procs x.pid) = some s) (hpid : y.pid = x.pid)
    (hothers : ∀ q, q ≠ x.pid → w'.procs q = w.procs q)
    (hentered : Proc.entered (w'.procs x.pid) = true)
    (hdisk : w'.disk = y.leave (leaveAll d past))
    (hserving : ∀ t, Proc.serving (w'.procs x.pid) = some t → Behind w' y (leaveAll d past) t)
    (hended : w'.procs x.pid = some (.ended .success) → y.since = []) :
    Serial d w' (past ++ [y]) where
  disk := hdisk.trans leaveAll_append.symm
  once := by
    have hpids : (past ++ [y]).map Session.pid = (past ++ [x]).map Session.pid := by
      rw [List.map_append, List.map_append, List.map_singleton, List.map_singleton, hpid]
    rw [hpids]
    exact h.once
  entered z hz := by
    rcases Decidable.em (z.pid = x.pid) with he | hne
    · rw [he]
      exact hentered
    · rw [hothers _ hne]
      rcases List.mem_append.mp hz with hz | hz
      · exact h.entered z (List.mem_append_left _ hz)
      · rw [List.mem_singleton.mp hz] at hne
        exact absurd hpid hne
  serving q t ht := by
    rcases Decidable.em (q = x.pid) with rfl | hne
    · exact ⟨past, y, rfl, hpid, hserving t ht⟩
    · rw [hothers q hne] at ht
      exact absurd (serving_alone hok (serving_locks hok hs) ht) hne
  complete z hz he := by
    rcases List.mem_append.mp hz with hz' | hz'
    · have hne : z.pid ≠ x.pid := by
        intro heq
        have hn := h.once
        rw [List.map_append, List.nodup_append] at hn
        exact hn.2.2 _ (List.mem_map_of_mem hz') x.pid (List.mem_singleton.mpr rfl) heq
      rw [hothers _ hne] at he
      exact h.complete z (List.mem_append_left _ hz') he
    · rw [List.mem_singleton.mp hz'] at he ⊢
      rw [hpid] at he
      exact hended he

theorem serial_handle {c : Pid} {r : Handled} (hok : WorldOk w) (h : Serial d w xs)
    (hc : w.server? c = some p) (hs : Proc.serving (w.procs p) = some s)
    (hdisk : w'.disk = w.disk) (hothers : ∀ q, q ≠ p → w'.procs q = w.procs q)
    (hnew : Proc.serving (w'.procs p) = some (s.handle r))
    (hentered : Proc.entered (w'.procs p) = true)
    (hended : w'.procs p ≠ some (.ended .success)) :
    Serial d w' (xs.map (Session.note w (.handle c r))) := by
  obtain ⟨past, x, rfl, rfl, hbehind⟩ := h.serving p s hs
  have hh : w.handles (.handle c r) = some (x.pid, r) := by
    dsimp only [World.handles]
    rw [hc]
    rfl
  have hnote : x.note w (.handle c r) = { x with since := x.since ++ [r] } := by
    unfold Session.note
    rw [hh]
    exact if_pos rfl
  rw [note_last h.once (fun q r' he => ?_) fun q he => (by cases he), hnote]
  · refine serial_last hok h hs rfl hothers hentered ?_ (fun t ht => ?_) fun he => ?_
    · rw [hdisk, h.disk, leaveAll_append]
      rfl
    · rw [hnew] at ht
      obtain rfl := Option.some.inj ht
      exact handle_behind hbehind hdisk
    · exact absurd he hended
  · rw [hh] at he
    exact (congrArg Prod.fst (Option.some.inj he)).symm

theorem serial_copy (hok : WorldOk w) (h : Serial d w xs)
    (hs : Proc.serving (w.procs p) = some s) (hh : w.handles e = none)
    (hc : w.copies e = some p) (hdisk : w'.disk = (pdbBackup s w.disk).2)
    (hothers : ∀ q, q ≠ p → w'.procs q = w.procs q)
    (hentered : Proc.entered (w'.procs p) = true)
    (hnew : ∀ t, Proc.serving (w'.procs p) = some t → t.db = s.db) :
    Serial d w' (xs.map (Session.note w e)) := by
  obtain ⟨past, x, rfl, rfl, hbehind⟩ := h.serving p s hs
  have hnote : x.note w e = { x with saved := x.saved ++ x.since, since := [] } := by
    unfold Session.note
    rw [hh]
    exact if_pos hc
  rw [backup_disk hbehind.clean] at hdisk
  rw [note_last h.once (fun q r' he => ?_) (fun q he => ?_), hnote]
  · refine serial_last hok h hs rfl hothers hentered ?_ (fun t ht => ⟨?_, fun _ => ?_⟩) fun _ => rfl
    · rw [hdisk, hbehind.db]
      rfl
    · rw [hnew t ht, hbehind.db, List.append_nil]
      rfl
    · rw [hdisk, hnew t ht]
  · rw [hh] at he
    cases he
  · rw [hc] at he
    exact (Option.some.inj he).symm

/-- A process that is not in its loop is replaced. -/
theorem serial_set {proc : Proc} (h : Serial d w xs) (hp : Proc.entered (w.procs p) = false)
    (hnew : Proc.serving (some proc) = none) : Serial d (w.set p proc) xs := by
  refine serial_aside h hp rfl (fun q hq => set_other hq) ?_
  rw [set_self]
  exact hnew

/-- Who has what does not matter here. -/
theorem serial_keep (h : Serial d w xs) (hprocs : w'.procs = w.procs) (hdisk : w'.disk = w.disk) :
    Serial d w' xs :=
  serial_frame h hdisk (fun _ hq => hprocs ▸ hq) (fun _ _ hs => hprocs ▸ hs)
    fun _ _ he => hprocs ▸ he

theorem serial_finish {status : ExitStatus} (h : Serial d w xs)
    (hp : Proc.entered (w.procs p) = false) : Serial d (w.finish p status) xs :=
  serial_keep (serial_set h hp rfl) rfl rfl

/-- A signal ends a process without a copy. -/
theorem serial_kill (h : Serial d w xs) : Serial d (w.finish p .signal) xs := by
  refine serial_frame h rfl (fun q hq => ?_) (fun q s hs => ?_) fun q _ he => ?_
  · rcases Decidable.em (q = p) with rfl | hne
    · rw [finish_self]
      rfl
    · rw [finish_other hne]
      exact hq
  · rcases Decidable.em (q = p) with rfl | hne
    · rw [finish_self] at hs
      cases hs
    · rw [finish_other hne] at hs
      exact hs
  · rcases Decidable.em (q = p) with rfl | hne
    · rw [finish_self] at he
      cases he
    · rw [finish_other hne] at he
      exact he

theorem boot_serial {ok : Bool} (h : Serial d w xs) (hp : w.procs p = some (.server parent pc))
    (hstep : boot w p parent ok pc = some w') : Serial d w' xs := by
  have hout : pc.serving = none → Proc.entered (w.procs p) = false := by
    intro hs
    rw [hp]
    dsimp only [Proc.entered]
    rw [hs]
    rfl
  cases pc with
  | openLock | socket | listen =>
    obtain rfl := Option.some.inj hstep
    split
    · exact serial_set h (hout rfl) rfl
    · exact serial_finish h (hout rfl)
  | acquire | unlink | bind =>
    obtain rfl := Option.some.inj hstep
    split
    · exact serial_keep (serial_set h (hout rfl) rfl) rfl rfl
    · exact serial_finish h (hout rfl)
  | ready | loop | cleanup => cases hstep

theorem signalParent_serial (h : Serial d w xs) : Serial d (w.signalParent parent) xs := by
  unfold World.signalParent
  split
  · split
    · next l child usr1 hl => exact serial_set h (by rw [hl]; rfl) rfl
    · exact h
  · exact h

/-- A server starts with what is in the file. -/
theorem serial_restore {oldmsg : OldMsg} (hok : WorldOk w) (h : Serial d w xs)
    (hp : w.procs p = some (.server parent .ready)) :
    Serial d (w.set p (.server parent (.loop (pdbRestore w.disk oldmsg))))
      (xs ++ [⟨p, oldmsg, [], []⟩]) := by
  have hlock : w.lock = some p := by
    rw [hok.lock, hold_server hp]
    simp [ServerPc.hold]
  have hne : ∀ x ∈ xs, x.pid ≠ p := by
    rintro x hx rfl
    have hx := h.entered x hx
    rw [hp] at hx
    cases hx
  have hleave : leaveAll d (xs ++ [⟨p, oldmsg, [], []⟩]) = leaveAll d xs := leaveAll_append
  refine ⟨?_, ?_, fun x hx => ?_, fun q s hs => ?_, fun x hx he => ?_⟩
  · rw [hleave]
    exact h.disk
  · rw [List.map_append, List.nodup_append]
    refine ⟨h.once, by simp, fun q hq q' hq' => ?_⟩
    obtain ⟨x, hx, rfl⟩ := List.mem_map.mp hq
    rw [List.mem_singleton.mp hq']
    exact hne x hx
  · rcases List.mem_append.mp hx with hx | hx
    · rw [set_other (hne x hx)]
      exact h.entered x hx
    · rw [List.mem_singleton.mp hx, set_self]
      rfl
  · rcases Decidable.em (q = p) with rfl | hqp
    · rw [set_self] at hs
      obtain rfl := Option.some.inj hs
      refine ⟨xs, _, rfl, rfl, ?_, fun _ => rfl⟩
      rw [← h.disk]
      rfl
    · rw [set_other hqp] at hs
      exact absurd (serving_alone hok hlock hs) hqp
  · rcases List.mem_append.mp hx with hx | hx
    · rw [set_other (hne x hx)] at he
      exact h.complete x hx he
    · rw [List.mem_singleton.mp hx]

theorem enter_serial {oldmsg : OldMsg} (hok : WorldOk w) (h : Serial d w xs)
    (hp : w.procs p = some (.server parent pc)) (hstep : enterLoop w p parent oldmsg pc = some w') :
    Serial d w' (xs ++ [⟨p, oldmsg, [], []⟩]) := by
  cases pc with
  | ready =>
    obtain rfl := Option.some.inj hstep
    have hdisk : (w.signalParent parent).disk = w.disk := signalParent_same.2.2
    rw [← hdisk]
    exact serial_restore (signalParent_ok hok) (signalParent_serial h) (signalParent_server hp)
  | _ => cases hstep

/-- In the loop, where the database goes on. -/
theorem loop_serving {s : Serving} (hp : w.procs p = some (.server parent (.loop s))) :
    Proc.serving (w.procs p) = some s := by
  rw [hp]
  rfl

theorem handle_serial {c : Pid} {r : Handled} (hok : WorldOk w) (h : Serial d w xs)
    (hc : w.server? c = some p) (hp : w.procs p = some (.server parent pc))
    (hstep : inLoop w p parent (fun s disk => (s.handle r, disk)) pc = some w') :
    Serial d w' (xs.map (Session.note w (.handle c r))) := by
  cases pc with
  | loop s =>
    obtain rfl := Option.some.inj hstep
    refine serial_handle hok h hc (loop_serving hp) rfl (fun q hq => set_other hq) ?_ ?_ ?_
    · exact loop_serving set_self
    · dsimp only
      rw [set_self]
      rfl
    · dsimp only
      rw [set_self]
      simp
  | _ => cases hstep

/-- The copy at a refused shutdown, or at every tenth timeout. -/
theorem copy_serial {f : Serving → Tables → Serving × Tables} (hok : WorldOk w)
    (h : Serial d w xs) (hp : w.procs p = some (.server parent (.loop s))) (hh : w.handles e = none)
    (hc : w.copies e = some p) (hdb : (f s w.disk).1.db = s.db)
    (hdisk : (f s w.disk).2 = (pdbBackup s w.disk).2)
    (hstep : inLoop w p parent f (.loop s) = some w') :
    Serial d w' (xs.map (Session.note w e)) := by
  obtain rfl := Option.some.inj hstep
  refine serial_copy hok h (loop_serving hp) hh hc hdisk (fun q hq => set_other hq) ?_
    fun t ht => ?_
  · dsimp only
    rw [set_self]
    rfl
  · dsimp only at ht
    rw [set_self] at ht
    rw [← Option.some.inj ht]
    exact hdb

theorem refuse_serial (hok : WorldOk w) (h : Serial d w xs)
    (hp : w.procs p = some (.server parent pc)) (hstep : inLoop w p parent pdbBackup pc = some w') :
    Serial d w' (xs.map (Session.note w (.refuse p))) := by
  cases pc with
  | loop s => exact copy_serial hok h hp rfl rfl backup_db rfl hstep
  | _ => cases hstep

theorem idle_serial (hok : WorldOk w) (h : Serial d w xs)
    (hp : w.procs p = some (.server parent pc))
    (hstep : inLoop w p parent pdbMaybeBackup pc = some w') :
    Serial d w' (xs.map (Session.note w (.idle p))) := by
  cases pc with
  | loop s =>
    have hpc : w.pc p = some (.loop s) := by
      unfold World.pc
      rw [hp]
    rcases Decidable.em ((s.occasional + 1) % 10 = 0) with htenth | hnot
    · refine copy_serial hok h hp rfl ?_ ?_ ?_ hstep
      · dsimp only [World.copies]
        rw [hpc]
        exact if_pos htenth
      · unfold pdbMaybeBackup
        dsimp only
        rw [if_pos htenth]
        exact backup_db
      · unfold pdbMaybeBackup
        dsimp only
        rw [if_pos htenth]
        unfold pdbBackup
        dsimp only
        split <;> rfl
    · have hnocopy : w.copies (.idle p) = none := by
        dsimp only [World.copies]
        rw [hpc]
        exact if_neg hnot
      rw [note_same rfl hnocopy]
      have hkeep : pdbMaybeBackup s w.disk =
          ({ s with occasional := (s.occasional + 1) % 10 }, w.disk) := if_neg hnot
      dsimp only [inLoop] at hstep
      rw [hkeep] at hstep
      obtain rfl := Option.some.inj hstep
      obtain ⟨past, x, rfl, rfl, hbehind⟩ := h.serving p s (loop_serving hp)
      refine serial_last hok h (loop_serving hp) rfl (fun q hq => set_other hq) ?_ ?_ ?_ ?_
      · dsimp only
        rw [set_self]
        rfl
      · rw [← leaveAll_append]
        exact h.disk
      · intro t ht
        dsimp only at ht
        rw [set_self] at ht
        obtain rfl := Option.some.inj ht
        exact ⟨hbehind.db, hbehind.clean⟩
      · intro he
        dsimp only at he
        rw [set_self] at he
        cases he
  | _ => cases hstep

theorem stop_serial {s : Serving} (h : Serial d w xs)
    (hp : w.procs p = some (.server parent (.loop s))) :
    Serial d (w.set p (.server parent (.cleanup s))) xs := by
  refine serial_frame h rfl (fun q hq => ?_) (fun q t ht => ?_) fun q _ he => ?_
  · rcases Decidable.em (q = p) with rfl | hne
    · rw [set_self]
      rfl
    · rw [set_other hne]
      exact hq
  · rcases Decidable.em (q = p) with rfl | hne
    · rw [set_self] at ht
      rw [hp]
      exact ht
    · rw [set_other hne] at ht
      exact ht
  · rcases Decidable.em (q = p) with rfl | hne
    · rw [set_self] at he
      cases he
    · rw [set_other hne] at he
      exact he

theorem exit_serial (hok : WorldOk w) (h : Serial d w xs)
    (hp : w.procs p = some (.server parent pc)) (hstep : cleanupDb w p pc = some w') :
    Serial d w' (xs.map (Session.note w (.exit p))) := by
  cases pc with
  | cleanup s =>
    obtain rfl := Option.some.inj hstep
    have hs : Proc.serving (w.procs p) = some s := by
      rw [hp]
      rfl
    refine serial_copy hok h hs rfl rfl rfl (fun q hq => set_other hq) ?_ fun t ht => ?_
    · dsimp only
      rw [finish_self]
      rfl
    · dsimp only at ht
      rw [finish_self] at ht
      cases ht
  | _ => cases hstep

/-- A process that is new, and the one that made it. -/
theorem serial_two {proc proc' : Proc} (h : Serial d w xs) (hp : (w.procs p).isNone = true)
    (hnew : Proc.serving (some proc) = none) (hfirst : Proc.entered (some proc) = false)
    (hq : Proc.entered (w.procs q) = false) (hnew' : Proc.serving (some proc') = none) :
    Serial d ((w.set p proc).set q proc') xs := by
  refine serial_set (serial_set h ?_ hnew) ?_ hnew'
  · rw [Option.isNone_iff_eq_none.mp hp]
    rfl
  · rcases Decidable.em (q = p) with rfl | hne
    · rw [set_self]
      exact hfirst
    · rw [set_other hne]
      exact hq

theorem clientSetup_serial {c fresh : Pid} {ok : Bool} {at' : ClientPc} (h : Serial d w xs)
    (hc : w.procs c = some (.client at')) (hstep : clientSetup w c fresh ok at' = some w') :
    Serial d w' xs := by
  have hout : Proc.entered (w.procs c) = false := by
    rw [hc]
    rfl
  rcases clientSetup_cases hstep with ⟨pc, _, rfl⟩ | ⟨hfresh, rfl⟩
  · exact serial_set h hout rfl
  · exact serial_two h hfresh rfl rfl hout rfl

theorem step_serial (hok : WorldOk w) (h : Serial d w xs) (hstep : w.step e = some w') :
    Serial d w' (noteAll w e xs) := by
  have hsame : w.handles e = none → w.copies e = none → Serial d w' xs →
      Serial d w' (xs.map (Session.note w e)) := fun hh hc hs => (note_same hh hc).symm ▸ hs
  cases e with
  | run p proc =>
    refine hsame rfl rfl ?_
    dsimp only [World.step] at hstep
    split at hstep
    · next hc =>
      rw [Bool.and_eq_true, Option.isNone_iff_eq_none] at hc
      obtain rfl := Option.some.inj hstep
      refine serial_set h (by rw [hc.2]; rfl) ?_
      cases proc with
      | server parent pc => cases parent <;> cases pc <;> first | rfl | cases hc.1
      | _ => rfl
    · cases hstep
  | boot p ok =>
    obtain ⟨parent, pc, hp, hstep⟩ := atServer_some hstep
    exact hsame rfl rfl (boot_serial h hp hstep)
  | enter p oldmsg =>
    obtain ⟨parent, pc, hp, hstep⟩ := atServer_some hstep
    exact enter_serial hok h hp hstep
  | handle c r =>
    obtain ⟨p, hc, hstep⟩ := Option.bind_eq_some_iff.mp hstep
    obtain ⟨parent, pc, hp, hstep⟩ := atServer_some hstep
    exact handle_serial hok h hc hp hstep
  | idle p =>
    obtain ⟨parent, pc, hp, hstep⟩ := atServer_some hstep
    exact idle_serial hok h hp hstep
  | refuse p =>
    obtain ⟨parent, pc, hp, hstep⟩ := atServer_some hstep
    exact refuse_serial hok h hp hstep
  | stop p =>
    obtain ⟨parent, pc, hp, hstep⟩ := atServer_some hstep
    refine hsame rfl rfl ?_
    split at hstep
    · next s =>
      obtain rfl := Option.some.inj hstep
      exact stop_serial h hp
    · cases hstep
  | exit p =>
    obtain ⟨parent, pc, hp, hstep⟩ := atServer_some hstep
    exact exit_serial hok h hp hstep
  | fork l child ok =>
    obtain ⟨c, usr1, hl, hstep⟩ := atLauncher_some hstep
    refine hsame rfl rfl ?_
    have hout : Proc.entered (w.procs l) = false := by
      rw [hl]
      rfl
    split at hstep
    · rcases forkDaemon_cases hstep with ⟨hfresh, rfl⟩ | rfl
      · exact serial_two h hfresh rfl rfl hout rfl
      · exact serial_finish h hout
    · cases hstep
  | wait l =>
    obtain ⟨c, usr1, hl, hstep⟩ := atLauncher_some hstep
    obtain ⟨status, rfl⟩ := waitDaemon_cases hstep
    exact hsame rfl rfl (serial_finish h (by rw [hl]; rfl))
  | alarm l =>
    obtain ⟨c, usr1, hl, hstep⟩ := atLauncher_some hstep
    obtain ⟨status, rfl⟩ := alarmDaemon_cases hstep
    exact hsame rfl rfl (serial_finish h (by rw [hl]; rfl))
  | setup c fresh ok =>
    obtain ⟨pc, hc, hstep⟩ := atClient_some hstep
    exact hsame rfl rfl (clientSetup_serial h hc hstep)
  | lose c =>
    refine hsame rfl rfl ?_
    dsimp only [World.step] at hstep
    split at hstep
    · next hc =>
      obtain ⟨p, hp⟩ := Option.isSome_iff_exists.mp hc
      obtain rfl := Option.some.inj hstep
      exact serial_set h (by rw [server?_some hp]; rfl) rfl
    · cases hstep
  | kill p =>
    refine hsame rfl rfl ?_
    dsimp only [World.step] at hstep
    split at hstep
    · cases hstep
    · cases hstep
    · obtain rfl := Option.some.inj hstep
      exact serial_kill h

theorem start_serial : Serial d (.start d) [] :=
  ⟨rfl, List.nodup_nil, fun _ hx => (by cases hx), fun _ _ hs => (by cases hs),
    fun _ hx => (by cases hx)⟩

end DurableLemmas

open DurableLemmas

/-- `/c` gets a row. -/
def exNamed (c : Char) : Handled where
  sq := .inOrder
  msg := PseudoMsg.plain
    { MsgHeader.zero with type := .op, op := .link, dev := 1, ino := c.toNat, mode := 0o100644 }
    (ascii ['/', c])

/-- A server is killed after a second message; the next one ends by itself. -/
def exKilled : List WorldEvent :=
  exRace ++ [.handle 0 (exNamed 'a'), .refuse 4, .handle 0 (exNamed 'b'), .kill 4,
    .run 6 (.server none .openLock)] ++ boots 6 6 ++ [.enter 6 ⟨0, []⟩, .lose 0, .setup 0 0 true,
    .setup 0 0 true, .handle 0 (exNamed 'c'), .stop 6, .exit 6]

theorem exKilled_runs : ∃ w, Refine.run World.step (.start ⟨[], []⟩) exKilled = some w ∧
    w.procs 6 = some (.ended .success) :=
  ⟨_, rfl, rfl⟩

end Pseudo
