import Mathlib.Logic.Function.Basic
import Pseudo.DirtyFlag
import Pseudo.Library.Refine

/-!
# Servers come and go

Any number of clients find no server and start one, each `pseudo -d` of its own, while others are on
their way, are about to end, or are killed. They share a directory: the lock on `pseudo.lock`, the
name `pseudo.socket`, and `files.db`. A server has the database in memory from when it enters its
loop until it ends; in between it is copied to the file now and then.

Left out are `pseudo.pid`, which is read for messages only, the logs, a copy that fails or is cut
short, and who is connected beyond that a client's requests go to the server it connected to.
Process ids are not used again.
-/

namespace Pseudo

abbrev Pid := Nat

/-- `enums/exit_status.in`, as far as it is used here. -/
inductive ExitStatus
  | success | forkFailed | lockFailed | lockHeld | timeout
  | socketCreate | socketUnlink | socketBind | socketListen
  /-- Ended by a signal. -/
  | signal
  deriving DecidableEq, Repr

/-! ## The database of a server -/

/-- `file_db`, `file_db_dirty` and the static counter of `pdb_maybe_backup`. -/
structure Serving where
  db : Db
  dirty : Bool
  occasional : Nat

/-- `pdb_restore`. The buffer of `pdb_update_inode` is the new process's. -/
def pdbRestore (disk : Tables) (oldmsg : OldMsg) : Serving :=
  ⟨⟨disk.files, disk.xattrs, oldmsg⟩, false, 0⟩

/-- "no point in doing this if [...] nothing's changed" -/
def pdbBackup (s : Serving) (disk : Tables) : Serving × Tables :=
  if s.dirty then ({ s with dirty := false }, s.db.tables) else (s, disk)

def pdbMaybeBackup (s : Serving) (disk : Tables) : Serving × Tables :=
  let s := { s with occasional := (s.occasional + 1) % 10 }
  if s.occasional = 0 then pdbBackup s disk else (s, disk)

/-- A message, and the order in which SQLite visits rows for it. -/
structure Handled where
  sq : Sqlite
  msg : PseudoMsg

def Serving.handle (s : Serving) (r : Handled) : Serving :=
  { s with db := (pseudoOp r.sq s.db r.msg).db, dirty := s.dirty || opDirty r.sq s.db r.msg }

/-! ## The processes -/

/-- What comes next in `pseudo_server_start`, in the process that is to be the server. -/
inductive ServerPc
  | openLock
  /-- `fcntl(lockfd, F_SETLK, &lock_data)`. -/
  | acquire
  | socket
  | unlink
  | bind
  | listen
  /-- The parent is told, and the loop is entered. -/
  | ready
  | loop (s : Serving)
  /-- The listening socket is closed; `cleanup_db` runs at exit. -/
  | cleanup (s : Serving)

/-- What comes next in `pseudo_client_setup`; `again` is the second attempt, after a server was
started. -/
inductive ClientPc
  | connect (again : Bool)
  | ping (again : Bool) (server : Pid)
  | spawn
  /-- `waitpid(server_pid, &status, 0)`. -/
  | waiting (child : Pid)
  /-- It returned 1, and is called again. -/
  | failed
  | connected (server : Pid)

inductive Proc
  /-- With its parent, if it is a daemon. -/
  | server (parent : Option Pid) (pc : ServerPc)
  /-- The process that forks the daemon, the child it has, and `got_sigusr1`. -/
  | launcher (child : Option Pid) (usr1 : Bool)
  | client (pc : ClientPc)
  | ended (status : ExitStatus)

/-- The processes that there have been, who has the lock, whose socket the name leads to, and
`files.db`. -/
structure World where
  procs : Pid → Option Proc
  lock : Option Pid
  socket : Option Pid
  disk : Tables

def World.start (disk : Tables) : World := ⟨fun _ => none, none, none, disk⟩

def World.set (w : World) (p : Pid) (proc : Proc) : World :=
  { w with procs := Function.update w.procs p (some proc) }

/-- A process ends, and its lock with it. -/
def World.finish (w : World) (p : Pid) (status : ExitStatus) : World :=
  { w.set p (.ended status) with lock := if w.lock = some p then none else w.lock }

def ServerPc.listening : ServerPc → Bool
  | .ready | .loop _ => true
  | _ => false

/-- The database that the process has in memory. -/
def ServerPc.serving : ServerPc → Option Serving
  | .loop s | .cleanup s => some s
  | _ => none

/-- What comes next in the process, if it is a server. -/
def World.pc (w : World) (p : Pid) : Option ServerPc :=
  match w.procs p with
  | some (.server _ pc) => some pc
  | _ => none

/-- `listen` was called on the socket, and it is not closed. -/
def World.listening (w : World) (p : Pid) : Bool := ((w.pc p).map ServerPc.listening).getD false

/-- The server reads messages and answers them. -/
def World.answers (w : World) (p : Pid) : Bool :=
  match w.pc p with
  | some (.loop _) => true
  | _ => false

/-! ## The server -/

/-- From the lock file to the listening socket. The next call works, or it does not. -/
def boot (w : World) (p : Pid) (parent : Option Pid) (ok : Bool) : ServerPc → Option World
  | .openLock => some (if ok then w.set p (.server parent .acquire) else w.finish p .lockFailed)
  | .acquire =>
    some (if ok && w.lock = none then { w.set p (.server parent .socket) with lock := some p }
      else w.finish p .lockHeld)
  | .socket => some (if ok then w.set p (.server parent .unlink) else w.finish p .socketCreate)
  -- "remove existing socket -- if it exists"
  | .unlink =>
    some (if ok then { w.set p (.server parent .bind) with socket := none }
      else w.finish p .socketUnlink)
  | .bind =>
    some (if ok && w.socket = none then { w.set p (.server parent .listen) with socket := some p }
      else w.finish p .socketBind)
  | .listen => some (if ok then w.set p (.server parent .ready) else w.finish p .socketListen)
  | _ => none

/-- `kill(ppid, SIGUSR1)`, unless the parent has ended. -/
def World.signalParent (w : World) : Option Pid → World
  | some l =>
    match w.procs l with
    | some (.launcher child _) => w.set l (.launcher child true)
    | _ => w
  | none => w

/-- `pseudo_server_loop`; what it logs first opens the databases. -/
def enterLoop (w : World) (p : Pid) (parent : Option Pid) (oldmsg : OldMsg) : ServerPc →
    Option World
  | .ready =>
    some ((w.signalParent parent).set p (.server parent (.loop (pdbRestore w.disk oldmsg))))
  | _ => none

/-- The database of the server goes on to another state, and the file with it. -/
def inLoop (w : World) (p : Pid) (parent : Option Pid) (f : Serving → Tables → Serving × Tables) :
    ServerPc → Option World
  | .loop s =>
    let (s, disk) := f s w.disk
    some { w.set p (.server parent (.loop s)) with disk := disk }
  | _ => none

/-- `cleanup_db`, and the end. -/
def cleanupDb (w : World) (p : Pid) : ServerPc → Option World
  | .cleanup s => some { w.finish p .success with disk := (pdbBackup s w.disk).2 }
  | _ => none

/-! ## The process that starts it -/

/-- `fork` in `pseudo_server_start`. -/
def forkDaemon (w : World) (l child : Pid) (ok : Bool) : Option World :=
  if ok then
    if (w.procs child).isNone then
      some ((w.set child (.server (some l) .openLock)).set l (.launcher (some child) false))
    else none
  else some (w.finish l .forkFailed)

/-- It waits for the signal, or for the child to end. -/
def waitDaemon (w : World) (l : Pid) : Option Pid → Bool → Option World
  | some _, true => some (w.finish l .success)
  | some child, false =>
    match w.procs child with
    | some (.ended status) => some (w.finish l status)
    | _ => none
  | none, _ => none

/-- `alarm(PSEUDO_CHILD_PROCESS_TIMEOUT)` rings. -/
def alarmDaemon (w : World) (l : Pid) : Option Pid → Bool → Option World
  | some _, usr1 => some (w.finish l (if usr1 then .success else .timeout))
  | none, _ => none

/-! ## The client -/

/-- The next step of `pseudo_client_setup`. `fresh` is the process it forks. -/
def clientSetup (w : World) (c fresh : Pid) (ok : Bool) : ClientPc → Option World
  | .connect again =>
    match w.socket with
    | some p =>
      if ok && w.listening p then some (w.set c (.client (.ping again p)))
      else some (w.set c (.client (if again then .failed else .spawn)))
    | none => some (w.set c (.client (if again then .failed else .spawn)))
  | .ping again p =>
    -- the answer comes from the loop
    if ok && w.listening p then
      if w.answers p then some (w.set c (.client (.connected p))) else none
    else some (w.set c (.client (if again then .failed else .spawn)))
  | .spawn =>
    if ok then
      if (w.procs fresh).isNone then
        some ((w.set fresh (.launcher none false)).set c (.client (.waiting fresh)))
      else none
    else some (w.set c (.client .failed))
  | .waiting child =>
    match w.procs child with
    | some (.ended status) =>
      some (w.set c (.client (if status = .success then .connect true else .failed)))
    | _ => none
  | .failed => some (w.set c (.client (.connect false)))
  | .connected _ => none

/-! ## What happens -/

inductive WorldEvent
  /-- A client, `pseudo -d` or `pseudo -f` is run. -/
  | run (p : Pid) (proc : Proc)
  | boot (p : Pid) (ok : Bool)
  | enter (p : Pid) (oldmsg : OldMsg)
  /-- A client's request, at the server it is connected to. -/
  | handle (c : Pid) (r : Handled)
  /-- No clients, and a timeout. -/
  | idle (p : Pid)
  /-- A shutdown is refused. -/
  | refuse (p : Pid)
  /-- `die_peacefully` or `die_forcefully`. -/
  | stop (p : Pid)
  | exit (p : Pid)
  | fork (l child : Pid) (ok : Bool)
  | wait (l : Pid)
  | alarm (l : Pid)
  | setup (c fresh : Pid) (ok : Bool)
  /-- The connection is lost. -/
  | lose (c : Pid)
  | kill (p : Pid)

def Proc.starts : Proc → Bool
  | .client (.connect false) | .launcher none false | .server none .openLock => true
  | _ => false

/-- A step of a process that is a server. -/
def World.atServer (w : World) (p : Pid) (k : Option Pid → ServerPc → Option World) :
    Option World :=
  match w.procs p with
  | some (.server parent pc) => k parent pc
  | _ => none

def World.atLauncher (w : World) (l : Pid) (k : Option Pid → Bool → Option World) : Option World :=
  match w.procs l with
  | some (.launcher child usr1) => k child usr1
  | _ => none

def World.atClient (w : World) (c : Pid) (k : ClientPc → Option World) : Option World :=
  match w.procs c with
  | some (.client pc) => k pc
  | _ => none

/-- The server to which the client is connected. -/
def World.server? (w : World) (c : Pid) : Option Pid :=
  match w.procs c with
  | some (.client (.connected p)) => some p
  | _ => none

def World.step (w : World) : WorldEvent → Option World
  | .run p proc => if proc.starts && (w.procs p).isNone then some (w.set p proc) else none
  | .boot p ok => w.atServer p fun parent pc => boot w p parent ok pc
  | .enter p oldmsg => w.atServer p fun parent pc => enterLoop w p parent oldmsg pc
  | .handle c r => (w.server? c).bind fun p =>
    w.atServer p fun parent pc => inLoop w p parent (fun s disk => (s.handle r, disk)) pc
  | .idle p => w.atServer p fun parent pc => inLoop w p parent pdbMaybeBackup pc
  | .refuse p => w.atServer p fun parent pc => inLoop w p parent pdbBackup pc
  | .stop p => w.atServer p fun parent pc =>
    match pc with
    | .loop s => some (w.set p (.server parent (.cleanup s)))
    | _ => none
  | .exit p => w.atServer p fun _ pc => cleanupDb w p pc
  | .fork l child ok => w.atLauncher l fun c _ => if c.isNone then forkDaemon w l child ok else none
  | .wait l => w.atLauncher l fun child usr1 => waitDaemon w l child usr1
  | .alarm l => w.atLauncher l fun child usr1 => alarmDaemon w l child usr1
  | .setup c fresh ok => w.atClient c fun pc => clientSetup w c fresh ok pc
  | .lose c => if (w.server? c).isSome then some (w.set c (.client (.connect false))) else none
  | .kill p =>
    match w.procs p with
    | some (.ended _) | none => none
    | some _ => some (w.finish p .signal)

end Pseudo
