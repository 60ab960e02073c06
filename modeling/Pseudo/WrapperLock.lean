import Pseudo.Library.Interleave
import Pseudo.Library.Refine

/-!
# The lock around the wrappers

Every wrapper blocks six signals, takes the lock, and calls the host's function or pseudo's own,
whether `antimagic` says so; then it drops the lock and restores the signals. The threads of a
process share `pseudo_mutex`, its holder, how often the holder has taken it, `antimagic` and
`pseudo_saved_sigmask`, and the code below accesses one of them at a time. In between any other
thread may go on, or a signal handler of the same thread may start, which calls wrappers itself.

Left out are `errno`, a process that is disabled, paths that are ignored, and a mutex that cannot be
locked at all. Signals that are not blocked are taken to have handlers that call no wrapper.
-/

namespace Pseudo

abbrev ThreadId := Nat

inductive Signal
  | alrm | chld | hup | term | usr1 | usr2
  | other (number : Nat)
  deriving DecidableEq, Repr

abbrev SigSet := Signal → Bool

/-- The signals that `pseudo_sigblock` adds. -/
def Signal.blockable : Signal → Bool
  | .other _ => false
  | _ => true

def pseudoSigblock (mask : SigSet) : SigSet := fun s => mask s || s.blockable

/-! ## The code of a wrapper -/

/-- `pseudo_getlock` and `pseudo_droplock` are called at the ends of a wrapper, and the other way
around while `wrap_openat` opens a FIFO that may block. -/
inductive Leg
  | ends
  | fifo
  deriving DecidableEq, Repr

/-- What comes next. -/
inductive Pc
  -- pseudo_getlock
  | compare (leg : Leg)
  | recurse (leg : Leg)
  | lock (leg : Leg)
  | count (leg : Leg)
  | hold (leg : Leg)
  -- if (antimagic > 0), pseudo_saved_sigmask = saved
  | test
  -- the host's function, or `wrap_$name`
  | body (real : Bool)
  -- pseudo_droplock
  | drop (leg : Leg)
  | clear (leg : Leg)
  | unlock (leg : Leg)
  -- the signals around `real_openat`, with those that were blocked before
  | unmask
  | blocked (mask : SigSet)
  -- sigprocmask(SIG_SETMASK, &saved, NULL)
  | restore
  -- a signal handler
  | handling

def Pc.isBody : Pc → Bool
  | .body _ => true
  | _ => false

/-- It is the host's function. -/
def Pc.isReal : Pc → Bool
  | .body real => real
  | _ => false

def Pc.isHandling : Pc → Bool
  | .handling => true
  | _ => false

inductive Kind
  | wrapper
  /-- `exec*` and `posix_spawn*`, which do not look at `antimagic`. -/
  | exec
  | fork
  /-- `_libpseudo_init`. -/
  | init
  | handler
  deriving DecidableEq, Repr

/-- What is running. `windows` counts its calls of `pseudo_antimagic` without `pseudo_magic`.
Nothing reads `lost`: the lock that was taken went with the memory of the parent process. -/
structure Frame where
  kind : Kind
  saved : SigSet
  windows : Nat
  lost : Bool
  pc : Pc

structure Thread where
  mask : SigSet
  stack : List Frame

/-- What is done in the frame on top. -/
def Thread.inTop {β : Type} (th : Thread) (k : Frame → List Frame → Option β) : Option β :=
  match th.stack with
  | [] => none
  | f :: rest => k f rest

/-- What is done by the host's function, or pseudo's own. -/
def Thread.inBody {β : Type} (th : Thread) (k : Frame → List Frame → Option β) : Option β :=
  th.inTop fun f rest => if f.pc.isBody then k f rest else none

/-- What the threads share, and which threads there are. -/
structure LockVars where
  mutex : Option ThreadId
  holder : Option ThreadId
  recursion : Int
  antimagic : Int
  savedSigmask : SigSet
  alive : ThreadId → Bool

/-- What follows `pseudo_getlock`. -/
def Frame.entered (f : Frame) : Leg → Pc
  | .ends => if f.kind = .wrapper ∨ f.kind = .exec then .test else .body false
  | .fifo => .body false

/-- What follows `pseudo_droplock`. -/
def Leg.dropped : Leg → Pc
  | .ends => .restore
  | .fifo => .unmask

/-- The next instruction, where there is only one. A thread that waits for the mutex has none. -/
def go (v : LockVars) (t : ThreadId) (th : Thread) : Option (LockVars × Thread) :=
  th.inTop fun f rest =>
    let next (v : LockVars) (pc : Pc) : Option (LockVars × Thread) :=
      some (v, { th with stack := { f with pc := pc } :: rest })
    match f.pc with
    | .compare leg => next v (if v.holder = some t then .recurse leg else .lock leg)
    | .recurse leg => next { v with recursion := v.recursion + 1 } (f.entered leg)
    | .lock leg => if v.mutex = none then next { v with mutex := some t } (.count leg) else none
    | .count leg => next { v with recursion := 1 } (.hold leg)
    | .hold leg => next { v with holder := some t } (f.entered leg)
    | .test =>
      if f.kind = .wrapper ∧ 0 < v.antimagic then next v (.body true)
      -- "exec*() use this to restore the sig mask"
      else next { v with savedSigmask := f.saved } (.body false)
    | .drop leg =>
      let v := { v with recursion := v.recursion - 1 }
      next v (if v.recursion = 0 then .clear leg else leg.dropped)
    | .clear leg => next { v with holder := none } (.unlock leg)
    | .unlock leg => next { v with mutex := none } leg.dropped
    | .unmask => some (v, ⟨v.savedSigmask, { f with pc := .blocked th.mask } :: rest⟩)
    | .restore => some (v, ⟨if f.kind = .init then th.mask else f.saved, rest⟩)
    | .body _ | .blocked _ | .handling => none

/-! ## What a thread does -/

inductive Act
  | go
  /-- A wrapper is called: by the program, or inside of another wrapper. -/
  | call (kind : Kind)
  /-- `pseudo_reinit_libpseudo`. -/
  | reinit
  | antimagic
  | magic
  /-- A FIFO is to be opened that may block. -/
  | fifo
  /-- It is open. -/
  | opened
  /-- The signals are restored for `exec` or `posix_spawn`. -/
  | unblock
  /-- The host's function, or pseudo's own, returns. -/
  | leave
  | signal (s : Signal) (mask : SigSet)
  | sigreturn
  | spawn (u : ThreadId)

/-- The program runs, or a signal handler. -/
def application : List Frame → Bool
  | [] => true
  | f :: _ => f.pc.isHandling

/-- Where wrappers are called. -/
def callable : List Frame → Bool
  | [] => true
  | f :: _ => f.pc.isBody || f.pc.isHandling

def threadStep (v : LockVars) (t : ThreadId) (th : Thread) : Act → Option (LockVars × Thread)
  | .go => go v t th
  | .call kind =>
    if callable th.stack && kind ≠ .init && kind ≠ .handler then
      some (v, ⟨pseudoSigblock th.mask, ⟨kind, th.mask, 0, false, .compare .ends⟩ :: th.stack⟩)
    else none
  | .signal s mask =>
    if s.blockable && !th.mask s then
      some (v, ⟨fun x => th.mask x || mask x || x = s,
        ⟨.handler, th.mask, 0, false, .handling⟩ :: th.stack⟩)
    else none
  | .spawn u =>
    if application th.stack && !v.alive u then
      some ({ v with alive := Function.update v.alive u true }, th)
    else none
  | .reinit => th.inBody fun _ _ =>
    some (v, { th with stack := ⟨.init, th.mask, 0, false, .compare .ends⟩ :: th.stack })
  | .antimagic => th.inBody fun f rest =>
    if f.lost then none
    else
      some ({ v with antimagic := v.antimagic + 1 },
        { th with stack := { f with windows := f.windows + 1 } :: rest })
  | .magic => th.inBody fun f rest =>
    if f.windows = 0 then none
    else
      some ({ v with antimagic := if 0 < v.antimagic then v.antimagic - 1 else v.antimagic },
        { th with stack := { f with windows := f.windows - 1 } :: rest })
  | .fifo => th.inBody fun f rest =>
    if !f.pc.isReal && f.windows = 0 && f.kind = .wrapper then
      some (v, { th with stack := { f with pc := .drop .fifo } :: rest })
    else none
  | .opened => th.inTop fun f rest =>
    match f.pc with
    | .blocked mask => some (v, ⟨mask, { f with pc := .compare .fifo } :: rest⟩)
    | _ => none
  | .unblock => th.inBody fun f _ =>
    if f.kind = .exec then some (v, { th with mask := v.savedSigmask }) else none
  | .leave => th.inBody fun f rest =>
    if f.windows = 0 then some (v, { th with stack := { f with pc := .drop .ends } :: rest })
    else none
  | .sigreturn => th.inTop fun f rest =>
    if f.pc.isHandling then some (v, ⟨f.saved, rest⟩) else none

/-! ## A process and its children -/

/-- Threads are started by the program. -/
def aliveStep (v : LockVars) (t : ThreadId) (th : Thread) (a : Act) : Option (LockVars × Thread) :=
  if v.alive t then threadStep v t th a else none

abbrev Process := Interleave.State LockVars ThreadId Thread

/-- A step of a thread, or what follows is about the child that a thread of the program forks. -/
inductive LockEvent
  | act (t : ThreadId) (a : Act)
  | child (t : ThreadId)

/-- `libpseudo_atfork_child`, in the child, where there is one thread. It is in `wrap_fork`, which
has the lock, and which is called by the program. -/
def forkChild (s : Process) (t : ThreadId) : Option Process :=
  (s.threads t).inTop fun f rest =>
    if s.shared.alive t && f.kind = .fork && f.pc.isBody && !f.lost && application rest &&
        f.windows = 0 then
      some ⟨{ s.shared with mutex := none, recursion := 0, holder := none
                            alive := fun u => u = t },
        fun u => if u = t then { s.threads t with stack := { f with lost := true } :: rest }
                 else { s.threads u with stack := [] }⟩
    else none

def Process.step (s : Process) : LockEvent → Option Process
  | .act t a => Interleave.step aliveStep s t a
  | .child t => forkChild s t

/-- All threads are in the program, each with some signals blocked. -/
def Process.start (mask : ThreadId → SigSet) (alive : ThreadId → Bool) (saved : SigSet) : Process :=
  ⟨⟨none, none, 0, 0, saved, alive⟩, fun t => ⟨mask t, []⟩⟩

end Pseudo
