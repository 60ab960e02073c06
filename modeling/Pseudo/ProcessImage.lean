import Pseudo.Credentials
import Pseudo.Library.Environ
import Pseudo.Library.Refine
import Pseudo.SetupEnv

/-!
# A program and those it starts

Pseudo's variables are kept twice: in `pseudo_env`, where `pseudo_set_value` changes them, and in
the environment, from which a program that is started reads them. `pseudo_setupenv` and
`pseudo_setupenvp` bring the one into the other on the way.

What `pseudo_init_util` writes back for `PSEUDO_DEBUG` and `PSEUDO_EVLOG` is left open. Left out are
`pseudo_local_only`, the password files, what is opened or sent to the server on the way, an `exec`
that fails, and memory that runs out.
-/

namespace Pseudo

open Environ (getenv setenv unsetenv)

/-! ## 1. The variables -/

def prefixKey : Bytes := pseudoKey ['P', 'R', 'E', 'F', 'I', 'X']
def bindirKey : Bytes := pseudoKey ['B', 'I', 'N', 'D', 'I', 'R']
def libdirKey : Bytes := pseudoKey ['L', 'I', 'B', 'D', 'I', 'R']
def localstatedirKey : Bytes :=
  pseudoKey ['L', 'O', 'C', 'A', 'L', 'S', 'T', 'A', 'T', 'E', 'D', 'I', 'R']
def passwdKey : Bytes := pseudoKey ['P', 'A', 'S', 'S', 'W', 'D']
def chrootKey : Bytes := pseudoKey ['C', 'H', 'R', 'O', 'O', 'T']
def uidsKey : Bytes := pseudoKey ['U', 'I', 'D', 'S']
def gidsKey : Bytes := pseudoKey ['G', 'I', 'D', 'S']
def debugKey : Bytes := pseudoKey ['D', 'E', 'B', 'U', 'G']
def nosymlinkexpKey : Bytes :=
  pseudoKey ['N', 'O', 'S', 'Y', 'M', 'L', 'I', 'N', 'K', 'E', 'X', 'P']
def disabledKey : Bytes := pseudoKey ['D', 'I', 'S', 'A', 'B', 'L', 'E', 'D']
def allowFsyncKey : Bytes :=
  pseudoKey ['A', 'L', 'L', 'O', 'W', '_', 'F', 'S', 'Y', 'N', 'C']
def evlogKey : Bytes := pseudoKey ['E', 'V', 'L', 'O', 'G']

/-- `PRELINK_PATH` and `PRELINK_LIBRARIES`. -/
def ldLibraryPath : Bytes :=
  ascii ['L', 'D', '_', 'L', 'I', 'B', 'R', 'A', 'R', 'Y', '_', 'P', 'A', 'T', 'H']
def ldPreload : Bytes := ascii ['L', 'D', '_', 'P', 'R', 'E', 'L', 'O', 'A', 'D']

/-- What was compiled in. -/
structure Build where
  profiling : Bool
  bindir : Bytes
  libdir : Bytes
  localstatedir : Bytes

/-- The flags that are set for a text in `PSEUDO_DEBUG` or `PSEUDO_EVLOG`, as they are written. -/
abbrev Finalize := Bytes → Bytes → Bytes

/-- A program: its environment, `pseudo_env`, `pseudo_disabled`, `pseudo_inited`, the ids and the
chroot directory; and whether it has libpseudo. -/
structure Image where
  environ : List Bytes
  values : EnvCache
  disabled : Bool
  inited : Bool
  ids : Ids
  chroot : Option Bytes
  loaded : Bool

section Functions
variable (b : Build) (fin : Finalize)

/-- `pseudo_env` has a place for the variable. -/
def hasSlot (key : Bytes) : Bool := (pseudoEnvKeys b.profiling).any (· = key)

/-- What the environment has replaces what there was. -/
def pseudoInitUtil (i : Image) : Image :=
  let loaded : EnvCache := fun key =>
    if hasSlot b key then (getenv equals i.environ key).or (i.values key) else i.values key
  { i with values := fun key =>
      if key = debugKey ∨ key = evlogKey then (loaded key).map (fin key) else loaded key }

def pseudoSetValue (i : Image) (key : Bytes) (value : Option Bytes) : Image :=
  { i with values := Function.update i.values key value }

/-- "Check if the environment has it and we don't [...] so we'll attempt to recover" -/
def pseudoGetValue (i : Image) (key : Bytes) : Option Bytes × Image :=
  let i :=
    if i.values key = none ∧ (getenv equals i.environ key).isSome then pseudoInitUtil b fin i else i
  (i.values key, i)

def pseudoAppendPath (path : Bytes) : Option Bytes → Bytes
  | none => path
  | some file => (path.reverse.dropWhile (· = slash)).reverse ++ slash :: file

/-- Without a prefix the process exits. -/
def pseudoPrefixPath (file : Option Bytes) (i : Image) : Option (Bytes × Image) :=
  let r := pseudoGetValue b fin i prefixKey
  r.1.map fun path => (pseudoAppendPath path file, r.2)

/-- `pseudo_get_bindir` and `pseudo_get_localstatedir`. -/
def pseudoGetDir (key file : Bytes) (i : Image) : Option (Bytes × Image) :=
  let r := pseudoGetValue b fin i key
  match r.1 with
  | some dir => some (dir, r.2)
  | none =>
    (pseudoPrefixPath b fin (some file) r.2).map fun p => (p.1, pseudoSetValue p.2 key (some p.1))

/-- "If we somehow got lib64 in there, clean it down to just lib..." -/
def pseudoGetLibdir (i : Image) : Option (Bytes × Image) :=
  (pseudoGetDir b fin libdirKey b.libdir i).map fun r =>
    if ascii ['6', '4'] <:+ r.1 then
      (r.1.take (r.1.length - 2), pseudoSetValue r.2 libdirKey (some (r.1.take (r.1.length - 2))))
    else r

/-- "Make sure everything has been evaluated" -/
def evaluated (i : Image) : Option Image :=
  (pseudoGetDir b fin bindirKey b.bindir (pseudoGetValue b fin i prefixKey).2).bind fun r =>
    (pseudoGetLibdir b fin r.2).bind fun r =>
      (pseudoGetDir b fin localstatedirKey b.localstatedir r.2).map fun r => r.2

/-! ## 2. The environment of the process itself -/

/-- The loop of `pseudo_setupenv`: what is there already stays. -/
def publish (values : EnvCache) (keys : List Bytes) (environ : List Bytes) : List Bytes :=
  keys.foldl (fun environ key =>
    match values key with
    | some value => setenv equals environ key value false
    | none => environ) environ

def setLibraryPath (libdirPath : Bytes) (environ : List Bytes) : List Bytes :=
  match getenv equals environ ldLibraryPath with
  | none => setenv equals environ ldLibraryPath (libDirs libdirPath) true
  | some old =>
    if libdirPath <:+: old then environ
    else setenv equals environ ldLibraryPath (old ++ colon :: libDirs libdirPath) true

def setPreload (environ : List Bytes) : List Bytes :=
  setenv equals environ ldPreload (withLibpseudo ((getenv equals environ ldPreload).getD [])) true

def pseudoSetupenv (i : Image) : Option Image :=
  (evaluated b fin i).bind fun i =>
    let environ := publish i.values (pseudoEnvKeys b.profiling) i.environ
    (pseudoGetLibdir b fin { i with environ := environ }).map fun r =>
      { r.2 with environ := setPreload (setLibraryPath r.1 environ) }

/-- `pseudo_dropenv`. -/
def dropPreload (environ : List Bytes) : List Bytes :=
  match pseudoDropenv (getenv equals environ ldPreload) with
  | some list => setenv equals environ ldPreload list true
  | none => environ

def pseudoHasUnload (i : Image) (envp : List Bytes) : Bool :=
  (getenv equals i.environ unloadKey).isSome || (i.values unloadKey).isSome ||
    (getenv equals envp unloadKey).isSome

/-! ## 3. The start of a program -/

/-- `0`, `f`, `F`, `n`, `N`, and `s` or `S` for local use only. -/
def actuallyDisabled (env : Bytes) : Bool :=
  !env.head?.any fun c => decide (c ∈ ascii ['0', 'f', 'F', 'n', 'N', 's', 'S'])

def readDisabled (i : Image) : Option Bytes × Image :=
  match getenv equals i.environ disabledKey with
  | some env => (some env, i)
  | none => pseudoGetValue b fin i disabledKey

def initDisabled (env : Option Bytes) (i : Image) : Image :=
  match env with
  | some env =>
    if actuallyDisabled env then
      pseudoSetValue { i with disabled := true } disabledKey (some (ascii ['1']))
    else
      -- "Re-read the initial values!"
      pseudoSetValue { i with disabled := false, inited := i.inited && !i.disabled } disabledKey
        (some (ascii ['0']))
  | none => pseudoSetValue i disabledKey (some (ascii ['0']))

def initAllowFsync (i : Image) : Image :=
  match getenv equals i.environ allowFsyncKey with
  | some env => pseudoSetValue i allowFsyncKey (some env)
  | none => (pseudoGetValue b fin i allowFsyncKey).2

/-- "we need to act as if unconditionally disabled" -/
def initUnload (i : Image) : Image :=
  match getenv equals i.environ unloadKey with
  | some env => { pseudoSetValue i unloadKey (some env) with disabled := true }
  | none => i

/-- "Ensure that all of the values are reset" -/
def initReset (i : Image) : Image := if i.inited then i else { i with chroot := none }

def initValues (i : Image) : Option Image :=
  (pseudoPrefixPath b fin none i).bind fun r =>
    (pseudoGetDir b fin localstatedirKey b.localstatedir r.2).map fun r =>
      let u := pseudoGetValue b fin (pseudoGetValue b fin r.2 nosymlinkexpKey).2 uidsKey
      let g := pseudoGetValue b fin u.2 gidsKey
      let c := pseudoGetValue b fin g.2 chrootKey
      let i := (pseudoGetValue b fin c.2 passwdKey).2
      { i with ids := pseudoInitClient ⟨u.1, g.1⟩ i.ids, chroot := c.1, inited := true }

/-- `pseudo_init_client`. -/
def initClient (i : Image) : Option Image :=
  let r := readDisabled b fin i
  let i := initReset (initUnload (initAllowFsync b fin (initDisabled r.1 r.2)))
  if i.disabled || i.inited then some i else initValues b fin i

/-- What the linker makes of the list. -/
def preloads (environ : List Bytes) : Bool :=
  match lastEntry prelinkLibraries environ with
  | some entry =>
    (Regex.regexec libpseudoPattern (entry.drop prelinkLibraries.length)).isSome
  | none => false

/-- A program with this environment. -/
def startProgram (environ : List Bytes) : Option Image :=
  let i : Image := ⟨environ, fun _ => none, false, false, Ids.zero, none, preloads environ⟩
  if i.loaded then initClient b fin (pseudoInitUtil b fin i) else some i

/-! ## 4. What a program does -/

/-- `wrap_fork`, in the child. -/
def wrapFork (i : Image) : Option Image :=
  (pseudoSetupenv b fin i).bind fun i =>
    if pseudoHasUnload i [] then some { i with environ := dropPreload i.environ }
    else initClient b fin (pseudoInitUtil b fin i)

/-- `wrap_system` and `wrap_popen`. -/
def wrapSystem (i : Image) : Option Image :=
  (pseudoSetupenv b fin i).map fun i =>
    if pseudoHasUnload i [] then { i with environ := dropPreload i.environ } else i

/-- `wrap_execv` and `wrap_execvp`, and the program that is started. -/
def wrapExecv (i : Image) : Option Image :=
  (wrapSystem b fin i).bind fun i => startProgram b fin i.environ

/-- `wrap_execve`, `wrap_posix_spawn` and `wrap_posix_spawnp`, and the program. -/
def wrapExecve (envp : Option (List Bytes)) (i : Image) : Option Image :=
  (evaluated b fin i).bind fun i =>
    (pseudoGetLibdir b fin i).bind fun r =>
      let newEnviron := setupEntries b.profiling r.1 r.2.values envp
      startProgram b fin (if pseudoHasUnload r.2 newEnviron then pseudoDropenvp newEnviron else newEnviron)

end Functions

/-- The wrapper works on the ids and publishes them. -/
def Image.idCall (call : IdCall) (i : Image) : Image :=
  let c : IdClient := ⟨i.ids, ⟨i.values uidsKey, i.values gidsKey⟩⟩
  let c := (c.call call).1
  pseudoSetValue (pseudoSetValue { i with ids := c.ids } uidsKey c.env.uids) gidsKey c.env.gids

/-- `pseudo_client_chroot`. -/
def Image.clientChroot (path : Bytes) (i : Image) : Image :=
  let chroot := if path = [slash] then none else some path
  pseudoSetValue { i with chroot := chroot } chrootKey chroot

inductive ImageEvent
  | ids (call : IdCall)
  | chroot (path : Bytes)
  /-- libpseudo asks for a value. -/
  | get (fin : Finalize) (key : Bytes)
  /-- The program's own calls. -/
  | setenv (name value : Bytes) (overwrite : Bool)
  | unsetenv (name : Bytes)
  | fork (fin : Finalize)
  | system (fin : Finalize)
  | execv (fin : Finalize)
  | execve (fin : Finalize) (envp : Option (List Bytes))

/-- `setenv` and `unsetenv` refuse other names. -/
def isName (name : Bytes) : Bool := name ≠ [] && equals ∉ name

/-- The next step of a line of programs, each forked or started by the last; none if it exits. -/
def Image.step (b : Build) (i : Image) (e : ImageEvent) : Option Image :=
  if i.loaded then
    match e with
    | .ids call => some (if i.disabled then i else i.idCall call)
    | .chroot path => some (if i.disabled then i else i.clientChroot path)
    | .get fin key =>
      some (if hasSlot b key then (pseudoGetValue b fin i key).2 else i)
    | .setenv name value overwrite =>
      some (if isName name then { i with environ := setenv equals i.environ name value overwrite }
        else i)
    | .unsetenv name =>
      some (if isName name then { i with environ := unsetenv equals i.environ name } else i)
    | .fork fin => wrapFork b fin i
    | .system fin => if i.disabled then some i else wrapSystem b fin i
    | .execv fin => wrapExecv b fin i
    | .execve fin envp => wrapExecve b fin envp i
  else none

end Pseudo
