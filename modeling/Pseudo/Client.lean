import Pseudo.Library.Run
import Pseudo.Message

/-!
# Client requests: `pseudo_client_op`

`pseudo_client.c` in the build without `PSEUDO_XATTRDB`: the tables of open files that the
client keeps, the packing of the paths, and the dispatch that decides what is sent. The answer
of the server is left to the caller. The profiling code and the debugging output are left out;
so is what `OP_CHDIR`, `OP_CHROOT` and `OP_CLOSE` do to the rest of the client's state.
-/

namespace Pseudo

/-! ## The tables of open files -/

/-- `fd_paths` and `linked_fd_paths`; their lengths are `nfds` and `linked_nfds`. -/
structure FdTables where
  fdPaths : List (Option Bytes)
  linkedFdPaths : List (Option Bytes)
  deriving DecidableEq, Repr

/-- The entry of a descriptor that is in the table. -/
def pathOf (t : List (Option Bytes)) (fd : Nat) : Option Bytes := t[fd]?.getD none

/-- `fd_path`; `AT_FDCWD`, which stands for `pseudo_cwd`, is -100. -/
def fdPath (cwd : Option Bytes) (t : FdTables) (fd : Int) : Option Bytes :=
  if 0 ≤ fd then pathOf t.fdPaths fd.toNat else if fd = -100 then cwd else none

def pseudoClientPathSet (t : List (Option Bytes)) (fd : Int) (path : Option Bytes) :
    List (Option Bytes) :=
  if fd < 0 then t
  else if t.length ≤ fd.toNat then
    (t ++ List.replicate (fd.toNat + 1 - t.length) none).set fd.toNat path
  else t.set fd.toNat path

def pseudoClientPath (t : FdTables) (fd : Int) (path : Option Bytes) : FdTables :=
  { t with fdPaths := pseudoClientPathSet t.fdPaths fd path }

/-- `for (fd = lo; fd < hi; ++fd)`. -/
def forFds {σ : Type} (lo hi : Nat) (body : σ → Nat → σ) (s : σ) : σ :=
  Run.run body s (List.range' lo (hi - lo))

def pseudoClientLinkedPaths (t : FdTables) (oldpath newpath : Bytes) : FdTables :=
  let linked (ps : List (Option Bytes)) (fd : Nat) : List (Option Bytes) :=
    if pathOf t.fdPaths fd = some oldpath then pseudoClientPathSet ps fd (some newpath) else ps
  { t with linkedFdPaths := forFds 3 t.fdPaths.length linked t.linkedFdPaths }

def pseudoClientRenamePath (t : FdTables) (oldpath newpath : Bytes) : FdTables :=
  let renamed (ps : List (Option Bytes)) (fd : Nat) : List (Option Bytes) :=
    if pathOf ps fd = some oldpath then pseudoClientPathSet ps fd (some newpath) else ps
  let fdPaths := forFds 3 t.fdPaths.length renamed t.fdPaths
  let relinked (ps : List (Option Bytes)) (fd : Nat) : List (Option Bytes) :=
    if (pathOf fdPaths fd).isSome ∧ pathOf ps fd = some oldpath then
      pseudoClientPathSet ps fd (some newpath)
    else ps
  { fdPaths := fdPaths
    linkedFdPaths := forFds 0 t.linkedFdPaths.length relinked t.linkedFdPaths }

def pseudoClientUnlinkedPath (t : FdTables) (path : Bytes) : FdTables :=
  let unlinked (ps : List (Option Bytes)) (fd : Nat) : List (Option Bytes) :=
    if (pathOf t.linkedFdPaths fd).isSome ∧ pathOf ps fd = some path then
      pseudoClientPathSet ps fd (pathOf t.linkedFdPaths fd)
    else ps
  { t with fdPaths := forFds 0 t.linkedFdPaths.length unlinked t.fdPaths }

def pseudoClientClose (t : FdTables) (fd : Int) : FdTables :=
  if fd < 0 ∨ t.fdPaths.length ≤ fd.toNat then t
  else
    { fdPaths := t.fdPaths.set fd.toNat none
      linkedFdPaths := t.linkedFdPaths.set fd.toNat none }

def pseudoClientClosefrom (t : FdTables) (fd : Int) : FdTables :=
  if fd < 0 ∨ t.fdPaths.length ≤ fd.toNat then t
  else forFds fd.toNat t.fdPaths.length (fun t i => pseudoClientClose t i) t

/-! ## A call of `pseudo_client_op` -/

/-- `struct stat64`, as far as it is read. -/
structure StatBuf where
  dev : BitVec 64
  ino : BitVec 64
  uid : BitVec 32
  gid : BitVec 32
  mode : BitVec 32
  rdev : BitVec 64
  nlink : BitVec 64
  deriving DecidableEq, Repr

/-- What the client knows besides its tables: its process id, the emulated filesystem ids,
`PSEUDO_IGNORE_PATHS`, the descriptors pseudo keeps for itself (in the order `OP_CLOSEFROM`
looks at them), `pseudo_client_logging`, `pseudo_local_only` and `pseudo_cwd`. -/
structure ClientEnv where
  pid : BitVec 32
  fuid : BitVec 32
  fgid : BitVec 32
  ignorePaths : Option Bytes
  ownFds : List Int
  logging : Bool
  localOnly : Bool
  cwd : Option Bytes := none
  deriving DecidableEq, Repr

/-- The arguments of `pseudo_client_op`. The variadic ones are a C string (the old path, or the
name of an attribute) and the bytes of a value. -/
structure ClientCall where
  op : Op
  access : BitVec 32 := 0
  fd : Int := -1
  dirfd : Int := -1
  path : Option Bytes
  buf : Option StatBuf
  extra1 : Option Bytes := none
  extra2 : Option Bytes := none
  deriving DecidableEq, Repr

/-- The parts of a string between commas. -/
def splitCommas (env : Bytes) : List Bytes := env.splitOn 44

/-- `pseudo_client_ignore_path_chroot(path, 0)`. -/
def pseudoClientIgnorePath (env : ClientEnv) (path : Option Bytes) : Bool :=
  match path, env.ignorePaths with
  | some path, some ignored => (splitCommas ignored).any fun p => p ≠ [] && p.isPrefixOf path
  | _, _ => false

/-- The operations that are not subject to `PSEUDO_IGNORE_PATHS`. -/
def Op.neverIgnored : Op → Bool
  | .chroot | .chdir | .close | .closefrom | .dup => true
  | _ => false

/-- `pseudo_op_wait`. -/
def Op.waits : Op → Bool
  | .fstat | .mknod | .stat | .mayUnlink | .getXattr | .listXattr | .removeXattr | .createXattr
  | .replaceXattr => true
  | _ => false

/-- "/ in chroot should not have that trailing /". -/
def stripSlash (path : Bytes) : Bool := 1 < path.length && path.getLast? == some slash

/-- The combined path buffer. -/
def packPaths (path extra1 : Bytes) (extra2 : Option Bytes) : Bytes :=
  let partialPath := if stripSlash path then path.dropLast else path
  partialPath ++ 0 :: extra1 ++ 0 :: (match extra2 with
    | some value => value ++ [0]
    | none => [])

/-- What is sent behind a header: nothing, or bytes that end in a NUL. -/
abbrev SentPath := { b : Bytes // b ≠ [] → b.getLast? = some 0 }

theorem packPaths_nul (path extra1 : Bytes) (extra2 : Option Bytes) :
    (packPaths path extra1 extra2).getLast? = some 0 := by
  cases extra2 <;> simp [packPaths, List.getLast?_append, List.getLast?_cons]

/-- The bytes that are sent for the path, and that the dispatch sees up to their first NUL.
Without a path the length of a combined buffer wraps around and the copying runs off. -/
def sentPath (path : Option Bytes) (extra1 extra2 : Option Bytes) : Option SentPath :=
  match path, extra1 with
  | none, none => some ⟨[], by simp⟩
  | none, some _ => none
  | some path, some extra1 =>
    some ⟨packPaths path extra1 extra2, fun _ => packPaths_nul path extra1 extra2⟩
  | some path, none =>
    some ⟨if stripSlash path then path.dropLast ++ [0, 0] else path ++ [0], by split <;> simp⟩

/-- `pseudo_msg_stat`. -/
def MsgHeader.stat (msg : MsgHeader) (buf : StatBuf) : MsgHeader :=
  { msg with uid := buf.uid, gid := buf.gid, dev := buf.dev, ino := buf.ino,
             mode := buf.mode.setWidth 64, rdev := buf.rdev, nlink := buf.nlink.setWidth 32 }

/-- The operations for which the magic uid and gid are sent. -/
def Op.usesMagicIds : Op → Bool
  | .chmod | .creat | .fchmod | .mkdir | .mknod | .symlink => true
  | _ => false

/-- The dispatch: whether a request is sent. -/
def doRequest (env : ClientEnv) : Op → Bool
  | .open | .exec => env.logging
  | .unlink | .didUnlink => true
  | .chmod | .creat | .fchmod | .mkdir | .mknod | .symlink => true
  | .chown | .fchown | .fstat | .link | .stat | .cancelUnlink | .mayUnlink | .getXattr
  | .listXattr | .setXattr | .removeXattr => true
  | .rename => true
  -- handled by the client alone, or "unknown or unimplemented operator"
  | _ => false

/-- "tell the caller to close from startfd instead of fd". -/
def closefromStart (env : ClientEnv) (fd : Int) : Int :=
  env.ownFds.foldl (fun startfd own => if startfd < own then own + 1 else startfd) fd

/-- The dispatch: what happens to the tables. -/
def dispatchTables (env : ClientEnv) (t : FdTables) (call : ClientCall) (sent : Bytes) : FdTables :=
  match call.op with
  | .open => pseudoClientPath t call.fd (some (cstr sent))
  | .dup => pseudoClientPath t call.dirfd (fdPath env.cwd t call.fd)
  | .close => pseudoClientClose t call.fd
  | .closefrom =>
    let start := closefromStart env call.fd
    let closed :=
      forFds call.fd.toNat start.toNat (fun t (i : Nat) =>
        if (i : Int) ∈ env.ownFds then t else pseudoClientClose t i) t
    pseudoClientClosefrom closed start
  | .unlink | .didUnlink => pseudoClientUnlinkedPath t (cstr sent)
  | .rename => pseudoClientRenamePath t (call.extra1.getD []) (cstr sent)
  | _ => t

/-- The header of the request. -/
def clientHeader (env : ClientEnv) (call : ClientCall) (sent : Bytes) : MsgHeader :=
  let msg := { MsgHeader.zero with type := if call.op.waits then .op else .fastop, op := call.op,
                                   access := call.access, client := env.pid,
                                   fd := BitVec.ofInt 32 call.fd, pathlen := sent.length }
  let msg := match call.buf with
    | some buf => msg.stat buf
    | none => msg
  if call.op.usesMagicIds then { msg with uid := env.fuid, gid := env.fgid } else msg

theorem clientHeader_pathlen (env : ClientEnv) (call : ClientCall) (sent : Bytes) :
    (clientHeader env call sent).pathlen = sent.length := by
  unfold clientHeader
  dsimp only
  cases call.buf with
  | none => split <;> rfl
  | some buf => split <;> rfl

/-- A request: `pseudo_msg_send` sends `pathlen` bytes behind the header. -/
structure ClientRequest where
  hdr : MsgHeader
  path : Bytes
  path_length : path.length = hdr.pathlen
  path_nul : path ≠ [] → path.getLast? = some 0

/-- The message as the server receives it. -/
def ClientRequest.received (r : ClientRequest) (leftover : Bytes) : PseudoMsg :=
  ⟨r.hdr, r.path, leftover, r.path_length, r.path_nul⟩

def clientRequest (env : ClientEnv) (call : ClientCall) (sent : SentPath) : ClientRequest where
  hdr := clientHeader env call sent.1
  path := sent.1
  path_length := (clientHeader_pathlen env call sent.1).symm
  path_nul := sent.2

/-- What a call leaves: the tables, and the request it sends, if any. -/
structure ClientStep where
  tables : FdTables
  request : Option ClientRequest

/-- The path is found through the descriptor when the caller has none. -/
def callPath (t : FdTables) (call : ClientCall) : Option Bytes :=
  match call.path with
  | some path => some path
  | none => if 0 ≤ call.fd ∧ call.fd ≤ t.fdPaths.length then pathOf t.fdPaths call.fd.toNat else none

/-- No step is left when the client runs into undefined behaviour. -/
def pseudoClientOp (env : ClientEnv) (t : FdTables) (call : ClientCall) : Option ClientStep :=
  let path := callPath t call
  if ¬ call.op.neverIgnored ∧ pseudoClientIgnorePath env path then
    match call.op with
    | .open =>
      let path := path.map fun p => if 2 < p.length ∧ stripSlash p then p.dropLast else p
      some ⟨pseudoClientPath t call.fd path, none⟩
    | _ => some ⟨t, none⟩
  else if call.op = .rename ∧ (path = none ∨ call.extra1 = none) then some ⟨t, none⟩
  else
    (sentPath path call.extra1 call.extra2).map fun sent =>
      { tables := dispatchTables env t call sent.1
        request :=
          if doRequest env call.op ∧ ¬ env.localOnly then some (clientRequest env call sent)
          else none }

/-- A client that ignores no paths, and the attributes of some file. -/
def exEnv : ClientEnv :=
  { pid := 7, fuid := 0, fgid := 0, ignorePaths := none, ownFds := [], logging := false,
    localOnly := false }

def exBuf : StatBuf :=
  { dev := 1, ino := 5, uid := 0, gid := 0, mode := 0o100644, rdev := 0, nlink := 1 }

end Pseudo
