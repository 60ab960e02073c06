import Mathlib.Data.List.Infix
import Pseudo.Message

/-!
# Canonical paths

`pseudo_append_element`, `pseudo_append_elements` and `pseudo_fix_path` of `pseudo_util.c`, and
their caller `base_path` in `pseudo_client.c`. Paths are C strings without their NUL. The buffer
`newpath` is written up to the cursor only, so it is the list of bytes before `*pcurrent`;
`root` and `allocated` are offsets into it. What lies below the root is never written.
-/

namespace Pseudo

/-- `PSEUDO_MAX_LINK_RECURSION`. -/
def maxLinkRecursion : Nat := 16

/-- `S_IFDIR`. -/
def sIfdir : BitVec 64 := 0o040000

/-- The real file system, as far as it is asked: `st_mode` by `lstat`, and the contents of a
symbolic link; `none` is a failure. -/
structure Fs where
  lstat : Bytes → Option (BitVec 64)
  readlink : Bytes → Option Bytes

/-- `lstat` into a buffer whose mode is zeroed on failure. -/
def Fs.mode (fs : Fs) (path : Bytes) : BitVec 64 := (fs.lstat path).getD 0

/-- The buffer up to the cursor, and `buf->st_mode`. -/
structure Walk where
  newpath : Bytes
  mode : BitVec 64
  deriving DecidableEq, Repr

/-- "Find the previous slash": the cursor moves back to it, but not below `root`. -/
def backtrack (root : Nat) (newpath : Bytes) : Bytes :=
  newpath.take root ++ (((newpath.drop root).reverse.dropWhile (· ≠ slash)).tail).reverse

/-- The elements that the loop of `pseudo_append_elements` takes off a path, cut at its slashes,
while fewer than `elen` bytes are consumed; the flag is set for one that ends with the
string. -/
def elements : Nat → List Bytes → List (Bytes × Bool)
  | 0, _ => []
  | _ + 1, [] => []
  | _ + 1, [s] => if s = [] then [] else [(s, true)]
  | n + 1, s :: rest => (s, false) :: elements (n - s.length) rest

/-- The cursor and the mode with which the contents of a link are appended: absolute contents go
back to the root, others to the end of the previous path. -/
def expandFrom (root : Nat) (w : Walk) (link : Bytes) : Walk :=
  { newpath := if link.head? = some slash then w.newpath.take root else w.newpath,
    mode := sIfdir }

/-- `pseudo_append_element`; `none` is -1. `expand` appends the contents of a link, and is not
there when `link_recursion` has reached its maximum. -/
def appendElement (fs : Fs) (root allocated pathMax : Nat)
    (expand : Option (Walk → Bytes → Option Walk)) (w : Walk) (element : Bytes)
    (leaveThis : Bool) : Option Walk :=
  let isDir := sIsdir w.mode
  -- ignore // or /./
  if isDir ∧ (element = [] ∨ element = [dot]) then some w
  else if isDir ∧ element = [dot, dot] then
    if w.newpath.length ≤ root then some w
    else some { w with newpath := backtrack root w.newpath }
  else if allocated < w.newpath.length + element.length + 3 then none
  else
    let newpath := w.newpath ++ slash :: element
    let mode := fs.mode newpath
    -- uses the "stale" is_dir for the file we were appending to
    if leaveThis = false ∧ isDir ∧ sIslnk mode then
      match expand, fs.readlink newpath with
      | some expand, some link =>
        let link := link.take pathMax
        expand (expandFrom root w link) link
      | _, _ => some { newpath := newpath, mode := mode }
    else some { newpath := newpath, mode := mode }

/-- What appending one element does: nothing, a step back, the contents of a link in place of
the element, or the element itself. -/
theorem appendElement_cases {fs : Fs} {root allocated pathMax : Nat}
    {expand : Option (Walk → Bytes → Option Walk)} {w w' : Walk} {element : Bytes}
    {leaveThis : Bool}
    (h : appendElement fs root allocated pathMax expand w element leaveThis = some w') :
    w' = w ∨ w' = { w with newpath := backtrack root w.newpath } ∨
      (∃ expand' link, expand = some expand' ∧
        fs.readlink (w.newpath ++ slash :: element) = some link ∧
        expand' (expandFrom root w (link.take pathMax)) (link.take pathMax) = some w') ∨
      w' = ⟨w.newpath ++ slash :: element, fs.mode (w.newpath ++ slash :: element)⟩ := by
  simp only [appendElement] at h
  split at h
  · exact .inl (Option.some.inj h).symm
  · split at h
    · split at h
      · exact .inl (Option.some.inj h).symm
      · exact .inr (.inl (Option.some.inj h).symm)
    · split at h
      · exact absurd h (by simp)
      · split at h
        · split at h
          · rename_i expand' link hlink
            exact .inr (.inr (.inl ⟨expand', link, rfl, hlink, h⟩))
          · exact .inr (.inr (.inr (Option.some.inj h).symm))
        · exact .inr (.inr (.inr (Option.some.inj h).symm))

/-- The loop of `pseudo_append_elements` over the elements. -/
def appendLoop (append : Walk → Bytes → Bool → Option Walk) (leaveLast : Bool) :
    List (Bytes × Bool) → Walk → Option Walk
  | [], w => some w
  | (element, last) :: rest, w =>
    match append w element (last && leaveLast) with
    | some w => appendLoop append leaveLast rest w
    | none => none

/-- `pseudo_append_elements` for the first `elen` bytes of `path`, where links may still nest
`depth` deep: `depth` is `PSEUDO_MAX_LINK_RECURSION - link_recursion`. -/
def appendElements (fs : Fs) (root allocated pathMax : Nat) :
    Nat → Walk → Bytes → Nat → Bool → Option Walk
  | 0, w, path, elen, leaveLast =>
    appendLoop (appendElement fs root allocated pathMax none) leaveLast
      (elements elen (path.splitOn slash)) w
  | depth + 1, w, path, elen, leaveLast =>
    let expand (w : Walk) (link : Bytes) : Option Walk :=
      appendElements fs root allocated pathMax depth w link link.length false
    appendLoop (appendElement fs root allocated pathMax (some expand)) leaveLast
      (elements elen (path.splitOn slash)) w

/-- What a function that returns a path gives back: a null pointer, its own argument, a path
that is recorded for a file descriptor, or a path it built. -/
inductive Fixed
  | null
  | same
  | recorded (path : Bytes)
  | built (path : Bytes)
  deriving DecidableEq, Repr

/-- The path without its trailing slashes. -/
def trimSlashes (path : Bytes) : Bytes := (path.reverse.dropWhile (· = slash)).reverse

/-- A length of 1 is that of `/`. -/
def skipSlash (len : Nat) : Nat := if len = 1 then 0 else len

/-- The buffer that `path` is appended to: the base, unless the path is absolute and there is no
root. -/
def startPath (base path : Bytes) (rootlen baselen : Nat) : Bytes :=
  if baselen ≠ 0 ∧ (path.head? ≠ some slash ∨ rootlen ≠ 0) then base.take baselen else []

/-- `pseudo_fix_path`; `newpathlen` is `pathMax`. -/
def pseudoFixPath (fs : Fs) (pathMax : Nat) (base path : Bytes) (rootlen baselen : Nat)
    (leaveLast : Bool) : Fixed :=
  let baselen := skipSlash baselen
  let rootlen := skipSlash rootlen
  if pathMax ≤ path.length + baselen then .same
  else
    let pathlen := (trimSlashes path).length
    let trailingSlash := pathlen < path.length
    let start := startPath base path rootlen baselen
    let mode := if rootlen < start.length then fs.mode start else sIfdir
    match appendElements fs rootlen pathMax pathMax maxLinkRecursion ⟨start, mode⟩ path pathlen
      leaveLast with
    | none => .null
    | some w =>
      if (w.newpath.length = rootlen ∨ trailingSlash) ∧ w.newpath.length < pathMax then
        .built (w.newpath ++ [slash])
      else .built w.newpath

/-! ## The client's base directory -/

/-- The client's `pseudo_cwd`, `pseudo_chroot` (empty when there is none), `fd_paths` and
`pseudo_nosymlinkexp`. -/
structure Client where
  cwd : Option Bytes
  chroot : Bytes
  fdPaths : List (Option Bytes)
  nosymlinkexp : Bool

/-- `AT_FDCWD`. -/
def atFdcwd : Int := -100

def Client.fdPath (client : Client) (fd : Int) : Option Bytes :=
  if 0 ≤ fd ∧ fd < client.fdPaths.length then (client.fdPaths[fd.toNat]?).join
  else if fd = atFdcwd then client.cwd
  else none

/-- The directory that a relative path starts from. -/
def Client.baseDir (client : Client) (dirfd : Int) : Option Bytes :=
  if dirfd ≠ -1 ∧ dirfd ≠ atFdcwd then (if 0 ≤ dirfd then client.fdPath dirfd else none)
  else client.cwd

/-- The chroot path is there and is the start of `path`: equal to it or followed by a slash. -/
def Client.inChroot (client : Client) (path : Bytes) : Bool :=
  client.chroot ≠ [] && client.chroot.isPrefixOf path &&
    ((path.drop client.chroot.length).head? == none ||
      (path.drop client.chroot.length).head? == some slash)

/-- `base_path`. An empty path without a descriptor is returned as it is. -/
def basePath (fs : Fs) (pathMax : Nat) (client : Client) (dirfd : Int) (path : Bytes)
    (leaveLast : Bool) : Fixed :=
  if path = [] then
    if dirfd ≠ -1 ∧ dirfd ≠ atFdcwd then
      match client.fdPath dirfd with
      | none => .null
      | some path => .recorded path
    else .same
  else if path.head? ≠ some slash then
    match client.baseDir dirfd with
    | none => .null
    | some base =>
      let minlen := if client.inChroot base then client.chroot.length else 0
      pseudoFixPath fs pathMax base path minlen base.length leaveLast
  else if client.chroot ≠ [] then
    pseudoFixPath fs pathMax client.chroot path client.chroot.length client.chroot.length leaveLast
  else pseudoFixPath fs pathMax [] path 0 0 leaveLast

end Pseudo
