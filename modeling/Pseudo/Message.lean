import Mathlib.Algebra.Group.Int.Defs
import Mathlib.Algebra.Group.Nat.Defs
import Mathlib.Data.List.TakeWhile

/-!
# Messages between client and server

`pseudo_ipc.h` and the tables in `enums/`: operations, message types, results, the message
header and a received message. Integers have the width of the C types on a 64-bit host; a
path is the bytes behind the header, and the C string in it ends at its first NUL.
-/

namespace Pseudo

abbrev Byte := UInt8
abbrev Bytes := List UInt8

/-- `'/'`. -/
def slash : Byte := 47

/-- `'0'`, the character after `'/'`. -/
def zeroDigit : Byte := 48

/-- `'.'`. -/
def dot : Byte := 46

/-- The bytes of an ASCII text. -/
def ascii (s : List Char) : Bytes := s.map Char.toUInt8

/-- The C string at the start of a buffer. -/
def cstr (b : Bytes) : Bytes := b.takeWhile (· ≠ 0)

/-- A C string holds no NUL byte. -/
def IsCString (s : Bytes) : Prop := 0 ∉ s

instance (s : Bytes) : Decidable (IsCString s) := inferInstanceAs (Decidable (0 ∉ s))

theorem cstr_append_nul {s : Bytes} (h : IsCString s) (b : Bytes) : cstr (s ++ 0 :: b) = s := by
  unfold cstr
  rw [List.takeWhile_append_of_pos]
  · simp
  · intro c hc
    have : c ≠ 0 := fun h0 => h (h0 ▸ hc)
    simpa using this

/-- `size_t` subtraction. -/
def subSize (a b : Nat) : Nat := (a + 2 ^ 64 - b) % 2 ^ 64

theorem subSize_of_le {a b : Nat} (h : b ≤ a) (ha : a < 2 ^ 64) : subSize a b = a - b := by
  unfold subSize
  omega

/-- `pseudo_op_t` (`enums/op.in`). A message may carry any other number as well. -/
inductive Op
  | none | chdir | chmod | chown | chroot | close | creat | dup | fchmod | fchown | fstat | link
  | mkdir | mknod | «open» | rename | stat | unlink | symlink | exec | mayUnlink | didUnlink
  | cancelUnlink | getXattr | listXattr | removeXattr | setXattr | createXattr | replaceXattr
  | closefrom
  | other (n : Int)
  deriving DecidableEq, Repr

/-- `pseudo_msg_type_t` (`enums/msg_type.in`). -/
inductive MsgType
  | none | ping | shutdown | op | ack | nak | fastop
  deriving DecidableEq, Repr

/-- `pseudo_res_t` (`enums/res.in`). -/
inductive Res
  | none | succeed | fail | error | abort
  deriving DecidableEq, Repr

/-- `pseudo_msg_t` up to its `path`. -/
structure MsgHeader where
  type : MsgType
  op : Op
  result : Res
  access : BitVec 32
  client : BitVec 32
  fd : BitVec 32
  dev : BitVec 64
  ino : BitVec 64
  uid : BitVec 32
  gid : BitVec 32
  mode : BitVec 64
  rdev : BitVec 64
  pathlen : Nat
  nlink : BitVec 32
  deleting : BitVec 32
  deriving DecidableEq, Repr

/-- `{ .op = 0 }`: the header with every field zero. -/
def MsgHeader.zero : MsgHeader :=
  { type := .none, op := .none, result := .none, access := 0, client := 0, fd := 0, dev := 0,
    ino := 0, uid := 0, gid := 0, mode := 0, rdev := 0, pathlen := 0, nlink := 0, deleting := 0 }

/-- A message as `pseudo_msg_receive` hands it on: `pathlen` bytes behind the header, and
behind them what earlier messages left in the receive buffer. Clients count the terminating
NUL (`strlen(path) + 1`, or the length of a packed buffer whose last byte is NUL), so a path
that is there ends in NUL. -/
structure PseudoMsg where
  hdr : MsgHeader
  path : Bytes
  leftover : Bytes
  path_length : path.length = hdr.pathlen
  path_nul : path ≠ [] → path.getLast? = some 0
  deriving DecidableEq

/-- The receive buffer from `msg->path` on. A received path is terminated once more. -/
def PseudoMsg.buffer (m : PseudoMsg) : Bytes :=
  if m.path = [] then m.leftover else m.path ++ 0 :: m.leftover

/-- A message with the plain path `p`. -/
def PseudoMsg.plain (hdr : MsgHeader) (p : Bytes) : PseudoMsg where
  hdr := { hdr with pathlen := p.length + 1 }
  path := p ++ [0]
  leftover := []
  path_length := by simp
  path_nul := by simp

/-- A message with two packed strings, the layout of `OP_RENAME` and the xattr operations. -/
def PseudoMsg.packed (hdr : MsgHeader) (p extra : Bytes) : PseudoMsg where
  hdr := { hdr with pathlen := (p ++ 0 :: extra ++ [0]).length }
  path := p ++ 0 :: extra ++ [0]
  leftover := []
  path_length := rfl
  path_nul := by
    intro _
    rw [List.getLast?_append]
    rfl

/-! ## File modes -/

/-- `S_IFMT`. -/
def sIfmt : BitVec 64 := 0o170000

/-- `S_ISDIR`. -/
def sIsdir (mode : BitVec 64) : Bool := mode &&& sIfmt == 0o040000

/-- `S_ISLNK`. -/
def sIslnk (mode : BitVec 64) : Bool := mode &&& sIfmt == 0o120000

end Pseudo
