import Mathlib.Data.List.Basic
import Pseudo.Library.Codec
import Pseudo.Message

/-!
# Access control lists as modes

`posix_permissions` of the Linux port or-s the permissions of an access control list into a mode,
and `shared_setxattr` of `system.posix_acl_access` makes a chmod of it. A permission has three bits;
the field it is read from has sixteen.

Results:
1. `getLsbD_orBits`: the bits of the mode are those of the permissions, moved to their positions.
2. `posixPermissions_iff`: when the mode stands for the list.
3. `setxattrAclAccess_iff`: when the chmod gives a file no set-id or sticky bit that it had not.
-/

namespace Pseudo

/-! ## 1. The code -/

/-- `acl_entry`, in the byte order of the host. -/
structure AclEntry where
  tag : BitVec 16
  perm : BitVec 16
  id : BitVec 32
  deriving DecidableEq, Repr

/-- `ACL_USER_OBJ`, … -/
def aclUserObj : BitVec 16 := 0x1
def aclUser : BitVec 16 := 0x2
def aclGroupObj : BitVec 16 := 0x4
def aclGroup : BitVec 16 := 0x8
def aclMask : BitVec 16 := 0x10
def aclOther : BitVec 16 := 0x20

/-- What `posix_permissions` returns: -1 for another version, 1 for an unknown tag, or 0, with
`*mode` and `*extra`. -/
inductive AclResult
  | otherVersion
  | unknownTag
  | ok (mode : BitVec 32) (extra : Nat)
  deriving DecidableEq, Repr

/-- The loop of `posix_permissions`. -/
def permissionsLoop : List AclEntry → BitVec 32 → Nat → AclResult
  | [], mode, extra => .ok mode extra
  | e :: entries, mode, extra =>
    let perm := e.perm.setWidth 32
    if e.tag = aclUserObj then permissionsLoop entries (mode ||| perm <<< 6) extra
    else if e.tag = aclGroupObj then permissionsLoop entries (mode ||| perm <<< 3) extra
    else if e.tag = aclOther then permissionsLoop entries (mode ||| perm) extra
    else if e.tag = aclUser ∨ e.tag = aclGroup ∨ e.tag = aclMask then
      permissionsLoop entries mode (extra + 1)
    else .unknownTag

def posixPermissions (version : BitVec 32) (entries : List AclEntry) : AclResult :=
  if version ≠ 2 then .otherVersion else permissionsLoop entries 0 0

/-- `get_special_bits`; `none` is a file that `lstat64` or `fstat64` fails for. -/
def getSpecialBits (stMode : Option (BitVec 32)) : BitVec 32 :=
  match stMode with
  | none => -1
  | some mode => mode &&& 0o7000

/-- The version in a header. -/
def aclVersion (value : Bytes) : BitVec 32 := BitVec.ofNat 32 (Codec.value 4 value)

/-- Some entries, from the bytes they are in. -/
def readEntries : Nat → Bytes → List AclEntry
  | 0, _ => []
  | n + 1, bytes =>
    { tag := BitVec.ofNat 16 (Codec.value 2 bytes)
      perm := BitVec.ofNat 16 (Codec.value 2 (bytes.drop 2))
      id := BitVec.ofNat 32 (Codec.value 4 (bytes.drop 4)) } :: readEntries n (bytes.drop 8)

/-- `int entries`, when it is the bound of a loop. -/
def entryCount (size : Nat) : Nat := (BitVec.ofNat 32 ((size - 4) / 8)).toInt.toNat

/-- The entries that the loop comes to. -/
def aclEntries (value : Bytes) : List AclEntry :=
  readEntries (entryCount value.length) (value.drop 4)

/-- The numbers that `errno` is set to. -/
inductive AclErrno
  | einval
  | eopnotsupp
  deriving DecidableEq, Repr

/-- What `shared_setxattr` does before it gets to the attribute itself: the mode that `wrap_chmod`
or `wrap_fchmod` is called with, and, when it is done, the return code and `errno`. -/
structure AclStep where
  chmod : Option (BitVec 32)
  returned : Option (Int × Option AclErrno)
  deriving DecidableEq, Repr

/-- `shared_setxattr` of `system.posix_acl_access`. `known`: `base_lstat` or `base_fstat` finds the
file; `stMode`: what `get_special_bits` finds. -/
def setxattrAclAccess (known : Bool) (stMode : Option (BitVec 32)) (value : Bytes) : AclStep :=
  if known = false then ⟨none, some (-1, none)⟩
  -- ACL is corrupt, issue an error
  else if value.length < 4 ∨ (value.length - 4) % 8 ≠ 0 then ⟨none, some (-1, some .einval)⟩
  -- ACL is empty, do nothing
  else if (value.length - 4) / 8 = 0 then ⟨none, some (0, none)⟩
  else
    match posixPermissions (aclVersion value) (aclEntries value) with
    | .ok mode extra =>
      ⟨some (mode ||| getSpecialBits stMode), if extra = 0 then some (0, none) else none⟩
    | .otherVersion => ⟨none, some (-1, some .eopnotsupp)⟩
    | .unknownTag => ⟨none, none⟩

/-! ## 2. What the list stands for -/

/-- Where the permissions of the file's user, of its group and of others are in a mode. -/
def AclEntry.position (e : AclEntry) : Option Nat :=
  if e.tag = aclUserObj then some 6
  else if e.tag = aclGroupObj then some 3
  else if e.tag = aclOther then some 0
  else none

/-- A named user or group, or a mask. -/
def AclEntry.Named (e : AclEntry) : Prop := e.tag = aclUser ∨ e.tag = aclGroup ∨ e.tag = aclMask

instance (e : AclEntry) : Decidable e.Named := inferInstanceAs (Decidable (_ ∨ _ ∨ _))

def AclEntry.Known (e : AclEntry) : Prop := e.position ≠ none ∨ e.Named

instance (e : AclEntry) : Decidable e.Known := inferInstanceAs (Decidable (_ ∨ _))

/-- The permission in its position. -/
def AclEntry.bits (e : AclEntry) : BitVec 32 :=
  match e.position with
  | some shift => e.perm.setWidth 32 <<< shift
  | none => 0

/-- A mode for the whole list. -/
structure StandsFor (entries : List AclEntry) (mode : BitVec 32) (extra : Nat) : Prop where
  known : ∀ e ∈ entries, e.Known
  within : mode &&& ~~~ 0o777 = 0
  union : ∀ i, mode.getLsbD i = true ↔ ∃ e ∈ entries, e.bits.getLsbD i = true
  named : extra ≠ 0 ↔ ∃ e ∈ entries, e.Named

/-- The permission, in its position, has no bit above the nine of a mode. -/
def AclEntry.Fits (e : AclEntry) : Prop :=
  ∀ shift ∈ e.position, e.perm.toNat < 2 ^ (9 - shift)

/-- A chmod with no set-id or sticky bit but the file's. -/
def KeepsSpecialBits (stMode : Option (BitVec 32)) (step : AclStep) : Prop :=
  ∀ mode ∈ step.chmod, mode &&& 0o7000 &&& ~~~ stMode.getD 0 = 0

/-- `shared_setxattr` gets to its chmod. -/
structure ReachesChmod (known : Bool) (value : Bytes) : Prop where
  found : known = true
  header : 4 ≤ value.length
  whole : (value.length - 4) % 8 = 0
  nonempty : (value.length - 4) / 8 ≠ 0
  version : aclVersion value = 2
  tags : ∀ e ∈ aclEntries value, e.Known

namespace AclModeLemmas

/-! ## 3. The loop -/

/-- All permissions in their positions. -/
def orBits : List AclEntry → BitVec 32
  | [] => 0
  | e :: entries => e.bits ||| orBits entries

/-- The bits of the mode are those of the permissions. -/
theorem getLsbD_orBits (entries : List AclEntry) (i : Nat) :
    (orBits entries).getLsbD i = true ↔ ∃ e ∈ entries, e.bits.getLsbD i = true := by
  induction entries with
  | nil => simp [orBits]
  | cons e entries ih => simp [orBits, ih]

/-- Bits that no permission has are not in the mode. -/
theorem orBits_and_eq_zero_iff (entries : List AclEntry) (m : BitVec 32) :
    orBits entries &&& m = 0 ↔ ∀ e ∈ entries, e.bits &&& m = 0 := by
  induction entries with
  | nil => simp [orBits]
  | cons e entries ih =>
    have hdist : (e.bits ||| orBits entries) &&& m = (e.bits &&& m) ||| (orBits entries &&& m) :=
      BitVec.and_or_distrib_right
    rw [orBits, hdist, List.forall_mem_cons, ← ih]
    exact BitVec.or_eq_zero_iff

/-- One entry with a known tag. -/
theorem permissionsLoop_known {e : AclEntry} (h : e.Known) (entries : List AclEntry)
    (mode : BitVec 32) (extra : Nat) :
    permissionsLoop (e :: entries) mode extra =
      permissionsLoop entries (mode ||| e.bits) (extra + if e.Named then 1 else 0) := by
  obtain ⟨tag, perm, id⟩ := e
  have hcases : tag = aclUserObj ∨ tag = aclGroupObj ∨ tag = aclOther ∨ tag = aclUser ∨
      tag = aclGroup ∨ tag = aclMask := by
    rcases h with h | h
    · by_contra hno
      simp only [not_or] at hno
      simp [AclEntry.position, hno] at h
    · exact Or.inr (Or.inr (Or.inr h))
  rcases hcases with rfl | rfl | rfl | rfl | rfl | rfl <;>
    simp [permissionsLoop, AclEntry.bits, AclEntry.position, AclEntry.Named, aclUserObj,
      aclGroupObj, aclOther, aclUser, aclGroup, aclMask]

theorem permissionsLoop_unknown {e : AclEntry} (h : ¬ e.Known) (entries : List AclEntry)
    (mode : BitVec 32) (extra : Nat) :
    permissionsLoop (e :: entries) mode extra = .unknownTag := by
  obtain ⟨tag, perm, id⟩ := e
  simp only [AclEntry.Known, AclEntry.Named, not_or, not_not] at h
  obtain ⟨hposition, huser, hgroup, hmask⟩ := h
  have hobj : tag ≠ aclUserObj ∧ tag ≠ aclGroupObj ∧ tag ≠ aclOther := by
    refine ⟨?_, ?_, ?_⟩ <;> rintro rfl <;>
      simp [AclEntry.position, aclUserObj, aclGroupObj, aclOther] at hposition
  simp [permissionsLoop, hobj, huser, hgroup, hmask]

/-- The loop or-s everything and counts the named entries, if all tags are known. -/
theorem permissionsLoop_eq (entries : List AclEntry) (mode : BitVec 32) (extra : Nat) :
    permissionsLoop entries mode extra =
      if ∀ e ∈ entries, e.Known then
        .ok (mode ||| orBits entries) (extra + entries.countP fun e => e.Named)
      else .unknownTag := by
  induction entries generalizing mode extra with
  | nil =>
    rw [if_pos fun _ he => (by cases he), orBits]
    simp [permissionsLoop]
  | cons e entries ih =>
    by_cases he : e.Known
    · rw [permissionsLoop_known he, ih, orBits]
      simp only [List.forall_mem_cons, he, true_and, List.countP_cons, decide_eq_true_eq,
        BitVec.or_assoc, Nat.add_assoc, Nat.add_comm (entries.countP _)]
    · rw [permissionsLoop_unknown he, if_neg fun h => he (h e List.mem_cons_self)]

theorem posixPermissions_two (entries : List AclEntry) :
    posixPermissions 2 entries =
      if ∀ e ∈ entries, e.Known then
        .ok (orBits entries) (entries.countP fun e => e.Named)
      else .unknownTag := by
  have h := permissionsLoop_eq entries 0#32 0
  rw [BitVec.zero_or, Nat.zero_add] at h
  exact h

theorem position_le {e : AclEntry} {shift : Nat} (h : e.position = some shift) : shift ≤ 6 := by
  unfold AclEntry.position at h
  split at h
  · cases h; decide
  · split at h
    · cases h; decide
    · split at h <;> cases h; decide

theorem getLsbD_above (i : Nat) : (~~~ 0o777#32).getLsbD i = decide (9 ≤ i ∧ i < 32) := by
  have h : (0o777#32).getLsbD i = decide (i < 9) := by
    rw [BitVec.getLsbD_ofNat, show 0o777 = 2 ^ 9 - 1 from rfl, Nat.testBit_two_pow_sub_one]
    by_cases hi : i < 32
    · simp [hi]
    · simp [hi]; omega
  rw [BitVec.getLsbD_not, h, ← decide_not, ← Bool.decide_and]
  exact decide_eq_decide.mpr (by omega)

/-- Small permissions have no bit above the nine of a mode. -/
theorem shifted_within_iff (perm : BitVec 16) {shift : Nat} (h : shift ≤ 6) :
    perm.setWidth 32 <<< shift &&& ~~~ 0o777 = 0 ↔ perm.toNat < 2 ^ (9 - shift) := by
  constructor
  · intro hzero
    refine Nat.lt_pow_two_of_testBit _ fun i hi => ?_
    have hbit : (perm.setWidth 32 <<< shift &&& ~~~ 0o777#32).getLsbD (i + shift) = false := by
      rw [show perm.setWidth 32 <<< shift &&& ~~~ 0o777#32 = 0#32 from hzero, BitVec.getLsbD_zero]
    by_cases hlt : i < 16
    · rw [BitVec.getLsbD_and, getLsbD_above, BitVec.getLsbD_shiftLeft] at hbit
      have h1 : i + shift < 32 := by omega
      have h2 : 9 ≤ i + shift := by omega
      have h3 : i < 32 := by omega
      simpa [h1, h2, h3, hlt, BitVec.testBit_toNat] using hbit
    · rw [BitVec.testBit_toNat]
      exact BitVec.getLsbD_of_ge _ _ (by omega)
  · intro hlt
    refine BitVec.eq_of_getLsbD_eq fun i _ => ?_
    change (perm.setWidth 32 <<< shift &&& ~~~ 0o777#32).getLsbD i = (0#32).getLsbD i
    rw [BitVec.getLsbD_and, getLsbD_above, BitVec.getLsbD_shiftLeft, BitVec.getLsbD_setWidth]
    by_cases hi : 9 ≤ i
    · have hhigh : perm.getLsbD (i - shift) = false := by
        rw [← BitVec.testBit_toNat]
        refine Nat.testBit_lt_two_pow (Nat.lt_of_lt_of_le hlt ?_)
        exact Nat.pow_le_pow_right (by decide) (by omega)
      simp [hhigh]
    · simp [hi]

theorem fits_iff (e : AclEntry) : e.bits &&& ~~~ 0o777 = 0 ↔ e.Fits := by
  unfold AclEntry.bits AclEntry.Fits
  cases hposition : e.position with
  | none => simp
  | some shift => simpa using shifted_within_iff e.perm (position_le hposition)

/-- When the mode stands for the list: its other properties always hold. -/
theorem posixPermissions_iff (entries : List AclEntry) :
    (∀ mode extra, posixPermissions 2 entries = .ok mode extra → StandsFor entries mode extra) ↔
      ((∀ e ∈ entries, e.Known) → ∀ e ∈ entries, e.Fits) := by
  rw [posixPermissions_two]
  constructor
  · intro h hknown
    rw [if_pos hknown] at h
    intro e he
    exact (fits_iff e).mp ((orBits_and_eq_zero_iff entries _).mp (h _ _ rfl).within e he)
  · intro h mode extra hok
    split at hok
    · rename_i hknown
      obtain ⟨rfl, rfl⟩ := AclResult.ok.inj hok
      refine ⟨hknown, ?_, getLsbD_orBits entries, ?_⟩
      · exact (orBits_and_eq_zero_iff entries _).mpr fun e he => (fits_iff e).mpr (h hknown e he)
      rw [← Nat.pos_iff_ne_zero, List.countP_pos_iff]
      simp only [decide_eq_true_eq]
    · cases hok

/-! ## 4. The chmod -/

/-- The -1 of `get_special_bits` or-s in everything. -/
theorem or_neg_one (x : BitVec 32) : x ||| (-1) = BitVec.allOnes 32 := by
  have h : (-1 : BitVec 32) = BitVec.allOnes 32 := by decide
  rw [h, BitVec.or_allOnes]

/-- The bits that a file has are not bits that it lacks. -/
theorem own_bits (mode m : BitVec 32) : (mode &&& m) &&& (m &&& ~~~mode) = 0#32 := by
  ext i hi
  cases h : mode[i] <;> simp [h]

theorem setxattrAclAccess_chmod {known : Bool} {value : Bytes} (h : ReachesChmod known value)
    (stMode : Option (BitVec 32)) : (setxattrAclAccess known stMode value).chmod =
      some (orBits (aclEntries value) ||| getSpecialBits stMode) := by
  obtain ⟨rfl, hheader, hwhole, hnonempty, hversion, htags⟩ := h
  unfold setxattrAclAccess
  rw [if_neg (by simp), if_neg (by omega), if_neg hnonempty, hversion, posixPermissions_two,
    if_pos htags]

theorem setxattrAclAccess_no_chmod {known : Bool} {value : Bytes}
    (h : ¬ ReachesChmod known value) (stMode : Option (BitVec 32)) :
    (setxattrAclAccess known stMode value).chmod = none := by
  unfold setxattrAclAccess
  split
  · rfl
  · rename_i hknown
    split
    · rfl
    · rename_i hsize
      split
      · rfl
      · rename_i hnonempty
        split
        · rename_i mode extra hok
          refine absurd ?_ h
          have hversion : aclVersion value = 2 := by
            by_contra hne
            rw [posixPermissions, if_pos hne] at hok
            cases hok
          rw [hversion, posixPermissions_two] at hok
          split at hok
          · rename_i htags
            exact ⟨by simpa using hknown, by omega, by omega, hnonempty, hversion, htags⟩
          · cases hok
        · rfl
        · rfl

/-- Which bits the chmod adds. -/
theorem setxattrAclAccess_iff (known : Bool) (stMode : Option (BitVec 32)) (value : Bytes) :
    KeepsSpecialBits stMode (setxattrAclAccess known stMode value) ↔
      (ReachesChmod known value → ∃ mode ∈ stMode,
        ∀ e ∈ aclEntries value, e.bits &&& (0o7000 &&& ~~~mode) = 0) := by
  unfold KeepsSpecialBits
  by_cases h : ReachesChmod known value
  · rw [setxattrAclAccess_chmod h]
    simp only [h, true_imp_iff, Option.mem_def, Option.some.injEq, forall_eq']
    cases stMode with
    | none =>
      refine iff_of_false (fun hzero => ?_) (by simp)
      rw [getSpecialBits, Option.getD_none, or_neg_one] at hzero
      exact absurd hzero (by decide)
    | some mode =>
      rw [getSpecialBits, Option.getD_some]
      simp only [Option.some.injEq, exists_eq_left']
      rw [← orBits_and_eq_zero_iff]
      rw [BitVec.and_assoc, BitVec.and_or_distrib_right, own_bits, BitVec.or_zero]
  · rw [setxattrAclAccess_no_chmod h]
    simp [h]

end AclModeLemmas

/-! ## 5. The result -/

open AclModeLemmas in
/-- When an access control list becomes the mode it stands for, and when its chmod adds nothing to
the set-id and sticky bits of the file. -/
theorem aclMode_iff (entries : List AclEntry) (known : Bool) (stMode : Option (BitVec 32))
    (value : Bytes) :
    ((∀ mode extra, posixPermissions 2 entries = .ok mode extra → StandsFor entries mode extra) ↔
      ((∀ e ∈ entries, e.Known) → ∀ e ∈ entries, e.Fits)) ∧
    (KeepsSpecialBits stMode (setxattrAclAccess known stMode value) ↔
      (ReachesChmod known value → ∃ mode ∈ stMode,
        ∀ e ∈ aclEntries value, e.bits &&& (0o7000 &&& ~~~mode) = 0)) :=
  ⟨posixPermissions_iff entries, setxattrAclAccess_iff known stMode value⟩

/-- Version 2, and an entry for the file's user whose permission is 010. -/
def exAclValue : Bytes := [2, 0, 0, 0, 1, 0, 8, 0, 255, 255, 255, 255]

/-- The mode of the list, and the mode of the chmod, has the sticky bit. -/
theorem aclMode_sticky :
    posixPermissions 2 (aclEntries exAclValue) = .ok 0o1000 0 ∧
      ¬ StandsFor (aclEntries exAclValue) 0o1000 0 ∧
      (setxattrAclAccess true (some 0o100644) exAclValue).chmod = some 0o1000 ∧
      ¬ KeepsSpecialBits (some 0o100644) (setxattrAclAccess true (some 0o100644) exAclValue) := by
  refine ⟨by decide, fun h => absurd h.within (by decide), by decide, fun h => ?_⟩
  exact absurd (h 0o1000 (by decide)) (by decide)

end Pseudo
