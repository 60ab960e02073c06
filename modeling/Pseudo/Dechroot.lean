import Pseudo.Library.Block
import Pseudo.Rename
import Pseudo.Symlink

/-!
# Removing the chroot from a buffer

`pseudo_dechroot` of `pseudo_wrappers.c` on the memory that it is given: a buffer and the length of
what is in it, which after `readlink` ends without a NUL. The byte behind the chroot is looked at
whether or not it is one of the buffer's.

Results:
1. `pseudoDechroot_at`: the rewriting of the memory is the one on lists of `Pseudo.Symlink`.
2. `dechroot_exact_iff`: the contents for which it is right and stays in the buffer.
3. `dechroot_reads_behind`: the chroot itself, in front of some other byte.
-/

namespace Pseudo

open Block

/-- What `pseudo_dechroot` does: the length it returns, the ranges it reads, each an offset and a
length, and what it writes. -/
structure Dechroot where
  len : Nat
  reads : List (Nat × Nat)
  writes : List (Write Byte)

/-- `len` is a length here; for `(size_t) -1`, which stands for the length of a string, it has been
computed. -/
def dechrootMemory (chroot : Bytes) (s : Nat → Byte) (len : Nat) : Dechroot :=
  let chrootLen := chroot.length
  if chrootLen ≠ 0 ∧ chrootLen ≤ len then
    if Holds s 0 chroot then
      if s chrootLen = slash then
        { len := len - chrootLen
          reads := [(0, chrootLen), (chrootLen, 1), (chrootLen, len - chrootLen)]
          writes := [⟨0, read s chrootLen (len - chrootLen)⟩, ⟨len - chrootLen, [0]⟩] }
      else if s chrootLen = 0 then
        { len := 1
          reads := [(0, chrootLen), (chrootLen, 1)]
          writes := [⟨0, [slash]⟩, ⟨1, [0]⟩] }
      -- "otherwise, it's not really a match"
      else { len := len, reads := [(0, chrootLen), (chrootLen, 1)], writes := [] }
    else { len := len, reads := [(0, chrootLen)], writes := [] }
  else { len := len, reads := [], writes := [] }

/-- A path as it is seen from inside the chroot: `/` for the chroot itself, and without the chroot
what lies below it. The empty chroot is none. -/
def withoutChroot (chroot path : Bytes) : Bytes :=
  if chroot = [] then path
  else if path = chroot then [slash]
  else if chroot ++ [slash] <+: path then path.drop chroot.length
  else path

/-- What `pseudo_dechroot` is to do with the first `len` bytes. -/
structure DechrootExact (chroot : Bytes) (s : Nat → Byte) (len : Nat) (d : Dechroot) : Prop where
  result : read (stores s d.writes) 0 d.len = withoutChroot chroot (read s 0 len)
  reads : ∀ r ∈ d.reads, r.1 + r.2 ≤ len
  writes : Block.Within len d.writes
  untouched : withoutChroot chroot (read s 0 len) = read s 0 len → d.writes = []

namespace DechrootLemmas

variable {chroot path : Bytes} {s : Nat → Byte} {len : Nat}

theorem withoutChroot_other (hne : path ≠ chroot) (hslash : ¬ chroot ++ [slash] <+: path) :
    withoutChroot chroot path = path := by
  unfold withoutChroot
  rw [if_neg hne, if_neg hslash, ite_self]

theorem withoutChroot_below (hc : chroot ≠ []) (rest : Bytes) :
    withoutChroot chroot (chroot ++ slash :: rest) = slash :: rest := by
  unfold withoutChroot
  rw [if_neg hc, if_neg (by simp), if_pos (by simp), List.drop_left]

theorem withoutChroot_self (hc : chroot ≠ []) : withoutChroot chroot chroot = [slash] := by
  unfold withoutChroot
  rw [if_neg hc, if_pos rfl]

theorem one_lt_length (hc : AbsPath chroot) : 1 < chroot.length := by
  obtain ⟨hhead, hlast⟩ := hc
  match chroot, hhead, hlast with
  | [b], hhead, hlast =>
    rw [List.head?_cons] at hhead
    rw [List.getLast?_singleton, hhead] at hlast
    exact absurd rfl hlast
  | _ :: _ :: _, _, _ => exact Nat.succ_lt_succ (Nat.succ_pos _)

/-- The buffer begins with the chroot and some byte behind it. -/
theorem prefix_iff (b : Byte) (hlen : chroot.length < len) :
    chroot ++ [b] <+: read s 0 len ↔ Holds s 0 chroot ∧ s chroot.length = b := by
  rw [prefix_read_iff (by simpa [Nat.succ_le_iff] using hlen), holds_append, holds_singleton,
    Nat.zero_add]

theorem not_prefix_of_length_le (b : Byte) (hlen : len ≤ chroot.length) :
    ¬ chroot ++ [b] <+: read s 0 len := by
  intro h
  have hle := h.length_le
  rw [List.length_append, length_read, List.length_singleton] at hle
  omega

/-! The ways through the function. -/

theorem dechroot_short (h : chroot = [] ∨ len < chroot.length) :
    dechrootMemory chroot s len = { len := len, reads := [], writes := [] } := by
  unfold dechrootMemory
  refine if_neg ?_
  rintro ⟨hne, hle⟩
  rcases h with rfl | hlt
  · exact hne rfl
  · exact Nat.not_lt_of_le hle hlt

theorem dechroot_differs (hc : chroot ≠ []) (hle : chroot.length ≤ len) (hs : ¬ Holds s 0 chroot) :
    dechrootMemory chroot s len =
      { len := len, reads := [(0, chroot.length)], writes := [] } := by
  have hpos := List.length_pos_iff.mpr hc
  unfold dechrootMemory
  dsimp only
  rw [if_pos ⟨Nat.ne_of_gt hpos, hle⟩, if_neg hs]

theorem dechroot_matches (hc : chroot ≠ []) (hle : chroot.length ≤ len) (hs : Holds s 0 chroot) :
    dechrootMemory chroot s len =
      if s chroot.length = slash then
        { len := len - chroot.length
          reads := [(0, chroot.length), (chroot.length, 1), (chroot.length, len - chroot.length)]
          writes :=
            [⟨0, read s chroot.length (len - chroot.length)⟩, ⟨len - chroot.length, [0]⟩] }
      else if s chroot.length = 0 then
        { len := 1
          reads := [(0, chroot.length), (chroot.length, 1)]
          writes := [⟨0, [slash]⟩, ⟨1, [0]⟩] }
      else { len := len, reads := [(0, chroot.length), (chroot.length, 1)], writes := [] } := by
  have hpos := List.length_pos_iff.mpr hc
  unfold dechrootMemory
  dsimp only
  rw [if_pos ⟨Nat.ne_of_gt hpos, hle⟩, if_pos hs]

/-- What is moved to the front is there afterwards. -/
theorem read_moved (s : Nat → Byte) (start n : Nat) :
    read (stores s [⟨0, read s start n⟩, ⟨n, [0]⟩]) 0 n = read s start n := by
  have hmoved := (holds_store_self s 0 (read s start n)).store_before (w := ⟨n, [0]⟩) (by simp)
  rwa [Holds, length_read] at hmoved

/-- Below the chroot the rest is moved to the front. -/
theorem dechroot_below (hc : AbsPath chroot) (hlt : chroot.length < len) (hs : Holds s 0 chroot)
    (hslash : s chroot.length = slash) :
    DechrootExact chroot s len (dechrootMemory chroot s len) := by
  have hone := one_lt_length hc
  have hne : chroot ≠ [] := List.ne_nil_of_length_pos (by omega)
  have hwithout : withoutChroot chroot (read s 0 len) =
      read s chroot.length (len - chroot.length) := by
    obtain ⟨k, rfl⟩ := Nat.exists_eq_add_of_lt hlt
    rw [show chroot.length + k + 1 - chroot.length = k + 1 by omega, Nat.add_assoc, read_add, hs,
      Nat.zero_add, read_succ, hslash, withoutChroot_below hne]
  rw [dechroot_matches hne hlt.le hs, if_pos hslash]
  refine ⟨?_, ?_, ?_, fun hsame => ?_⟩
  · exact (read_moved s _ _).trans hwithout.symm
  · simp
    omega
  · simp [Write.stop]
    omega
  · have hlen := congrArg List.length (hwithout.symm.trans hsame)
    rw [length_read, length_read] at hlen
    omega

/-- Where nothing is written the contents have to be what they are without the chroot. -/
theorem dechroot_same {d : Dechroot} (hlen : d.len = len) (hwrites : d.writes = [])
    (hreads : ∀ r ∈ d.reads, r.1 + r.2 ≤ len)
    (hsame : withoutChroot chroot (read s 0 len) = read s 0 len) :
    DechrootExact chroot s len d := by
  refine ⟨?_, hreads, ?_, fun _ => hwrites⟩
  · rw [hwrites, hlen, hsame]
    rfl
  · rw [hwrites]
    exact within_nil

end DechrootLemmas

open DechrootLemmas

/-- The function is right and stays in the buffer exactly when the buffer holds neither the chroot
itself nor the chroot in front of a NUL. -/
theorem dechroot_exact_iff {chroot : Bytes} (hc : AbsPath chroot) (s : Nat → Byte) (len : Nat) :
    DechrootExact chroot s len (dechrootMemory chroot s len) ↔
      read s 0 len ≠ chroot ∧ ¬ chroot ++ [0] <+: read s 0 len := by
  have hone := one_lt_length hc
  have hne : chroot ≠ [] := List.ne_nil_of_length_pos (by omega)
  -- the contents are not the chroot unless they are as long
  have hcontents : len ≠ chroot.length → read s 0 len ≠ chroot := by
    intro hlen h
    rw [← h, length_read] at hlen
    exact hlen rfl
  rcases Nat.lt_trichotomy len chroot.length with hshort | rfl | hlt
  · have hcontents := hcontents (Nat.ne_of_lt hshort)
    rw [dechroot_short (.inr hshort)]
    refine iff_of_true (dechroot_same rfl rfl (by simp) ?_)
      ⟨hcontents, not_prefix_of_length_le 0 hshort.le⟩
    exact withoutChroot_other hcontents (not_prefix_of_length_le slash hshort.le)
  · by_cases hs : Holds s 0 chroot
    · refine iff_of_false (fun h => ?_) fun h => h.1 hs
      -- the byte behind the buffer is read to tell what the match is worth
      have hread : (chroot.length, 1) ∈ (dechrootMemory chroot s chroot.length).reads := by
        rw [dechroot_matches hne (Nat.le_refl _) hs]
        split
        · simp
        · split <;> simp
      exact Nat.not_succ_le_self _ (h.reads _ hread)
    · rw [dechroot_differs hne (Nat.le_refl _) hs]
      refine iff_of_true (dechroot_same rfl rfl (by simp) ?_)
        ⟨hs, not_prefix_of_length_le 0 (Nat.le_refl _)⟩
      exact withoutChroot_other hs (not_prefix_of_length_le slash (Nat.le_refl _))
  · have hcontents := hcontents (Nat.ne_of_gt hlt)
    have hother : ¬ (Holds s 0 chroot ∧ s chroot.length = slash) →
        withoutChroot chroot (read s 0 len) = read s 0 len :=
      fun h => withoutChroot_other hcontents (mt (prefix_iff slash hlt).mp h)
    rw [prefix_iff 0 hlt, and_iff_right hcontents]
    by_cases hs : Holds s 0 chroot
    · rw [not_and, imp_iff_right hs]
      by_cases hslash : s chroot.length = slash
      · refine iff_of_true (dechroot_below hc hlt hs hslash) ?_
        rw [hslash]
        decide
      · have hother := hother fun h => hslash h.2
        rw [dechroot_matches hne hlt.le hs, if_neg hslash]
        by_cases hzero : s chroot.length = 0
        · rw [if_pos hzero]
          exact iff_of_false (fun h => absurd (h.untouched hother) (by simp)) fun h => h hzero
        · rw [if_neg hzero]
          refine iff_of_true (dechroot_same rfl rfl ?_ hother) hzero
          simp
          omega
    · rw [dechroot_differs hne hlt.le hs]
      refine iff_of_true (dechroot_same rfl rfl ?_ (hother fun h => hs h.1)) fun h => hs h.1
      simp
      omega

/-- Memory that holds the bytes, and `x` behind them. -/
def exMemory (s : Bytes) (i : Nat) : Byte := (s[i]?).getD 120

/-- `/c/d` is `/d` in the chroot `/c`. -/
theorem dechroot_exact_below :
    DechrootExact (ascii ['/', 'c']) (exMemory (ascii ['/', 'c', '/', 'd'])) 4
      (dechrootMemory (ascii ['/', 'c']) (exMemory (ascii ['/', 'c', '/', 'd'])) 4) :=
  (dechroot_exact_iff (by decide) _ 4).mpr (by decide)

/-- The chroot itself, with `x` behind the buffer, is left as it is. -/
theorem dechroot_reads_behind :
    ¬ DechrootExact (ascii ['/', 'c']) (exMemory (ascii ['/', 'c'])) 2
      (dechrootMemory (ascii ['/', 'c']) (exMemory (ascii ['/', 'c'])) 2) :=
  fun h => absurd h.result (by decide)

/-! ## The same on lists -/

/-- What is in the buffer afterwards is what `pseudo_dechroot` makes of the buffer and the byte
behind it. -/
theorem pseudoDechroot_at (client : Client) (s : Nat → Byte) (len : Nat) :
    pseudoDechroot client (read s 0 (len + 1)) len =
      read (stores s (dechrootMemory client.chroot s len).writes) 0
        (dechrootMemory client.chroot s len).len := by
  have htake : (read s 0 (len + 1)).take len = read s 0 len := take_read s 0 (Nat.le_succ len)
  unfold pseudoDechroot
  dsimp only
  rw [htake]
  by_cases hroom : client.chroot = [] ∨ len < client.chroot.length
  · rw [dechroot_short hroom, if_neg]
    · rfl
    · rintro ⟨hc, hpre⟩
      have hle := hpre.length_le
      rw [length_read] at hle
      exact hroom.elim hc (Nat.not_lt_of_le hle)
  · obtain ⟨hc, hle⟩ := not_or.mp hroom
    have hle := Nat.le_of_not_lt hle
    by_cases hs : Holds s 0 client.chroot
    · have hbyte : (read s 0 (len + 1))[client.chroot.length]? = some (s client.chroot.length) := by
        rw [getElem?_read _ _ (by omega), Nat.zero_add]
      rw [dechroot_matches hc hle hs, if_pos ⟨hc, (prefix_read_iff hle).mpr hs⟩, hbyte]
      dsimp only
      split
      · rw [drop_read s 0 hle, Nat.zero_add]
        exact (read_moved s _ _).symm
      · split <;> rfl
    · rw [dechroot_differs hc hle hs, if_neg fun h => hs ((prefix_read_iff hle).mp h.2)]
      rfl

end Pseudo
