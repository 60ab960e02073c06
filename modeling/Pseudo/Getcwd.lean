import Pseudo.Dechroot

/-!
# The current directory in a chroot

`wrap_getcwd` with `pseudo_client_getcwd`, which has noted where the visible part of the current
directory begins. The length of that part is computed three times: for the buffer that is
allocated, for the check of the caller's size, and for the copy.

Results:
1. `exact_text_iff`, `exact_root_iff`: what a call does when something of the current directory is
   visible, and when it is the chroot itself.
2. `getcwd_exact_iff`: for which directories, chroots and sizes it is right.
3. `getcwd_flaws`: the two ways in which it is not.
-/

namespace Pseudo

open Block

/-- `pseudo_cwd`, and `pseudo_cwd_rel` as an offset in it. -/
structure Cwd where
  path : Bytes
  rel : Nat
  deriving DecidableEq, Repr

/-- `path` is what the host's `getcwd` returns. Behind it there is a NUL. -/
def pseudoClientGetcwd (chroot path : Bytes) : Cwd where
  path := path
  rel :=
    if chroot.length ≠ 0 ∧ chroot.length ≤ path.length ∧ chroot <+: path ∧
        ((path ++ [0])[chroot.length]? = some 0 ∨ (path ++ [0])[chroot.length]? = some slash) then
      chroot.length
    else 0

inductive GetcwdErrno
  | eacces | enomem | erange
  deriving DecidableEq, Repr

/-- What a call leaves: the size of the buffer, the caller's or the one that is allocated, what is
written to it, and the error if a null pointer is returned. -/
structure Getcwd where
  size : Nat
  writes : List (Write Byte)
  errno : Option GetcwdErrno
  deriving DecidableEq, Repr

/-- The size of the buffer that is allocated when the caller gives none. -/
def getcwdSize (chroot : Bytes) (cwd : Cwd) : Nat :=
  let size := cwd.path.length + 1
  if chroot.length ≠ 0 ∧ chroot.length ≤ size ∧ chroot <+: cwd.path ++ [0] then
    let size := size - chroot.length
    -- "we actually want a /, not an empty string"
    if size < 2 then 2 else size
  else size

/-- `buf` tells whether the caller has a buffer. `malloc` does not fail. -/
def wrapGetcwd (chroot : Bytes) (cwd : Option Cwd) (buf : Bool) (size : Nat) : Getcwd :=
  match cwd with
  | none => ⟨size, [], some .eacces⟩
  | some cwd =>
    let size := if !buf ∧ size = 0 then getcwdSize chroot cwd else size
    if !buf ∧ size = 0 then ⟨size, [], some .enomem⟩
    else if size ≤ cwd.path.length - cwd.rel then ⟨size, [], some .erange⟩
    else
      let copied := cwd.path.drop cwd.rel ++ [0]
      ⟨size, ⟨0, copied⟩ :: if copied.head? = some 0 then [⟨0, [slash, 0]⟩] else [], none⟩

/-- What the call is to do, `v` being the directory as it is seen from inside the chroot. -/
structure GetcwdExact (v : Bytes) (buf : Bool) (size : Nat) (r : Getcwd) : Prop where
  writes : Block.Within r.size r.writes ∧ (buf = true → r.size = size)
  range : size ≠ 0 → (r.errno = some .erange ↔ size < v.length + 1)
  string : size ≠ 0 ∧ v.length + 1 ≤ size ∨ buf = false ∧ size = 0 →
    r.errno = none ∧ ∀ m, Holds (stores m r.writes) 0 (v ++ [0])

/-- The current directory only begins with the text of the chroot. -/
def TextualPrefix (chroot path : Bytes) : Prop :=
  chroot ≠ [] ∧ chroot <+: path ∧ path ≠ chroot ∧ ¬ chroot ++ [slash] <+: path

instance (chroot path : Bytes) : Decidable (TextualPrefix chroot path) :=
  inferInstanceAs (Decidable (_ ∧ _))

namespace GetcwdLemmas

open DechrootLemmas

variable {chroot path rest v text : Bytes} {cwd : Cwd} {buf : Bool} {size : Nat} {m : Nat → Byte}

/-! ## Where the visible part begins -/

theorem rel_other (h : ¬ (chroot ≠ [] ∧ chroot <+: path)) :
    (pseudoClientGetcwd chroot path).rel = 0 := by
  refine if_neg ?_
  rintro ⟨hne, -, hpre, -⟩
  exact h ⟨List.ne_nil_of_length_pos (Nat.pos_of_ne_zero hne), hpre⟩

theorem rel_append (hc : chroot ≠ []) (rest : Bytes) :
    (pseudoClientGetcwd chroot (chroot ++ rest)).rel =
      if (rest ++ [0]).head? = some 0 ∨ (rest ++ [0]).head? = some slash then chroot.length
      else 0 := by
  have hpos := List.length_pos_iff.mpr hc
  have hnext : (chroot ++ rest ++ [0])[chroot.length]? = (rest ++ [0]).head? := by
    rw [List.append_assoc, List.getElem?_append_right (Nat.le_refl _), Nat.sub_self,
      List.head?_eq_getElem?]
  unfold pseudoClientGetcwd
  dsimp only
  rw [hnext]
  refine if_congr ?_ rfl rfl
  rw [and_iff_right (Nat.ne_of_gt hpos), and_iff_right (by simp), and_iff_right (by simp)]

/-! ## The room for a caller without a buffer -/

theorem size_other (cwd : Cwd) (h : ¬ (chroot ≠ [] ∧ chroot <+: cwd.path))
    (hc : IsCString chroot) :
    getcwdSize chroot cwd = cwd.path.length + 1 := by
  refine if_neg ?_
  rintro ⟨hne, -, hpre⟩
  have hne : chroot ≠ [] := List.ne_nil_of_length_pos (Nat.pos_of_ne_zero hne)
  rcases List.prefix_concat_iff.mp hpre with heq | hpre
  · exact hc (heq ▸ by simp)
  · exact h ⟨hne, hpre⟩

theorem size_append (cwd : Cwd) (hc : chroot ≠ []) (hpath : cwd.path = chroot ++ rest) :
    getcwdSize chroot cwd = max 2 (rest.length + 1) := by
  have hpos := List.length_pos_iff.mpr hc
  have hlen : cwd.path.length = chroot.length + rest.length := by rw [hpath, List.length_append]
  unfold getcwdSize
  dsimp only
  rw [if_pos ⟨Nat.ne_of_gt hpos, by omega, by simp [hpath]⟩]
  split <;> omega

/-! ## The copy -/

/-- The check of the size and the copy, for a buffer that is there. -/
def copyCwd (text : Bytes) (size : Nat) : Getcwd :=
  if size ≤ text.length then ⟨size, [], some .erange⟩
  else ⟨size, ⟨0, text ++ [0]⟩ ::
    if (text ++ [0]).head? = some 0 then [⟨0, [slash, 0]⟩] else [], none⟩

theorem wrapGetcwd_given (h : buf = true ∨ size ≠ 0) :
    wrapGetcwd chroot (some cwd) buf size = copyCwd (cwd.path.drop cwd.rel) size := by
  have hgiven : ¬ ((!buf) = true ∧ size = 0) := by
    rintro ⟨hbuf, hsize⟩
    rcases h with h | h
    · simp [h] at hbuf
    · exact h hsize
  unfold wrapGetcwd copyCwd
  dsimp only
  rw [if_neg hgiven, if_neg hgiven, List.length_drop]

theorem wrapGetcwd_alloc (h : getcwdSize chroot cwd ≠ 0) :
    wrapGetcwd chroot (some cwd) false 0 =
      copyCwd (cwd.path.drop cwd.rel) (getcwdSize chroot cwd) := by
  have hroom : (if (!false) = true ∧ 0 = 0 then getcwdSize chroot cwd else 0) =
      getcwdSize chroot cwd := if_pos ⟨rfl, rfl⟩
  unfold wrapGetcwd copyCwd
  dsimp only
  rw [hroom, if_neg fun hsize => h hsize.2, List.length_drop]

/-- A text that is there is copied, or does not fit. -/
theorem copyCwd_text (hne : text ≠ []) (hc : IsCString text) (size : Nat) :
    (copyCwd text size).size = size ∧ Block.Within size (copyCwd text size).writes ∧
      ((copyCwd text size).errno = some .erange ↔ size < text.length + 1) ∧
      (text.length + 1 ≤ size → (copyCwd text size).errno = none ∧
        ∀ m, Holds (stores m (copyCwd text size).writes) 0 (text ++ [0])) := by
  have hhead : (text ++ [0]).head? ≠ some 0 := by
    cases text with
    | nil => exact absurd rfl hne
    | cons b text =>
      intro h
      exact hc ((Option.some.inj h) ▸ List.mem_cons_self)
  unfold copyCwd
  rw [if_neg hhead]
  split
  · refine ⟨rfl, within_nil, iff_of_true rfl (by omega), fun hle => ?_⟩
    omega
  · refine ⟨rfl, ?_, iff_of_false (by simp) (by omega), fun _ => ⟨rfl, fun m => ?_⟩⟩
    · simp [Write.stop]
      omega
    · exact holds_store_self m 0 _

/-- For the chroot itself nothing but the NUL is to be copied, and then two bytes are written. -/
theorem copyCwd_nil (hsize : size ≠ 0) : copyCwd [] size =
    ⟨size, [⟨0, [0]⟩, ⟨0, [slash, 0]⟩], none⟩ := by
  unfold copyCwd
  rw [if_neg (by simpa using hsize)]
  rfl

/-! ## The call -/

/-- Where the visible part is not empty, everything depends on the room that is allocated. -/
theorem exact_text_iff (hv : (pseudoClientGetcwd chroot path).path.drop
      (pseudoClientGetcwd chroot path).rel = v) (hne : v ≠ []) (hc : IsCString v)
    (hsize : getcwdSize chroot (pseudoClientGetcwd chroot path) ≠ 0) :
    GetcwdExact v buf size (wrapGetcwd chroot (some (pseudoClientGetcwd chroot path)) buf size) ↔
      ¬ (buf = false ∧ size = 0 ∧
        getcwdSize chroot (pseudoClientGetcwd chroot path) ≤ v.length) := by
  by_cases halloc : buf = false ∧ size = 0
  · obtain ⟨rfl, rfl⟩ := halloc
    rw [wrapGetcwd_alloc hsize, hv]
    obtain ⟨hroom, hwrites, hrange, hstring⟩ :=
      copyCwd_text hne hc (getcwdSize chroot (pseudoClientGetcwd chroot path))
    constructor
    · rintro h ⟨-, -, hle⟩
      have hnone := (h.string (.inr ⟨rfl, rfl⟩)).1
      rw [hrange.mpr (Nat.lt_succ_of_le hle)] at hnone
      cases hnone
    · intro h
      refine ⟨⟨by rwa [hroom], fun hbuf => nomatch hbuf⟩, fun h0 => absurd rfl h0, fun _ => ?_⟩
      exact hstring (by
        rw [Nat.succ_le_iff]
        exact Nat.lt_of_not_le fun hle => h ⟨rfl, rfl, hle⟩)
  · refine iff_of_true ?_ fun h => halloc ⟨h.1, h.2.1⟩
    have hgiven : buf = true ∨ size ≠ 0 := by
      cases buf with
      | true => exact .inl rfl
      | false => exact .inr fun h => halloc ⟨rfl, h⟩
    rw [wrapGetcwd_given hgiven, hv]
    obtain ⟨hroom, hwrites, hrange, hstring⟩ := copyCwd_text hne hc size
    refine ⟨⟨by rwa [hroom], fun _ => hroom⟩, fun _ => hrange, fun h => ?_⟩
    rcases h with ⟨-, hle⟩ | hnone
    · exact hstring hle
    · exact absurd hnone halloc

theorem exact_root_iff (hrel : (pseudoClientGetcwd chroot path).path.drop
      (pseudoClientGetcwd chroot path).rel = [])
    (hsize : getcwdSize chroot (pseudoClientGetcwd chroot path) = 2) :
    GetcwdExact [slash] buf size
      (wrapGetcwd chroot (some (pseudoClientGetcwd chroot path)) buf size) ↔ size ≠ 1 := by
  have hholds : ∀ m : Nat → Byte,
      Holds (stores m [⟨0, [0]⟩, ⟨0, [slash, 0]⟩]) 0 ([slash] ++ [0]) :=
    fun m => holds_store_self _ 0 [slash, 0]
  rcases Nat.eq_zero_or_pos size with rfl | hpos
  · refine iff_of_true ?_ (by decide)
    cases buf with
    | true =>
      rw [wrapGetcwd_given (.inl rfl), hrel]
      exact ⟨⟨within_nil, fun _ => rfl⟩, fun h => absurd rfl h, by simp⟩
    | false =>
      rw [wrapGetcwd_alloc (by omega), hrel, hsize, copyCwd_nil (by decide)]
      exact ⟨⟨by decide, fun hbuf => nomatch hbuf⟩, fun h => absurd rfl h,
        fun _ => ⟨rfl, hholds⟩⟩
  · have hne : size ≠ 0 := Nat.ne_of_gt hpos
    rw [wrapGetcwd_given (.inr hne), hrel, copyCwd_nil hne]
    constructor
    · intro h
      have hfit : (2 : Nat) ≤ size := h.writes.1 ⟨0, [slash, 0]⟩ (by simp)
      omega
    · intro h
      refine ⟨⟨?_, fun _ => rfl⟩, fun _ => iff_of_false (by simp) ?_, fun _ => ⟨rfl, hholds⟩⟩
      · simp [Write.stop]
        omega
      · show ¬ size < 2
        omega

end GetcwdLemmas

open GetcwdLemmas DechrootLemmas

/-- A call is right unless the current directory is the chroot and the size is 1, or the caller
leaves the allocation to the call and the current directory only begins with the text of the
chroot. -/
theorem getcwd_exact_iff {chroot path : Bytes} (hchroot : IsCString chroot) (hpath : IsCString path)
    (habs : path.head? = some slash) (buf : Bool) (size : Nat) :
    GetcwdExact (withoutChroot chroot path) buf size
        (wrapGetcwd chroot (some (pseudoClientGetcwd chroot path)) buf size) ↔
      ¬ (chroot ≠ [] ∧ path = chroot ∧ size = 1) ∧
        ¬ (buf = false ∧ size = 0 ∧ TextualPrefix chroot path) := by
  have hne : path ≠ [] := by
    rintro rfl
    cases habs
  by_cases hin : chroot ≠ [] ∧ chroot <+: path
  · obtain ⟨hc, rest, rfl⟩ := hin
    have hsize := size_append (pseudoClientGetcwd chroot (chroot ++ rest)) hc rfl
    cases rest with
    | nil =>
      have hrel : (pseudoClientGetcwd chroot (chroot ++ [])).path.drop
          (pseudoClientGetcwd chroot (chroot ++ [])).rel = [] := by
        rw [rel_append hc, if_pos (.inl rfl)]
        simp [pseudoClientGetcwd]
      rw [List.append_nil] at hrel hsize ⊢
      have hnot : ¬ (buf = false ∧ size = 0 ∧ TextualPrefix chroot chroot) :=
        fun h => h.2.2.2.2.1 rfl
      rw [withoutChroot_self hc, exact_root_iff hrel hsize, and_iff_left hnot]
      simp [hc]
    | cons b rest =>
      have hneq : chroot ++ b :: rest ≠ chroot := by simp
      have hb : b ≠ 0 := by
        rintro rfl
        exact hpath (by simp)
      rw [and_iff_right fun h => hneq h.2.1]
      by_cases hslash : b = slash
      · subst hslash
        have hrel : (pseudoClientGetcwd chroot (chroot ++ slash :: rest)).path.drop
            (pseudoClientGetcwd chroot (chroot ++ slash :: rest)).rel = slash :: rest := by
          rw [rel_append hc, if_pos (.inr rfl)]
          exact List.drop_left
        have hbelow : ¬ (buf = false ∧ size = 0 ∧ TextualPrefix chroot (chroot ++ slash :: rest)) :=
          fun h => h.2.2.2.2.2 (by simp)
        rw [withoutChroot_below hc, exact_text_iff hrel (by simp)
          (fun h => hpath (List.mem_append_right _ h)) (by omega)]
        refine iff_of_true (fun h => ?_) hbelow
        rw [hsize, List.length_cons] at h
        omega
      · have hnot : ¬ chroot ++ [slash] <+: chroot ++ b :: rest := by
          rw [List.prefix_append_right_inj, List.cons_prefix_cons]
          exact fun h => hslash h.1.symm
        have hrel : (pseudoClientGetcwd chroot (chroot ++ b :: rest)).path.drop
            (pseudoClientGetcwd chroot (chroot ++ b :: rest)).rel = chroot ++ b :: rest := by
          rw [rel_append hc, if_neg (by simp [hb, hslash])]
          rfl
        have htext : TextualPrefix chroot (chroot ++ b :: rest) := ⟨hc, by simp, hneq, hnot⟩
        rw [withoutChroot_other hneq hnot, exact_text_iff hrel hne hpath (by omega)]
        have hpos := List.length_pos_iff.mpr hc
        have hshort : getcwdSize chroot (pseudoClientGetcwd chroot (chroot ++ b :: rest)) ≤
            (chroot ++ b :: rest).length := by
          rw [hsize, List.length_append, List.length_cons]
          omega
        rw [and_iff_left hshort, and_iff_left htext]
  · have hsize := size_other (pseudoClientGetcwd chroot path) hin hchroot
    have hrel : (pseudoClientGetcwd chroot path).path.drop
        (pseudoClientGetcwd chroot path).rel = path := by
      rw [rel_other hin]
      rfl
    have hv : withoutChroot chroot path = path := by
      by_cases hc : chroot = []
      · rw [hc, withoutChroot, if_pos rfl]
      · refine withoutChroot_other (fun h => hin ⟨hc, ?_⟩) fun h => hin ⟨hc, ?_⟩
        · rw [h]
        · exact (List.prefix_append chroot [slash]).trans h
    rw [hv, exact_text_iff hrel hne hpath (by omega)]
    refine iff_of_true (fun h => ?_) ⟨fun h => hin ⟨h.1, ?_⟩, fun h => hin ⟨h.2.2.1, h.2.2.2.1⟩⟩
    · have hle : path.length + 1 ≤ path.length := hsize ▸ h.2.2
      omega
    · rw [h.2.1]

/-- In the chroot `/c`, the directory `/c/d` is `/d`. -/
theorem getcwd_exact_below :
    GetcwdExact (withoutChroot (ascii ['/', 'c']) (ascii ['/', 'c', '/', 'd'])) false 0
      (wrapGetcwd (ascii ['/', 'c'])
        (some (pseudoClientGetcwd (ascii ['/', 'c']) (ascii ['/', 'c', '/', 'd']))) false 0) :=
  (getcwd_exact_iff (by decide) (by decide) (by decide) false 0).mpr (by decide)

/-- In the chroot `/c`, two bytes are written to a buffer of one when the directory is `/c`, and
the buffer that is allocated is too small when it is `/cx`. -/
theorem getcwd_flaws :
    ¬ GetcwdExact (withoutChroot (ascii ['/', 'c']) (ascii ['/', 'c'])) true 1
      (wrapGetcwd (ascii ['/', 'c'])
        (some (pseudoClientGetcwd (ascii ['/', 'c']) (ascii ['/', 'c']))) true 1) ∧
    ¬ GetcwdExact (withoutChroot (ascii ['/', 'c']) (ascii ['/', 'c', 'x'])) false 0
      (wrapGetcwd (ascii ['/', 'c'])
        (some (pseudoClientGetcwd (ascii ['/', 'c']) (ascii ['/', 'c', 'x']))) false 0) :=
  ⟨fun h => absurd h.writes.1 (by decide),
    fun h => absurd (h.string (.inr ⟨rfl, rfl⟩)).1 (by decide)⟩

end Pseudo
