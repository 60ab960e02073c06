import Mathlib.Algebra.Group.Int.Defs
import Mathlib.Algebra.Group.Nat.Defs
import Mathlib.Data.List.Basic

/-!
# Signed decimal numbers in byte strings

What `printf` writes for `%d`, what `scanf` reads for it, and the lists of such numbers that
formats like `%d,%d,%d` stand for.

* `scanInt_printInt`: a printed number is read back, up to a byte that is no digit.
* `scanList_printList`: so is a list, number by number.
* `printInt_length_le`: a number of `k` digits takes at most `k + 1` bytes.
-/

namespace Decimal

abbrev Text := List UInt8

def isDigit (c : UInt8) : Bool := 48 ≤ c && c ≤ 57

/-- `isspace`. -/
def isSpace (c : UInt8) : Bool := c == 32 || (9 ≤ c && c ≤ 13)

def minus : UInt8 := 45
def plus : UInt8 := 43
def comma : UInt8 := 44

def printNat (n : Nat) : Text := (Nat.toDigits 10 n).map Char.toUInt8

/-- `%d` in an output format. -/
def printInt (v : Int) : Text :=
  if v < 0 then minus :: printNat v.natAbs else printNat v.natAbs

/-- The number that a string of digits stands for. -/
def value (ds : Text) : Nat := ds.foldl (fun sofar c => 10 * sofar + (c.toNat - 48)) 0

/-- The longest string of digits in front, and what follows it. -/
def scanNat (s : Text) : Option (Nat × Text) :=
  if s.takeWhile isDigit = [] then none
  else some (value (s.takeWhile isDigit), s.dropWhile isDigit)

/-- An optional sign. -/
def scanSign : Text → Bool × Text
  | c :: s => if c = minus then (true, s) else if c = plus then (false, s) else (false, c :: s)
  | [] => (false, [])

/-- `%d` in an input format: blanks, an optional sign and digits. -/
def scanInt (s : Text) : Option (Int × Text) :=
  let (negative, s) := scanSign (s.dropWhile isSpace)
  (scanNat s).map fun (n, rest) => (if negative then -n else n, rest)

/-- `%d,…,%d` in an output format. -/
def printList : List Int → Text
  | [] => []
  | [v] => printInt v
  | v :: vs => printInt v ++ comma :: printList vs

/-- The values stored by an input format of `n` items `%d`, separated by commas: scanning stops
at the first item or comma that is not there. -/
def scanList : Nat → Text → List Int
  | 0, _ => []
  | n + 1, s =>
    match scanInt s with
    | none => []
    | some (v, []) => [v]
    | some (v, c :: rest) => if c = comma then v :: scanList n rest else [v]

/-- The string does not start with a digit. -/
def EndsNumber (s : Text) : Prop := ∀ c ∈ s.head?, isDigit c = false

theorem endsNumber_nil : EndsNumber [] := by simp [EndsNumber]

theorem endsNumber_comma (s : Text) : EndsNumber (comma :: s) := by
  intro c hc
  obtain rfl : comma = c := by simpa using hc
  decide

section Nat
variable {n : Nat} {c : UInt8}

theorem toNat_toUInt8 {c : Char} (h : c.isDigit = true) :
    c.toUInt8.toNat = c.toNat ∧ 48 ≤ c.toNat ∧ c.toNat ≤ 57 := by
  simp only [Char.isDigit, Bool.and_eq_true, decide_eq_true_eq, ge_iff_le,
    UInt32.le_iff_toNat_le] at h
  have hlo : 48 ≤ c.toNat := h.1
  have hhi : c.toNat ≤ 57 := h.2
  refine ⟨?_, hlo, hhi⟩
  change c.val.toNat % 2 ^ 8 = c.val.toNat
  have : c.val.toNat ≤ 57 := hhi
  omega

theorem isDigit_of_mem_printNat (h : c ∈ printNat n) : isDigit c = true := by
  obtain ⟨d, hd, rfl⟩ := List.mem_map.mp h
  obtain ⟨he, hlo, hhi⟩ := toNat_toUInt8 (Nat.isDigit_of_mem_toDigits (by decide) (by decide) hd)
  simp only [isDigit, Bool.and_eq_true, decide_eq_true_eq, UInt8.le_iff_toNat_le, he]
  exact ⟨hlo, hhi⟩

theorem printNat_ne_nil (n : Nat) : printNat n ≠ [] := by simp [printNat]

theorem value_map {cs : List Char} (h : ∀ c ∈ cs, c.isDigit = true) (init : Nat) :
    (cs.map Char.toUInt8).foldl (fun sofar c => 10 * sofar + (c.toNat - 48)) init =
      Nat.ofDigitChars 10 cs init := by
  induction cs generalizing init with
  | nil => simp
  | cons c cs ih =>
    have hc := (toNat_toUInt8 (h c List.mem_cons_self)).1
    rw [List.map_cons, List.foldl_cons, hc, Nat.ofDigitChars_cons]
    exact ih (fun d hd => h d (List.mem_cons_of_mem c hd)) _

theorem value_printNat (n : Nat) : value (printNat n) = n := by
  unfold value printNat
  rw [value_map fun c hc => Nat.isDigit_of_mem_toDigits (by decide) (by decide) hc]
  exact Nat.ofDigitChars_ten_toDigits

theorem takeWhile_endsNumber {s : Text} (h : EndsNumber s) : s.takeWhile isDigit = [] := by
  cases s with
  | nil => rfl
  | cons c s => rw [List.takeWhile_cons, h c (by simp)]; rfl

theorem scanNat_printNat (n : Nat) {rest : Text} (h : EndsNumber rest) :
    scanNat (printNat n ++ rest) = some (n, rest) := by
  have htake : (printNat n ++ rest).takeWhile isDigit = printNat n := by
    rw [List.takeWhile_append_of_pos fun c hc => isDigit_of_mem_printNat hc,
      takeWhile_endsNumber h, List.append_nil]
  have hdrop : (printNat n ++ rest).dropWhile isDigit = rest := by
    rw [List.dropWhile_append_of_pos fun c hc => isDigit_of_mem_printNat hc]
    have := List.takeWhile_append_dropWhile (p := isDigit) (l := rest)
    rwa [takeWhile_endsNumber h, List.nil_append] at this
  rw [scanNat, htake, hdrop, if_neg (printNat_ne_nil n), value_printNat]

end Nat

section Int

/-- A digit is neither blank nor a sign. -/
theorem scanSign_digit {c : UInt8} (h : isDigit c = true) (s : Text) :
    scanSign ((c :: s).dropWhile isSpace) = (false, c :: s) := by
  simp only [isDigit, Bool.and_eq_true, decide_eq_true_eq, UInt8.le_iff_toNat_le] at h
  have hlo : 48 ≤ c.toNat := h.1
  have hspace : isSpace c = false := by
    simp only [isSpace, Bool.or_eq_false_iff, beq_eq_false_iff_ne, ne_eq, Bool.and_eq_false_iff,
      decide_eq_false_iff_not, UInt8.le_iff_toNat_le]
    refine ⟨?_, Or.inr ?_⟩
    · rintro rfl
      exact absurd hlo (by decide)
    · change ¬ c.toNat ≤ 13
      omega
  have hminus : c ≠ minus := by
    rintro rfl
    exact absurd hlo (by decide)
  have hplus : c ≠ plus := by
    rintro rfl
    exact absurd hlo (by decide)
  rw [List.dropWhile_cons_of_neg (by simp [hspace]), scanSign, if_neg hminus, if_neg hplus]

/-- A printed number is read back, whatever follows it that is no digit. -/
theorem scanInt_printInt (v : Int) {rest : Text} (h : EndsNumber rest) :
    scanInt (printInt v ++ rest) = some (v, rest) := by
  rcases Int.lt_or_le v 0 with hneg | hpos
  · have hsign : scanSign ((minus :: printNat v.natAbs ++ rest).dropWhile isSpace) =
        (true, printNat v.natAbs ++ rest) := by
      rw [List.cons_append, List.dropWhile_cons_of_neg (by decide)]
      rfl
    have hv : -(v.natAbs : Int) = v := by omega
    simp only [printInt, if_pos hneg, scanInt, hsign, scanNat_printNat _ h, Option.map_some,
      if_true, hv]
  · obtain ⟨c, s, hcs⟩ := List.exists_cons_of_ne_nil (printNat_ne_nil v.natAbs)
    have hsign : scanSign ((printNat v.natAbs ++ rest).dropWhile isSpace) =
        (false, printNat v.natAbs ++ rest) := by
      rw [hcs, List.cons_append]
      exact scanSign_digit (isDigit_of_mem_printNat (by rw [hcs]; exact List.mem_cons_self)) _
    have hv : (v.natAbs : Int) = v := by omega
    simp only [printInt, if_neg (Int.not_lt.mpr hpos), scanInt, hsign, scanNat_printNat _ h,
      Option.map_some, Bool.false_eq_true, if_false, hv]

theorem printInt_length_le {v : Int} {k : Nat} (hk : 0 < k) (h : v.natAbs < 10 ^ k) :
    (printInt v).length ≤ k + 1 := by
  have hlen : (printNat v.natAbs).length ≤ k := by
    rw [printNat, List.length_map, Nat.length_toDigits_le_iff (by decide) hk]
    exact h
  unfold printInt
  split
  · rw [List.length_cons]
    omega
  · omega

theorem printInt_of_nonneg {v : Int} (h : 0 ≤ v) : printInt v = printNat v.natAbs :=
  if_neg (Int.not_lt.mpr h)

/-- A number that is not negative takes as many bytes as it has digits. -/
theorem length_printInt_le_iff {v : Int} {k : Nat} (hv : 0 ≤ v) (hk : 0 < k) :
    (printInt v).length ≤ k ↔ v < 10 ^ k := by
  rw [printInt_of_nonneg hv, printNat, List.length_map,
    Nat.length_toDigits_le_iff (by decide) hk]
  constructor
  · intro h
    calc v = (v.natAbs : Int) := (Int.natAbs_of_nonneg hv).symm
      _ < 10 ^ k := by exact_mod_cast h
  · intro h
    have hcast : (v.natAbs : Int) < (10 ^ k : Nat) := by
      rw [Int.natAbs_of_nonneg hv]
      exact_mod_cast h
    exact_mod_cast hcast

theorem zero_not_mem_printInt (v : Int) : 0 ∉ printInt v := by
  have hdigits : 0 ∉ printNat v.natAbs := fun h => absurd (isDigit_of_mem_printNat h) (by decide)
  unfold printInt
  split
  · rw [List.mem_cons, not_or]
    exact ⟨by decide, hdigits⟩
  · exact hdigits

end Int

/-- A printed list is read back number by number. -/
theorem scanList_printList (vs : List Int) : scanList vs.length (printList vs) = vs := by
  induction vs with
  | nil => rfl
  | cons v vs ih =>
    cases vs with
    | nil =>
      have h := scanInt_printInt v endsNumber_nil
      rw [List.append_nil] at h
      simp [printList, scanList, h]
    | cons w vs =>
      have h := scanInt_printInt v (endsNumber_comma (printList (w :: vs)))
      rw [List.length_cons, printList, scanList, h]
      · simp only [if_true, ih]
      · exact List.cons_ne_nil w vs

end Decimal
