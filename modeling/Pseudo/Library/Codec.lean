import Mathlib.Algebra.Order.Ring.Nat
import Mathlib.Data.List.Basic

/-!
# Values as fixed numbers of bytes

A codec lays a value out in memory and reads it back. Numbers are laid out low byte first;
records are pairs of codecs, one behind the other, seen through the record's fields.

* `value_digits`: a number that fits is read back.
* `Codec.nat`, `Codec.bitVec`, `Codec.pair`, `Codec.via`: the codecs, each with its round trip.
-/

/-- `Valid` says which values survive; only the first `width` bytes are read. -/
structure Codec (α : Type) where
  width : Nat
  encode : α → List UInt8
  decode : List UInt8 → α
  Valid : α → Prop
  length_encode : ∀ a, (encode a).length = width
  decode_encode : ∀ a rest, Valid a → decode (encode a ++ rest) = a

namespace Codec

/-- The `n` low digits of a number in base 256. -/
def digits : Nat → Nat → List UInt8
  | 0, _ => []
  | n + 1, v => UInt8.ofNat v :: digits n (v / 256)

/-- The number that the first `n` digits stand for. -/
def value : Nat → List UInt8 → Nat
  | n + 1, c :: cs => c.toNat + 256 * value n cs
  | _, _ => 0

theorem length_digits (n v : Nat) : (digits n v).length = n := by
  induction n generalizing v with
  | zero => rfl
  | succ n ih => rw [digits, List.length_cons, ih]

theorem value_digits {n v : Nat} (rest : List UInt8) (h : v < 256 ^ n) :
    value n (digits n v ++ rest) = v := by
  induction n generalizing v with
  | zero =>
    obtain rfl : v = 0 := by simpa using h
    rfl
  | succ n ih =>
    have hdiv : v / 256 < 256 ^ n := by
      rw [Nat.div_lt_iff_lt_mul (by decide), ← Nat.pow_succ]
      exact h
    rw [digits, List.cons_append, value, ih hdiv, UInt8.toNat_ofNat']
    omega

theorem value_lt (n : Nat) (b : List UInt8) : value n b < 256 ^ n := by
  induction n generalizing b with
  | zero => exact Nat.one_pos
  | succ n ih =>
    cases b with
    | nil => exact Nat.pow_pos (by decide)
    | cons c cs =>
      have hc : c.toNat < 256 := c.toNat_lt
      have hcs := ih cs
      rw [value, Nat.pow_succ]
      omega

/-- A number in `n` bytes. -/
def nat (n : Nat) : Codec Nat where
  width := n
  encode := digits n
  decode := value n
  Valid := fun v => v < 256 ^ n
  length_encode := length_digits n
  decode_encode := fun _ rest h => value_digits rest h

instance (n v : Nat) : Decidable ((nat n).Valid v) := inferInstanceAs (Decidable (v < 256 ^ n))

variable {α β : Type}

/-- One value behind the other. -/
def pair (c : Codec α) (d : Codec β) : Codec (α × β) where
  width := c.width + d.width
  encode := fun a => c.encode a.1 ++ d.encode a.2
  decode := fun b => (c.decode b, d.decode (b.drop c.width))
  Valid := fun a => c.Valid a.1 ∧ d.Valid a.2
  length_encode := by
    intro a
    rw [List.length_append, c.length_encode, d.length_encode]
  decode_encode := by
    intro a rest h
    rw [List.append_assoc, c.decode_encode _ _ h.1, List.drop_left' (c.length_encode a.1),
      d.decode_encode _ _ h.2]

/-- A value that is laid out as another one. -/
def via (c : Codec β) (fields : α → β) (build : β → α) (Valid : α → Prop)
    (h : ∀ a, Valid a → c.Valid (fields a) ∧ build (fields a) = a) : Codec α where
  width := c.width
  encode := fun a => c.encode (fields a)
  decode := fun b => build (c.decode b)
  Valid := Valid
  length_encode := fun a => c.length_encode (fields a)
  decode_encode := by
    intro a rest ha
    rw [c.decode_encode _ _ (h a ha).1, (h a ha).2]

/-- A bit vector of whole bytes. -/
def bitVec (w n : Nat) (h : 2 ^ w ≤ 256 ^ n) : Codec (BitVec w) :=
  (nat n).via BitVec.toNat (BitVec.ofNat w) (fun _ => True) fun v _ =>
    ⟨Nat.lt_of_lt_of_le v.isLt h, (BitVec.ofNat_toNat w v).trans (BitVec.setWidth_eq v)⟩

end Codec
