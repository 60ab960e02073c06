import Mathlib.Algebra.GroupWithZero.Nat
import Mathlib.Data.List.Basic

/-!
# Accesses to a block of memory

What a piece of code does to a block, as far as bounds are concerned: it copies a number of bytes
from a source of a known size, or it stores a single byte. A block is its size.

* `fit_pieces_iff`: pieces that are copied one behind the other, each followed by a terminator,
  fit exactly when their lengths do.
-/

namespace Memory

/-- One access. The offsets count from the start of the block. -/
inductive Access
  | copy (offset len source : Nat)
  | store (offset : Nat)
  deriving DecidableEq, Repr

/-- The access stays in a block of the size, and reads no more than the source has. -/
def Access.Fits (size : Nat) : Access → Prop
  | .copy offset len source => offset + len ≤ size ∧ len ≤ source
  | .store offset => offset < size

instance (size : Nat) (a : Access) : Decidable (a.Fits size) :=
  match a with
  | .copy _ _ _ => inferInstanceAs (Decidable (_ ∧ _))
  | .store _ => inferInstanceAs (Decidable (_ < _))

/-- Every access fits. -/
def Fit (size : Nat) (as : List Access) : Prop := ∀ a ∈ as, a.Fits size

instance (size : Nat) (as : List Access) : Decidable (Fit size as) :=
  inferInstanceAs (Decidable (∀ a ∈ as, a.Fits size))

variable {size size' offset len source : Nat} {a : Access} {as as' : List Access}

@[simp] theorem fits_copy :
    (Access.copy offset len source).Fits size ↔ offset + len ≤ size ∧ len ≤ source := Iff.rfl

@[simp] theorem fits_store : (Access.store offset).Fits size ↔ offset < size := Iff.rfl

@[simp] theorem fit_nil : Fit size [] := fun _ h => absurd h List.not_mem_nil

@[simp] theorem fit_cons : Fit size (a :: as) ↔ a.Fits size ∧ Fit size as := List.forall_mem_cons

@[simp] theorem fit_append : Fit size (as ++ as') ↔ Fit size as ∧ Fit size as' :=
  List.forall_mem_append

/-- One piece of text to be laid out: its length and the size of its source. -/
structure Piece where
  len : Nat
  source : Nat
  deriving DecidableEq, Repr

/-- Copy the pieces one behind the other, and a terminator behind each. -/
def pieces : Nat → List Piece → List Access
  | _, [] => []
  | offset, p :: ps =>
    .copy offset p.len p.source :: .store (offset + p.len) :: pieces (offset + p.len + 1) ps

/-- The room that the pieces take. -/
def extent (ps : List Piece) : Nat := (ps.map fun p => p.len + 1).sum

@[simp] theorem extent_nil : extent [] = 0 := rfl

@[simp] theorem extent_cons (p : Piece) (ps : List Piece) :
    extent (p :: ps) = p.len + 1 + extent ps := rfl

theorem fit_pieces_iff (ps : List Piece) (h : offset ≤ size) :
    Fit size (pieces offset ps) ↔ offset + extent ps ≤ size ∧ ∀ p ∈ ps, p.len ≤ p.source := by
  induction ps generalizing offset with
  | nil => simpa [pieces] using h
  | cons p ps ih =>
    simp only [pieces, fit_cons, fits_copy, fits_store, extent_cons, List.forall_mem_cons]
    constructor
    · rintro ⟨⟨_, hsource⟩, hstore, hrest⟩
      obtain ⟨hroom, hsources⟩ := (ih (by omega)).mp hrest
      exact ⟨by omega, hsource, hsources⟩
    · rintro ⟨hroom, hsource, hsources⟩
      exact ⟨⟨by omega, hsource⟩, by omega, (ih (by omega)).mpr ⟨by omega, hsources⟩⟩

end Memory
