import Mathlib.Algebra.Order.Ring.Int
import Mathlib.Tactic.Positivity

/-!
# Signed machine integers

An integer of a fixed width in two's complement, in a language in which overflow is
undefined: an operation whose value does not fit has no result. So a computation that has a
result has not overflowed, and its result is the one over the integers.
-/

/-- A signed integer of `w` bits. -/
@[ext]
structure Signed (w : Nat) where
  val : Int
  lower : -2 ^ (w - 1) ≤ val
  upper : val < 2 ^ (w - 1)
  deriving DecidableEq

namespace Signed

variable {w : Nat} {x y z : Signed w} {n : Int}

/-- The integer with this value, if there is one. -/
def ofInt (n : Int) : Option (Signed w) :=
  if h : -2 ^ (w - 1) ≤ n ∧ n < 2 ^ (w - 1) then some ⟨n, h.1, h.2⟩ else none

instance : Zero (Signed w) := ⟨⟨0, by simp, by positivity⟩⟩

def add (x y : Signed w) : Option (Signed w) := ofInt (x.val + y.val)

def sub (x y : Signed w) : Option (Signed w) := ofInt (x.val - y.val)

def mul (x y : Signed w) : Option (Signed w) := ofInt (x.val * y.val)

/-- The conversion to an unsigned integer of `v` bits. -/
def toUnsigned (v : Nat) (x : Signed w) : Nat := (x.val % 2 ^ v).toNat

@[simp] theorem val_zero : (0 : Signed w).val = 0 := rfl

theorem ofInt_eq_some : ofInt n = some x ↔ n = x.val := by
  unfold ofInt
  constructor
  · intro h
    split at h
    · rw [← Option.some.inj h]
    · cases h
  · rintro rfl
    rw [dif_pos ⟨x.lower, x.upper⟩]

/-- A value between two others fits. -/
theorem exists_ofInt (hx : x.val ≤ n) (hy : n ≤ y.val) :
    ∃ z : Signed w, ofInt n = some z ∧ z.val = n :=
  ⟨⟨n, le_trans x.lower hx, lt_of_le_of_lt hy y.upper⟩, ofInt_eq_some.mpr rfl, rfl⟩

/-- Taking away a part. -/
theorem exists_sub (hy : 0 ≤ y.val) (hle : y.val ≤ x.val) :
    ∃ z, x.sub y = some z ∧ z.val = x.val - y.val :=
  exists_ofInt (x := 0) (y := x) (by simpa using hle) (by omega)

/-- Adding up to something that fits. -/
theorem exists_add (hy : 0 ≤ y.val) (hle : x.val + y.val ≤ z.val) :
    ∃ s, x.add y = some s ∧ s.val = x.val + y.val :=
  exists_ofInt (x := x) (y := z) (by omega) hle

/-- A value that is not negative is converted as it is. -/
theorem toUnsigned_eq {v : Nat} (hv : w - 1 ≤ v) (hx : 0 ≤ x.val) :
    x.toUnsigned v = x.val.toNat := by
  have hlt : x.val < 2 ^ v := lt_of_lt_of_le x.upper (pow_le_pow_right₀ (by norm_num) hv)
  rw [toUnsigned, Int.emod_eq_of_lt hx hlt]

end Signed
