import Mathlib.Algebra.BigOperators.Group.List.Basic
import Mathlib.Data.List.Infix
import Mathlib.Algebra.Order.Ring.Int

/-!
# Balanced parentheses

The height of a text is the number of its opening parentheses minus that of its closing ones.
A text is balanced if it has height zero and no beginning of it has a negative height. Read
from depth `d`, it closes that depth if what follows is the matching parenthesis
(`Parens.Closes`), which is how a scanner with a counter sees it.
-/

namespace Parens

variable {α : Type} [DecidableEq α]

section

variable (o c : α)

def weight (x : α) : Int := if x = o then 1 else if x = c then -1 else 0

def height (s : List α) : Int := (s.map (weight o c)).sum

/-- Balanced in `o` and `c`. -/
def Balanced (s : List α) : Prop := height o c s = 0 ∧ ∀ t, t <+: s → 0 ≤ height o c t

/-- From depth `d`, the text ends at depth 1 and was never below. -/
def Closes (d : Int) (s : List α) : Prop :=
  d + height o c s = 1 ∧ ∀ t, t <+: s → 1 ≤ d + height o c t

end

variable {o c x : α} {s t : List α} {d : Int}

@[simp] theorem height_nil : height o c [] = 0 := rfl

@[simp] theorem height_cons : height o c (x :: s) = weight o c x + height o c s := by
  simp [height]

@[simp] theorem height_append : height o c (s ++ t) = height o c s + height o c t := by
  simp [height]

@[simp] theorem weight_open : weight o c o = 1 := if_pos rfl

theorem weight_close (h : o ≠ c) : weight o c c = -1 := by
  rw [weight, if_neg h.symm, if_pos rfl]

theorem weight_other (ho : x ≠ o) (hc : x ≠ c) : weight o c x = 0 := by
  rw [weight, if_neg ho, if_neg hc]

theorem height_of_free (h : ∀ x ∈ s, x ≠ o ∧ x ≠ c) : height o c s = 0 := by
  induction s with
  | nil => rfl
  | cons x s ih =>
    rw [height_cons, weight_other (h x List.mem_cons_self).1 (h x List.mem_cons_self).2,
      ih fun y hy => h y (List.mem_cons_of_mem _ hy), Int.add_zero]

theorem closes_one_iff : Closes o c 1 s ↔ Balanced o c s := by
  unfold Closes Balanced
  constructor
  · rintro ⟨h, hpre⟩
    exact ⟨by omega, fun t ht => by have := hpre t ht; omega⟩
  · rintro ⟨h, hpre⟩
    exact ⟨by omega, fun t ht => by have := hpre t ht; omega⟩

theorem closes_nil_iff : Closes o c d [] ↔ d = 1 := by
  unfold Closes
  constructor
  · rintro ⟨h, -⟩
    simpa using h
  · rintro rfl
    refine ⟨rfl, fun t ht => ?_⟩
    rw [List.prefix_nil.mp ht]
    simp

theorem closes_cons_iff : Closes o c d (x :: s) ↔ 1 ≤ d ∧ Closes o c (d + weight o c x) s := by
  unfold Closes
  rw [height_cons]
  constructor
  · rintro ⟨h, hpre⟩
    refine ⟨by simpa using hpre [] List.nil_prefix, by omega, fun t ht => ?_⟩
    have := hpre (x :: t) (List.cons_prefix_cons.mpr ⟨rfl, ht⟩)
    rw [height_cons] at this
    omega
  · rintro ⟨hd, h, hpre⟩
    refine ⟨by omega, fun t ht => ?_⟩
    cases t with
    | nil => simpa using hd
    | cons y t =>
      obtain ⟨rfl, htail⟩ := List.cons_prefix_cons.mp ht
      have := hpre t htail
      rw [height_cons]
      omega

/-- Strictly inside a group the height is positive. -/
theorem Balanced.height_pos {rest : List α} (hs : Balanced o c s)
    (ht : t <+: o :: (s ++ c :: rest)) (hne : t ≠ []) (hlt : t.length < s.length + 2) :
    1 ≤ height o c t := by
  obtain ⟨y, t, rfl⟩ := List.exists_cons_of_ne_nil hne
  obtain ⟨rfl, htail⟩ := List.cons_prefix_cons.mp ht
  rw [List.length_cons] at hlt
  have hts : t <+: s := List.prefix_of_prefix_length_le htail (List.prefix_append _ _) (by omega)
  have := hs.2 t hts
  rw [height_cons, weight_open]
  omega

theorem Balanced.height_group (hs : Balanced o c s) (hoc : o ≠ c) :
    height o c (o :: (s ++ [c])) = 0 := by
  rw [height_cons, height_append, height_cons, height_nil, weight_open, weight_close hoc, hs.1]
  rfl

end Parens
