import Mathlib.Data.Finset.Insert
import Mathlib.Data.Finset.Erase
import Mathlib.Logic.Function.Basic

/-!
# Exclusive claims

Owners `ι` hold at most one key `κ` each: a table of claims is a function `K : ι → Option κ`.
The table is *single* when no key has two owners (`Claims.Single`), and a register *lists* the
table when it is exactly the set of the keys held (`Claims.Lists`). An owner drops its key,
takes a key nobody holds, or hands its key to another owner that has none; the three are
updates of the table, and all keep both notions.
-/

namespace Claims

open Function

variable {ι κ : Type*} {K : ι → Option κ} {i j a : ι} {k : κ}

/-- No key has two owners. -/
def Single (K : ι → Option κ) : Prop := ∀ i j k, K i = some k → K j = some k → i = j

/-- The register `R` is the set of the keys that are held. -/
def Lists (R : Finset κ) (K : ι → Option κ) : Prop := ∀ k, k ∈ R ↔ ∃ i, K i = some k

theorem single_none : Single fun _ : ι => (none : Option κ) := by
  intro i j k hi
  cases hi

theorem lists_none : Lists ∅ fun _ : ι => (none : Option κ) := by
  intro k
  simp

variable [DecidableEq ι]

/-- Whoever holds a key after `i` has dropped its own held it before. -/
theorem of_update_none (h : update K i none a = some k) : a ≠ i ∧ K a = some k := by
  have hai : a ≠ i := by
    rintro rfl
    simp at h
  exact ⟨hai, by rwa [update_of_ne hai] at h⟩

theorem Single.drop (h : Single K) (i : ι) : Single (update K i none) := by
  intro a b k ha hb
  exact h a b k (of_update_none ha).2 (of_update_none hb).2

/-- A key that no other owner holds may be taken. -/
theorem Single.take (h : Single K) (hk : ∀ j, j ≠ i → K j ≠ some k) :
    Single (update K i (some k)) := by
  intro a b c ha hb
  by_cases hai : a = i <;> by_cases hbi : b = i
  · rw [hai, hbi]
  · subst hai
    rw [update_self, Option.some.injEq] at ha
    rw [update_of_ne hbi, ← ha] at hb
    exact absurd hb (hk b hbi)
  · subst hbi
    rw [update_self, Option.some.injEq] at hb
    rw [update_of_ne hai, ← hb] at ha
    exact absurd ha (hk a hai)
  · rw [update_of_ne hai] at ha
    rw [update_of_ne hbi] at hb
    exact h a b c ha hb

/-- A key that another owner holds may not. -/
theorem not_single_take (hji : j ≠ i) (hj : K j = some k) : ¬ Single (update K i (some k)) := by
  intro h
  refine hji (h j i k ?_ (update_self ..))
  rw [update_of_ne hji]
  exact hj

theorem Single.move (h : Single K) (hij : i ≠ j) :
    Single (update (update K i (K j)) j none) := by
  rw [update_comm hij]
  rcases hj : K j with _ | k
  · exact (h.drop j).drop i
  · refine (h.drop j).take fun a _ ha => ?_
    obtain ⟨haj, ha⟩ := of_update_none ha
    exact haj (h a j k ha hj)

theorem Lists.move {R : Finset κ} (h : Lists R K) (hij : i ≠ j) (hi : K i = none) :
    Lists R (update (update K i (K j)) j none) := by
  intro c
  rw [h c]
  constructor
  · rintro ⟨a, ha⟩
    -- what `j` held is now with `i`, which had nothing to lose
    by_cases haj : a = j
    · subst haj
      exact ⟨i, by rw [update_of_ne hij, update_self, ha]⟩
    · have hai : a ≠ i := by
        rintro rfl
        rw [hi] at ha
        cases ha
      exact ⟨a, by rw [update_of_ne haj, update_of_ne hai, ha]⟩
  · rintro ⟨a, ha⟩
    obtain ⟨-, ha⟩ := of_update_none ha
    by_cases hai : a = i
    · subst hai
      rw [update_self] at ha
      exact ⟨j, ha⟩
    · rw [update_of_ne hai] at ha
      exact ⟨a, ha⟩

variable [DecidableEq κ] {R : Finset κ}

theorem Lists.drop (h : Lists R K) (hs : Single K) (hi : K i = some k) :
    Lists (R.erase k) (update K i none) := by
  intro c
  rw [Finset.mem_erase, h c]
  constructor
  · rintro ⟨hck, a, ha⟩
    have hai : a ≠ i := by
      rintro rfl
      rw [hi, Option.some.injEq] at ha
      exact hck ha.symm
    exact ⟨a, by rwa [update_of_ne hai]⟩
  · rintro ⟨a, ha⟩
    obtain ⟨hai, ha⟩ := of_update_none ha
    refine ⟨?_, a, ha⟩
    rintro rfl
    exact hai (hs a i c ha hi)

theorem Lists.take (h : Lists R K) (hi : K i = none) :
    Lists (insert k R) (update K i (some k)) := by
  intro c
  rw [Finset.mem_insert, h c]
  constructor
  · rintro (rfl | ⟨a, ha⟩)
    · exact ⟨i, update_self ..⟩
    · have hai : a ≠ i := by
        rintro rfl
        rw [hi] at ha
        cases ha
      exact ⟨a, by rwa [update_of_ne hai]⟩
  · rintro ⟨a, ha⟩
    by_cases hai : a = i
    · subst hai
      rw [update_self, Option.some.injEq] at ha
      exact .inl ha.symm
    · rw [update_of_ne hai] at ha
      exact .inr ⟨a, ha⟩

end Claims
