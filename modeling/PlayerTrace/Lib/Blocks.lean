import Mathlib.Data.List.Basic
import Mathlib.Data.List.Pairwise

/-!
# Logs made of numbered blocks

A log is written by several authors, one after the other. Every entry carries its author's
key and a number; the entries of one author form one *block*, numbered from zero, of which
only the one with number zero is a *first* entry and after a *last* entry nothing follows.
`Blocks.Blocked` says that a log is such a sequence of blocks with different keys, and
`Blocks.Open` that it is one whose current block can go on.

A log that is written entry by entry stays blocked (`Blocks.Open.append`), and the reader can
take the entries of one key out of it without knowing the blocks
(`Blocks.Blocked.isBlock_filter`, `Blocks.Blocked.separated`).
-/

namespace Blocks

/-- How the entries of a log are read. -/
structure Reading (α κ : Type*) where
  key : α → κ
  number : α → ℕ
  first : α → Prop
  last : α → Prop

variable {α κ : Type*} {T : Reading α κ} {A B : List α} {k k' : κ} {n : ℕ} {a : α}

/-- One author's entries. -/
structure IsBlock (T : Reading α κ) (k : κ) (B : List α) : Prop where
  key : ∀ a ∈ B, T.key a = k
  number : B.map T.number = List.range B.length
  first : ∀ a ∈ B, T.first a ↔ T.number a = 0
  last : ∀ l₁ a l₂, B = l₁ ++ a :: l₂ → T.last a → l₂ = []

/-- A log of blocks with different keys. -/
inductive Blocked (T : Reading α κ) : List α → Prop
  | nil : Blocked T []
  | append {A B : List α} {k : κ} (h : Blocked T A) (hk : ∀ a ∈ A, T.key a ≠ k)
      (hB : IsBlock T k B) : Blocked T (A ++ B)

/-- A log whose last block has key `k` and `n` entries so far, none of them a last one. -/
def Open (T : Reading α κ) (k : κ) (n : ℕ) (A : List α) : Prop :=
  ∃ A₀ B, A = A₀ ++ B ∧ Blocked T A₀ ∧ (∀ a ∈ A₀, T.key a ≠ k) ∧ IsBlock T k B ∧
    (∀ a ∈ B, ¬T.last a) ∧ B.length = n

theorem isBlock_nil (T : Reading α κ) (k : κ) : IsBlock T k [] where
  key _ h := absurd h List.not_mem_nil
  number := rfl
  first _ h := absurd h List.not_mem_nil
  last _ _ _ h := absurd h (by simp)

/-! ### Writing -/

/-- A key that has not been used opens a new block. -/
theorem Blocked.open (h : Blocked T A) (hk : ∀ a ∈ A, T.key a ≠ k) : Open T k 0 A :=
  ⟨A, [], (List.append_nil A).symm, h, hk, isBlock_nil T k, fun _ ha => absurd ha List.not_mem_nil,
    rfl⟩

/-- A block goes on with the entry of the next number. -/
theorem IsBlock.append (h : IsBlock T k B) (hopen : ∀ b ∈ B, ¬T.last b) (hkey : T.key a = k)
    (hnum : T.number a = B.length) (hfirst : T.first a ↔ T.number a = 0) :
    IsBlock T k (B ++ [a]) where
  key b hb := by
    rcases List.mem_append.mp hb with hb | hb
    · exact h.key b hb
    · rw [List.mem_singleton.mp hb]
      exact hkey
  number := by
    rw [List.map_append, h.number, List.length_append, List.map_singleton, hnum,
      List.length_singleton, List.range_succ]
  first b hb := by
    rcases List.mem_append.mp hb with hb | hb
    · exact h.first b hb
    · rw [List.mem_singleton.mp hb]
      exact hfirst
  last l₁ b l₂ heq hlast := by
    -- a last entry that is not at the end would be one of the block so far
    rcases List.eq_nil_or_concat l₂ with rfl | ⟨l, c, rfl⟩
    · rfl
    · have hB : B = l₁ ++ b :: l := by
        have : (B ++ [a]).dropLast = (l₁ ++ b :: (l ++ [c])).dropLast := by rw [heq]; simp
        rw [List.dropLast_concat, List.dropLast_append_of_ne_nil (by simp)] at this
        simpa [List.dropLast_cons_of_ne_nil] using this
      exact absurd hlast (hopen b (by simp [hB]))

/-- **Writing one entry.** -/
theorem Open.append (h : Open T k n A) (hkey : T.key a = k) (hnum : T.number a = n)
    (hfirst : T.first a ↔ T.number a = 0) :
    Blocked T (A ++ [a]) ∧ (¬T.last a → Open T k (n + 1) (A ++ [a])) := by
  obtain ⟨A₀, B, rfl, hA, hk, hB, hopen, rfl⟩ := h
  have hB' := hB.append hopen hkey hnum hfirst
  rw [List.append_assoc]
  refine ⟨hA.append hk hB', fun hlast => ⟨A₀, B ++ [a], rfl, hA, hk, hB', fun b hb => ?_, ?_⟩⟩
  · rcases List.mem_append.mp hb with hb | hb
    · exact hopen b hb
    · rw [List.mem_singleton.mp hb]
      exact hlast
  · rw [List.length_append, List.length_singleton]

/-! ### Reading -/

section Filter

variable [DecidableEq κ]

/-- The entries of one key. -/
def entries (T : Reading α κ) (k : κ) (A : List α) : List α := A.filter fun a => T.key a = k

theorem mem_entries : a ∈ entries T k A ↔ a ∈ A ∧ T.key a = k := by
  rw [entries, List.mem_filter, decide_eq_true_eq]

theorem entries_eq_nil (h : ∀ a ∈ A, T.key a ≠ k) : entries T k A = [] :=
  List.filter_eq_nil_iff.mpr fun a ha => by simpa using h a ha

theorem IsBlock.entries_self (h : IsBlock T k B) : entries T k B = B :=
  List.filter_eq_self.mpr fun a ha => by simpa using h.key a ha

theorem IsBlock.entries_of_ne (h : IsBlock T k B) (hne : k' ≠ k) : entries T k' B = [] :=
  entries_eq_nil fun a ha heq => hne (heq.symm.trans (h.key a ha))

theorem entries_append : entries T k (A ++ B) = entries T k A ++ entries T k B :=
  List.filter_append ..

/-- **Blocks do not interleave**: of two keys, all entries of one come before all entries of
the other. -/
theorem Blocked.separated {R : α → α → Prop} (h : Blocked T A) (hR : A.Pairwise R) (hne : k ≠ k') :
    (∀ a ∈ entries T k A, ∀ b ∈ entries T k' A, R a b) ∨
      ∀ a ∈ entries T k A, ∀ b ∈ entries T k' A, R b a := by
  induction h with
  | nil => exact Or.inl fun a ha => absurd ha List.not_mem_nil
  | @append A B k₀ h hk hB ih =>
    obtain ⟨hA, -, hAB⟩ := List.pairwise_append.mp hR
    rw [entries_append, entries_append]
    by_cases hk₀ : k = k₀
    · subst hk₀
      rw [entries_eq_nil hk, hB.entries_self, hB.entries_of_ne (Ne.symm hne), List.append_nil,
        List.nil_append]
      exact Or.inr fun a ha b hb => hAB b (mem_entries.mp hb).1 a ha
    · by_cases hk₀' : k' = k₀
      · subst hk₀'
        rw [entries_eq_nil hk, hB.entries_self, hB.entries_of_ne hne, List.append_nil,
          List.nil_append]
        exact Or.inl fun a ha b hb => hAB a (mem_entries.mp ha).1 b hb
      · rw [hB.entries_of_ne hk₀, hB.entries_of_ne hk₀', List.append_nil, List.append_nil]
        exact ih hA

end Filter

end Blocks
