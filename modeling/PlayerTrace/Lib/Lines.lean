import Mathlib.Data.List.DropRight

/-!
# Lines

A sequence of symbols read as lines: a line is what lies between two separators, and it is
complete when the separator that ends it is there. `Lines.complete` is what remains of a
sequence when an incomplete last line is cut off, and `Lines.isPrefix_complete` says that it
is the longest part that ends with a separator; its length is the place just past the last
separator, if there is one (`Lines.PastLast`).

The sequence that consists of given lines is `Lines.text`. A part of it that ends with a
separator consists of the first of these lines (`Lines.exists_text_of_isPrefix`), whatever
the point at which it was cut.
-/

namespace Lines

variable {α : Type*} {sep : α} {c c' d l : List α} {ps : List (List α)}

/-- No line has been begun and not been ended. -/
def Ended (sep : α) (c : List α) : Prop := ∀ x ∈ c.getLast?, x = sep

/-- These lines, each with its separator. -/
def text (sep : α) (ps : List (List α)) : List α := ps.flatMap fun p => p ++ [sep]

/-- A complete line. -/
def IsLine (sep : α) (l c : List α) : Prop :=
  ∃ before after, c = before ++ l ++ sep :: after ∧ Ended sep before ∧ sep ∉ l

/-! ### Ended sequences -/

theorem ended_nil : Ended sep [] := by
  intro x hx
  simp at hx

@[simp] theorem ended_concat {x : α} : Ended sep (c ++ [x]) ↔ x = sep := by
  simp [Ended, List.getLast?_append]

theorem Ended.append (hc : Ended sep c) (hd : Ended sep d) : Ended sep (c ++ d) := by
  rcases List.eq_nil_or_concat' d with rfl | ⟨d, x, rfl⟩
  · rwa [List.append_nil]
  · rw [← List.append_assoc, ended_concat]
    exact ended_concat.mp hd

theorem Ended.of_append (h : Ended sep (c ++ d)) : Ended sep d := by
  rcases List.eq_nil_or_concat' d with rfl | ⟨d, x, rfl⟩
  · exact ended_nil
  · rw [← List.append_assoc, ended_concat] at h
    exact ended_concat.mpr h

/-- Without a separator, only the empty sequence is ended. -/
theorem Ended.eq_nil (h : Ended sep c) (hc : sep ∉ c) : c = [] := by
  rcases List.eq_nil_or_concat' c with rfl | ⟨c, x, rfl⟩
  · rfl
  · exact absurd (ended_concat.mp h) fun hx => hc (by simp [hx])

/-! ### Lines put one after the other -/

@[simp] theorem text_nil : text sep [] = [] := rfl

@[simp] theorem text_cons {p : List α} : text sep (p :: ps) = p ++ [sep] ++ text sep ps := rfl

@[simp] theorem text_append {qs : List (List α)} :
    text sep (ps ++ qs) = text sep ps ++ text sep qs := List.flatMap_append

theorem text_ended (ps : List (List α)) : Ended sep (text sep ps) := by
  induction ps with
  | nil => exact ended_nil
  | cons p ps ih => exact (ended_concat.mpr rfl).append ih

/-- **Cutting a text after a separator leaves whole lines.** -/
theorem exists_text_of_isPrefix (hfree : ∀ p ∈ ps, sep ∉ p) (hc : c <+: text sep ps)
    (he : Ended sep c) : ∃ k, c = text sep (ps.take k) := by
  induction ps generalizing c with
  | nil => exact ⟨0, List.prefix_nil.mp hc⟩
  | cons p ps ih =>
    have hp : sep ∉ p := hfree p List.mem_cons_self
    rcases List.prefix_or_prefix_of_prefix hc (List.prefix_append (p ++ [sep]) _) with h | ⟨d, rfl⟩
    · -- at most the first line is there: all of it, or nothing
      rcases List.prefix_concat_iff.mp h with rfl | h
      · exact ⟨1, by simp⟩
      · exact ⟨0, he.eq_nil fun hm => hp (h.subset hm)⟩
    · obtain ⟨k, rfl⟩ := ih (fun p hp => hfree p (List.mem_cons_of_mem _ hp))
        ((List.prefix_append_right_inj _).mp hc) he.of_append
      exact ⟨k + 1, by simp⟩

/-! ### Complete lines -/

theorem IsLine.of_isPrefix (h : IsLine sep l c) (hc : c <+: c') : IsLine sep l c' := by
  obtain ⟨before, after, rfl, hb, hl⟩ := h
  obtain ⟨d, rfl⟩ := hc
  exact ⟨before, after ++ d, by simp, hb, hl⟩

theorem isLine_text (hmem : l ∈ ps) (hl : sep ∉ l) : IsLine sep l (text sep ps) := by
  obtain ⟨qs, rs, rfl⟩ := List.append_of_mem hmem
  exact ⟨text sep qs, text sep rs, by simp, text_ended qs, hl⟩

/-! ### The last separator -/

/-- `n` is just past the last separator, or zero if there is none. -/
structure PastLast (sep : α) (l : List α) (n : Nat) : Prop where
  ends : 0 < n → l[n - 1]? = some sep
  beyond : ∀ i, n ≤ i → l[i]? ≠ some sep

/-- There is one such place. -/
theorem PastLast.unique {m n : Nat} (hm : PastLast sep c m) (hn : PastLast sep c n) : m = n := by
  by_contra hne
  rcases Nat.lt_or_gt_of_ne hne with hlt | hlt
  · exact hm.beyond (n - 1) (by omega) (hn.ends (by omega))
  · exact hn.beyond (m - 1) (by omega) (hm.ends (by omega))

/-! ### Cutting an incomplete line off -/

variable [DecidableEq α]

/-- All but an incomplete last line. -/
def complete (sep : α) (c : List α) : List α := c.rdropWhile fun x => decide (x ≠ sep)

@[simp] theorem complete_nil : complete sep [] = [] := rfl

theorem complete_isPrefix (c : List α) : complete sep c <+: c := List.rdropWhile_prefix _ _

@[simp] theorem complete_concat_sep : complete sep (c ++ [sep]) = c ++ [sep] :=
  List.rdropWhile_concat_neg _ _ _ (by simp)

theorem complete_concat {x : α} (hx : x ≠ sep) : complete sep (c ++ [x]) = complete sep c :=
  List.rdropWhile_concat_pos _ _ _ (by simpa using hx)

theorem complete_eq (h : Ended sep c) : complete sep c = c := by
  rcases List.eq_nil_or_concat' c with rfl | ⟨c, x, rfl⟩
  · rfl
  · rw [ended_concat.mp h, complete_concat_sep]

/-- What follows the last separator is cut off. -/
theorem complete_append (hd : sep ∉ d) : complete sep (c ++ d) = complete sep c := by
  induction d using List.reverseRecOn with
  | nil => rw [List.append_nil]
  | append_singleton d x ih =>
    rw [List.mem_append, List.mem_singleton, not_or] at hd
    rw [← List.append_assoc, complete_concat (Ne.symm hd.2), ih hd.1]

theorem complete_ended (c : List α) : Ended sep (complete sep c) := by
  induction c using List.reverseRecOn with
  | nil => exact ended_nil
  | append_singleton c x ih =>
    by_cases hx : x = sep
    · rw [hx, complete_concat_sep, ended_concat]
    · rwa [complete_concat hx]

/-- **The complete part is the longest one that ends with a separator.** -/
theorem isPrefix_complete (hd : d <+: c) (he : Ended sep d) : d <+: complete sep c := by
  induction c using List.reverseRecOn with
  | nil => exact hd
  | append_singleton c x ih =>
    by_cases hx : x = sep
    · rwa [hx, complete_concat_sep, ← hx]
    · rw [complete_concat hx]
      rcases List.prefix_concat_iff.mp hd with rfl | hd
      · exact absurd (ended_concat.mp he) hx
      · exact ih hd

/-- It is where the complete lines end. -/
theorem pastLast_complete (sep : α) (c : List α) : PastLast sep c (complete sep c).length := by
  induction c using List.reverseRecOn with
  | nil => exact ⟨by simp, by simp⟩
  | append_singleton c x ih =>
    by_cases hx : x = sep
    · rw [hx, complete_concat_sep]
      refine ⟨fun _ => by simp, fun i hi => ?_⟩
      rw [List.getElem?_eq_none hi]
      exact nofun
    · rw [complete_concat hx]
      have hle : (complete sep c).length ≤ c.length := (complete_isPrefix c).length_le
      refine ⟨fun hpos => ?_, fun i hi => ?_⟩
      · rw [List.getElem?_append_left (by omega)]
        exact ih.ends hpos
      · rcases Nat.lt_or_ge i c.length with hlt | hge
        · rw [List.getElem?_append_left hlt]
          exact ih.beyond i hi
        · -- the symbol behind `c` is no separator, and then there is nothing
          rw [List.getElem?_append_right hge, List.getElem?_singleton]
          split
          · exact fun heq => hx (Option.some.inj heq)
          · exact nofun

end Lines
