import Mathlib.Algebra.Order.Ring.Int
import Mathlib.Data.List.Basic
import Mathlib.Order.Basic
import Mathlib.Data.List.Lex
import Mathlib.Data.List.Forall2
import Mathlib.Algebra.BigOperators.Group.List.Basic

/-!
# Decimal numerals of a fixed width

`Decimal.padded w n` is the numeral of `n` filled up with zeros to `w` digits. As long as `n`
fits, it has exactly `w` digits, the number can be read back from them, and the order of the
numbers is the lexicographic order of the numerals.
-/

namespace Decimal

/-- The numeral of `n`, with zeros in front if it has fewer than `w` digits. -/
def padded (w n : Nat) : List Char :=
  List.replicate (w - (Nat.toDigits 10 n).length) '0' ++ Nat.toDigits 10 n

/-- The number of a numeral. -/
def value (cs : List Char) : Nat := Nat.ofDigitChars 10 cs 0

variable {w n n' : Nat} {cs cs' : List Char}

@[simp] theorem value_padded (w n : Nat) : value (padded w n) = n := by
  rw [value, padded, Nat.ofDigitChars_append, Nat.ofDigitChars_replicate_zero, Nat.mul_zero,
    Nat.ofDigitChars_ten_toDigits]

theorem length_padded (hw : 0 < w) (hn : n < 10 ^ w) : (padded w n).length = w := by
  have hle := (Nat.length_toDigits_le_iff (by decide) hw).mpr hn
  rw [padded, List.length_append, List.length_replicate]
  omega

theorem isDigit_of_mem_padded {c : Char} (h : c ∈ padded w n) : c.isDigit = true := by
  rcases List.mem_append.mp h with hzero | hdigit
  · rw [(List.mem_replicate.mp hzero).2]
    rfl
  · exact Nat.isDigit_of_mem_toDigits (by decide) (by decide) hdigit

/-! ### The order of numerals -/

/-- Digits only. -/
def Digits (cs : List Char) : Prop := ∀ c ∈ cs, c.isDigit = true

theorem digits_padded (w n : Nat) : Digits (padded w n) := fun _ => isDigit_of_mem_padded

theorem value_cons (c : Char) (cs : List Char) :
    value (c :: cs) = 10 ^ cs.length * (c.toNat - '0'.toNat) + value cs := by
  rw [value, Nat.ofDigitChars_cons, Nat.ofDigitChars_eq_ofDigitChars_zero, Nat.mul_zero,
    Nat.zero_add, value]

theorem toNat_of_isDigit {c : Char} (h : c.isDigit = true) :
    '0'.toNat ≤ c.toNat ∧ c.toNat ≤ '0'.toNat + 9 := by
  simp only [Char.isDigit, Bool.and_eq_true, decide_eq_true_eq, ge_iff_le] at h
  exact h

theorem value_lt (h : Digits cs) : value cs < 10 ^ cs.length := by
  induction cs with
  | nil => exact Nat.one_pos
  | cons c cs ih =>
    have hc := toNat_of_isDigit (h c List.mem_cons_self)
    have htail := ih fun d hd => h d (List.mem_cons_of_mem _ hd)
    have hle : 10 ^ cs.length * (c.toNat - '0'.toNat) ≤ 10 ^ cs.length * 9 :=
      Nat.mul_le_mul_left _ (by omega)
    rw [value_cons, List.length_cons, Nat.pow_succ]
    omega

/-- Of two numerals of one length, the one of the smaller number comes first. -/
theorem lt_of_value_lt (h : Digits cs) (h' : Digits cs') (hlen : cs.length = cs'.length)
    (hlt : value cs < value cs') : cs < cs' := by
  induction cs generalizing cs' with
  | nil =>
    obtain rfl := List.length_eq_zero_iff.mp hlen.symm
    exact absurd hlt (Nat.lt_irrefl _)
  | cons c cs ih =>
    obtain ⟨c', cs', rfl⟩ := List.exists_cons_of_length_eq_add_one hlen.symm
    have hlen : cs.length = cs'.length := Nat.succ.inj hlen
    have hc := toNat_of_isDigit (h c List.mem_cons_self)
    have hc' := toNat_of_isDigit (h' c' List.mem_cons_self)
    have hd : Digits cs := fun d hd => h d (List.mem_cons_of_mem _ hd)
    have hd' : Digits cs' := fun d hd => h' d (List.mem_cons_of_mem _ hd)
    have hbound := value_lt hd
    have hbound' := value_lt hd'
    rw [value_cons, value_cons, hlen] at hlt
    rw [List.cons_lt_cons_iff]
    rcases Nat.lt_trichotomy c.toNat c'.toNat with hcc | hcc | hcc
    · exact .inl hcc
    · refine .inr ⟨Char.toNat_inj.mp hcc, ih hd hd' hlen ?_⟩
      rw [hcc] at hlt
      omega
    · have hstep : 10 ^ cs'.length * (c'.toNat - '0'.toNat) + 10 ^ cs'.length ≤
          10 ^ cs'.length * (c.toNat - '0'.toNat) := by
        rw [← Nat.mul_succ]
        exact Nat.mul_le_mul_left _ (by omega)
      omega

theorem append_lt_append {ds ds' : List Char} (hlen : cs.length = cs'.length) (h : cs < cs') :
    cs ++ ds < cs' ++ ds' := by
  induction cs generalizing cs' with
  | nil =>
    obtain rfl := List.length_eq_zero_iff.mp hlen.symm
    exact absurd h (List.lt_irrefl _)
  | cons c cs ih =>
    obtain ⟨c', cs', rfl⟩ := List.exists_cons_of_length_eq_add_one hlen.symm
    rw [List.cons_append, List.cons_append, List.cons_lt_cons_iff]
    rcases List.cons_lt_cons_iff.mp h with hc | ⟨hc, hcs⟩
    · exact .inl hc
    · exact .inr ⟨hc, ih (Nat.succ.inj hlen) hcs⟩

/-- A numeral of fixed width decides the order of what begins with it. -/
theorem padded_append_lt {ds ds' : List Char} (hn : n < 10 ^ w) (hn' : n' < 10 ^ w)
    (h : n < n') : padded w n ++ ds < padded w n' ++ ds' := by
  have hw : 0 < w := by
    rcases Nat.eq_zero_or_pos w with rfl | hw
    · omega
    · exact hw
  have hlen : (padded w n).length = (padded w n').length := by
    rw [length_padded hw hn, length_padded hw hn']
  refine append_lt_append hlen (lt_of_value_lt (digits_padded w n) (digits_padded w n') hlen ?_)
  rwa [value_padded, value_padded]

/-! ### Rows of numerals -/

/-- Numbers written one after the other, each with its width and the character behind it. -/
def layout : List (Nat × Char) → List Nat → List Char
  | (w, c) :: ls, n :: ns => padded w n ++ c :: layout ls ns
  | _, _ => []

/-- Every number fits its width. -/
def Fits (ls : List (Nat × Char)) (ns : List Nat) : Prop :=
  List.Forall₂ (fun l n => 0 < l.1 ∧ n < 10 ^ l.1) ls ns

variable {ls : List (Nat × Char)} {ns ns' : List Nat}

theorem length_layout (h : Fits ls ns) :
    (layout ls ns).length = (ls.map fun l => l.1 + 1).sum := by
  induction h with
  | nil => rfl
  | cons hn _ ih =>
    rw [layout, List.length_append, length_padded hn.1 hn.2, List.length_cons, ih, List.map_cons,
      List.sum_cons]
    omega

/-- What a layout consists of. -/
theorem mem_layout {c : Char} (h : c ∈ layout ls ns) : c.isDigit = true ∨ c ∈ ls.map Prod.snd := by
  induction ls generalizing ns with
  | nil => cases ns <;> cases h
  | cons wc ls ih =>
    cases ns with
    | nil => cases h
    | cons n ns =>
      rw [layout, List.mem_append, List.mem_cons] at h
      rcases h with h | rfl | h
      · exact Or.inl (isDigit_of_mem_padded h)
      · exact Or.inr List.mem_cons_self
      · exact (ih h).imp_right (List.mem_cons_of_mem _)

/-- The order of the rows is the order of the numbers. -/
theorem layout_lt_layout (h : Fits ls ns) (h' : Fits ls ns') (hlt : ns < ns') :
    layout ls ns < layout ls ns' := by
  induction h generalizing ns' with
  | nil =>
    obtain rfl := List.forall₂_nil_left_iff.mp h'
    exact absurd hlt (List.lt_irrefl _)
  | cons hn _ ih =>
    obtain ⟨n', ns', hn', htail', rfl⟩ := List.forall₂_cons_left_iff.mp h'
    rw [layout, layout]
    rcases List.cons_lt_cons_iff.mp hlt with hhead | ⟨rfl, htail⟩
    · exact padded_append_lt hn.2 hn'.2 hhead
    · exact List.append_left_lt (List.cons_lt_cons_iff.mpr (.inr ⟨rfl, ih htail' htail⟩))

/-- A number of `w` digits at the front. -/
def number (w : Nat) (cs : List Char) : Option (Nat × List Char) :=
  if (cs.take w).length = w ∧ (cs.take w).all Char.isDigit then
    some (value (cs.take w), cs.drop w)
  else none

/-- The numbers of a row. -/
def readLayout : List (Nat × Char) → List Char → Option (List Nat)
  | [], [] => some []
  | [], _ :: _ => none
  | (w, c) :: ls, cs =>
    match number w cs with
    | none => none
    | some (n, rest) =>
      if rest.head? = some c then (readLayout ls rest.tail).map (n :: ·) else none

theorem number_padded {ds : List Char} (hw : 0 < w) (hn : n < 10 ^ w) :
    number w (padded w n ++ ds) = some (n, ds) := by
  have hlen := length_padded hw hn
  have htake : (padded w n ++ ds).take w = padded w n := List.take_left' hlen
  have hdrop : (padded w n ++ ds).drop w = ds := List.drop_left' hlen
  rw [number, htake, hdrop, value_padded]
  exact if_pos ⟨hlen, List.all_eq_true.mpr (digits_padded w n)⟩

theorem readLayout_layout (h : Fits ls ns) : readLayout ls (layout ls ns) = some ns := by
  induction h with
  | nil => rfl
  | cons hn _ ih =>
    rw [layout, readLayout, number_padded hn.1 hn.2]
    simp [ih]

end Decimal
