import Mathlib.Algebra.Order.Ring.Int
import Mathlib.Data.List.Basic
import Mathlib.Tactic.SplitIfs

/-!
# Well-formed UTF-8

A `Char` is a Unicode scalar value and `String.utf8EncodeChar` is its shortest encoding, so a
byte string is well formed when it is a concatenation of these (`Utf8.WellFormed`). For a
scanner that works with masks and shifts, the masks of the format are said as ranges of
bytes, and a shift by six bits as a digit in base 64.
-/

namespace Utf8

/-- A concatenation of encodings of scalar values. -/
def WellFormed (text : List UInt8) : Prop :=
  ∃ cs : List Char, text = cs.flatMap String.utf8EncodeChar

variable {text rest : List UInt8} {c : Char}

@[simp] theorem wellFormed_nil : WellFormed [] := ⟨[], rfl⟩

theorem WellFormed.cons (h : WellFormed rest) (c : Char) :
    WellFormed (String.utf8EncodeChar c ++ rest) := by
  obtain ⟨cs, rfl⟩ := h
  exact ⟨c :: cs, rfl⟩

/-- What is well formed and not empty begins with an encoding. -/
theorem WellFormed.exists_of_ne_nil (h : WellFormed text) (hne : text ≠ []) :
    ∃ c rest, text = String.utf8EncodeChar c ++ rest ∧ WellFormed rest := by
  obtain ⟨cs, rfl⟩ := h
  cases cs with
  | nil => exact absurd rfl hne
  | cons c cs => exact ⟨c, cs.flatMap String.utf8EncodeChar, rfl, cs, rfl⟩

/-! ### The encoding in numbers -/

/-- The bytes of an encoding, by the size of the scalar value. -/
def codeUnits (v : Nat) : List Nat :=
  if v ≤ 0x7F then [v]
  else if v ≤ 0x7FF then [0xC0 + v / 64, 0x80 + v % 64]
  else if v ≤ 0xFFFF then [0xE0 + v / 4096, 0x80 + v / 64 % 64, 0x80 + v % 64]
  else [0xF0 + v / 262144, 0x80 + v / 4096 % 64, 0x80 + v / 64 % 64, 0x80 + v % 64]

theorem map_toNat_encode (c : Char) :
    (String.utf8EncodeChar c).map UInt8.toNat = codeUnits c.val.toNat := by
  have hvalid : c.val.toNat.isValidChar := c.valid
  simp only [String.utf8EncodeChar, codeUnits]
  split_ifs <;> simp only [List.map_cons, List.map_nil, UInt8.toNat_ofNat', List.cons.injEq,
    and_true] <;> omega

theorem encode_eq_iff :
    String.utf8EncodeChar c = text ↔ text.map UInt8.toNat = codeUnits c.val.toNat := by
  rw [← map_toNat_encode, List.map_inj_right fun _ _ => UInt8.toNat_inj.mp]
  exact eq_comm

/-- The encoding of an ASCII character is one byte. -/
theorem encode_of_ascii {b : UInt8} (h : b.toNat < 0x80) :
    ∃ c, String.utf8EncodeChar c = [b] := by
  have hvalid : b.toUInt32.isValidChar := by
    left
    rw [UInt8.toNat_toUInt32]
    omega
  refine ⟨⟨b.toUInt32, hvalid⟩, encode_eq_iff.mpr ?_⟩
  have hle : b.toUInt32.toNat ≤ 0x7F := by
    rw [UInt8.toNat_toUInt32]
    omega
  rw [codeUnits, if_pos hle, UInt8.toNat_toUInt32]
  rfl

/-- ASCII is well formed. -/
theorem WellFormed.of_ascii (h : ∀ b ∈ text, b.toNat < 0x80) : WellFormed text := by
  induction text with
  | nil => exact wellFormed_nil
  | cons b text ih =>
    rw [List.forall_mem_cons] at h
    obtain ⟨c, hc⟩ := encode_of_ascii h.1
    have hcons := (ih h.2).cons c
    rwa [hc] at hcons

/-! ### The masks of the format -/

section Masks

/-- A property of bytes, tried on each of them. -/
theorem forall_byte {P : UInt8 → Prop} (h : ∀ n < 256, P (UInt8.ofNat n)) (b : UInt8) : P b := by
  have hb := h b.toNat b.toNat_lt
  rwa [UInt8.ofNat_toNat] at hb

variable (b : UInt8)

theorem and_E0 : b &&& 0xE0 = 0xC0 ↔ 0xC0 ≤ b.toNat ∧ b.toNat < 0xE0 := by
  revert b
  exact forall_byte (by decide +kernel)

theorem and_F0 : b &&& 0xF0 = 0xE0 ↔ 0xE0 ≤ b.toNat ∧ b.toNat < 0xF0 := by
  revert b
  exact forall_byte (by decide +kernel)

theorem and_F8 : b &&& 0xF8 = 0xF0 ↔ 0xF0 ≤ b.toNat ∧ b.toNat < 0xF8 := by
  revert b
  exact forall_byte (by decide +kernel)

theorem and_C0 : b &&& 0xC0 = 0x80 ↔ 0x80 ≤ b.toNat ∧ b.toNat < 0xC0 := by
  revert b
  exact forall_byte (by decide +kernel)

theorem toNat_and_1F : (b &&& 0x1F).toUInt32.toNat = b.toNat % 32 := by
  rw [UInt8.toNat_toUInt32]
  exact Nat.and_two_pow_sub_one_eq_mod _ 5

theorem toNat_and_0F : (b &&& 0x0F).toUInt32.toNat = b.toNat % 16 := by
  rw [UInt8.toNat_toUInt32]
  exact Nat.and_two_pow_sub_one_eq_mod _ 4

theorem toNat_and_07 : (b &&& 0x07).toUInt32.toNat = b.toNat % 8 := by
  rw [UInt8.toNat_toUInt32]
  exact Nat.and_two_pow_sub_one_eq_mod _ 3

/-- Six bits more, without an overflow: one digit more in base 64. -/
theorem toNat_shift_or {cp : UInt32} (hcp : cp.toNat < 2 ^ 26) :
    ((cp <<< 6) ||| (b &&& 0x3F).toUInt32).toNat = cp.toNat * 64 + b.toNat % 64 := by
  have hdigit : (b &&& 0x3F).toUInt32.toNat = b.toNat % 64 := by
    rw [UInt8.toNat_toUInt32]
    exact Nat.and_two_pow_sub_one_eq_mod _ 6
  have hshift : (cp <<< 6).toNat = cp.toNat <<< 6 := by
    rw [UInt32.toNat_shiftLeft]
    refine Nat.mod_eq_of_lt ?_
    rw [show (6 : UInt32).toNat % 32 = 6 from rfl, Nat.shiftLeft_eq]
    omega
  rw [UInt32.toNat_or, hdigit, hshift,
    ← Nat.shiftLeft_add_eq_or_of_lt (Nat.mod_lt _ (by decide)), Nat.shiftLeft_eq]

end Masks

end Utf8
