import Mathlib.Data.List.Forall2
import PlayerTrace.Lib.Utf8

/-!
# UTF-8 as a table of byte ranges

The first byte of an encoding says in which ranges the bytes after it are (`Utf8.follow`), and this
is all there is to an encoding: overlong forms, surrogate halves and values beyond the last plane
are excluded by the range of the second byte (`Utf8.encode_of_follow`). So a text can be checked
byte by byte, with nothing to remember but the ranges still to come (`Utf8.scan`), and what passes
is what is well formed (`Utf8.scan_iff`).
-/

namespace Utf8

/-- A byte between two bounds. -/
def Within (b : UInt8) (range : Nat × Nat) : Prop := range.1 ≤ b.toNat ∧ b.toNat ≤ range.2

instance (b : UInt8) (range : Nat × Nat) : Decidable (Within b range) :=
  inferInstanceAs (Decidable (_ ∧ _))

/-- Any continuation byte. -/
def tail : Nat × Nat := (0x80, 0xBF)

/-- The ranges of the bytes after a first byte. -/
def follow (b : UInt8) : Option (List (Nat × Nat)) :=
  if b.toNat < 0x80 then some []
  else if b.toNat < 0xC2 then none
  else if b.toNat < 0xE0 then some [tail]
  else if b.toNat = 0xE0 then some [(0xA0, 0xBF), tail]
  else if b.toNat = 0xED then some [(0x80, 0x9F), tail]
  else if b.toNat < 0xF0 then some [tail, tail]
  else if b.toNat = 0xF0 then some [(0x90, 0xBF), tail, tail]
  else if b.toNat < 0xF4 then some [tail, tail, tail]
  else if b.toNat = 0xF4 then some [(0x80, 0x8F), tail, tail]
  else none

variable {b : UInt8} {bs text rest : List UInt8} {rs : List (Nat × Nat)} {c : Char}

/-! ### One encoding -/

/-- A number is the scalar value of a character. -/
theorem exists_char {v : Nat} (h : v.isValidChar) : ∃ c : Char, c.val.toNat = v :=
  ⟨Char.ofNatAux v h, rfl⟩

theorem follow_of_encode (h : String.utf8EncodeChar c = b :: bs) :
    ∃ rs, follow b = some rs ∧ List.Forall₂ Within bs rs := by
  have hvalid : c.val.toNat.isValidChar := c.valid
  rw [encode_eq_iff, codeUnits, List.map_cons] at h
  generalize c.val.toNat = v at hvalid h
  rw [Nat.isValidChar] at hvalid
  split_ifs at h with h₁ h₂ h₃
  · obtain ⟨hb, hnil⟩ := List.cons.inj h
    obtain rfl := List.map_eq_nil_iff.mp hnil
    exact ⟨[], if_pos (by omega), .nil⟩
  · obtain ⟨hb, ht⟩ := List.cons.inj h
    obtain ⟨d, ds, rfl, hd, hnil⟩ := List.map_eq_cons_iff.mp ht
    obtain rfl := List.map_eq_nil_iff.mp hnil
    refine ⟨[tail], ?_, .cons ?_ .nil⟩
    · rw [follow, if_neg (by omega), if_neg (by omega), if_pos (by omega)]
    · rw [Within, tail]
      omega
  · obtain ⟨hb, ht⟩ := List.cons.inj h
    obtain ⟨d, ds, rfl, hd, ht⟩ := List.map_eq_cons_iff.mp ht
    obtain ⟨e, ds, rfl, he, hnil⟩ := List.map_eq_cons_iff.mp ht
    obtain rfl := List.map_eq_nil_iff.mp hnil
    have hlast : Within e tail := by
      rw [Within, tail]
      omega
    rw [follow, if_neg (by omega), if_neg (by omega), if_neg (by omega)]
    split_ifs with h₄ h₅ h₆
    all_goals first
      | omega
      | refine ⟨_, rfl, .cons ?_ (.cons hlast .nil)⟩
        simp only [Within, tail]
        omega
  · obtain ⟨hb, ht⟩ := List.cons.inj h
    obtain ⟨d, ds, rfl, hd, ht⟩ := List.map_eq_cons_iff.mp ht
    obtain ⟨e, ds, rfl, he, ht⟩ := List.map_eq_cons_iff.mp ht
    obtain ⟨f, ds, rfl, hf, hnil⟩ := List.map_eq_cons_iff.mp ht
    obtain rfl := List.map_eq_nil_iff.mp hnil
    have hlast : Within e tail ∧ Within f tail := by
      simp only [Within, tail]
      omega
    rw [follow, if_neg (by omega), if_neg (by omega), if_neg (by omega), if_neg (by omega),
      if_neg (by omega), if_neg (by omega)]
    split_ifs with h₄ h₅ h₆
    all_goals first
      | omega
      | refine ⟨_, rfl, .cons ?_ (.cons hlast.1 (.cons hlast.2 .nil))⟩
        simp only [Within, tail]
        omega

theorem encode_of_units {v : Nat} (hv : v.isValidChar)
    (hunits : (b :: bs).map UInt8.toNat = codeUnits v) :
    ∃ c, String.utf8EncodeChar c = b :: bs := by
  obtain ⟨c, rfl⟩ := exists_char hv
  exact ⟨c, encode_eq_iff.mpr hunits⟩

section Lengths

variable {d e f : UInt8} (hd : Within d tail) (he : Within e tail) (hf : Within f tail)

include hd

theorem encode_two (hlo : 0xC2 ≤ b.toNat) (hhi : b.toNat < 0xE0) :
    ∃ c, String.utf8EncodeChar c = [b, d] := by
  rw [Within, tail] at hd
  refine encode_of_units (v := b.toNat % 32 * 64 + d.toNat % 64) ?_ ?_
  · rw [Nat.isValidChar]
    omega
  · rw [codeUnits, if_neg (by omega), if_pos (by omega)]
    simp only [List.map_cons, List.map_nil, List.cons.injEq, and_true]
    omega

include he

/-- Neither overlong nor a surrogate half. -/
theorem encode_three (hlo : 0xE0 ≤ b.toNat) (hhi : b.toNat < 0xF0)
    (hlong : b.toNat = 0xE0 → 0xA0 ≤ d.toNat) (hhalf : b.toNat = 0xED → d.toNat ≤ 0x9F) :
    ∃ c, String.utf8EncodeChar c = [b, d, e] := by
  simp only [Within, tail] at hd he
  refine encode_of_units (v := b.toNat % 16 * 4096 + d.toNat % 64 * 64 + e.toNat % 64) ?_ ?_
  · rw [Nat.isValidChar]
    omega
  · rw [codeUnits, if_neg (by omega), if_neg (by omega), if_pos (by omega)]
    simp only [List.map_cons, List.map_nil, List.cons.injEq, and_true]
    omega

include hf

/-- Neither overlong nor beyond the last plane. -/
theorem encode_four (hlo : 0xF0 ≤ b.toNat) (hhi : b.toNat ≤ 0xF4)
    (hlong : b.toNat = 0xF0 → 0x90 ≤ d.toNat) (hlast : b.toNat = 0xF4 → d.toNat ≤ 0x8F) :
    ∃ c, String.utf8EncodeChar c = [b, d, e, f] := by
  simp only [Within, tail] at hd he hf
  refine encode_of_units (v := b.toNat % 8 * 262144 + d.toNat % 64 * 4096 + e.toNat % 64 * 64 +
    f.toNat % 64) ?_ ?_
  · rw [Nat.isValidChar]
    omega
  · rw [codeUnits, if_neg (by omega), if_neg (by omega), if_neg (by omega)]
    simp only [List.map_cons, List.map_nil, List.cons.injEq, and_true]
    omega

end Lengths

theorem Within.tail_of {d : UInt8} {range : Nat × Nat} (h : Within d range) (hlo : 0x80 ≤ range.1)
    (hhi : range.2 ≤ 0xBF) : Within d tail :=
  ⟨hlo.trans h.1, h.2.trans hhi⟩

theorem encode_of_follow (hb : follow b = some rs) (h : List.Forall₂ Within bs rs) :
    ∃ c, String.utf8EncodeChar c = b :: bs := by
  rw [follow] at hb
  split_ifs at hb with h₁ h₂ h₃ h₄ h₅ h₆ h₇ h₈ h₉
  all_goals obtain rfl := Option.some.inj hb
  · obtain rfl := List.forall₂_nil_right_iff.mp h
    exact encode_of_ascii h₁
  · obtain ⟨d, ds, hd, hds, rfl⟩ := List.forall₂_cons_right_iff.mp h
    obtain rfl := List.forall₂_nil_right_iff.mp hds
    exact encode_two hd (by omega) h₃
  all_goals
    obtain ⟨d, ds, hd, hds, rfl⟩ := List.forall₂_cons_right_iff.mp h
    obtain ⟨e, es, he, hes, rfl⟩ := List.forall₂_cons_right_iff.mp hds
  · obtain rfl := List.forall₂_nil_right_iff.mp hes
    exact encode_three (hd.tail_of (by decide) (by decide)) he (by omega) (by omega)
      (fun _ => hd.1) (fun hb => by omega)
  · obtain rfl := List.forall₂_nil_right_iff.mp hes
    exact encode_three (hd.tail_of (by decide) (by decide)) he (by omega) (by omega)
      (fun hb => by omega) (fun _ => hd.2)
  · obtain rfl := List.forall₂_nil_right_iff.mp hes
    exact encode_three hd he (by omega) (by omega) (fun hb => by omega) (fun hb => by omega)
  all_goals
    obtain ⟨f, fs, hf, hfs, rfl⟩ := List.forall₂_cons_right_iff.mp hes
    obtain rfl := List.forall₂_nil_right_iff.mp hfs
  · exact encode_four (hd.tail_of (by decide) (by decide)) he hf (by omega) (by omega)
      (fun _ => hd.1) (fun hb => by omega)
  · exact encode_four hd he hf (by omega) (by omega) (fun hb => by omega) (fun hb => by omega)
  · exact encode_four (hd.tail_of (by decide) (by decide)) he hf (by omega) (by omega)
      (fun hb => by omega) (fun _ => hd.2)

/-! ### A text -/

/-- What a byte leaves to come, if it may stand where these ranges are to come. -/
def next : List (Nat × Nat) → UInt8 → Option (List (Nat × Nat))
  | [], b => follow b
  | range :: rs, b => if Within b range then some rs else none

/-- The bytes of a text in turn, with the ranges still to come. -/
def scan : List (Nat × Nat) → List UInt8 → Bool
  | rs, [] => rs.isEmpty
  | rs, b :: bs =>
    match next rs b with
    | none => false
    | some rs => scan rs bs

/-- A byte that may stand there is the first of an encoding or one of the rest of it. -/
theorem scan_cons :
    scan rs (b :: bs) = true ↔ ∃ rs', next rs b = some rs' ∧ scan rs' bs = true := by
  rw [scan]
  cases next rs b with
  | none => simp
  | some rs' => simp

/-- A text that begins inside an encoding: its rest, and well-formed text. -/
theorem scan_iff : scan rs text = true ↔
    ∃ bs rest, text = bs ++ rest ∧ List.Forall₂ Within bs rs ∧ WellFormed rest := by
  induction text generalizing rs with
  | nil =>
    rw [scan, List.isEmpty_iff]
    constructor
    · rintro rfl
      exact ⟨[], [], rfl, .nil, wellFormed_nil⟩
    · rintro ⟨bs, rest, happ, hbs, -⟩
      obtain ⟨rfl, -⟩ := List.nil_eq_append_iff.mp happ
      exact List.forall₂_nil_left_iff.mp hbs
  | cons b text ih =>
    rw [scan_cons]
    cases rs with
    | nil =>
      constructor
      · rintro ⟨rs, hb, h⟩
        obtain ⟨bs, rest, rfl, hbs, hrest⟩ := ih.mp h
        obtain ⟨c, hc⟩ := encode_of_follow hb hbs
        refine ⟨[], b :: (bs ++ rest), rfl, .nil, ?_⟩
        rw [← List.cons_append, ← hc]
        exact hrest.cons c
      · rintro ⟨bs, rest, happ, hbs, hrest⟩
        obtain rfl := List.forall₂_nil_right_iff.mp hbs
        obtain rfl : b :: text = rest := happ
        obtain ⟨c, rest', heq, hrest'⟩ := hrest.exists_of_ne_nil (List.cons_ne_nil _ _)
        obtain ⟨d, ds, hc⟩ := List.exists_cons_of_ne_nil (String.utf8EncodeChar_ne_nil (c := c))
        rw [hc, List.cons_append] at heq
        obtain ⟨rfl, rfl⟩ := List.cons.inj heq
        obtain ⟨rs, hb, hds⟩ := follow_of_encode hc
        exact ⟨rs, hb, ih.mpr ⟨ds, rest', rfl, hds, hrest'⟩⟩
    | cons range rs =>
      constructor
      · rintro ⟨rs', hb, h⟩
        rw [next] at hb
        split_ifs at hb with hwithin
        obtain rfl := Option.some.inj hb
        obtain ⟨bs, rest, rfl, hbs, hrest⟩ := ih.mp h
        exact ⟨b :: bs, rest, rfl, .cons hwithin hbs, hrest⟩
      · rintro ⟨bs, rest, happ, hbs, hrest⟩
        obtain ⟨d, ds, hd, hds, rfl⟩ := List.forall₂_cons_right_iff.mp hbs
        obtain ⟨rfl, rfl⟩ := List.cons.inj happ
        exact ⟨rs, if_pos hd, ih.mpr ⟨ds, rest, rfl, hds, hrest⟩⟩

/-- **What passes is well formed.** -/
theorem scan_nil_iff : scan [] text = true ↔ WellFormed text := by
  rw [scan_iff]
  constructor
  · rintro ⟨bs, rest, rfl, hbs, hrest⟩
    obtain rfl := List.forall₂_nil_right_iff.mp hbs
    exact hrest
  · intro h
    exact ⟨[], text, rfl, .nil, h⟩

end Utf8
