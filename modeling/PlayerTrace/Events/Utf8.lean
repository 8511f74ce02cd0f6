import Mathlib.Tactic.Linarith
import PlayerTrace.Lib.Utf8

/-!
# `EventValidator::is_valid_utf8`

The check of `src/event_validator.cpp` that every text passes which is later put into JSON. A
`std::string` is the list of its bytes here. The loop reads the text by index, and a read
beyond the end is modelled as such: it has no value, and neither has the call then. The
length is given as the number of rounds the loop may take, and a loop that needed more would
have no value either, so that the statement that the call always has one
(`PlayerTrace.EventValidator.isValidUtf8_iff`) says that every read is within the text and that
the loop ends.
-/

namespace PlayerTrace

namespace EventValidator

open Utf8

/-! ### The function -/

/-- What a lead byte announces: the number of bytes to follow, and its own bits. -/
def leadByte (c : UInt8) : Option (Nat × UInt32) :=
  if c &&& 0xE0 = 0xC0 then some (1, (c &&& 0x1F).toUInt32)
  else if c &&& 0xF0 = 0xE0 then some (2, (c &&& 0x0F).toUInt32)
  else if c &&& 0xF8 = 0xF0 then some (3, (c &&& 0x07).toUInt32)
  else none

/-- The loop over the continuation bytes, from `p[i + k]` on; `some none` when one is
missing. -/
def continuationBytes (p : List UInt8) (i : Nat) : Nat → Nat → UInt32 → Option (Option UInt32)
  | 0, _, cp => some (some cp)
  | extra + 1, k, cp =>
    match p[i + k]? with
    | none => none
    | some cc =>
      if cc &&& 0xC0 ≠ 0x80 then some none
      else continuationBytes p i extra (k + 1) ((cp <<< 6) ||| (cc &&& 0x3F).toUInt32)

/-- Overlong, a surrogate half, or out of range. -/
def refusedCodePoint (extra : Nat) (cp : UInt32) : Bool :=
  (extra == 1 && cp < 0x80) || (extra == 2 && cp < 0x800) || (extra == 3 && cp < 0x10000) ||
    cp > 0x10FFFF || (cp ≥ 0xD800 && cp ≤ 0xDFFF)

/-- The body of the loop at `i`: how far it advances, or `some none` when it returns `false`. -/
def sequenceAt (p : List UInt8) (i : Nat) : Option (Option Nat) :=
  match p[i]? with
  | none => none
  | some c =>
    if c < 0x80 then some (some 1)
    else match leadByte c with
      | none => some none
      | some (extra, cp) =>
        if i + extra ≥ p.length then some none
        else match continuationBytes p i extra 1 cp with
          | none => none
          | some none => some none
          | some (some cp) =>
            if refusedCodePoint extra cp then some none else some (some (extra + 1))

/-- The loop. -/
def scanUtf8 (p : List UInt8) : Nat → Nat → Option Bool
  | rounds, i =>
    if i < p.length then
      match rounds with
      | 0 => none
      | rounds + 1 =>
        match sequenceAt p i with
        | none => none
        | some none => some false
        | some (some advance) => scanUtf8 p rounds (i + advance)
    else some true

/-- `EventValidator::is_valid_utf8`. -/
def isValidUtf8 (text : List UInt8) : Option Bool := scanUtf8 text text.length 0

/-! ### One sequence -/

variable {p rest : List UInt8} {i : Nat}

/-- A continuation byte. -/
def Continues (d : UInt8) : Prop := 0x80 ≤ d.toNat ∧ d.toNat < 0xC0

/-- The bits of a sequence put together, in base 64. -/
def codePoint (v : Nat) (ds : List UInt8) : Nat := ds.foldl (fun v d => v * 64 + d.toNat % 64) v

/-- What the checks on the value leave for a sequence of `extra` continuation bytes. -/
structure InRange (extra v : Nat) : Prop where
  one : extra = 1 → 0x80 ≤ v
  two : extra = 2 → 0x800 ≤ v
  three : extra = 3 → 0x10000 ≤ v
  scalar : v.isValidChar

theorem refusedCodePoint_eq_false {extra : Nat} {cp : UInt32} :
    refusedCodePoint extra cp = false ↔ InRange extra cp.toNat := by
  simp only [refusedCodePoint, Bool.or_eq_false_iff, Bool.and_eq_false_iff, decide_eq_false_iff_not,
    beq_eq_false_iff_ne, UInt32.lt_iff_toNat_lt, UInt32.le_iff_toNat_le]
  constructor
  · rintro ⟨⟨⟨⟨hone, htwo⟩, hthree⟩, hhigh⟩, hsurrogate⟩
    refine ⟨fun he => ?_, fun he => ?_, fun he => ?_, ?_⟩
    · exact Nat.not_lt.mp (hone.resolve_left (not_not.mpr he))
    · exact Nat.not_lt.mp (htwo.resolve_left (not_not.mpr he))
    · exact Nat.not_lt.mp (hthree.resolve_left (not_not.mpr he))
    · have hlow : ¬0xD800 ≤ cp.toNat ∨ ¬cp.toNat ≤ 0xDFFF := hsurrogate
      have hle : ¬0x10FFFF < cp.toNat := hhigh
      rw [Nat.isValidChar]
      omega
  · rintro ⟨hone, htwo, hthree, hscalar⟩
    have hkept : ∀ {n bound : Nat}, (extra = n → bound ≤ cp.toNat) →
        extra ≠ n ∨ ¬cp.toNat < bound := fun h =>
      (em _).symm.imp id fun he => Nat.not_lt.mpr (h he)
    have hle : ¬0x10FFFF < cp.toNat ∧ (¬0xD800 ≤ cp.toNat ∨ ¬cp.toNat ≤ 0xDFFF) := by
      rw [Nat.isValidChar] at hscalar
      omega
    exact ⟨⟨⟨⟨hkept hone, hkept htwo⟩, hkept hthree⟩, hle.1⟩, hle.2⟩

theorem continuationBytes_of_drop {ds : List UInt8} {k : Nat} {cp : UInt32}
    (h : p.drop (i + k) = ds ++ rest) (hcp : (cp.toNat + 1) * 64 ^ ds.length ≤ 2 ^ 32) :
    ((∃ d ∈ ds, ¬Continues d) ∧ continuationBytes p i ds.length k cp = some none) ∨
      (∀ d ∈ ds, Continues d) ∧ ∃ cp' : UInt32, cp'.toNat = codePoint cp.toNat ds ∧
        continuationBytes p i ds.length k cp = some (some cp') := by
  induction ds generalizing k cp with
  | nil => exact .inr ⟨by simp, cp, rfl, rfl⟩
  | cons d ds ih =>
    have hd : p[i + k]? = some d := by
      rw [← Nat.add_zero (i + k), ← List.getElem?_drop, h]
      rfl
    have htail : p.drop (i + (k + 1)) = ds ++ rest := by
      rw [← Nat.add_assoc, ← List.drop_drop, h]
      rfl
    rw [List.length_cons, continuationBytes, hd]
    by_cases hcont : d &&& 0xC0 = 0x80
    · have hpow : 64 ^ (ds.length + 1) = 64 ^ ds.length * 64 := pow_succ ..
      have hone : 1 ≤ 64 ^ ds.length := Nat.one_le_pow _ _ (by decide)
      rw [List.length_cons, hpow] at hcp
      have hlt : cp.toNat < 2 ^ 26 := by nlinarith
      have hnext := toNat_shift_or d hlt
      have hbound :
          (((cp <<< 6) ||| (d &&& 0x3F).toUInt32).toNat + 1) * 64 ^ ds.length ≤ 2 ^ 32 := by
        rw [hnext]
        have hdigit : d.toNat % 64 + 1 ≤ 64 := Nat.mod_lt _ (by decide)
        nlinarith
      dsimp only
      rw [if_neg (not_not.mpr hcont)]
      rcases ih htail hbound with ⟨⟨d', hmem, hd'⟩, heq⟩ | ⟨hall, cp', hcp', heq⟩
      · exact .inl ⟨⟨d', List.mem_cons_of_mem _ hmem, hd'⟩, heq⟩
      · refine .inr ⟨List.forall_mem_cons.mpr ⟨(and_C0 d).mp hcont, hall⟩, cp', ?_, heq⟩
        rw [hcp', hnext]
        rfl
    · refine .inl ⟨⟨d, List.mem_cons_self, fun hc => hcont ((and_C0 d).mpr hc)⟩, ?_⟩
      dsimp only
      rw [if_pos hcont]

theorem leadByte_eq_some {c : UInt8} {extra : Nat} {cp : UInt32} :
    leadByte c = some (extra, cp) ↔
      (extra = 1 ∧ 0xC0 ≤ c.toNat ∧ c.toNat < 0xE0 ∧ cp.toNat = c.toNat % 32) ∨
      (extra = 2 ∧ 0xE0 ≤ c.toNat ∧ c.toNat < 0xF0 ∧ cp.toNat = c.toNat % 16) ∨
      (extra = 3 ∧ 0xF0 ≤ c.toNat ∧ c.toNat < 0xF8 ∧ cp.toNat = c.toNat % 8) := by
  simp only [leadByte, and_E0, and_F0, and_F8, ← toNat_and_1F, ← toNat_and_0F, ← toNat_and_07,
    UInt32.toNat_inj]
  grind

/-- **The encoding of a scalar value**, as the loop reads it. -/
theorem encode_iff {ch : Char} {c : UInt8} {ds : List UInt8} (hc : 0x80 ≤ c.toNat) :
    String.utf8EncodeChar ch = c :: ds ↔
      ∃ cp, leadByte c = some (ds.length, cp) ∧ (∀ d ∈ ds, Continues d) ∧
        codePoint cp.toNat ds = ch.val.toNat ∧ InRange ds.length ch.val.toNat := by
  have hvalid : ch.val.toNat.isValidChar := ch.valid
  rw [encode_eq_iff, codeUnits, List.map_cons]
  generalize ch.val.toNat = v at hvalid ⊢
  constructor
  · intro h
    split_ifs at h with h₁ h₂ h₃
    · simp only [List.cons.injEq] at h
      omega
    · obtain ⟨hc', ht⟩ := List.cons.inj h
      obtain ⟨d, ds, rfl, hd, hnil⟩ := List.map_eq_cons_iff.mp ht
      obtain rfl := List.map_eq_nil_iff.mp hnil
      refine ⟨_, leadByte_eq_some.mpr (.inl ⟨rfl, by omega, by omega, toNat_and_1F _⟩), ?_, ?_, ?_⟩
      · simp [Continues]; omega
      · rw [toNat_and_1F]; simp [codePoint]; omega
      · exact ⟨by simp; omega, by simp, by simp, hvalid⟩
    · obtain ⟨hc', ht⟩ := List.cons.inj h
      obtain ⟨d, ds, rfl, hd, ht⟩ := List.map_eq_cons_iff.mp ht
      obtain ⟨e, ds, rfl, he, hnil⟩ := List.map_eq_cons_iff.mp ht
      obtain rfl := List.map_eq_nil_iff.mp hnil
      refine ⟨_, leadByte_eq_some.mpr (.inr (.inl ⟨rfl, by omega, by omega, toNat_and_0F _⟩)),
        ?_, ?_, ?_⟩
      · simp [Continues]; omega
      · rw [toNat_and_0F]; simp [codePoint]; omega
      · exact ⟨by simp, by simp; omega, by simp, hvalid⟩
    · obtain ⟨hc', ht⟩ := List.cons.inj h
      obtain ⟨d, ds, rfl, hd, ht⟩ := List.map_eq_cons_iff.mp ht
      obtain ⟨e, ds, rfl, he, ht⟩ := List.map_eq_cons_iff.mp ht
      obtain ⟨f, ds, rfl, hf, hnil⟩ := List.map_eq_cons_iff.mp ht
      obtain rfl := List.map_eq_nil_iff.mp hnil
      refine ⟨_, leadByte_eq_some.mpr (.inr (.inr ⟨rfl, by omega, by omega, toNat_and_07 _⟩)),
        ?_, ?_, ?_⟩
      · simp [Continues]; omega
      · rw [toNat_and_07]; simp [codePoint]; omega
      · exact ⟨by simp, by simp, by simp; omega, hvalid⟩
  · rintro ⟨cp, hlead, hcont, hval, hadm⟩
    rcases leadByte_eq_some.mp hlead with ⟨he, hlo, hhi, hcp⟩ | ⟨he, hlo, hhi, hcp⟩ |
      ⟨he, hlo, hhi, hcp⟩
    · obtain ⟨d, rfl⟩ := List.length_eq_one_iff.mp he
      have hd := hcont d (by simp)
      have hv := hadm.one he
      simp only [codePoint, List.foldl_cons, List.foldl_nil] at hval
      unfold Continues at hd
      rw [if_neg (by omega), if_pos (by omega)]
      simp only [List.map_cons, List.map_nil, List.cons.injEq, and_true]
      omega
    · obtain ⟨d, e, rfl⟩ := List.length_eq_two.mp he
      obtain ⟨hd, he'⟩ : Continues d ∧ Continues e := by simpa using hcont
      have hv := hadm.two he
      simp only [codePoint, List.foldl_cons, List.foldl_nil] at hval
      unfold Continues at hd he'
      rw [if_neg (by omega), if_neg (by omega), if_pos (by omega)]
      simp only [List.map_cons, List.map_nil, List.cons.injEq, and_true]
      omega
    · obtain ⟨d, e, f, rfl⟩ := List.length_eq_three.mp he
      obtain ⟨hd, he', hf⟩ : Continues d ∧ Continues e ∧ Continues f := by simpa using hcont
      have hv := hadm.three he
      simp only [codePoint, List.foldl_cons, List.foldl_nil] at hval
      unfold Continues at hd he' hf
      rw [if_neg (by omega), if_neg (by omega), if_neg (by omega)]
      simp only [List.map_cons, List.map_nil, List.cons.injEq, and_true]
      omega

/-- An encoding of one byte. -/
theorem encode_ascii {ch : Char} {c : UInt8} {ds : List UInt8} (hc : c.toNat < 0x80) :
    String.utf8EncodeChar ch = c :: ds ↔ ch.val = c.toUInt32 ∧ ds = [] := by
  rw [encode_eq_iff, codeUnits, List.map_cons, ← UInt32.toNat_inj, UInt8.toNat_toUInt32]
  generalize ch.val.toNat = v
  split_ifs with h₁ h₂ h₃
  · rw [List.cons.injEq, List.map_eq_nil_iff, eq_comm (a := v)]
  all_goals
    simp only [List.cons.injEq]
    exact ⟨fun h => by omega, fun h => by omega⟩

/-- The first byte of an encoding says how long it is. -/
theorem length_encode {ch ch' : Char} {c : UInt8} {ds ds' : List UInt8}
    (h : String.utf8EncodeChar ch = c :: ds) (h' : String.utf8EncodeChar ch' = c :: ds') :
    ds.length = ds'.length := by
  rcases Nat.lt_or_ge c.toNat 0x80 with hc | hc
  · rw [((encode_ascii hc).mp h).2, ((encode_ascii hc).mp h').2]
  · obtain ⟨cp, hlead, -⟩ := (encode_iff hc).mp h
    obtain ⟨cp', hlead', -⟩ := (encode_iff hc).mp h'
    exact (Prod.mk.inj (Option.some.inj (hlead.symm.trans hlead'))).1

/-- A text begins with one encoding at most. -/
theorem encode_append_inj {ch ch' : Char} {rest' : List UInt8}
    (h : String.utf8EncodeChar ch ++ rest = String.utf8EncodeChar ch' ++ rest') : rest = rest' := by
  obtain ⟨c, ds, heq⟩ := List.exists_cons_of_ne_nil (String.utf8EncodeChar_ne_nil (c := ch))
  obtain ⟨c', ds', heq'⟩ := List.exists_cons_of_ne_nil (String.utf8EncodeChar_ne_nil (c := ch'))
  rw [heq, heq', List.cons_append, List.cons_append] at h
  obtain ⟨rfl, htail⟩ := List.cons.inj h
  exact (List.append_inj htail (length_encode heq heq')).2

/-- A sequence of more than one byte. -/
theorem sequenceAt_multibyte {c : UInt8} {tail : List UInt8} (hdrop : p.drop i = c :: tail)
    (hc : 0x80 ≤ c.toNat) :
    (sequenceAt p i = some none ∧ ∀ ch ds rest, tail = ds ++ rest →
        String.utf8EncodeChar ch ≠ c :: ds) ∨
      ∃ ch ds rest, tail = ds ++ rest ∧ String.utf8EncodeChar ch = c :: ds ∧
        sequenceAt p i = some (some (ds.length + 1)) := by
  have hread : p[i]? = some c := by
    rw [← Nat.add_zero i, ← List.getElem?_drop, hdrop]
    rfl
  have hlen : p.length = i + 1 + tail.length := by
    have hcount := congrArg List.length hdrop
    rw [List.length_drop, List.length_cons] at hcount
    omega
  simp only [sequenceAt, hread, if_neg (show ¬c < 0x80 from Nat.not_lt.mpr hc), ne_eq,
    encode_iff hc]
  rcases hlead : leadByte c with _ | ⟨extra, cp⟩
  · exact .inl ⟨rfl, fun ch ds rest _ ⟨cp, hsome, _⟩ => absurd hsome nofun⟩
  by_cases hshort : i + extra ≥ p.length
  · refine .inl ⟨if_pos hshort, ?_⟩
    rintro ch ds rest rfl ⟨cp', hsome, -⟩
    obtain ⟨rfl, -⟩ := Prod.mk.inj (Option.some.inj hsome)
    rw [List.length_append] at hlen
    omega
  obtain ⟨ds, rest, rfl, rfl⟩ : ∃ ds rest, tail = ds ++ rest ∧ ds.length = extra :=
    ⟨tail.take extra, tail.drop extra, (List.take_append_drop _ _).symm, by
      rw [List.length_take]; omega⟩
  have hbound : (cp.toNat + 1) * 64 ^ ds.length ≤ 2 ^ 32 := by
    rcases leadByte_eq_some.mp hlead with ⟨he, -, -, hcp⟩ | ⟨he, -, -, hcp⟩ | ⟨he, -, -, hcp⟩ <;>
      rw [he] <;> omega
  have hnext : p.drop (i + 1) = ds ++ rest := by
    rw [← List.drop_drop, hdrop]
    rfl
  simp only [if_neg hshort]
  -- another decomposition of the text has the same continuation bytes
  have hsame : ∀ {ds' rest' : List UInt8} {cp' : UInt32}, ds ++ rest = ds' ++ rest' →
      some (ds.length, cp) = some (ds'.length, cp') → ds' = ds ∧ cp' = cp := by
    intro ds' rest' cp' happ hsome
    obtain ⟨hlength, rfl⟩ := Prod.mk.inj (Option.some.inj hsome)
    exact ⟨(List.append_inj happ hlength).1.symm, rfl⟩
  rcases continuationBytes_of_drop hnext hbound with ⟨⟨d, hmem, hbad⟩, heq⟩ |
    ⟨hall, cp', hcp', heq⟩ <;> simp only [heq]
  · refine .inl ⟨trivial, ?_⟩
    rintro ch ds' rest' happ ⟨cp', hsome, hcont, -⟩
    obtain ⟨rfl, -⟩ := hsame happ hsome
    exact hbad (hcont d hmem)
  · rcases href : refusedCodePoint ds.length cp'
    · have hrange := refusedCodePoint_eq_false.mp href
      refine .inr ⟨⟨cp', hrange.scalar⟩, ds, rest, rfl, ⟨cp, rfl, hall, hcp'.symm, hrange⟩, rfl⟩
    · refine .inl ⟨rfl, ?_⟩
      rintro ch ds' rest' happ ⟨cp'', hsome, hcont, hval, hrange⟩
      obtain ⟨rfl, rfl⟩ := hsame happ hsome
      rw [← hval, ← hcp', ← refusedCodePoint_eq_false, href] at hrange
      exact absurd hrange nofun

/-- **One round of the loop.** -/
theorem sequenceAt_cases (hi : i < p.length) :
    (sequenceAt p i = some none ∧ ∀ ch rest, p.drop i ≠ String.utf8EncodeChar ch ++ rest) ∨
      ∃ ch rest, p.drop i = String.utf8EncodeChar ch ++ rest ∧
        sequenceAt p i = some (some (String.utf8EncodeChar ch).length) := by
  obtain ⟨c, tail, hdrop⟩ : ∃ c tail, p.drop i = c :: tail :=
    List.exists_cons_of_ne_nil (by simpa using hi)
  rcases Nat.lt_or_ge c.toNat 0x80 with hc | hc
  · have hvalid : c.toUInt32.isValidChar := by
      left
      rw [UInt8.toNat_toUInt32]
      omega
    have henc : String.utf8EncodeChar ⟨c.toUInt32, hvalid⟩ = [c] :=
      (encode_ascii hc).mpr ⟨rfl, rfl⟩
    refine .inr ⟨⟨c.toUInt32, hvalid⟩, tail, by rw [hdrop, henc]; rfl, ?_⟩
    have hread : p[i]? = some c := by
      rw [← Nat.add_zero i, ← List.getElem?_drop, hdrop]
      rfl
    rw [henc, sequenceAt, hread]
    exact if_pos hc
  · rcases sequenceAt_multibyte hdrop hc with ⟨heq, hno⟩ | ⟨ch, ds, rest, rfl, henc, heq⟩
    · refine .inl ⟨heq, fun ch rest happ => ?_⟩
      obtain ⟨d, ds, henc⟩ := List.exists_cons_of_ne_nil (String.utf8EncodeChar_ne_nil (c := ch))
      rw [hdrop, henc, List.cons_append] at happ
      obtain ⟨rfl, htail⟩ := List.cons.inj happ
      exact hno ch ds rest htail henc
    · exact .inr ⟨ch, rest, by rw [hdrop, henc, List.cons_append], by rw [heq, henc]; rfl⟩

/-! ### The whole text -/

theorem scanUtf8_spec (rounds i : Nat) (h : p.length ≤ i + rounds) :
    ∃ valid, scanUtf8 p rounds i = some valid ∧ (valid = true ↔ WellFormed (p.drop i)) := by
  induction rounds generalizing i with
  | zero =>
    refine ⟨true, by rw [scanUtf8, if_neg (by omega)], ?_⟩
    rw [List.drop_eq_nil_of_le (by omega)]
    simp
  | succ rounds ih =>
    rw [scanUtf8]
    split
    case isFalse hi =>
      refine ⟨true, rfl, ?_⟩
      rw [List.drop_eq_nil_of_le (by omega)]
      simp
    case isTrue hi =>
      have hne : p.drop i ≠ [] := by simpa using hi
      rcases sequenceAt_cases hi with ⟨heq, hno⟩ | ⟨ch, rest, happ, heq⟩ <;> simp only [heq]
      · refine ⟨false, rfl, ⟨nofun, fun hw => ?_⟩⟩
        obtain ⟨ch, rest, happ, -⟩ := hw.exists_of_ne_nil hne
        exact absurd happ (hno ch rest)
      · have hpos : 0 < (String.utf8EncodeChar ch).length :=
          List.length_pos_iff.mpr String.utf8EncodeChar_ne_nil
        obtain ⟨valid, hscan, hvalid⟩ := ih (i + (String.utf8EncodeChar ch).length) (by omega)
        refine ⟨valid, hscan, hvalid.trans ?_⟩
        rw [← List.drop_drop, happ, List.drop_left]
        refine ⟨fun hw => hw.cons ch, fun hw => ?_⟩
        obtain ⟨ch', rest', happ', hw'⟩ := hw.exists_of_ne_nil (happ ▸ hne)
        rwa [encode_append_inj happ']

/-- **UTF-8 validation is exact**: the call always returns, without a read beyond the end, and
it returns `true` just for the concatenations of encodings of scalar values. -/
theorem isValidUtf8_iff (text : List UInt8) :
    ∃ valid, isValidUtf8 text = some valid ∧ (valid = true ↔ WellFormed text) := by
  obtain ⟨valid, hscan, hvalid⟩ := scanUtf8_spec (p := text) text.length 0 (by omega)
  exact ⟨valid, hscan, by rwa [List.drop_zero] at hvalid⟩

end EventValidator

end PlayerTrace
