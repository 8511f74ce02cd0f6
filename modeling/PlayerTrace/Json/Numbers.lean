import PlayerTrace.Json.Value
import PlayerTrace.Lib.Loop

/-!
# `serializer::dump_integer` and `serializer::dump_float`

The two writers of numbers in `src/third_party/nlohmann/nlohmann/json.hpp`. An integer is written
from behind, two digits at a time, into a buffer whose used part has been counted before; if count
and digits disagreed, stale bytes would be written or the sign overwritten, and the call has no
value then. It always has one, and what it writes is the numeral
(`PlayerTrace.Json.dumpInteger_eq`).

A floating-point number is formatted from its shortest decimal digits, which Grisu2 computes. That
algorithm is not modelled, nor is `strtod`; they are given (`PlayerTrace.Json.Floats`), and what is
relied on for a number is said of that number (`PlayerTrace.Json.Floats.Carries`). How the digits
are laid out is modelled, and it is a number of JSON with a fraction or an exponent
(`PlayerTrace.Json.Floats.Carries.floating`). Conversions that carry every finite number exist
(`PlayerTrace.Json.Floats.carries_plain`), and a number can be given the digits that Grisu2 finds
for it (`PlayerTrace.Json.Floats.Carries.spell`).
-/

namespace PlayerTrace

namespace Json

open Loop

/-! ### Digits -/

/-- The byte of a digit. -/
def digit (d : Nat) : UInt8 := UInt8.ofNat (0x30 + d)

def isDigit (b : UInt8) : Bool := 0x30 ≤ b && b ≤ 0x39

/-- Digits only. -/
def Digits (ds : Text) : Prop := ∀ d ∈ ds, isDigit d = true

/-- The numeral of a number. -/
def numeral (n : Nat) : Text := (Nat.toDigits 10 n).map SqlText.ch

/-- The number of a numeral. -/
def decimalValue (ds : Text) : Nat := ds.foldl (fun n d => 10 * n + (d.toNat - 0x30)) 0

theorem isDigit_iff {b : UInt8} : isDigit b = true ↔ 0x30 ≤ b.toNat ∧ b.toNat ≤ 0x39 := by
  simp only [isDigit, Bool.and_eq_true, decide_eq_true_eq, UInt8.le_iff_toNat_le]
  rfl

theorem toNat_digit {d : Nat} (h : d < 10) : (digit d).toNat = 0x30 + d := by
  rw [digit, UInt8.toNat_ofNat']
  omega

theorem isDigit_digit {d : Nat} (h : d < 10) : isDigit (digit d) = true := by
  rw [isDigit_iff, toNat_digit h]
  omega

theorem ch_digitChar {d : Nat} (h : d < 10) : SqlText.ch (Nat.digitChar d) = digit d := by
  rw [SqlText.ch, Nat.toNat_digitChar_of_lt_ten h, digit]

theorem numeral_of_lt {n : Nat} (h : n < 10) : numeral n = [digit n] := by
  rw [numeral, Nat.toDigits_of_lt_base h, List.map_singleton, ch_digitChar h]

theorem numeral_of_le {n : Nat} (h : 10 ≤ n) :
    numeral n = numeral (n / 10) ++ [digit (n % 10)] := by
  rw [numeral, Nat.toDigits_of_base_le (by decide) h, List.map_append, List.map_singleton,
    ch_digitChar (Nat.mod_lt _ (by decide))]
  rfl

theorem length_numeral_of_le {n : Nat} (h : 10 ≤ n) :
    (numeral n).length = (numeral (n / 10)).length + 1 := by
  rw [numeral_of_le h, List.length_append]
  rfl

theorem digits_numeral (n : Nat) : Digits (numeral n) := by
  intro d hd
  obtain ⟨c, hc, rfl⟩ := List.mem_map.mp hd
  have hdigit := Nat.isDigit_of_mem_toDigits (by decide) (by decide) hc
  simp only [Char.isDigit, Bool.and_eq_true, decide_eq_true_eq, ge_iff_le] at hdigit
  have hlo : 0x30 ≤ c.toNat := hdigit.1
  have hhi : c.toNat ≤ 0x39 := hdigit.2
  rw [isDigit_iff, SqlText.ch, UInt8.toNat_ofNat']
  omega

/-- A numeral is read as its number. -/
theorem decimalValue_numeral (n : Nat) : decimalValue (numeral n) = n := by
  induction n using Nat.strongRecOn with
  | ind n ih =>
    rcases Nat.lt_or_ge n 10 with h | h
    · rw [numeral_of_lt h, decimalValue, List.foldl_cons, List.foldl_nil, toNat_digit h]
      omega
    · have hlast := toNat_digit (Nat.mod_lt n (show 10 > 0 by decide))
      have hfront : decimalValue (numeral (n / 10)) = n / 10 := ih _ (by omega)
      rw [decimalValue] at hfront
      rw [numeral_of_le h, decimalValue, List.foldl_append, hfront, List.foldl_cons, List.foldl_nil,
        hlast]
      omega

/-- Only the numeral of zero begins with a zero. -/
theorem numeral_cases {n : Nat} (h : n ≠ 0) :
    ∃ d ds, numeral n = d :: ds ∧ isDigit d = true ∧ d ≠ 0x30 := by
  induction n using Nat.strongRecOn with
  | ind n ih =>
    rcases Nat.lt_or_ge n 10 with hlt | hge
    · refine ⟨digit n, [], numeral_of_lt hlt, isDigit_digit hlt, fun heq => ?_⟩
      have hnat := toNat_digit hlt
      rw [heq] at hnat
      exact h (by simpa using hnat.symm)
    · obtain ⟨d, ds, heq, hd, hne⟩ := ih (n / 10) (by omega) (by omega)
      exact ⟨d, ds ++ [digit (n % 10)], by rw [numeral_of_le hge, heq, List.cons_append], hd, hne⟩

/-! ### Integers -/

/-- The body of the loop of `count_digits`, with `n_digits`. -/
def countRound (s : Nat × Nat) : Option (Round (Nat × Nat) Nat) :=
  if s.1 < 10 then some (.done s.2)
  else if s.1 < 100 then some (.done (s.2 + 1))
  else if s.1 < 1000 then some (.done (s.2 + 2))
  else if s.1 < 10000 then some (.done (s.2 + 3))
  else some (.again (s.1 / 10000, s.2 + 4))

/-- `count_digits`. -/
def countDigits (x : Nat) : Option Nat := loop countRound (x + 1) (x, 1)

/-- `digits_to_99`: the row of a number has its two digits. -/
def digitsTo99 : List (UInt8 × UInt8) :=
  (List.range 100).map fun n => (digit (n / 10), digit (n % 10))

/-- The loop that writes two digits at a time, and what comes after it; the second component is
what is in the buffer behind `buffer_ptr`. -/
def pairRound (s : Nat × Text) : Option (Round (Nat × Text) Text) :=
  if 100 ≤ s.1 then
    (digitsTo99[s.1 % 100]?).map fun pair => .again (s.1 / 100, pair.1 :: pair.2 :: s.2)
  else if 10 ≤ s.1 then (digitsTo99[s.1]?).map fun pair => .done (pair.1 :: pair.2 :: s.2)
  else some (.done (digit s.1 :: s.2))

/-- The size of `number_buffer`. -/
def kNumberBuffer : Nat := 64

/-- `dump_integer`. -/
def dumpInteger (x : Int) : Option Text := do
  if x = 0 then some [0x30]
  else
    let sign : Text := if x < 0 then [0x2D] else []
    let count ← countDigits x.natAbs
    let chars := sign.length + count
    if chars < kNumberBuffer - 1 then
      let digits ← loop pairRound (x.natAbs + 1) (x.natAbs, [])
      if sign.length + digits.length = chars then some (sign ++ digits) else none
    else none

/-- The text of an integer. -/
def integerText (x : Int) : Text := (if x < 0 then [0x2D] else []) ++ numeral x.natAbs

theorem countDigits_eq (x : Nat) : countDigits x = some (numeral x).length := by
  have hone : ∀ {y}, y < 10 → (numeral y).length = 1 := fun h => by rw [numeral_of_lt h]; rfl
  have hloop : ∃ n, loop countRound (x + 1) (x, 1) = some n ∧ n = (numeral x).length := loop_rule
    (I := fun s => s.2 + (numeral s.1).length = (numeral x).length + 1) (m := fun s => s.1)
    ?_ (x + 1) (x, 1) (Nat.add_comm 1 _) (Nat.lt_succ_self _)
  · obtain ⟨n, hn, rfl⟩ := hloop
    exact hn
  · rintro ⟨y, n⟩ hinv
    dsimp only at hinv
    rw [countRound]
    split_ifs with h₁ h₂ h₃ h₄
    · rw [hone h₁] at hinv
      exact Or.inl ⟨_, rfl, by omega⟩
    · rw [length_numeral_of_le (by omega), hone (by omega)] at hinv
      exact Or.inl ⟨_, rfl, by dsimp only; omega⟩
    · rw [length_numeral_of_le (by omega), length_numeral_of_le (by omega), hone (by omega)] at hinv
      exact Or.inl ⟨_, rfl, by dsimp only; omega⟩
    · rw [length_numeral_of_le (by omega), length_numeral_of_le (by omega),
        length_numeral_of_le (by omega), hone (by omega)] at hinv
      exact Or.inl ⟨_, rfl, by dsimp only; omega⟩
    · rw [length_numeral_of_le (by omega), length_numeral_of_le (by omega),
        length_numeral_of_le (by omega), length_numeral_of_le (by omega),
        show y / 10 / 10 / 10 / 10 = y / 10000 by omega] at hinv
      exact Or.inr ⟨_, rfl, by dsimp only; omega, by dsimp only; omega⟩

theorem digitsTo99_get {n : Nat} (h : n < 100) :
    digitsTo99[n]? = some (digit (n / 10), digit (n % 10)) := by
  rw [digitsTo99, List.getElem?_map, List.getElem?_range h, Option.map_some]

theorem pairs_eq (x : Nat) : loop pairRound (x + 1) (x, []) = some (numeral x) := by
  have hloop : ∃ ds, loop pairRound (x + 1) (x, []) = some ds ∧ ds = numeral x := loop_rule
    (I := fun s => numeral s.1 ++ s.2 = numeral x) (m := fun s => s.1)
    ?_ (x + 1) (x, []) (List.append_nil _) (Nat.lt_succ_self _)
  · obtain ⟨ds, hds, rfl⟩ := hloop
    exact hds
  · rintro ⟨y, ds⟩ hinv
    dsimp only at hinv
    rw [pairRound]
    split_ifs with h₁ h₂
    · have htwo : numeral y =
          numeral (y / 100) ++ [digit (y % 100 / 10), digit (y % 100 % 10)] := by
        rw [numeral_of_le (by omega), numeral_of_le (by omega), Nat.div_div_eq_div_mul,
          List.append_assoc, Nat.mod_mod_of_dvd _ (by decide : 10 ∣ 100),
          show y / 10 % 10 = y % 100 / 10 by omega]
        rfl
      rw [digitsTo99_get (Nat.mod_lt _ (by decide))]
      refine Or.inr ⟨_, rfl, ?_, by dsimp only; omega⟩
      rw [← hinv, htwo, List.append_assoc]
      rfl
    · rw [digitsTo99_get (by omega)]
      refine Or.inl ⟨_, rfl, ?_⟩
      rw [← hinv, numeral_of_le h₂, numeral_of_lt (by omega)]
      rfl
    · refine Or.inl ⟨_, rfl, ?_⟩
      rw [← hinv, numeral_of_lt (by omega)]
      rfl

/-- The integers that fit `number_integer_t` or `number_unsigned_t`. -/
def Machine (x : Int) : Prop := -2 ^ 63 ≤ x ∧ x < 2 ^ 64

instance (x : Int) : Decidable (Machine x) := inferInstanceAs (Decidable (_ ∧ _))

/-- **An integer is written as its numeral.** -/
theorem dumpInteger_eq {x : Int} (h : Machine x) : dumpInteger x = some (integerText x) := by
  have hlen : (numeral x.natAbs).length ≤ 20 := by
    rw [numeral, List.length_map, Nat.length_toDigits_le_iff (by decide) (by decide)]
    obtain ⟨hlo, hhi⟩ := h
    omega
  have hsign : (if x < 0 then [0x2D] else [] : Text).length ≤ 1 := by
    split_ifs <;> decide
  rw [dumpInteger, integerText]
  by_cases hzero : x = 0
  · subst hzero
    rfl
  · rw [if_neg hzero]
    simp only [countDigits_eq, pairs_eq, Option.bind_eq_bind, Option.bind_some]
    rw [if_pos (by rw [kNumberBuffer]; omega), if_pos trivial]

/-! ### Floating-point numbers -/

/-- `append_exponent`. -/
def appendExponent (e : Int) : Text :=
  let k := e.natAbs
  (if e < 0 then 0x2D else 0x2B) ::
    if k < 10 then [0x30, digit k]
    else if k < 100 then [digit (k / 10), digit (k % 10)]
    else [digit (k / 100), digit (k % 100 / 10), digit (k % 10)]

/-- `format_buffer`: the digits of a number that is `digits * 10 ^ exponent`. -/
def formatBuffer (digits : Text) (exponent minExp maxExp : Int) : Text :=
  let k : Int := digits.length
  let n := k + exponent
  if k ≤ n ∧ n ≤ maxExp then digits ++ List.replicate (n - k).toNat 0x30 ++ [0x2E, 0x30]
  else if 0 < n ∧ n ≤ maxExp then digits.take n.toNat ++ 0x2E :: digits.drop n.toNat
  else if minExp < n ∧ n ≤ 0 then [0x30, 0x2E] ++ List.replicate (-n).toNat 0x30 ++ digits
  else if k = 1 then digits ++ 0x65 :: appendExponent (n - 1)
  else digits.take 1 ++ 0x2E :: digits.drop 1 ++ 0x65 :: appendExponent (n - 1)

/-- `std::signbit`. -/
def signbit (x : Double) : Bool := x.bits >>> 63 != 0

/-- The number without its sign. -/
def magnitude (x : Double) : Double := ⟨x.bits &&& 0x7FFFFFFFFFFFFFFF⟩

/-- **The two conversions**: the shortest decimal digits of a number that is positive and finite,
with their exponent, and the number of a text. -/
structure Floats where
  grisu2 : Double → Text × Int
  strtod : Text → Double

namespace Floats

variable (F : Floats) {x : Double}

/-- `to_chars`. -/
def toChars (x : Double) : Text :=
  let v := magnitude x
  (if signbit x then [0x2D] else []) ++
    if v.bits = 0 then [0x30, 0x2E, 0x30]
    else formatBuffer (F.grisu2 v).1 (F.grisu2 v).2 (-4) 15

/-- `dump_float`. -/
def dumpFloat (x : Double) : Option Text :=
  if !x.isFinite then some (bytes "null")
  else if (F.toChars x).length ≤ kNumberBuffer then some (F.toChars x)
  else none

/-- What is relied on for a number: Grisu2 finds at most 17 digits (`max_digits10`), without a
leading zero, and an exponent in the range of doubles, and the text is read back as the number. -/
structure Carries (F : Floats) (x : Double) : Prop where
  finite : x.isFinite = true
  digits : (magnitude x).bits ≠ 0 → ∃ d ds, (F.grisu2 (magnitude x)).1 = d :: ds ∧
    isDigit d = true ∧ d ≠ 0x30 ∧ Digits ds ∧ ds.length ≤ 16
  exponent : -1000 < (F.grisu2 (magnitude x)).2 ∧ (F.grisu2 (magnitude x)).2 < 980
  reads : F.strtod (F.toChars x) = x

end Floats

/-! ### Numbers of JSON -/

/-- The digits before the point. -/
inductive IntegerPart : Text → Prop
  | zero : IntegerPart [0x30]
  | digits {d : UInt8} {ds : Text} (hd : isDigit d = true) (hne : d ≠ 0x30) (hds : Digits ds) :
      IntegerPart (d :: ds)

/-- The point and the digits behind it, if there are any. -/
inductive Fraction : Text → Prop
  | none : Fraction []
  | digits {d : UInt8} {ds : Text} (hd : isDigit d = true) (hds : Digits ds) :
      Fraction (0x2E :: d :: ds)

/-- An exponent, if there is one. -/
inductive Exponent : Text → Prop
  | none : Exponent []
  | digits {sign d : UInt8} {ds : Text} (hsign : sign = 0x2B ∨ sign = 0x2D)
      (hd : isDigit d = true) (hds : Digits ds) : Exponent (0x65 :: sign :: d :: ds)

/-- A number without a sign that is not an integer. -/
def Floating (t : Text) : Prop :=
  ∃ whole fraction exponent, t = whole ++ (fraction ++ exponent) ∧ IntegerPart whole ∧
    Fraction fraction ∧ Exponent exponent ∧ (fraction ≠ [] ∨ exponent ≠ [])

theorem Digits.append {ds es : Text} (hd : Digits ds) (he : Digits es) : Digits (ds ++ es) :=
  List.forall_mem_append.mpr ⟨hd, he⟩

theorem digits_zeros (n : Nat) : Digits (List.replicate n 0x30) := by
  intro d hd
  rw [List.eq_of_mem_replicate hd]
  rfl

theorem exponent_appendExponent {e : Int} (h : e.natAbs < 1000) :
    Exponent (0x65 :: appendExponent e) := by
  have hsign : ∀ ds : Text, (∃ d es, ds = d :: es ∧ isDigit d = true ∧ Digits es) →
      Exponent (0x65 :: (if e < 0 then 0x2D else 0x2B) :: ds) := by
    rintro ds ⟨d, es, rfl, hd, hes⟩
    refine .digits ?_ hd hes
    split_ifs
    · exact Or.inr rfl
    · exact Or.inl rfl
  refine hsign _ ?_
  split_ifs with h₁ h₂
  · exact ⟨_, _, rfl, rfl, List.forall_mem_singleton.mpr (isDigit_digit h₁)⟩
  · exact ⟨_, _, rfl, isDigit_digit (by omega),
      List.forall_mem_singleton.mpr (isDigit_digit (Nat.mod_lt _ (by decide)))⟩
  · refine ⟨_, _, rfl, isDigit_digit (by omega), ?_⟩
    rw [Digits, List.forall_mem_cons, List.forall_mem_singleton]
    exact ⟨isDigit_digit (by omega), isDigit_digit (Nat.mod_lt _ (by decide))⟩

/-- Digits laid out are a number with a fraction or an exponent. -/
theorem floating_formatBuffer {d : UInt8} {ds : Text} {exponent : Int} (hd : isDigit d = true)
    (hne : d ≠ 0x30) (hds : Digits ds) (hlen : ds.length ≤ 16)
    (hlo : -1000 < exponent) (hhi : exponent < 980) :
    Floating (formatBuffer (d :: ds) exponent (-4) 15) := by
  have hall : Digits (d :: ds) := List.forall_mem_cons.mpr ⟨hd, hds⟩
  have hwhole : IntegerPart (d :: ds) := .digits hd hne hds
  rw [formatBuffer, List.length_cons]
  split_ifs with h₁ h₂ h₃ h₄
  · rw [List.cons_append]
    exact ⟨_, [0x2E, 0x30], [], rfl, .digits hd hne (hds.append (digits_zeros _)),
      .digits rfl (List.forall_mem_nil _), .none, Or.inl (List.cons_ne_nil _ _)⟩
  · obtain ⟨n, hn⟩ : ∃ n, (((ds.length + 1 : Nat) : Int) + exponent).toNat = n + 1 :=
      ⟨(((ds.length + 1 : Nat) : Int) + exponent).toNat - 1, by omega⟩
    obtain ⟨e, es, hes⟩ : ∃ e es, ds.drop n = e :: es :=
      List.exists_cons_of_ne_nil (by rw [Ne, List.drop_eq_nil_iff]; omega)
    have hrest : Digits (e :: es) := fun c hc => hds c (List.mem_of_mem_drop (hes ▸ hc))
    rw [hn, List.take_succ_cons, List.drop_succ_cons, hes]
    refine ⟨d :: ds.take n, _, [], ?_, .digits hd hne fun c hc => hds c (List.mem_of_mem_take hc),
      .digits (hrest e List.mem_cons_self) fun c hc => hrest c (List.mem_cons_of_mem _ hc), .none,
      Or.inl (List.cons_ne_nil _ _)⟩
    rw [List.append_nil]
  · obtain ⟨e, es, hes⟩ : ∃ e es, List.replicate (-(((ds.length + 1 : Nat) : Int) + exponent)).toNat
        0x30 ++ d :: ds = e :: es := List.exists_cons_of_ne_nil (by simp)
    have hrest : Digits (e :: es) := hes ▸ (digits_zeros _).append hall
    refine ⟨[0x30], 0x2E :: e :: es, [], ?_, .zero,
      .digits (hrest e List.mem_cons_self) fun c hc => hrest c (List.mem_cons_of_mem _ hc), .none,
      Or.inl (List.cons_ne_nil _ _)⟩
    rw [List.append_nil, ← hes]
    rfl
  · refine ⟨d :: ds, [], _, rfl, hwhole, .none, exponent_appendExponent (by omega),
      Or.inr (List.cons_ne_nil _ _)⟩
  · obtain ⟨e, es, rfl⟩ : ∃ e es, ds = e :: es :=
      List.exists_cons_of_ne_nil fun hnil => h₄ (by rw [hnil]; rfl)
    refine ⟨[d], 0x2E :: e :: es, _, rfl, .digits hd hne (List.forall_mem_nil _),
      .digits (hds e List.mem_cons_self) fun c hc => hds c (List.mem_cons_of_mem _ hc),
      exponent_appendExponent (by omega), Or.inl (List.cons_ne_nil _ _)⟩

theorem length_appendExponent (e : Int) : (appendExponent e).length ≤ 4 := by
  rw [appendExponent]
  split_ifs <;> simp

/-- What is laid out fits the buffer. -/
theorem length_formatBuffer {digits : Text} (h : digits.length ≤ 17) (exponent : Int) :
    (formatBuffer digits exponent (-4) 15).length < kNumberBuffer := by
  have hexp := length_appendExponent ((digits.length : Int) + exponent - 1)
  rw [formatBuffer, kNumberBuffer]
  split_ifs
  all_goals
    simp only [List.length_append, List.length_cons, List.length_nil, List.length_replicate,
      List.length_take, List.length_drop]
    omega

namespace Floats

variable {F : Floats} {x : Double}

/-- **A floating-point number is written as one.** -/
theorem Carries.floating (h : F.Carries x) :
    ∃ t, F.toChars x = (if signbit x then [0x2D] else []) ++ t ∧ Floating t := by
  refine ⟨_, rfl, ?_⟩
  split_ifs with hzero
  · exact ⟨[0x30], [0x2E, 0x30], [], rfl, .zero, .digits rfl (List.forall_mem_nil _), .none,
      Or.inl (List.cons_ne_nil _ _)⟩
  · obtain ⟨d, ds, heq, hd, hne, hds, hlen⟩ := h.digits hzero
    rw [heq]
    exact floating_formatBuffer hd hne hds hlen h.exponent.1 h.exponent.2

theorem Carries.dumpFloat (h : F.Carries x) : F.dumpFloat x = some (F.toChars x) := by
  have hlen : (F.toChars x).length ≤ kNumberBuffer := by
    rw [toChars, List.length_append]
    have hsign : (if signbit x = true then [0x2D] else [] : Text).length ≤ 1 := by
      split_ifs <;> decide
    by_cases hzero : (magnitude x).bits = 0
    · rw [if_pos hzero]
      exact Nat.le_trans (Nat.add_le_add_right hsign _) (by decide)
    · obtain ⟨d, ds, heq, -, -, -, hle⟩ := h.digits hzero
      have hcount : (d :: ds).length ≤ 17 := Nat.succ_le_succ hle
      have hlt := length_formatBuffer hcount (F.grisu2 (magnitude x)).2
      rw [if_neg hzero, heq]
      omega
  rw [Floats.dumpFloat, h.finite, if_pos hlen]
  rfl

end Floats

/-! ### Conversions that carry every number -/

/-- The last `k` digits of a number. -/
def lastDigits : Nat → Nat → Text
  | 0, _ => []
  | k + 1, n => lastDigits k (n / 10) ++ [digit (n % 10)]

theorem length_lastDigits (k n : Nat) : (lastDigits k n).length = k := by
  induction k generalizing n with
  | zero => rfl
  | succ k ih => rw [lastDigits, List.length_append, ih, List.length_singleton]

theorem digits_lastDigits (k n : Nat) : Digits (lastDigits k n) := by
  induction k generalizing n with
  | zero => exact List.forall_mem_nil _
  | succ k ih =>
    exact (ih _).append (List.forall_mem_singleton.mpr (isDigit_digit (Nat.mod_lt n (by decide))))

theorem decimalValue_concat {d : Nat} (h : d < 10) (ds : Text) :
    decimalValue (ds ++ [digit d]) = 10 * decimalValue ds + d := by
  rw [decimalValue, List.foldl_append, List.foldl_cons, List.foldl_nil, toNat_digit h, decimalValue]
  omega

theorem decimalValue_lastDigits {k n : Nat} (h : n < 10 ^ k) :
    decimalValue (lastDigits k n) = n := by
  induction k generalizing n with
  | zero => exact (Nat.lt_one_iff.mp h).symm
  | succ k ih =>
    have hfront : n / 10 < 10 ^ k := Nat.div_lt_of_lt_mul (by rwa [← Nat.pow_succ'])
    rw [lastDigits, decimalValue_concat (Nat.mod_lt n (by decide)), ih hfront]
    omega

theorem decimalValue_appendExponent {n : Nat} (hlo : 10 ≤ n) (hhi : n < 1000) :
    appendExponent n = 0x2B :: (appendExponent n).tail ∧
      decimalValue (appendExponent n).tail = n := by
  have hsign : ¬(n : Int) < 0 := by omega
  rw [appendExponent, if_neg hsign, Int.natAbs_natCast, if_neg (by omega)]
  refine ⟨rfl, ?_⟩
  rw [List.tail_cons]
  split_ifs with hshort
  · have htwo := decimalValue_concat (d := n % 10) (by omega) [digit (n / 10)]
    have hone := decimalValue_concat (d := n / 10) (by omega) []
    rw [List.nil_append] at hone
    rw [List.singleton_append] at htwo
    rw [htwo, hone]
    have hnil : decimalValue [] = 0 := rfl
    omega
  · have hthree := decimalValue_concat (d := n % 10) (by omega)
      [digit (n / 100), digit (n % 100 / 10)]
    have htwo := decimalValue_concat (d := n % 100 / 10) (by omega) [digit (n / 100)]
    have hone := decimalValue_concat (d := n / 100) (by omega) []
    rw [List.nil_append] at hone
    rw [List.singleton_append] at htwo
    rw [List.cons_append, List.singleton_append] at hthree
    rw [hthree, htwo, hone]
    have hnil : decimalValue [] = 0 := rfl
    omega

/-- Seventeen digits and an exponent that is not negative have a point behind the first digit. -/
theorem formatBuffer_long {d : UInt8} {ds : Text} (h : ds.length = 16) (q : Nat) :
    formatBuffer (d :: ds) q (-4) 15 =
      d :: 0x2E :: (ds ++ 0x65 :: appendExponent (16 + q : Nat)) := by
  have hlength : ((d :: ds).length : Int) = 17 := by rw [List.length_cons, h]; rfl
  rw [formatBuffer, hlength, if_neg (by omega), if_neg (by omega), if_neg (by omega),
    if_neg (by omega)]
  have hexponent : (17 + (q : Int) - 1) = ((16 + q : Nat) : Int) := by omega
  rw [hexponent]
  rfl

theorem toNat_magnitude (x : Double) : (magnitude x).bits.toNat = x.bits.toNat % 2 ^ 63 := by
  rw [magnitude, UInt64.toNat_and]
  exact Nat.and_two_pow_sub_one_eq_mod x.bits.toNat 63

/-- A number is its magnitude with its sign. -/
theorem toNat_bits (x : Double) :
    x.bits.toNat = (magnitude x).bits.toNat + if signbit x then 2 ^ 63 else 0 := by
  have hshift : (x.bits >>> 63).toNat = x.bits.toNat / 2 ^ 63 := by
    rw [UInt64.toNat_shiftRight, Nat.shiftRight_eq_div_pow]
    rfl
  have hlt := x.bits.toNat_lt
  have hsign : signbit x = true ↔ 2 ^ 63 ≤ x.bits.toNat := by
    rw [signbit, bne_iff_ne, ne_eq, ← UInt64.toNat_inj, hshift]
    have hzero : (0 : UInt64).toNat = 0 := rfl
    rw [hzero]
    omega
  rw [toNat_magnitude]
  split_ifs with h
  · have hlarge := hsign.mp h
    omega
  · have hsmall := mt hsign.mpr h
    omega

/-- The number that stands for `1.ddd…e+qq`, by its digits; any other text stands for zero. -/
def plainValue (u : Text) : Nat :=
  if u.head? = some 0x30 then 0
  else decimalValue ((u.drop 2).take 16) + (decimalValue (u.drop 20) - 16) * 10 ^ 16

/-- Conversions that carry every number, by its bits. -/
def Floats.plain : Floats where
  grisu2 v := (0x31 :: lastDigits 16 (v.bits.toNat % 10 ^ 16), (v.bits.toNat / 10 ^ 16 : Nat))
  strtod t :=
    if t.head? = some 0x2D then ⟨.ofNat (plainValue t.tail + 2 ^ 63)⟩ else ⟨.ofNat (plainValue t)⟩

theorem plainValue_formatBuffer {n : Nat} (h : n < 2 ^ 63) :
    plainValue (formatBuffer (0x31 :: lastDigits 16 (n % 10 ^ 16)) (n / 10 ^ 16 : Nat) (-4) 15) =
      n := by
  have hlength := length_lastDigits 16 (n % 10 ^ 16)
  obtain ⟨hplus, hvalue⟩ :=
    decimalValue_appendExponent (n := 16 + n / 10 ^ 16) (by omega) (by omega)
  have hdigits : decimalValue (lastDigits 16 (n % 10 ^ 16)) = n % 10 ^ 16 :=
    decimalValue_lastDigits (Nat.mod_lt n (by decide))
  rw [formatBuffer_long hlength, plainValue, if_neg (by simp)]
  have htake : ((0x31 :: 0x2E :: (lastDigits 16 (n % 10 ^ 16) ++
      0x65 :: appendExponent (16 + n / 10 ^ 16 : Nat))).drop 2).take 16 =
        lastDigits 16 (n % 10 ^ 16) := List.take_left' hlength
  have hdrop : (0x31 :: 0x2E :: (lastDigits 16 (n % 10 ^ 16) ++
      0x65 :: appendExponent (16 + n / 10 ^ 16 : Nat))).drop 20 =
        (appendExponent (16 + n / 10 ^ 16 : Nat)).tail := by
    rw [hplus]
    have hsplit : lastDigits 16 (n % 10 ^ 16) ++ 0x65 :: 0x2B ::
        (appendExponent (16 + n / 10 ^ 16 : Nat)).tail =
          (lastDigits 16 (n % 10 ^ 16) ++ [0x65, 0x2B]) ++
            (appendExponent (16 + n / 10 ^ 16 : Nat)).tail := by
      rw [List.append_assoc]
      rfl
    rw [List.tail_cons, List.drop_succ_cons, List.drop_succ_cons, hsplit]
    exact List.drop_left' (by rw [List.length_append, hlength]; rfl)
  rw [htake, hdrop, hdigits, hvalue]
  omega

theorem magnitude_lt (x : Double) : (magnitude x).bits.toNat < 2 ^ 63 := by
  rw [toNat_magnitude]
  exact Nat.mod_lt _ (by decide)

/-- The text without its sign, and what it stands for. -/
theorem plain_toChars (x : Double) : ∃ u : Text, u.head? ≠ some 0x2D ∧
    plainValue u = (magnitude x).bits.toNat ∧
    Floats.plain.toChars x = (if signbit x then [0x2D] else []) ++ u := by
  by_cases hzero : (magnitude x).bits = 0
  · refine ⟨[0x30, 0x2E, 0x30], by decide, ?_, ?_⟩
    · rw [hzero]
      rfl
    · rw [Floats.toChars, if_pos hzero]
  · refine ⟨_, ?_, plainValue_formatBuffer (magnitude_lt x), ?_⟩
    · rw [formatBuffer_long (length_lastDigits _ _)]
      simp
    · rw [Floats.toChars, if_neg hzero]
      rfl

theorem Floats.carries_plain {x : Double} (h : x.isFinite = true) : Floats.plain.Carries x := by
  have hmagnitude := magnitude_lt x
  refine ⟨h, fun _ => ⟨0x31, _, rfl, by decide, by decide, digits_lastDigits _ _,
    (length_lastDigits _ _).le⟩, ?_, ?_⟩
  · have hexponent : (Floats.plain.grisu2 (magnitude x)).2 =
        ((magnitude x).bits.toNat / 10 ^ 16 : Nat) := rfl
    rw [hexponent]
    omega
  · obtain ⟨u, hhead, hvalue, htext⟩ := plain_toChars x
    have hbits := toNat_bits x
    have hnegative : Floats.plain.strtod (0x2D :: u) = ⟨.ofNat (plainValue u + 2 ^ 63)⟩ := by
      simp only [Floats.plain, List.head?_cons, List.tail_cons, if_true]
    have hpositive : Floats.plain.strtod u = ⟨.ofNat (plainValue u)⟩ := if_neg hhead
    rw [htext]
    cases hsign : signbit x with
    | true =>
      rw [hsign, if_pos rfl, ← hvalue] at hbits
      rw [if_pos rfl, List.singleton_append, hnegative, ← hbits, UInt64.ofNat_toNat]
    | false =>
      rw [hsign, if_neg Bool.false_ne_true, ← hvalue, Nat.add_zero] at hbits
      rw [if_neg Bool.false_ne_true, List.nil_append, hpositive, ← hbits, UInt64.ofNat_toNat]

/-! ### Numbers with digits of their own -/

namespace Floats

/-- The conversions `F`, but for one number and its negative, which are written with these
digits. -/
def spell (F : Floats) (v : Double) (digits : Text) (exponent : Int) : Floats where
  grisu2 x := if x = v then (digits, exponent) else F.grisu2 x
  strtod t :=
    if t = formatBuffer digits exponent (-4) 15 then v
    else if t = 0x2D :: formatBuffer digits exponent (-4) 15 then ⟨.ofNat (v.bits.toNat + 2 ^ 63)⟩
    else F.strtod t

/-- No number is written with this text, with a sign or without. -/
def Avoids (F : Floats) (u : Text) : Prop :=
  ∀ x, F.toChars x ≠ u ∧ F.toChars x ≠ 0x2D :: u

section Spell

variable {F : Floats} {v x : Double} {digits u : Text} {exponent : Int}

theorem toChars_spell_of_ne (h : magnitude x ≠ v) :
    (F.spell v digits exponent).toChars x = F.toChars x := by
  have hgrisu : (F.spell v digits exponent).grisu2 (magnitude x) = F.grisu2 (magnitude x) :=
    if_neg h
  rw [toChars, toChars, hgrisu]

theorem toChars_spell (hv : v.bits ≠ 0) (h : magnitude x = v) :
    (F.spell v digits exponent).toChars x =
      (if signbit x then [0x2D] else []) ++ formatBuffer digits exponent (-4) 15 := by
  have hgrisu : (F.spell v digits exponent).grisu2 v = (digits, exponent) := if_pos rfl
  rw [toChars, h, if_neg hv, hgrisu]

/-- Texts with a sign or without differ if they do without it. -/
theorem ne_of_signed {w : Text} {negative : Bool} (hw : w.head? ≠ some 0x2D)
    (hu : u.head? ≠ some 0x2D) (hne : w ≠ u) :
    (if negative then [0x2D] else []) ++ w ≠ u ∧
      (if negative then [0x2D] else []) ++ w ≠ 0x2D :: u := by
  cases negative with
  | true =>
    rw [if_pos rfl, List.singleton_append]
    exact ⟨fun heq => hu (heq ▸ rfl), fun heq => hne (List.cons.inj heq).2⟩
  | false =>
    rw [if_neg Bool.false_ne_true, List.nil_append]
    exact ⟨hne, fun heq => hw (heq ▸ rfl)⟩

/-- **Conversions with digits of their own for one number** carry what the others carry, as long as
those do not use its text. -/
theorem Carries.spell (hF : F.Carries x) (hv : v.bits ≠ 0)
    (hdigits : ∃ d ds, digits = d :: ds ∧ isDigit d = true ∧ d ≠ 0x30 ∧ Digits ds ∧
      ds.length ≤ 16) (hexponent : -1000 < exponent ∧ exponent < 980)
    (havoids : F.Avoids (formatBuffer digits exponent (-4) 15)) :
    (F.spell v digits exponent).Carries x := by
  by_cases h : magnitude x = v
  · -- the number or its negative, whose texts are looked for first
    have hgrisu : (F.spell v digits exponent).grisu2 (magnitude x) = (digits, exponent) := if_pos h
    refine ⟨hF.finite, fun _ => by rwa [hgrisu], by rwa [hgrisu], ?_⟩
    have hbits := toNat_bits x
    rw [toChars_spell hv h]
    cases hsign : signbit x with
    | true =>
      rw [hsign, if_pos rfl, h] at hbits
      rw [if_pos rfl, List.singleton_append]
      refine (if_neg (List.cons_ne_self _ _)).trans ((if_pos rfl).trans ?_)
      rw [← hbits, UInt64.ofNat_toNat]
    | false =>
      rw [hsign, if_neg Bool.false_ne_true, h, Nat.add_zero] at hbits
      rw [if_neg Bool.false_ne_true, List.nil_append]
      refine (if_pos rfl).trans ?_
      exact congrArg Double.mk (UInt64.toNat_inj.mp hbits.symm)
  · -- any other number keeps its text, which is neither of the two
    have hgrisu : (F.spell v digits exponent).grisu2 (magnitude x) = F.grisu2 (magnitude x) :=
      if_neg h
    refine ⟨hF.finite, by rw [hgrisu]; exact hF.digits, by rw [hgrisu]; exact hF.exponent, ?_⟩
    rw [toChars_spell_of_ne h]
    exact (if_neg (havoids x).1).trans ((if_neg (havoids x).2).trans hF.reads)

theorem Avoids.spell (h : F.Avoids u) (hv : v.bits ≠ 0) (hu : u.head? ≠ some 0x2D)
    (hsign : (formatBuffer digits exponent (-4) 15).head? ≠ some 0x2D)
    (hne : formatBuffer digits exponent (-4) 15 ≠ u) : (F.spell v digits exponent).Avoids u := by
  intro x
  by_cases hx : magnitude x = v
  · rw [toChars_spell hv hx]
    exact ne_of_signed hsign hu hne
  · rw [toChars_spell_of_ne hx]
    exact h x

end Spell

/-- A number that is written by its bits is zero, or has a long text. -/
theorem avoids_plain {u : Text} (hlength : u.length < 18) (hu : u.head? ≠ some 0x2D)
    (hzero : u ≠ [0x30, 0x2E, 0x30]) : plain.Avoids u := by
  intro x
  rw [toChars]
  by_cases hx : (magnitude x).bits = 0
  · rw [if_pos hx]
    exact ne_of_signed (by decide) hu (Ne.symm hzero)
  · have hlong : formatBuffer (plain.grisu2 (magnitude x)).1 (plain.grisu2 (magnitude x)).2
        (-4) 15 = _ := formatBuffer_long (length_lastDigits 16 _) _
    rw [if_neg hx, hlong]
    refine ne_of_signed (by simp) hu fun heq => ?_
    rw [← heq, List.length_cons, List.length_cons, List.length_append, length_lastDigits] at hlength
    omega

/-- Conversions that carry every number, and write 1 and 1.5 with the digits that Grisu2 finds. -/
def sample : Floats :=
  (plain.spell ⟨0x3FF0000000000000⟩ [0x31] 0).spell ⟨0x3FF8000000000000⟩ [0x31, 0x35] (-1)

theorem carries_sample {x : Double} (h : x.isFinite = true) : sample.Carries x := by
  have hone : plain.Avoids (formatBuffer [0x31] 0 (-4) 15) :=
    avoids_plain (by decide) (by decide) (by decide)
  have hhalf : plain.Avoids (formatBuffer [0x31, 0x35] (-1) (-4) 15) :=
    avoids_plain (by decide) (by decide) (by decide)
  refine ((carries_plain h).spell (by decide) ⟨_, _, rfl, by decide, by decide,
    List.forall_mem_nil _, by decide⟩ (by decide) hone).spell (by decide) ⟨_, _, rfl, by decide,
    by decide, List.forall_mem_singleton.mpr (by decide), by decide⟩ (by decide) ?_
  exact hhalf.spell (by decide) (by decide) (by decide) (by decide)

/-- Their texts. -/
example : sample.toChars ⟨0x3FF0000000000000⟩ = bytes "1.0" ∧
    sample.toChars ⟨0xBFF8000000000000⟩ = bytes "-1.5" := by decide

end Floats

end Json

end PlayerTrace
