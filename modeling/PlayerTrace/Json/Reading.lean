import PlayerTrace.Json.Lexer

/-!
# What is written is scanned

The scanner reads each atom as the writer wrote it (`PlayerTrace.Json.scan_atomText`): a text, by
its characters, an escape or an encoding at a time; an integer and a floating-point number, by
their parts. What is behind a number must not go on with it, so the statement is about texts that
are followed by a delimiter (`PlayerTrace.Json.Delimited`). So a value is scanned as its tokens
(`PlayerTrace.Json.lexes_text`).
-/

namespace PlayerTrace

namespace Json

open Utf8

/-! ### Texts -/

section Strings

variable {rest buffer : Text}

/-- The three ways in which a byte is written. -/
theorem escapeByte_cases (b : UInt8) :
    (∃ p ∈ escapes, escapeByte b = [0x5C, p.1] ∧ escapes.lookup p.1 = some b) ∨
      (b.toNat ≤ 0x1F ∧ escapeByte b = 0x5C :: 0x75 :: hex4 b.toNat) ∨
      (0x20 ≤ b.toNat ∧ b ≠ 0x22 ∧ b ≠ 0x5C ∧ escapeByte b = [b]) := by
  revert b
  exact forall_byte (by decide +kernel)

theorem hexValue_digitChar {d : Nat} (h : d < 16) :
    hexValue (SqlText.ch (Nat.digitChar d)) = some d := by
  revert d
  decide

/-- Four hexadecimal digits are read back. -/
theorem getCodepoint_hex4 {n : Nat} (h : n < 0x10000) :
    getCodepoint factors 0 (hex4 n ++ rest) = some (n, rest) := by
  have hvalue : ∀ m, hexValue (SqlText.ch (Nat.digitChar (m % 16))) = some (m % 16) := fun m =>
    hexValue_digitChar (Nat.mod_lt m (by decide))
  simp only [factors, hex4, List.map_cons, List.map_nil, List.cons_append, List.nil_append,
    getCodepoint, hvalue, Nat.shiftLeft_eq, Option.some.injEq, Prod.mk.injEq, and_true]
  omega

theorem unicodeEscape_hex4 {b : UInt8} (h : b.toNat ≤ 0x1F) :
    unicodeEscape (hex4 b.toNat ++ rest) = some ([b], rest) := by
  rw [unicodeEscape, getCodepoint_hex4 (by omega)]
  dsimp only
  rw [if_neg (by omega), if_neg (by omega), translate, if_pos (by omega), List.map_singleton,
    UInt8.ofNat_toNat]

/-- The table of `scan_string` is that of UTF-8. -/
theorem stringRanges_eq {b : UInt8} (h : 0x20 ≤ b.toNat) : stringRanges b = follow b := by
  have htry : ∀ b : UInt8, 0x20 ≤ b.toNat → stringRanges b = follow b :=
    forall_byte (by decide +kernel)
  exact htry b h

theorem nextByteInRange_append {bs : Text} {rs : List (Nat × Nat)}
    (h : List.Forall₂ Within bs rs) : nextByteInRange rs (bs ++ rest) = some (bs, rest) := by
  induction h with
  | nil => rfl
  | cons hb _ ih =>
    rw [List.cons_append, nextByteInRange, if_pos ⟨hb.1, hb.2⟩, ih]
    rfl

/-- A byte of ASCII, as it was written. -/
theorem stringPass_escapeByte {b : UInt8} (h : b.toNat < 0x80) :
    stringPass (escapeByte b ++ rest, buffer) = .again (rest, buffer ++ [b]) := by
  rcases escapeByte_cases b with ⟨p, -, heq, hlookup⟩ | ⟨hlow, heq⟩ | ⟨hlow, hquote, hslash, heq⟩
  · have hchar : stringCharacter 0x5C (p.1 :: rest) = some ([b], rest) := by
      rw [stringCharacter, if_pos rfl, escapeSequence, hlookup]
    rw [heq, List.cons_append, stringPass, if_neg (by decide), List.singleton_append, hchar]
  · have hchar : stringCharacter 0x5C (0x75 :: hex4 b.toNat ++ rest) = some ([b], rest) := by
      rw [stringCharacter, if_pos rfl, List.cons_append, escapeSequence,
        show escapes.lookup 0x75 = none from by decide]
      exact unicodeEscape_hex4 hlow
    rw [heq, List.cons_append, stringPass, if_neg (by decide), hchar]
  · have hchar : stringCharacter b rest = some ([b], rest) := by
      rw [stringCharacter, if_neg hslash, stringRanges_eq hlow, follow, if_pos h]
      rfl
    rw [heq, List.singleton_append, stringPass, if_neg hquote, hchar]

/-- An encoding of several bytes, which is written as it is. -/
theorem stringPass_encoding {b : UInt8} {bs : Text} {rs : List (Nat × Nat)} (hb : 0x80 ≤ b.toNat)
    (hfollow : follow b = some rs) (hbs : List.Forall₂ Within bs rs) :
    stringPass (b :: bs ++ rest, buffer) = .again (rest, buffer ++ b :: bs) := by
  have hne : ∀ n : UInt8, n.toNat < 0x80 → b ≠ n := by
    rintro n hn rfl
    omega
  have hchar : stringCharacter b (bs ++ rest) = some (b :: bs, rest) := by
    rw [stringCharacter, if_neg (hne _ (by decide)), stringRanges_eq (by omega), hfollow]
    dsimp only
    rw [nextByteInRange_append hbs]
    rfl
  rw [List.cons_append, stringPass, if_neg (hne _ (by decide)), hchar]

/-- The bytes behind the first are written as they are. -/
theorem escaped_of_within {bs : Text} {rs : List (Nat × Nat)} (h : List.Forall₂ Within bs rs)
    (hrs : ∀ range ∈ rs, 0x80 ≤ range.1) : escaped bs = bs := by
  induction h with
  | nil => rfl
  | cons hb _ ih =>
    rw [List.forall_mem_cons] at hrs
    rw [escaped, List.flatMap_cons, escapeByte_of_le (hrs.1.trans hb.1)]
    exact congrArg _ (ih hrs.2)

theorem follow_bounds {b : UInt8} {rs : List (Nat × Nat)} (h : follow b = some rs) :
    ∀ range ∈ rs, 0x80 ≤ range.1 := by
  unfold follow at h
  split_ifs at h
  all_goals
    obtain rfl := Option.some.inj h
    decide

/-- One character. -/
theorem stringPass_encode (c : Char) :
    stringPass (escaped (String.utf8EncodeChar c) ++ rest, buffer) =
      .again (rest, buffer ++ String.utf8EncodeChar c) := by
  obtain ⟨b, bs, heq⟩ := List.exists_cons_of_ne_nil (String.utf8EncodeChar_ne_nil (c := c))
  obtain ⟨rs, hfollow, hbs⟩ := follow_of_encode heq
  rw [heq]
  rcases Nat.lt_or_ge b.toNat 0x80 with hb | hb
  · rw [follow, if_pos hb] at hfollow
    obtain rfl := Option.some.inj hfollow
    obtain rfl := List.forall₂_nil_right_iff.mp hbs
    have hone : escaped [b] = escapeByte b := List.append_nil _
    rw [hone]
    exact stringPass_escapeByte hb
  · have hcopy : escaped (b :: bs) = b :: bs := by
      rw [escaped, List.flatMap_cons, escapeByte_of_le hb]
      exact congrArg _ (escaped_of_within hbs (follow_bounds hfollow))
    rw [hcopy]
    exact stringPass_encoding hb hfollow hbs

/-- **A text is read back**, behind its opening quote. -/
theorem scanString_escaped {s : Text} (h : WellFormed s) :
    scanString (escaped s ++ 0x22 :: rest) = (.valueString s, rest) := by
  obtain ⟨cs, rfl⟩ := h
  suffices hloop : ∀ buffer, stringLoop.result
      (escaped (cs.flatMap String.utf8EncodeChar) ++ 0x22 :: rest, buffer) =
        (.valueString (buffer ++ cs.flatMap String.utf8EncodeChar), rest) from hloop []
  induction cs with
  | nil =>
    intro buffer
    rw [List.flatMap_nil, List.append_nil]
    exact stringLoop.result_done rfl
  | cons c cs ih =>
    intro buffer
    have hsplit : escaped ((c :: cs).flatMap String.utf8EncodeChar) =
        escaped (String.utf8EncodeChar c) ++ escaped (cs.flatMap String.utf8EncodeChar) := by
      rw [List.flatMap_cons, escaped, List.flatMap_append]
      rfl
    rw [hsplit, List.append_assoc, stringLoop.result_again (stringPass_encode c), ih,
      List.flatMap_cons, List.append_assoc]

end Strings

/-! ### Numbers -/

section Numbers

variable {F : Floats} {rest buffer : Text} {type : NumberType}

/-- A text that does not go on with a number. -/
def Delimited (rest : Text) : Prop :=
  ∀ c ∈ rest.head?, isDigit c = false ∧ c ≠ 0x2E ∧ c ≠ 0x65 ∧ c ≠ 0x45

/-- The labels at which digits are collected. -/
def NumberState.collects : NumberState → Bool
  | .any1 | .decimal2 | .any2 => true
  | .minus | .zero | .decimal1 | .exponent | .sign => false

theorem NumberState.next_of_collects {state : NumberState} (h : state.collects = true) {c : UInt8}
    (hc : isDigit c = true) : state.next c = some state ∧ state.typed type = type := by
  cases state with
  | any1 | decimal2 | any2 => exact ⟨if_pos hc, rfl⟩
  | minus | zero | decimal1 | exponent | sign => cases h

theorem numberFrom_cons {state state' : NumberState} {c : UInt8} (h : state.next c = some state') :
    numberFrom state type buffer (c :: rest) =
      numberFrom state' (state'.typed type) (buffer ++ [c]) rest := by
  rw [numberFrom, h]

theorem numberFrom_digits {state : NumberState} (h : state.collects = true) {ds : Text}
    (hds : Digits ds) :
    numberFrom state type buffer (ds ++ rest) = numberFrom state type (buffer ++ ds) rest := by
  induction ds generalizing buffer with
  | nil => rw [List.nil_append, List.append_nil]
  | cons d ds ih =>
    obtain ⟨hd, hds⟩ := List.forall_mem_cons.mp hds
    obtain ⟨hnext, htyped⟩ : state.next d = some state ∧ state.typed type = type :=
      NumberState.next_of_collects h hd
    rw [List.cons_append, numberFrom_cons hnext, htyped, ih hds, List.append_assoc,
      List.singleton_append]

/-- A number ends where nothing goes on with it. -/
theorem numberFrom_delimited {state : NumberState} (h : state.final = true)
    (hrest : Delimited rest) :
    numberFrom state type buffer rest = some (type, buffer, rest) := by
  cases rest with
  | nil => rw [numberFrom, if_pos h]
  | cons c rest =>
    obtain ⟨hdigit, hpoint, hlower, hupper⟩ := hrest c rfl
    have hnext : state.next c = none := by
      cases state with
      | zero => simp [NumberState.next, hpoint, hlower, hupper]
      | any1 => simp [NumberState.next, hdigit, hpoint, hlower, hupper]
      | decimal2 => simp [NumberState.next, hdigit, hlower, hupper]
      | any2 => simp [NumberState.next, hdigit]
      | minus | decimal1 | exponent | sign => cases h
    rw [numberFrom, hnext]
    exact if_pos h

/-- The sign of a number. -/
def signText (negative : Bool) : Text := if negative then [0x2D] else []

/-- The labels behind the digits before the point. -/
def NumberState.whole (state : NumberState) : Prop := state = .zero ∨ state = .any1

theorem NumberState.whole.final {state : NumberState} (h : state.whole) : state.final = true := by
  rcases h with rfl | rfl <;> rfl

/-- The sign and the digits before the point. -/
theorem scanNumber_whole {whole : Text} (h : IntegerPart whole) (negative : Bool) (rest : Text) :
    ∃ c t, signText negative ++ (whole ++ rest) = c :: t ∧ (c = 0x2D ∨ isDigit c = true) ∧
      ∃ state : NumberState, state.whole ∧
        numberFrom (numberStart c) ((numberStart c).typed .unsigned) [c] t =
          numberFrom state (if negative then .integer else .unsigned)
            (signText negative ++ whole) rest := by
  cases h with
  | zero =>
    cases negative with
    | false => exact ⟨0x30, rest, rfl, Or.inr rfl, .zero, Or.inl rfl, rfl⟩
    | true => exact ⟨0x2D, 0x30 :: rest, rfl, Or.inl rfl, .zero, Or.inl rfl, rfl⟩
  | @digits d ds hd hne hds =>
    have hdigit : ∀ ty buffer, numberFrom .any1 ty (buffer ++ [d]) (ds ++ rest) =
        numberFrom .any1 ty (buffer ++ d :: ds) rest := by
      intro ty buffer
      rw [numberFrom_digits rfl hds, List.append_assoc, List.singleton_append]
    cases negative with
    | false =>
      have hminus : d ≠ 0x2D := by
        rintro rfl
        cases hd
      refine ⟨d, ds ++ rest, rfl, Or.inr hd, .any1, Or.inr rfl, ?_⟩
      rw [numberStart, if_neg hminus, if_neg hne]
      exact hdigit .unsigned []
    | true =>
      refine ⟨0x2D, d :: ds ++ rest, rfl, Or.inl rfl, .any1, Or.inr rfl, ?_⟩
      have hnext : NumberState.minus.next d = some .any1 := by
        rw [NumberState.next, if_neg hne, if_pos hd]
      rw [List.cons_append]
      exact (numberFrom_cons hnext).trans (hdigit .integer [0x2D])

theorem numberFrom_fraction {state : NumberState} (h : state.whole) {d : UInt8} {ds : Text}
    (hd : isDigit d = true) (hds : Digits ds) :
    numberFrom state type buffer (0x2E :: d :: ds ++ rest) =
      numberFrom .decimal2 .float (buffer ++ 0x2E :: d :: ds) rest := by
  have hpoint : state.next 0x2E = some .decimal1 := by
    rcases h with rfl | rfl <;> rfl
  have hdigit : NumberState.decimal1.next d = some .decimal2 := if_pos hd
  rw [List.cons_append, List.cons_append, numberFrom_cons hpoint, numberFrom_cons hdigit,
    numberFrom_digits rfl hds]
  simp [NumberState.typed]

theorem numberFrom_exponent {state : NumberState} (h : state.whole ∨ state = .decimal2)
    {sign d : UInt8} {ds : Text} (hsign : sign = 0x2B ∨ sign = 0x2D) (hd : isDigit d = true)
    (hds : Digits ds) :
    numberFrom state type buffer (0x65 :: sign :: d :: ds ++ rest) =
      numberFrom .any2 .float (buffer ++ 0x65 :: sign :: d :: ds) rest := by
  have hletter : state.next 0x65 = some .exponent := by
    rcases h with (rfl | rfl) | rfl <;> rfl
  have hmark : NumberState.exponent.next sign = some .sign := if_pos hsign
  have hdigit : NumberState.sign.next d = some .any2 := if_pos hd
  rw [List.cons_append, List.cons_append, List.cons_append, numberFrom_cons hletter,
    numberFrom_cons hmark, numberFrom_cons hdigit, numberFrom_digits rfl hds]
  simp [NumberState.typed]

/-- A number that is not an integer is one floating-point number. -/
theorem scanNumber_floating {t : Text} (h : Floating t) (negative : Bool) (hrest : Delimited rest) :
    ∃ c u, signText negative ++ t ++ rest = c :: u ∧ (c = 0x2D ∨ isDigit c = true) ∧
      scanNumber F c u = (.valueFloat (F.strtod (signText negative ++ t)), rest) := by
  obtain ⟨whole, fraction, exponent, rfl, hwhole, hfraction, hexponent, hsome⟩ := h
  obtain ⟨c, u, heq, hc, state, hstate, hfrom⟩ :=
    scanNumber_whole hwhole negative (fraction ++ exponent ++ rest)
  refine ⟨c, u, by rw [← heq]; simp, hc, ?_⟩
  -- the fraction, the exponent, and the end
  have hnumber : numberFrom state (if negative then .integer else .unsigned)
      (signText negative ++ whole) (fraction ++ exponent ++ rest) =
        some (.float, signText negative ++ (whole ++ (fraction ++ exponent)), rest) := by
    cases hfraction with
    | none =>
      cases hexponent with
      | none => exact absurd (hsome.elim id id) (not_not.mpr rfl)
      | digits hsign hd hds =>
        rw [List.nil_append, numberFrom_exponent (Or.inl hstate) hsign hd hds,
          numberFrom_delimited rfl hrest, List.append_assoc]
    | digits hd hds =>
      rw [List.append_assoc, numberFrom_fraction hstate hd hds]
      cases hexponent with
      | none =>
        rw [List.nil_append, numberFrom_delimited rfl hrest, List.append_nil, List.append_assoc]
      | digits hsign hd' hds' =>
        rw [numberFrom_exponent (Or.inr rfl) hsign hd' hds', numberFrom_delimited rfl hrest,
          List.append_assoc, List.append_assoc]
  rw [scanNumber, hfrom, hnumber]
  rfl

theorem scanNumber_integerText {x : Int} (h : Machine x) (hrest : Delimited rest) :
    ∃ c u, integerText x ++ rest = c :: u ∧ (c = 0x2D ∨ isDigit c = true) ∧
      scanNumber F c u = (.valueInteger x, rest) := by
  obtain ⟨hlo, hhi⟩ := h
  have hwhole : IntegerPart (numeral x.natAbs) := by
    rcases Nat.eq_zero_or_pos x.natAbs with hzero | hpos
    · rw [hzero]
      exact .zero
    · obtain ⟨d, ds, heq, hd, hne⟩ := numeral_cases (Nat.ne_of_gt hpos)
      have hall := digits_numeral x.natAbs
      rw [heq] at hall ⊢
      exact .digits hd hne fun c hc => hall c (List.mem_cons_of_mem _ hc)
  obtain ⟨c, u, heq, hc, state, hstate, hfrom⟩ :=
    scanNumber_whole hwhole (decide (x < 0)) rest
  have htext : integerText x = signText (decide (x < 0)) ++ numeral x.natAbs := by
    simp [integerText, signText]
  refine ⟨c, u, by rw [htext, List.append_assoc, heq], hc, ?_⟩
  rw [scanNumber, hfrom, numberFrom_delimited hstate.final hrest]
  dsimp only
  by_cases hneg : x < 0
  · simp only [hneg, decide_true, signText, if_true, numberDone, List.singleton_append,
      List.tail_cons, decimalValue_numeral]
    rw [if_pos (by omega), show -(x.natAbs : Int) = x by omega]
  · simp only [hneg, decide_false, signText, Bool.false_eq_true, if_false, numberDone,
      List.nil_append, decimalValue_numeral]
    rw [if_pos (by omega), show (x.natAbs : Int) = x by omega]

end Numbers

/-! ### Tokens -/

section Tokens

variable {F : Floats} {input mid rest : Text} {ts us : List Token}

theorem scan_cons {c : UInt8} (h : isSpace c = false) :
    scan F (c :: rest) = scanToken F c rest := by
  rw [scan, List.dropWhile_cons_of_neg (by rw [h]; decide)]

theorem scanLiteral_append (token : Token) (literal : Text) :
    scanLiteral token literal (literal ++ rest) = (token, rest) := by
  induction literal with
  | nil => rfl
  | cons l literal ih => rw [List.cons_append, scanLiteral, if_pos rfl, ih]

theorem scan_number {c : UInt8} (h : c = 0x2D ∨ isDigit c = true) :
    scan F (c :: rest) = scanNumber F c rest := by
  have htry : ∀ c : UInt8, c = 0x2D ∨ isDigit c = true → isSpace c = false ∧
      structural.lookup c = none ∧ c ≠ 0x74 ∧ c ≠ 0x66 ∧ c ≠ 0x6E ∧ c ≠ 0x22 :=
    forall_byte (by decide +kernel)
  obtain ⟨hspace, hnone, htrue, hfalse, hnull, hquote⟩ := htry c h
  rw [scan_cons hspace, scanToken, hnone]
  dsimp only
  rw [if_neg htrue, if_neg hfalse, if_neg hnull, if_neg hquote, if_pos h]

theorem scan_quoted {s : Text} (h : WellFormed s) :
    scan F (quoted s ++ rest) = (.valueString s, rest) := by
  have hquote : scan F (0x22 :: (escaped s ++ 0x22 :: rest)) =
      scanString (escaped s ++ 0x22 :: rest) := rfl
  simp only [quoted, List.cons_append, List.append_assoc, List.nil_append]
  rw [hquote]
  exact scanString_escaped h

/-- The token of an atom. -/
def Atom.token : Atom → Token
  | .null => .literalNull
  | .boolean true => .literalTrue
  | .boolean false => .literalFalse
  | .integer value => .valueInteger value
  | .number value => .valueFloat value
  | .string value => .valueString value

/-- An integer fits its type, and a number is carried. -/
def Atom.Carried (F : Floats) : Atom → Prop
  | .integer value => Machine value
  | .number value => F.Carries value
  | .null | .boolean _ | .string _ => True

/-- Every number in the value is carried. -/
def Value.Carried (F : Floats) (v : Value) : Prop := ∀ a ∈ v.atoms, a.Carried F

/-- **An atom is scanned as one token.** -/
theorem scan_atomText {a : Atom} (hcarried : a.Carried F) (hencoded : a.Encoded)
    (hrest : Delimited rest) : scan F (atomText F a ++ rest) = (a.token, rest) := by
  cases a with
  | null => exact scanLiteral_append .literalNull (bytes "ull")
  | boolean value =>
    cases value with
    | true => exact scanLiteral_append .literalTrue (bytes "rue")
    | false => exact scanLiteral_append .literalFalse (bytes "alse")
  | integer value =>
    obtain ⟨c, u, heq, hc, hscan⟩ := scanNumber_integerText (F := F) hcarried hrest
    rw [atomText, heq, scan_number hc, hscan]
    rfl
  | number value =>
    obtain ⟨t, ht, hfloating⟩ := Floats.Carries.floating hcarried
    obtain ⟨c, u, heq, hc, hscan⟩ :=
      scanNumber_floating (F := F) hfloating (signbit value) hrest
    have htext : F.toChars value = signText (signbit value) ++ t := ht
    rw [atomText, if_pos (Floats.Carries.finite hcarried), htext, heq, scan_number hc, hscan,
      ← htext, Floats.Carries.reads hcarried]
    rfl
  | string value => exact scan_quoted hencoded

/-- **Scanning again and again**: the tokens of an input, and what is left. -/
inductive Lexes (F : Floats) : Text → List Token → Text → Prop
  | nil {input : Text} : Lexes F input [] input
  | cons {input mid rest : Text} {token : Token} {tokens : List Token}
      (h : scan F input = (token, mid)) (hmid : Lexes F mid tokens rest) :
      Lexes F input (token :: tokens) rest

theorem Lexes.single {token : Token} (h : scan F input = (token, rest)) :
    Lexes F input [token] rest :=
  .cons h .nil

theorem Lexes.append (h : Lexes F input ts mid) (h' : Lexes F mid us rest) :
    Lexes F input (ts ++ us) rest := by
  induction h with
  | nil => exact h'
  | cons hscan _ ih => exact .cons hscan (ih h')

/-- Sequences of tokens with commas between them. -/
def separated (tss : List (List Token)) : List Token := List.intercalate [.valueSeparator] tss

@[simp] theorem separated_singleton (ts : List Token) : separated [ts] = ts := List.append_nil ts

theorem separated_cons (ts us : List Token) (tss : List (List Token)) :
    separated (ts :: us :: tss) = ts ++ .valueSeparator :: separated (us :: tss) := rfl

/-- The tokens of a member, given those of its value. -/
def memberTokens (m : Text × List Token) : List Token := .valueString m.1 :: .nameSeparator :: m.2

/-- The tokens of a value. -/
def Value.tokens : Value → List Token :=
  Value.fold (fun a => [a.token]) (fun tss => .beginArray :: (separated tss ++ [.endArray]))
    fun ms => .beginObject :: (separated (ms.map memberTokens) ++ [.endObject])

theorem Value.tokens_array (elements : List Value) : (Value.array elements).tokens =
    .beginArray :: (separated (elements.map Value.tokens) ++ [.endArray]) := by
  rw [Value.tokens, Value.fold_array]

theorem Value.tokens_object (members : List (Text × Value)) : (Value.object members).tokens =
    .beginObject :: (separated (members.map fun m => memberTokens (m.1, m.2.tokens)) ++
      [.endObject]) := by
  rw [Value.tokens, Value.fold_object, List.map_map]
  rfl

theorem delimited_cons {c : UInt8} (h : c = 0x2C ∨ c = 0x5D ∨ c = 0x7D) :
    Delimited (c :: rest) := by
  rintro d hd
  obtain rfl : c = d := Option.some.inj hd
  rcases h with rfl | rfl | rfl <;> decide

/-- Texts with commas between them. -/
theorem lexes_joined {ι : Type} {l : List ι} {t : ι → Text} {u : ι → List Token}
    (h : ∀ x ∈ l, ∀ rest, Delimited rest → Lexes F (t x ++ rest) (u x) rest)
    (hrest : Delimited rest) :
    Lexes F (joined (l.map t) ++ rest) (separated (l.map u)) rest := by
  induction l with
  | nil => exact .nil
  | cons x l ih =>
    obtain ⟨hx, hl⟩ := List.forall_mem_cons.mp h
    cases l with
    | nil => simpa using hx rest hrest
    | cons y l =>
      have hcomma : ∀ u, Lexes F (0x2C :: u) [.valueSeparator] u := fun u => .single rfl
      have hhead := hx (0x2C :: (joined ((y :: l).map t) ++ rest)) (delimited_cons (Or.inl rfl))
      have hall := hhead.append ((hcomma _).append (ih hl))
      simpa [joined_cons, separated_cons] using hall

/-- **A value is scanned as its tokens.** -/
theorem lexes_text {v : Value} (hcarried : v.Carried F) (hencoded : v.Encoded)
    (hrest : Delimited rest) : Lexes F (text F v ++ rest) v.tokens rest := by
  induction v generalizing rest with
  | atom a =>
    exact .single (scan_atomText (hcarried a List.mem_cons_self) (hencoded a List.mem_cons_self)
      hrest)
  | array elements ih =>
    have hc := Value.forall_atoms_array.mp hcarried
    have he := Value.forall_atoms_array.mp hencoded
    have hbracket : Delimited (0x5D :: rest) := delimited_cons (Or.inr (Or.inl rfl))
    have helements := lexes_joined (F := F) (l := elements) (t := text F) (u := Value.tokens)
      (fun v hv rest hrest => ih v hv (hc v hv) (he v hv) hrest) hbracket
    have hopen : Lexes F (0x5B :: (joined (elements.map (text F)) ++ 0x5D :: rest)) [.beginArray]
      (joined (elements.map (text F)) ++ 0x5D :: rest) := .single rfl
    have hclose : Lexes F (0x5D :: rest) [.endArray] rest := .single rfl
    rw [text_array, Value.tokens_array]
    simpa using hopen.append (helements.append hclose)
  | object members ih =>
    have hc := Value.forall_atoms_object.mp hcarried
    have he := Value.forall_atoms_object.mp hencoded
    have hmember : ∀ m ∈ members, ∀ rest, Delimited rest →
        Lexes F (memberText (m.1, text F m.2) ++ rest) (memberTokens (m.1, m.2.tokens)) rest := by
      intro m hm rest hrest
      have hvalue := ih m hm (hc m hm).2 (he m hm).2 hrest
      have hkey : Lexes F (quoted m.1 ++ 0x3A :: (text F m.2 ++ rest)) [.valueString m.1]
        (0x3A :: (text F m.2 ++ rest)) := .single (scan_quoted (he m hm).1)
      have hcolon : Lexes F (0x3A :: (text F m.2 ++ rest)) [.nameSeparator] (text F m.2 ++ rest) :=
        .single rfl
      simpa [memberText, memberTokens] using hkey.append (hcolon.append hvalue)
    have hbrace : Delimited (0x7D :: rest) := delimited_cons (Or.inr (Or.inr rfl))
    have hmembers := lexes_joined hmember hbrace
    have hopen : Lexes F (0x7B :: (joined (members.map fun m => memberText (m.1, text F m.2)) ++
      0x7D :: rest)) [.beginObject] _ := .single rfl
    have hclose : Lexes F (0x7D :: rest) [.endObject] rest := .single rfl
    rw [text_object, Value.tokens_object]
    simpa using hopen.append (hmembers.append hclose)

end Tokens

end Json

end PlayerTrace
