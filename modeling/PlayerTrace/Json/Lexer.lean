import PlayerTrace.Json.Serializer

/-!
# `lexer::scan`

The scanner of `src/third_party/nlohmann/nlohmann/json.hpp`. What is left of the input is a list of
bytes: reading a byte takes it off, and a byte that is put back was never taken. After an error
nothing more is read, so an error has no rest, and no text: the two ways in which the scanner is
used here have no use for it. Comments are not ignored.

Every token that is not the end of the input takes a byte at least (`PlayerTrace.Json.scan_lt`).
-/

namespace PlayerTrace

namespace Json

open Loop Utf8

/-- `token_type`; the two kinds of integers are one. -/
inductive Token
  | beginArray
  | endArray
  | beginObject
  | endObject
  | nameSeparator
  | valueSeparator
  | literalTrue
  | literalFalse
  | literalNull
  | valueString (value : Text)
  | valueInteger (value : Int)
  | valueFloat (value : Double)
  | endOfInput
  | parseError
  deriving DecidableEq, Repr

/-! ### Texts -/

/-- The value of a hexadecimal digit. -/
def hexValue (c : UInt8) : Option Nat :=
  if 0x30 ≤ c ∧ c ≤ 0x39 then some (c.toNat - 0x30)
  else if 0x41 ≤ c ∧ c ≤ 0x46 then some (c.toNat - 0x37)
  else if 0x61 ≤ c ∧ c ≤ 0x66 then some (c.toNat - 0x57)
  else none

/-- `get_codepoint`: the loop over `factors`. -/
def getCodepoint : List Nat → Nat → Text → Option (Nat × Text)
  | [], codepoint, rest => some (codepoint, rest)
  | _ :: _, _, [] => none
  | factor :: factors, codepoint, c :: rest =>
    match hexValue c with
    | none => none
    | some v => getCodepoint factors (codepoint + v <<< factor) rest

/-- `factors`. -/
def factors : List Nat := [12, 8, 4, 0]

/-- The bytes that a code point is translated into. -/
def translate (codepoint : Nat) : Text :=
  (if codepoint < 0x80 then [codepoint]
  else if codepoint ≤ 0x7FF then [0xC0 ||| codepoint >>> 6, 0x80 ||| codepoint &&& 0x3F]
  else if codepoint ≤ 0xFFFF then
    [0xE0 ||| codepoint >>> 12, 0x80 ||| codepoint >>> 6 &&& 0x3F, 0x80 ||| codepoint &&& 0x3F]
  else
    [0xF0 ||| codepoint >>> 18, 0x80 ||| codepoint >>> 12 &&& 0x3F,
      0x80 ||| codepoint >>> 6 &&& 0x3F, 0x80 ||| codepoint &&& 0x3F]).map UInt8.ofNat

/-- What comes after `\u`. A high surrogate needs a low one behind it. -/
def unicodeEscape (rest : Text) : Option (Text × Text) :=
  match getCodepoint factors 0 rest with
  | none => none
  | some (codepoint1, rest) =>
    if 0xD800 ≤ codepoint1 ∧ codepoint1 ≤ 0xDBFF then
      if rest.take 2 = [0x5C, 0x75] then
        match getCodepoint factors 0 (rest.drop 2) with
        | none => none
        | some (codepoint2, rest) =>
          if 0xDC00 ≤ codepoint2 ∧ codepoint2 ≤ 0xDFFF then
            some (translate (codepoint1 <<< 10 + codepoint2 - 0x35FDC00), rest)
          else none
      else none
    else if 0xDC00 ≤ codepoint1 ∧ codepoint1 ≤ 0xDFFF then none
    else some (translate codepoint1, rest)

/-- What the bytes behind a backslash stand for. -/
def escapes : List (UInt8 × UInt8) :=
  [(0x22, 0x22), (0x5C, 0x5C), (0x2F, 0x2F), (0x62, 0x08), (0x66, 0x0C), (0x6E, 0x0A), (0x72, 0x0D),
    (0x74, 0x09)]

/-- The `switch` behind a backslash: what is added, and what is left. -/
def escapeSequence : Text → Option (Text × Text)
  | [] => none
  | c :: rest =>
    match escapes.lookup c with
    | some b => some ([b], rest)
    | none => if c = 0x75 then unicodeEscape rest else none

/-- The ranges that `scan_string` gives to `next_byte_in_range` for a byte; a byte that may not
stand in a text has none. -/
def stringRanges (c : UInt8) : Option (List (Nat × Nat)) :=
  if c.toNat ≤ 0x1F then none
  else if c.toNat ≤ 0x7F then some []
  else if 0xC2 ≤ c.toNat ∧ c.toNat ≤ 0xDF then some [(0x80, 0xBF)]
  else if c.toNat = 0xE0 then some [(0xA0, 0xBF), (0x80, 0xBF)]
  else if (0xE1 ≤ c.toNat ∧ c.toNat ≤ 0xEC) ∨ c.toNat = 0xEE ∨ c.toNat = 0xEF then
    some [(0x80, 0xBF), (0x80, 0xBF)]
  else if c.toNat = 0xED then some [(0x80, 0x9F), (0x80, 0xBF)]
  else if c.toNat = 0xF0 then some [(0x90, 0xBF), (0x80, 0xBF), (0x80, 0xBF)]
  else if 0xF1 ≤ c.toNat ∧ c.toNat ≤ 0xF3 then some [(0x80, 0xBF), (0x80, 0xBF), (0x80, 0xBF)]
  else if c.toNat = 0xF4 then some [(0x80, 0x8F), (0x80, 0xBF), (0x80, 0xBF)]
  else none

/-- `next_byte_in_range`: the bytes that are added, and what is left. -/
def nextByteInRange : List (Nat × Nat) → Text → Option (Text × Text)
  | [], rest => some ([], rest)
  | _ :: _, [] => none
  | range :: ranges, c :: rest =>
    if range.1 ≤ c.toNat ∧ c.toNat ≤ range.2 then
      (nextByteInRange ranges rest).map fun p => (c :: p.1, p.2)
    else none

/-- One character of a text, which is not the closing quote. -/
def stringCharacter (c : UInt8) (rest : Text) : Option (Text × Text) :=
  if c = 0x5C then escapeSequence rest
  else match stringRanges c with
    | none => none
    | some ranges => (nextByteInRange ranges rest).map fun p => (c :: p.1, p.2)

/-- The body of the loop of `scan_string`, on what is left of the input and `token_buffer`. -/
def stringPass : Text × Text → Round (Text × Text) (Token × Text)
  | ([], _) => .done (.parseError, [])
  | (c :: rest, buffer) =>
    if c = 0x22 then .done (.valueString buffer, rest)
    else match stringCharacter c rest with
      | none => .done (.parseError, [])
      | some (added, rest) => .again (rest, buffer ++ added)

section Lengths

variable {rest rest' added : Text}

theorem getCodepoint_length {fs : List Nat} {codepoint codepoint' : Nat}
    (h : getCodepoint fs codepoint rest = some (codepoint', rest')) :
    rest'.length ≤ rest.length := by
  induction fs generalizing codepoint rest with
  | nil =>
    obtain ⟨-, rfl⟩ := Prod.mk.inj (Option.some.inj h)
    exact Nat.le_refl _
  | cons factor fs ih =>
    cases rest with
    | nil => cases h
    | cons c rest =>
      rw [getCodepoint] at h
      split at h
      · cases h
      · exact (ih h).trans (Nat.le_succ _)

theorem unicodeEscape_length (h : unicodeEscape rest = some (added, rest')) :
    rest'.length ≤ rest.length := by
  unfold unicodeEscape at h
  split at h
  · cases h
  · rename_i codepoint1 mid hfirst
    have hmid := getCodepoint_length hfirst
    split_ifs at h
    · split at h
      · cases h
      · rename_i codepoint2 mid' hsecond
        have hmid' := getCodepoint_length hsecond
        split_ifs at h
        obtain ⟨-, rfl⟩ := Prod.mk.inj (Option.some.inj h)
        rw [List.length_drop] at hmid'
        omega
    · obtain ⟨-, rfl⟩ := Prod.mk.inj (Option.some.inj h)
      exact hmid

theorem escapeSequence_length (h : escapeSequence rest = some (added, rest')) :
    rest'.length ≤ rest.length := by
  cases rest with
  | nil => cases h
  | cons c rest =>
    rw [escapeSequence] at h
    split at h
    · obtain ⟨-, rfl⟩ := Prod.mk.inj (Option.some.inj h)
      exact Nat.le_succ _
    · split_ifs at h
      exact (unicodeEscape_length h).trans (Nat.le_succ _)

theorem nextByteInRange_length {ranges : List (Nat × Nat)}
    (h : nextByteInRange ranges rest = some (added, rest')) : rest'.length ≤ rest.length := by
  induction ranges generalizing rest added with
  | nil =>
    obtain ⟨-, rfl⟩ := Prod.mk.inj (Option.some.inj h)
    exact Nat.le_refl _
  | cons range ranges ih =>
    cases rest with
    | nil => cases h
    | cons c rest =>
      rw [nextByteInRange] at h
      split_ifs at h
      obtain ⟨⟨added', rest''⟩, hrest, heq⟩ := Option.map_eq_some_iff.mp h
      obtain ⟨-, rfl⟩ := Prod.mk.inj heq
      exact (ih hrest).trans (Nat.le_succ _)

theorem stringCharacter_length {c : UInt8} (h : stringCharacter c rest = some (added, rest')) :
    rest'.length ≤ rest.length := by
  unfold stringCharacter at h
  split_ifs at h
  · exact escapeSequence_length h
  · split at h
    · cases h
    · obtain ⟨⟨added', rest''⟩, hrest, heq⟩ := Option.map_eq_some_iff.mp h
      obtain ⟨-, rfl⟩ := Prod.mk.inj heq
      exact nextByteInRange_length hrest

theorem stringPass_length {s s' : Text × Text} (h : stringPass s = .again s') :
    s'.1.length < s.1.length := by
  obtain ⟨rest, buffer⟩ := s
  cases rest with
  | nil => cases h
  | cons c rest =>
    rw [stringPass] at h
    split_ifs at h
    split at h
    · cases h
    · rename_i added mid hchar
      cases h
      exact Nat.lt_succ_of_le (stringCharacter_length hchar)

end Lengths

/-- The loop of `scan_string`. -/
def stringLoop : Ending (Text × Text) (Token × Text) where
  pass := stringPass
  size s := s.1.length
  size_lt := stringPass_length

/-- `scan_string`, behind the opening quote. -/
def scanString (rest : Text) : Token × Text := stringLoop.result (rest, [])

/-! ### Numbers -/

/-- The labels of `scan_number`. -/
inductive NumberState
  | minus
  | zero
  | any1
  | decimal1
  | decimal2
  | exponent
  | sign
  | any2
  deriving DecidableEq, Repr

/-- `number_type`. -/
inductive NumberType
  | unsigned
  | integer
  | float
  deriving DecidableEq, Repr

namespace NumberState

/-- Where a byte leads from a label; otherwise the default branch is taken. -/
def next (c : UInt8) : NumberState → Option NumberState
  | minus => if c = 0x30 then some zero else if isDigit c then some any1 else none
  | zero =>
    if c = 0x2E then some decimal1 else if c = 0x65 ∨ c = 0x45 then some exponent else none
  | any1 =>
    if isDigit c then some any1
    else if c = 0x2E then some decimal1
    else if c = 0x65 ∨ c = 0x45 then some exponent
    else none
  | decimal1 => if isDigit c then some decimal2 else none
  | decimal2 =>
    if isDigit c then some decimal2 else if c = 0x65 ∨ c = 0x45 then some exponent else none
  | exponent =>
    if c = 0x2B ∨ c = 0x2D then some sign else if isDigit c then some any2 else none
  | sign => if isDigit c then some any2 else none
  | any2 => if isDigit c then some any2 else none

/-- The default branch is `scan_number_done`; at the other labels it is an error. -/
def final : NumberState → Bool
  | zero | any1 | decimal2 | any2 => true
  | minus | decimal1 | exponent | sign => false

/-- What a label makes of `number_type`. -/
def typed (type : NumberType) : NumberState → NumberType
  | minus => .integer
  | decimal1 | exponent => .float
  | zero | any1 | decimal2 | sign | any2 => type

end NumberState

/-- The rest of a number from a label on, with `token_buffer`: what kind of number it is, its bytes
and what is left. -/
def numberFrom : NumberState → NumberType → Text → Text → Option (NumberType × Text × Text)
  | state, type, buffer, [] => if state.final then some (type, buffer, []) else none
  | state, type, buffer, c :: rest =>
    match state.next c with
    | some state' => numberFrom state' (state'.typed type) (buffer ++ [c]) rest
    | none => if state.final then some (type, buffer, c :: rest) else none

/-- The label for the first byte. -/
def numberStart (c : UInt8) : NumberState :=
  if c = 0x2D then .minus else if c = 0x30 then .zero else .any1

/-- What is behind `scan_number_done`: an integer that does not fit is a floating-point number. -/
def numberDone (F : Floats) (type : NumberType) (buffer : Text) : Token :=
  match type with
  | .unsigned =>
    if decimalValue buffer < 2 ^ 64 then .valueInteger (decimalValue buffer)
    else .valueFloat (F.strtod buffer)
  | .integer =>
    if decimalValue buffer.tail ≤ 2 ^ 63 then .valueInteger (-(decimalValue buffer.tail : Int))
    else .valueFloat (F.strtod buffer)
  | .float => .valueFloat (F.strtod buffer)

/-- `scan_number`, with the first byte. -/
def scanNumber (F : Floats) (c : UInt8) (rest : Text) : Token × Text :=
  match numberFrom (numberStart c) ((numberStart c).typed .unsigned) [c] rest with
  | none => (.parseError, [])
  | some (type, buffer, rest) => (numberDone F type buffer, rest)

/-! ### Tokens -/

/-- `scan_literal`, behind the first byte. -/
def scanLiteral (token : Token) : Text → Text → Token × Text
  | [], rest => (token, rest)
  | _ :: _, [] => (.parseError, [])
  | l :: literal, c :: rest => if c = l then scanLiteral token literal rest else (.parseError, [])

/-- What `skip_whitespace` skips. -/
def isSpace (c : UInt8) : Bool := c = 0x20 || c = 0x09 || c = 0x0A || c = 0x0D

/-- The structural characters. -/
def structural : List (UInt8 × Token) :=
  [(0x5B, .beginArray), (0x5D, .endArray), (0x7B, .beginObject), (0x7D, .endObject),
    (0x3A, .nameSeparator), (0x2C, .valueSeparator)]

/-- The `switch` of `scan`. -/
def scanToken (F : Floats) (c : UInt8) (rest : Text) : Token × Text :=
  match structural.lookup c with
  | some token => (token, rest)
  | none =>
    if c = 0x74 then scanLiteral .literalTrue (bytes "rue") rest
    else if c = 0x66 then scanLiteral .literalFalse (bytes "alse") rest
    else if c = 0x6E then scanLiteral .literalNull (bytes "ull") rest
    else if c = 0x22 then scanString rest
    else if c = 0x2D ∨ isDigit c then scanNumber F c rest
    -- the null byte ends the input too
    else if c = 0x00 then (.endOfInput, rest)
    else (.parseError, [])

/-- `scan`, behind the byte order mark. -/
def scan (F : Floats) (input : Text) : Token × Text :=
  match input.dropWhile isSpace with
  | [] => (.endOfInput, [])
  | c :: rest => scanToken F c rest

/-- The first call of `scan`, which skips the byte order mark. -/
def scanFirst (F : Floats) : Text → Token × Text
  | 0xEF :: rest =>
    if rest.take 2 = [0xBB, 0xBF] then scan F (rest.drop 2) else (.parseError, [])
  | input => scan F input

/-! ### A token takes bytes -/

section Takes

variable {F : Floats}

theorem length_stringLoop (s : Text × Text) : (stringLoop.result s).2.length ≤ s.1.length := by
  generalize hn : s.1.length = n
  induction n using Nat.strongRecOn generalizing s with
  | ind n ih =>
    cases hpass : stringPass s with
    | again s' =>
      have hlt := stringPass_length hpass
      rw [stringLoop.result_again hpass]
      exact (ih _ (hn ▸ hlt) s' rfl).trans (Nat.le_of_lt (hn ▸ hlt))
    | done a =>
      rw [stringLoop.result_done hpass]
      obtain ⟨rest, buffer⟩ := s
      cases rest with
      | nil =>
        cases hpass
        exact Nat.zero_le _
      | cons c rest =>
        rw [stringPass] at hpass
        split_ifs at hpass
        · cases hpass
          exact (Nat.le_succ _).trans (Nat.le_of_eq hn)
        · split at hpass
          · cases hpass
            exact Nat.zero_le _
          · cases hpass

theorem numberFrom_length {state : NumberState} {type type' : NumberType}
    {buffer buffer' rest rest' : Text}
    (h : numberFrom state type buffer rest = some (type', buffer', rest')) :
    rest'.length ≤ rest.length := by
  induction rest generalizing state type buffer with
  | nil =>
    rw [numberFrom] at h
    split_ifs at h
    cases h
    exact Nat.le_refl _
  | cons c rest ih =>
    rw [numberFrom] at h
    split at h
    · exact (ih h).trans (Nat.le_succ _)
    · split_ifs at h
      cases h
      exact Nat.le_refl _

theorem scanNumber_length (c : UInt8) (rest : Text) :
    (scanNumber F c rest).2.length ≤ rest.length := by
  unfold scanNumber
  split
  · exact Nat.zero_le _
  · rename_i hfrom
    exact numberFrom_length hfrom

theorem scanLiteral_length (token : Token) (literal rest : Text) :
    (scanLiteral token literal rest).2.length ≤ rest.length := by
  induction literal generalizing rest with
  | nil => exact Nat.le_refl _
  | cons l literal ih =>
    cases rest with
    | nil => exact Nat.zero_le _
    | cons c rest =>
      rw [scanLiteral]
      split_ifs
      · exact (ih rest).trans (Nat.le_succ _)
      · exact Nat.zero_le _

theorem scanToken_length (c : UInt8) (rest : Text) :
    (scanToken F c rest).2.length ≤ rest.length := by
  unfold scanToken
  split
  · exact Nat.le_refl _
  · split_ifs
    iterate 3 exact scanLiteral_length _ _ _
    · exact length_stringLoop (rest, [])
    · exact scanNumber_length c rest
    · exact Nat.le_refl _
    · exact Nat.zero_le _

theorem length_dropWhile_le {p : UInt8 → Bool} (l : Text) : (l.dropWhile p).length ≤ l.length :=
  (List.dropWhile_suffix p).length_le

/-- **A token takes a byte**, unless there is none left. -/
theorem scan_lt (input : Text) :
    (scan F input).2.length < input.length ∨ scan F input = (.endOfInput, []) := by
  have hdrop := length_dropWhile_le (p := isSpace) input
  unfold scan
  split
  · exact Or.inr rfl
  · rename_i c rest heq
    rw [heq, List.length_cons] at hdrop
    exact Or.inl (Nat.lt_of_le_of_lt (scanToken_length c rest) hdrop)

end Takes

end Json

end PlayerTrace
