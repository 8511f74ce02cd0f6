import PlayerTrace.Events.Validator
import PlayerTrace.Lib.Utf8Table

/-!
# `serializer::dump_escaped`

How `src/third_party/nlohmann/nlohmann/json.hpp` writes a text between quotes, as `dump()` calls it:
the error handler is the strict one and non-ASCII characters are not escaped. The bytes run through
the automaton of `decode`, whose table is read by index, and what is written goes through the
buffer of 512 bytes. A read beyond the table or a write beyond the buffer has no value, and
neither has the call then.

A state of the automaton stands for the byte ranges that are still to come
(`PlayerTrace.Json.pending`), so it accepts the well-formed texts. The call always has a value: it
writes the text with each byte escaped on its own, or throws, and it throws just where
`EventValidator::is_valid_utf8` refuses (`PlayerTrace.Json.dumpEscaped_of_wellFormed`,
`PlayerTrace.Json.dumpEscaped_of_not`).
-/

namespace PlayerTrace

namespace Json

open Utf8

/-- A `std::string`, as its bytes. -/
abbrev Text := List UInt8

/-! ### The automaton -/

/-- `UTF8_ACCEPT`. -/
def utf8Accept : Nat := 0

/-- `UTF8_REJECT`. -/
def utf8Reject : Nat := 1

/-- `utf8d`: the types of the 256 bytes, then the transitions of the nine states. -/
def utf8d : List Nat := [
  0, 0, 0, 0, 0, 0, 0, 0, 0, 0, 0, 0, 0, 0, 0, 0, 0, 0, 0, 0, 0, 0, 0, 0, 0, 0, 0, 0, 0, 0, 0, 0,
  0, 0, 0, 0, 0, 0, 0, 0, 0, 0, 0, 0, 0, 0, 0, 0, 0, 0, 0, 0, 0, 0, 0, 0, 0, 0, 0, 0, 0, 0, 0, 0,
  0, 0, 0, 0, 0, 0, 0, 0, 0, 0, 0, 0, 0, 0, 0, 0, 0, 0, 0, 0, 0, 0, 0, 0, 0, 0, 0, 0, 0, 0, 0, 0,
  0, 0, 0, 0, 0, 0, 0, 0, 0, 0, 0, 0, 0, 0, 0, 0, 0, 0, 0, 0, 0, 0, 0, 0, 0, 0, 0, 0, 0, 0, 0, 0,
  1, 1, 1, 1, 1, 1, 1, 1, 1, 1, 1, 1, 1, 1, 1, 1, 9, 9, 9, 9, 9, 9, 9, 9, 9, 9, 9, 9, 9, 9, 9, 9,
  7, 7, 7, 7, 7, 7, 7, 7, 7, 7, 7, 7, 7, 7, 7, 7, 7, 7, 7, 7, 7, 7, 7, 7, 7, 7, 7, 7, 7, 7, 7, 7,
  8, 8, 2, 2, 2, 2, 2, 2, 2, 2, 2, 2, 2, 2, 2, 2, 2, 2, 2, 2, 2, 2, 2, 2, 2, 2, 2, 2, 2, 2, 2, 2,
  0xA, 0x3, 0x3, 0x3, 0x3, 0x3, 0x3, 0x3, 0x3, 0x3, 0x3, 0x3, 0x3, 0x4, 0x3, 0x3,
  0xB, 0x6, 0x6, 0x6, 0x5, 0x8, 0x8, 0x8, 0x8, 0x8, 0x8, 0x8, 0x8, 0x8, 0x8, 0x8,
  0x0, 0x1, 0x2, 0x3, 0x5, 0x8, 0x7, 0x1, 0x1, 0x1, 0x4, 0x6, 0x1, 0x1, 0x1, 0x1,
  1, 1, 1, 1, 1, 1, 1, 1, 1, 1, 1, 1, 1, 1, 1, 1, 1, 0, 1, 1, 1, 1, 1, 0, 1, 0, 1, 1, 1, 1, 1, 1,
  1, 2, 1, 1, 1, 1, 1, 2, 1, 2, 1, 1, 1, 1, 1, 1, 1, 1, 1, 1, 1, 1, 1, 2, 1, 1, 1, 1, 1, 1, 1, 1,
  1, 2, 1, 1, 1, 1, 1, 1, 1, 2, 1, 1, 1, 1, 1, 1, 1, 1, 1, 1, 1, 1, 1, 3, 1, 3, 1, 1, 1, 1, 1, 1,
  1, 3, 1, 1, 1, 1, 1, 3, 1, 3, 1, 1, 1, 1, 1, 1, 1, 3, 1, 1, 1, 1, 1, 1, 1, 1, 1, 1, 1, 1, 1, 1]

/-- `decode`: the new state, and the code point as far as it is read. -/
def decode (state : Nat) (codep : UInt32) (byte : UInt8) : Option (Nat × UInt32) := do
  let type ← utf8d[byte.toNat]?
  let codep :=
    if state ≠ utf8Accept then (byte &&& 0x3F).toUInt32 ||| (codep <<< 6)
    else (0xFF >>> UInt32.ofNat type) &&& byte.toUInt32
  let state ← utf8d[256 + state * 16 + type]?
  pure (state, codep)

/-! ### The writer -/

/-- `hex_bytes`. -/
def hexBytes (byte : UInt8) : String :=
  let nibbleToHex := "0123456789ABCDEF".toList
  String.ofList [nibbleToHex.getD (byte.toNat / 16) 'F', nibbleToHex.getD (byte.toNat % 16) 'F']

/-- What `type_error::create(316, ...)` says. -/
def typeError316 (what : String) : String := "[json.exception.type_error.316] " ++ what

/-- Four digits of `%04x`. -/
def hex4 (n : Nat) : Text :=
  [n / 4096 % 16, n / 256 % 16, n / 16 % 16, n % 16].map fun d => SqlText.ch (Nat.digitChar d)

/-- The size of `string_buffer`. -/
def kStringBuffer : Nat := 512

/-- What is put into the buffer for a code point whose last byte is `byte`, and how many bytes are
touched: `snprintf` writes a terminator too. -/
def escape (codepoint : UInt32) (byte : UInt8) : Text × Nat :=
  if codepoint = 0x08 then (bytes "\\b", 2)
  else if codepoint = 0x09 then (bytes "\\t", 2)
  else if codepoint = 0x0A then (bytes "\\n", 2)
  else if codepoint = 0x0C then (bytes "\\f", 2)
  else if codepoint = 0x0D then (bytes "\\r", 2)
  else if codepoint = 0x22 then (bytes "\\\"", 2)
  else if codepoint = 0x5C then (bytes "\\\\", 2)
  else if codepoint ≤ 0x1F then (bytes "\\u" ++ hex4 codepoint.toNat, 7)
  else ([byte], 1)

/-- The local state of `dump_escaped`: the automaton, what is in the buffer, and what has been
written out. -/
structure Escaper where
  state : Nat := utf8Accept
  codepoint : UInt32 := 0
  buffer : Text := []
  written : Text := []

/-- The buffer is written out when fewer than 13 bytes are left. -/
def Escaper.spill (e : Escaper) : Escaper :=
  if kStringBuffer - e.buffer.length < 13 then
    { e with buffer := [], written := e.written ++ e.buffer }
  else e

/-- The body of the loop. -/
def dumpByte (i : Nat) (byte : UInt8) (e : Escaper) : Option (Except String Escaper) :=
  match decode e.state e.codepoint byte with
  | none => none
  | some (state, codepoint) =>
    if state = utf8Accept then
      if e.buffer.length + (escape codepoint byte).2 ≤ kStringBuffer then
        some (.ok { e with state, codepoint,
                           buffer := e.buffer ++ (escape codepoint byte).1 : Escaper }.spill)
      else none
    else if state = utf8Reject then
      some (.error (typeError316 ("invalid UTF-8 byte at index " ++ toString i ++ ": 0x" ++
        hexBytes byte)))
    -- inside a code point
    else if e.buffer.length < kStringBuffer then
      some (.ok { e with state, codepoint, buffer := e.buffer ++ [byte] })
    else none

/-- The loop from index `i` on, and what comes after it. -/
def dumpBytes (s : Text) : Nat → Text → Escaper → Option (Except String Text)
  | _, [], e =>
    if e.state = utf8Accept then some (.ok (e.written ++ e.buffer))
    else s.getLast?.map fun back =>
      .error (typeError316 ("incomplete UTF-8 string; last byte: 0x" ++ hexBytes back))
  | i, byte :: rest, e =>
    match dumpByte i byte e with
    | none => none
    | some (.error what) => some (.error what)
    | some (.ok e) => dumpBytes s (i + 1) rest e

/-- `dump_escaped`. -/
def dumpEscaped (s : Text) : Option (Except String Text) := dumpBytes s 0 s {}

/-! ### The states of the automaton -/

/-- The byte ranges that a state waits for. -/
def pending : Nat → Option (List (Nat × Nat))
  | 0 => some []
  | 2 => some [tail]
  | 3 => some [tail, tail]
  | 4 => some [(0xA0, 0xBF), tail]
  | 5 => some [(0x80, 0x9F), tail]
  | 6 => some [(0x90, 0xBF), tail, tail]
  | 7 => some [tail, tail, tail]
  | 8 => some [(0x80, 0x8F), tail, tail]
  | _ => none

/-- The types of bytes, with the bytes of each. -/
def types : List (Nat × (Nat × Nat)) :=
  [(0, 0x00, 0x7F), (1, 0x80, 0x8F), (9, 0x90, 0x9F), (7, 0xA0, 0xBF), (8, 0xC0, 0xC1),
    (2, 0xC2, 0xDF), (0xA, 0xE0, 0xE0), (3, 0xE1, 0xEC), (4, 0xED, 0xED), (3, 0xEE, 0xEF),
    (0xB, 0xF0, 0xF0), (6, 0xF1, 0xF3), (5, 0xF4, 0xF4), (8, 0xF5, 0xFF)]

theorem exists_type (b : UInt8) : ∃ row ∈ types, Within b row.2 ∧ utf8d[b.toNat]? = some row.1 := by
  revert b
  exact forall_byte (by decide +kernel)

/-- Where a state that waits for a range goes on a type: on if the bytes of the type are in the
range, and to the rejecting state if they are not. -/
def Proceeds (state : Nat) (range : Nat × Nat) (rs : List (Nat × Nat))
    (row : Nat × (Nat × Nat)) : Prop :=
  (range.1 ≤ row.2.1 ∧ row.2.2 ≤ range.2 ∧
    ∃ next < 9, utf8d[256 + state * 16 + row.1]? = some next ∧ pending next = some rs) ∨
  ((row.2.2 < range.1 ∨ range.2 < row.2.1) ∧
    utf8d[256 + state * 16 + row.1]? = some utf8Reject)

instance (state : Nat) (range : Nat × Nat) (rs : List (Nat × Nat)) (row : Nat × (Nat × Nat)) :
    Decidable (Proceeds state range rs row) :=
  inferInstanceAs (Decidable (_ ∨ _))

theorem proceeds_of_pending {state : Nat} {range : Nat × Nat} {rs : List (Nat × Nat)}
    (h : pending state = some (range :: rs)) : ∀ row ∈ types, Proceeds state range rs row := by
  unfold pending at h
  split at h
  all_goals cases h
  all_goals decide +kernel

/-- The ranges are ranges of continuation bytes, and at most three. -/
theorem pending_bounds {state : Nat} {rs : List (Nat × Nat)} (h : pending state = some rs) :
    (∀ range ∈ rs, 0x80 ≤ range.1 ∧ range.2 ≤ 0xBF) ∧ rs.length ≤ 3 := by
  unfold pending at h
  split at h
  all_goals cases h
  all_goals decide

theorem reject_of_pending {state : Nat} {rs : List (Nat × Nat)} (h : pending state = some rs) :
    state ≠ utf8Reject := by
  rintro rfl
  cases h

theorem accept_iff_of_pending {state : Nat} {rs : List (Nat × Nat)} (h : pending state = some rs) :
    state = utf8Accept ↔ rs = [] := by
  unfold pending at h
  split at h
  all_goals cases h
  all_goals decide

/-- A code point of several bytes, as far as it is read: it fits, and it will not be ASCII. -/
def Building (codepoint : Nat) (rs : List (Nat × Nat)) : Prop :=
  codepoint < 64 ^ (4 - rs.length) ∧
    match rs with
    | [] => 0x80 ≤ codepoint
    | [_] => 2 ≤ codepoint
    | range :: _ :: _ => 1 ≤ codepoint ∨ 0x82 ≤ range.1

instance : (codepoint : Nat) → (rs : List (Nat × Nat)) → Decidable (Building codepoint rs)
  | _, [] | _, [_] | _, _ :: _ :: _ => inferInstanceAs (Decidable (_ ∧ _))

theorem Building.next {codepoint : Nat} {range : Nat × Nat} {rs : List (Nat × Nat)} {b : UInt8}
    (h : Building codepoint (range :: rs)) (hlen : rs.length ≤ 2) (hhi : range.2 ≤ 0xBF)
    (hb : Within b range) :
    Building (codepoint * 64 + b.toNat % 64) rs := by
  obtain ⟨hlt, hlow⟩ := h
  obtain ⟨hb₁, hb₂⟩ := hb
  have hpow : 64 ^ (4 - rs.length) = 64 ^ (4 - (range :: rs).length) * 64 := by
    rw [← Nat.pow_succ, List.length_cons]
    congr 1
    omega
  refine ⟨by omega, ?_⟩
  match rs, hlow with
  | [], hlow => exact (by omega : 0x80 ≤ codepoint * 64 + b.toNat % 64)
  | [_], hlow => exact (by omega : 2 ≤ codepoint * 64 + b.toNat % 64)
  | _ :: _ :: _, hlow => exact Or.inl (by omega)

/-! ### One byte -/

variable {state : Nat} {codep : UInt32} {range : Nat × Nat} {rs : List (Nat × Nat)} {b : UInt8}

/-- Inside an encoding. -/
theorem decode_inside (h : pending state = some (range :: rs)) (hcp : codep.toNat < 2 ^ 26)
    (b : UInt8) :
    (Within b range ∧ ∃ next codep', decode state codep b = some (next, codep') ∧
        pending next = some rs ∧ codep'.toNat = codep.toNat * 64 + b.toNat % 64) ∨
      (¬Within b range ∧ ∃ codep', decode state codep b = some (utf8Reject, codep')) := by
  obtain ⟨row, hmem, hb, htype⟩ := exists_type b
  have hne : state ≠ utf8Accept := fun heq => by
    cases (accept_iff_of_pending h).mp heq
  have hdecode : ∀ next, utf8d[256 + state * 16 + row.1]? = some next →
      decode state codep b = some (next, (codep <<< 6) ||| (b &&& 0x3F).toUInt32) := by
    intro next hnext
    rw [decode, htype, UInt32.or_comm]
    simp only [Option.bind_eq_bind, Option.bind_some, hnext, if_pos hne]
    rfl
  rcases proceeds_of_pending h row hmem with ⟨hlo, hhi, next, -, hnext, hpending⟩ | ⟨hout, hnext⟩
  · exact Or.inl ⟨⟨hlo.trans hb.1, hb.2.trans hhi⟩, next, _, hdecode next hnext, hpending,
      toNat_shift_or b hcp⟩
  · refine Or.inr ⟨fun hin => ?_, _, hdecode _ hnext⟩
    obtain ⟨hb₁, hb₂⟩ := hb
    obtain ⟨hin₁, hin₂⟩ := hin
    omega

/-- Between two encodings. -/
theorem decode_first (codep : UInt32) (b : UInt8) :
    (follow b = none ∧ ∃ codep', decode utf8Accept codep b = some (utf8Reject, codep')) ∨
      ∃ rs next codep', follow b = some rs ∧ decode utf8Accept codep b = some (next, codep') ∧
        pending next = some rs ∧
          if rs = [] then codep' = b.toUInt32 else Building codep'.toNat rs := by
  -- the code point read before is of no account, so that there are only the bytes to try
  have hsame : decode utf8Accept codep b = decode utf8Accept 0 b := rfl
  have htry : ∀ b : UInt8, ∃ p ∈ (decode utf8Accept 0 b).toList, pending p.1 = follow b ∧
      if follow b = none then p.1 = utf8Reject
      else if follow b = some [] then p.2 = b.toUInt32
      else Building p.2.toNat ((follow b).getD []) :=
    forall_byte (by decide +kernel)
  obtain ⟨⟨next, codep'⟩, hmem, hpending, hcase⟩ := htry b
  rw [Option.mem_toList, ← hsame] at hmem
  cases hb : follow b with
  | none =>
    rw [if_pos hb] at hcase
    obtain rfl : next = utf8Reject := hcase
    exact Or.inl ⟨rfl, codep', hmem⟩
  | some rs =>
    rw [hb] at hpending
    refine Or.inr ⟨rs, next, codep', rfl, hmem, hpending, ?_⟩
    rw [hb, if_neg (Option.some_ne_none rs)] at hcase
    by_cases hrs : rs = []
    · rw [if_pos (congrArg some hrs)] at hcase
      rwa [if_pos hrs]
    · rw [if_neg fun heq => hrs (Option.some.inj heq)] at hcase
      rwa [if_neg hrs]

/-! ### The whole text -/

/-- A byte that is a code point, escaped. -/
def escapeByte (b : UInt8) : Text := (escape b.toUInt32 b).1

/-- A text, escaped byte by byte. -/
def escaped (s : Text) : Text := s.flatMap escapeByte

/-- Only ASCII is escaped. -/
theorem escape_of_le {codepoint : UInt32} (h : 0x80 ≤ codepoint.toNat) (b : UInt8) :
    escape codepoint b = ([b], 1) := by
  have hne : ∀ n : UInt32, n.toNat < 0x80 → codepoint ≠ n := by
    rintro n hn rfl
    omega
  have hle : ¬codepoint ≤ 0x1F := by
    rw [UInt32.le_iff_toNat_le]
    exact Nat.not_le.mpr (Nat.lt_of_lt_of_le (by decide) h)
  rw [escape, if_neg (hne _ (by decide)), if_neg (hne _ (by decide)), if_neg (hne _ (by decide)),
    if_neg (hne _ (by decide)), if_neg (hne _ (by decide)), if_neg (hne _ (by decide)),
    if_neg (hne _ (by decide)), if_neg hle]

theorem escapeByte_of_le {b : UInt8} (h : 0x80 ≤ b.toNat) : escapeByte b = [b] := by
  rw [escapeByte, escape_of_le]
  rwa [UInt8.toNat_toUInt32]

theorem escape_room (codepoint : UInt32) (b : UInt8) :
    (escape codepoint b).1.length ≤ (escape codepoint b).2 ∧ (escape codepoint b).2 ≤ 7 := by
  unfold escape
  split_ifs <;> simp [bytes, hex4]

namespace Escaper

/-- What has come out so far. -/
def out (e : Escaper) : Text := e.written ++ e.buffer

/-- The state of the loop when `rs` is still to come: there is room in the buffer for that, and
for an escape behind it. -/
structure Fit (e : Escaper) (rs : List (Nat × Nat)) : Prop where
  pending : Json.pending e.state = some rs
  building : rs ≠ [] → Building e.codepoint.toNat rs
  room : e.buffer.length + rs.length ≤ 503
  spare : rs = [] → e.buffer.length ≤ 499

theorem out_spill (e : Escaper) : e.spill.out = e.out := by
  unfold spill
  split_ifs <;> simp [out]

theorem state_spill (e : Escaper) : e.spill.state = e.state := by
  unfold spill
  split_ifs <;> rfl

theorem length_spill (e : Escaper) : e.spill.buffer.length ≤ 499 := by
  unfold spill kStringBuffer
  split_ifs
  · exact Nat.zero_le _
  · omega

end Escaper

section Byte

variable {e : Escaper} {i next : Nat}

/-- A code point is complete. -/
theorem dumpByte_accept (h : decode e.state e.codepoint b = some (utf8Accept, codep))
    (hroom : e.buffer.length ≤ 505) (hescape : (escape codep b).1 = escapeByte b) :
    ∃ e', dumpByte i b e = some (.ok e') ∧ e'.Fit [] ∧ e'.out = e.out ++ escapeByte b := by
  have hfits : e.buffer.length + (escape codep b).2 ≤ kStringBuffer := by
    have hle := (escape_room codep b).2
    rw [kStringBuffer]
    omega
  rw [dumpByte, h]
  dsimp only
  rw [if_pos rfl, if_pos hfits]
  refine ⟨_, rfl, ⟨?_, fun hne => absurd rfl hne, ?_, fun _ => Escaper.length_spill _⟩, ?_⟩
  · rw [Escaper.state_spill]
    rfl
  · exact (Escaper.length_spill _).trans (by decide)
  · rw [Escaper.out_spill, Escaper.out, Escaper.out, hescape, List.append_assoc]

theorem dumpByte_reject (h : decode e.state e.codepoint b = some (utf8Reject, codep)) :
    ∃ what, dumpByte i b e = some (.error what) := by
  rw [dumpByte, h]
  exact ⟨_, rfl⟩

/-- The code point goes on. -/
theorem dumpByte_inside (h : decode e.state e.codepoint b = some (next, codep))
    (hpending : pending next = some rs) (hne : rs ≠ []) (hbuild : Building codep.toNat rs)
    (hroom : e.buffer.length + 1 + rs.length ≤ 503) :
    ∃ e', dumpByte i b e = some (.ok e') ∧ e'.Fit rs ∧ e'.out = e.out ++ [b] := by
  have haccept : next ≠ utf8Accept := fun heq => hne ((accept_iff_of_pending hpending).mp heq)
  have hfits : e.buffer.length < kStringBuffer := by
    rw [kStringBuffer]
    omega
  rw [dumpByte, h]
  dsimp only
  rw [if_neg haccept, if_neg (reject_of_pending hpending), if_pos hfits]
  refine ⟨_, rfl, ⟨hpending, fun _ => hbuild, ?_, fun hnil => absurd hnil hne⟩, ?_⟩
  · simpa using hroom
  · rw [Escaper.out, Escaper.out, List.append_assoc]

/-- **One round of the loop.** -/
theorem dumpByte_spec (h : e.Fit rs) (i : Nat) (b : UInt8) :
    (∃ rs' e', Utf8.next rs b = some rs' ∧ dumpByte i b e = some (.ok e') ∧ e'.Fit rs' ∧
        e'.out = e.out ++ escapeByte b) ∨
      (Utf8.next rs b = none ∧ ∃ what, dumpByte i b e = some (.error what)) := by
  cases rs with
  | nil =>
    have hstate := (accept_iff_of_pending h.pending).mpr rfl
    have hspare := h.spare rfl
    rcases decode_first e.codepoint b with ⟨hb, codep, hdecode⟩ |
      ⟨rs, next, codep, hb, hdecode, hpending, hcode⟩ <;> rw [← hstate] at hdecode
    · exact Or.inr ⟨hb, dumpByte_reject hdecode⟩
    · refine Or.inl ⟨rs, ?_⟩
      by_cases hrs : rs = []
      · rw [if_pos hrs] at hcode
        subst hcode hrs
        rw [(accept_iff_of_pending hpending).mpr rfl] at hdecode
        obtain ⟨e', hdump, hfit, hout⟩ := dumpByte_accept (i := i) hdecode (by omega) rfl
        exact ⟨e', hb, hdump, hfit, hout⟩
      · rw [if_neg hrs] at hcode
        have hlen := (pending_bounds hpending).2
        have hhigh : 0x80 ≤ b.toNat := by
          by_contra hlow
          rw [follow, if_pos (Nat.lt_of_not_le hlow)] at hb
          exact hrs (Option.some.inj hb).symm
        obtain ⟨e', hdump, hfit, hout⟩ :=
          dumpByte_inside (i := i) hdecode hpending hrs hcode (by omega)
        rw [← escapeByte_of_le hhigh] at hout
        exact ⟨e', hb, hdump, hfit, hout⟩
  | cons range rs =>
    obtain ⟨hranges, hlen⟩ := pending_bounds h.pending
    obtain ⟨hlo, hhi⟩ := hranges range List.mem_cons_self
    have hbuild := h.building (List.cons_ne_nil _ _)
    have hroom := h.room
    rw [List.length_cons] at hlen hroom
    have hsmall : e.codepoint.toNat < 2 ^ 26 := by
      refine Nat.lt_of_lt_of_le hbuild.1 (Nat.le_trans (Nat.pow_le_pow_right (by decide) ?_)
        (show 64 ^ 3 ≤ 2 ^ 26 by decide))
      rw [List.length_cons]
      omega
    rcases decode_inside h.pending hsmall b with ⟨hb, next, codep, hdecode, hpending, hcode⟩ |
      ⟨hb, codep, hdecode⟩
    · refine Or.inl ⟨rs, ?_⟩
      have hnext := hbuild.next (by omega) hhi hb
      rw [← hcode] at hnext
      have hcopy := escapeByte_of_le (hlo.trans hb.1)
      by_cases hrs : rs = []
      · subst hrs
        rw [(accept_iff_of_pending hpending).mpr rfl] at hdecode
        obtain ⟨e', hdump, hfit, hout⟩ := dumpByte_accept (i := i) hdecode (by omega)
          (by rw [escape_of_le hnext.2, hcopy])
        exact ⟨e', if_pos hb, hdump, hfit, hout⟩
      · obtain ⟨e', hdump, hfit, hout⟩ :=
          dumpByte_inside (i := i) hdecode hpending hrs hnext (by omega)
        rw [← hcopy] at hout
        exact ⟨e', if_pos hb, hdump, hfit, hout⟩
    · exact Or.inr ⟨if_neg hb, dumpByte_reject hdecode⟩

end Byte

/-- **The loop**: it runs as the scan of the table does. -/
theorem dumpBytes_spec {s rest : Text} {e : Escaper} (h : e.Fit rs) (hs : rs ≠ [] → s ≠ [])
    (hrest : rest ≠ [] → s ≠ []) (i : Nat) :
    if scan rs rest = true then dumpBytes s i rest e = some (.ok (e.out ++ escaped rest))
    else ∃ what, dumpBytes s i rest e = some (.error what) := by
  induction rest generalizing i e rs with
  | nil =>
    have hstate := accept_iff_of_pending h.pending
    rw [scan, dumpBytes]
    by_cases hrs : rs = []
    · rw [if_pos (List.isEmpty_iff.mpr hrs), if_pos (hstate.mpr hrs), escaped, List.flatMap_nil,
        List.append_nil]
      rfl
    · rw [if_neg (List.isEmpty_iff.not.mpr hrs), if_neg (hstate.not.mpr hrs),
        List.getLast?_eq_getLast_of_ne_nil (hs hrs)]
      exact ⟨_, rfl⟩
  | cons b rest ih =>
    have hne := hrest (List.cons_ne_nil _ _)
    rw [scan, dumpBytes]
    rcases dumpByte_spec h i b with ⟨rs', e', hnext, hdump, hfit, hout⟩ | ⟨hnext, what, hdump⟩
    · rw [hnext, hdump]
      have hloop := ih hfit (fun _ => hne) (fun _ => hne) (i + 1)
      rwa [hout, List.append_assoc] at hloop
    · rw [hnext, hdump]
      exact ⟨what, rfl⟩

theorem fit_start : Escaper.Fit {} [] where
  pending := rfl
  building hne := absurd rfl hne
  room := by decide
  spare _ := by decide

/-- A well-formed text is written, with its bytes escaped. -/
theorem dumpEscaped_of_wellFormed {s : Text} (h : WellFormed s) :
    dumpEscaped s = some (.ok (escaped s)) := by
  have hspec := dumpBytes_spec fit_start (fun hne => absurd rfl hne) (id : s ≠ [] → s ≠ []) 0
  rw [if_pos (scan_nil_iff.mpr h)] at hspec
  exact hspec

/-- Any other text is not. -/
theorem dumpEscaped_of_not {s : Text} (h : ¬WellFormed s) :
    ∃ what, dumpEscaped s = some (.error what) := by
  have hspec := dumpBytes_spec fit_start (fun hne => absurd rfl hne) (id : s ≠ [] → s ≠ []) 0
  rwa [if_neg (scan_nil_iff.not.mpr h)] at hspec

end Json

end PlayerTrace
