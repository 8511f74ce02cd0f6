import PlayerTrace.Json.Reading

/-!
# `parser::sax_parse` and `parser::accept`

The parser of `src/third_party/nlohmann/nlohmann/json.hpp`, which is a loop over the tokens with a
stack of the arrays and objects it is inside of, and calls a handler for what it reads. It reads a
value, token by token, and then evaluates the top of the stack; reading and evaluating are the two
phases of a pass (`PlayerTrace.Json.Phase`).

Every pass that does not end the loop takes bytes, or has come to the end of the input
(`PlayerTrace.Json.size_parsePass`), so the loop ends (`PlayerTrace.Json.parseLoop`).
-/

namespace PlayerTrace

namespace Json

open Loop

/-! ### The parser -/

/-- The calls of a SAX handler; the methods for values without members are one. -/
inductive Callback
  | atom (value : Atom)
  | startObject
  | key (key : Text)
  | endObject
  | startArray
  | endArray
  deriving DecidableEq, Repr

/-- A SAX handler. A call that has no value has returned `false`. -/
structure Handler (σ : Type) where
  call : Callback → σ → Option σ

/-- Where a pass begins: with a token that begins a value, or, when `skip_to_state_evaluation` is
set, behind a value. -/
inductive Phase
  | value (token : Token)
  | evaluate
  deriving DecidableEq, Repr

/-- The local state of `sax_parse_internal`. -/
structure Parsing (σ : Type) where
  /-- The arrays (`true`) and objects (`false`) that are being parsed. -/
  states : List Bool
  phase : Phase
  rest : Text
  sax : σ

/-- The atom of a token. -/
def Token.atom : Token → Option Atom
  | .literalNull => some .null
  | .literalTrue => some (.boolean true)
  | .literalFalse => some (.boolean false)
  | .valueInteger value => some (.integer value)
  | .valueFloat value => some (.number value)
  | .valueString value => some (.string value)
  | _ => none

/-- A number that is finite. -/
def Atom.finite : Atom → Bool
  | .number value => value.isFinite
  | .null | .boolean _ | .integer _ | .string _ => true

section Parser

variable {σ : Type} (F : Floats) (H : Handler σ)

/-- The result of a pass: `none` stands for `return false`. -/
abbrev Pass (σ : Type) := Round (Parsing σ) (Option (Text × σ))

/-- A call, and what is done if it returns `true`. -/
def calling (c : Callback) (sax : σ) (next : σ → Pass σ) : Pass σ :=
  match H.call c sax with
  | none => .done none
  | some sax => next sax

/-- A value behind what has been read. -/
def nextValue (states : List Bool) (rest : Text) (sax : σ) : Pass σ :=
  .again ⟨states, .value (scan F rest).1, (scan F rest).2, sax⟩

/-- A key, which has been read, and the separator behind it. -/
def parseKey (states : List Bool) (token : Token) (rest : Text) (sax : σ) : Pass σ :=
  match token with
  | .valueString key =>
    calling H (.key key) sax fun sax =>
      match scan F rest with
      | (.nameSeparator, rest) => nextValue F states rest sax
      | _ => .done none
  | _ => .done none

/-- The evaluation of the stack, behind a value. -/
def evaluate (states : List Bool) (rest : Text) (sax : σ) : Pass σ :=
  match states with
  | [] => .done (some (rest, sax))
  | true :: outer =>
    match scan F rest with
    | (.valueSeparator, rest) => nextValue F states rest sax
    | (.endArray, rest) =>
      calling H .endArray sax fun sax => .again ⟨outer, .evaluate, rest, sax⟩
    | _ => .done none
  | false :: outer =>
    match scan F rest with
    | (.valueSeparator, rest) => parseKey F H states (scan F rest).1 (scan F rest).2 sax
    | (.endObject, rest) =>
      calling H .endObject sax fun sax => .again ⟨outer, .evaluate, rest, sax⟩
    | _ => .done none

/-- The `switch` over the token that begins a value. -/
def parseValue (states : List Bool) (token : Token) (rest : Text) (sax : σ) : Pass σ :=
  match token with
  | .beginObject =>
    calling H .startObject sax fun sax =>
      if (scan F rest).1 = .endObject then
        calling H .endObject sax fun sax => evaluate F H states (scan F rest).2 sax
      else parseKey F H (false :: states) (scan F rest).1 (scan F rest).2 sax
  | .beginArray =>
    calling H .startArray sax fun sax =>
      if (scan F rest).1 = .endArray then
        calling H .endArray sax fun sax => evaluate F H states (scan F rest).2 sax
      else nextValue F (true :: states) rest sax
  | _ =>
    match token.atom with
    | some a =>
      if a.finite then calling H (.atom a) sax fun sax => evaluate F H states rest sax
      else .done none
    | none => .done none

/-- A pass of the loop. -/
def parsePass (p : Parsing σ) : Pass σ :=
  match p.phase with
  | .value token => parseValue F H p.states token p.rest p.sax
  | .evaluate => evaluate F H p.states p.rest p.sax

/-! ### The loop ends -/

/-- Twice the bytes that are left, and one if there may be more to read. -/
def Parsing.size (p : Parsing σ) : Nat :=
  2 * p.rest.length + if p.phase = .value .endOfInput then 0 else 1

variable {F H} {states outer : List Bool} {rest rest' : Text} {sax : σ} {p' : Parsing σ}
  {token : Token}

theorem again_of_calling {c : Callback} {next : σ → Pass σ} (h : calling H c sax next = .again p') :
    ∃ sax', H.call c sax = some sax' ∧ next sax' = .again p' := by
  unfold calling at h
  split at h
  · cases h
  · rename_i sax' hcall
    exact ⟨sax', hcall, h⟩

theorem scan_lt_of_ne (h : scan F rest = (token, rest')) (hne : token ≠ .endOfInput) :
    rest'.length < rest.length := by
  rcases scan_lt (F := F) rest with hlt | heq
  · rwa [h] at hlt
  · rw [h] at heq
    exact absurd (Prod.mk.inj heq).1 hne

theorem scan_le (rest : Text) : (scan F rest).2.length ≤ rest.length := by
  rcases scan_lt (F := F) rest with hlt | heq
  · exact Nat.le_of_lt hlt
  · rw [heq]
    exact Nat.zero_le _

theorem size_nextValue (h : nextValue F states rest sax = .again p') :
    p'.size < 2 * rest.length + 1 := by
  cases h
  rw [Parsing.size]
  rcases scan_lt (F := F) rest with hlt | heq
  · dsimp only
    split_ifs <;> omega
  · rw [heq, if_pos rfl]
    exact Nat.succ_pos _

theorem size_parseKey (h : parseKey F H states token rest sax = .again p') :
    p'.size < 2 * rest.length + 1 := by
  unfold parseKey at h
  split at h
  · obtain ⟨sax', -, h⟩ := again_of_calling h
    split at h
    · rename_i rest' hscan
      have hlt := scan_lt_of_ne hscan (by decide)
      have hsize := size_nextValue h
      omega
    · cases h
  · cases h

theorem size_evaluate (h : evaluate F H states rest sax = .again p') :
    p'.size < 2 * rest.length + 1 := by
  have hclosed : ∀ {outer : List Bool} {rest' : Text} {sax' : σ}, rest'.length < rest.length →
      (Parsing.mk outer .evaluate rest' sax').size < 2 * rest.length + 1 := by
    intro outer rest' sax' hlt
    rw [Parsing.size, if_neg (by simp)]
    dsimp only
    omega
  unfold evaluate at h
  split at h
  · cases h
  · split at h
    · rename_i rest' hscan
      have hlt := scan_lt_of_ne hscan (by decide)
      have hsize := size_nextValue h
      omega
    · rename_i rest' hscan
      obtain ⟨sax', -, h⟩ := again_of_calling h
      cases h
      exact hclosed (scan_lt_of_ne hscan (by decide))
    · cases h
  · split at h
    · rename_i rest' hscan
      have hlt := scan_lt_of_ne hscan (by decide)
      have hle := scan_le (F := F) rest'
      have hsize := size_parseKey h
      omega
    · rename_i rest' hscan
      obtain ⟨sax', -, h⟩ := again_of_calling h
      cases h
      exact hclosed (scan_lt_of_ne hscan (by decide))
    · cases h

theorem size_parseValue (h : parseValue F H states token rest sax = .again p') :
    p'.size < 2 * rest.length + 1 := by
  have hle := scan_le (F := F) rest
  unfold parseValue at h
  split at h
  · obtain ⟨sax', -, h⟩ := again_of_calling h
    split_ifs at h
    · obtain ⟨sax'', -, h⟩ := again_of_calling h
      have hsize := size_evaluate h
      omega
    · have hsize := size_parseKey h
      omega
  · obtain ⟨sax', -, h⟩ := again_of_calling h
    split_ifs at h
    · obtain ⟨sax'', -, h⟩ := again_of_calling h
      have hsize := size_evaluate h
      omega
    · exact size_nextValue h
  · split at h
    · split_ifs at h
      obtain ⟨sax', -, h⟩ := again_of_calling h
      exact size_evaluate h
    · cases h

theorem size_parsePass {p : Parsing σ} (h : parsePass F H p = .again p') : p'.size < p.size := by
  unfold parsePass at h
  rw [Parsing.size.eq_def p]
  split at h
  · rename_i token hphase
    have hne : p.phase ≠ .value .endOfInput := by
      rw [hphase]
      rintro heq
      cases heq
      cases h
    rw [if_neg hne]
    exact size_parseValue h
  · rename_i hphase
    rw [if_neg (by rw [hphase]; decide)]
    exact size_evaluate h

variable (F H)

/-- The loop of `sax_parse_internal`. -/
def parseLoop : Ending (Parsing σ) (Option (Text × σ)) where
  pass := parsePass F H
  size := Parsing.size
  size_lt := size_parsePass

/-- `sax_parse`, in strict mode: what the handler has come to, unless `false` is returned. -/
def saxParse (input : Text) (sax : σ) : Option σ :=
  match (parseLoop F H).result ⟨[], .value (scanFirst F input).1, (scanFirst F input).2, sax⟩ with
  | none => none
  | some (rest, sax) => if (scan F rest).1 = .endOfInput then some sax else none

end Parser

/-- `json_sax_acceptor`. -/
def acceptor : Handler Unit := ⟨fun _ sax => some sax⟩

/-- `accept`. -/
def accept (F : Floats) (input : Text) : Bool := (saxParse F acceptor input ()).isSome

end Json

end PlayerTrace
