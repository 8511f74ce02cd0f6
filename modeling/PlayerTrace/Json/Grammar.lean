import PlayerTrace.Json.Parser

/-!
# What the parser accepts

A value has its tokens and its calls. Parsing the tokens of a value is making its calls, whatever
the handler is (`PlayerTrace.Json.parse_value`); and if the parser gets through, what it has read
are the tokens of a value (`PlayerTrace.Json.through`). The first is an induction over the value,
and the second one over what is left to read.

So `accept`, whose handler agrees to everything, accepts just the texts that are the tokens of a
value with the end of the input behind them (`PlayerTrace.Json.accept_iff_reads`).
-/

namespace PlayerTrace

namespace Json

open Loop

/-! ### The calls of a value -/

/-- The calls of a value. -/
def Value.calls : Value → List Callback :=
  Value.fold (fun a => [.atom a]) (fun css => .startArray :: (css.flatten ++ [.endArray])) fun ms =>
    .startObject :: (ms.flatMap (fun m => .key m.1 :: m.2) ++ [.endObject])

theorem Value.calls_array (elements : List Value) : (Value.array elements).calls =
    .startArray :: (elements.flatMap Value.calls ++ [.endArray]) := by
  rw [Value.calls, Value.fold_array, ← List.flatMap_def]

theorem Value.calls_object (members : List (Text × Value)) : (Value.object members).calls =
    .startObject :: (members.flatMap (fun m => .key m.1 :: m.2.calls) ++ [.endObject]) := by
  rw [Value.calls, Value.fold_object, List.flatMap_map]

/-- Every number in the value is finite. -/
def Value.Finite (v : Value) : Prop := ∀ a ∈ v.atoms, a.finite = true

section Feed

variable {σ : Type} (H : Handler σ)

/-- Calls made one after the other, as long as they return `true`. -/
def feed : List Callback → σ → Option σ
  | [], sax => some sax
  | c :: cs, sax => (H.call c sax).bind (feed cs)

theorem feed_singleton (c : Callback) (sax : σ) : feed H [c] sax = H.call c sax :=
  Option.bind_fun_some _

theorem feed_append (cs ds : List Callback) (sax : σ) :
    feed H (cs ++ ds) sax = (feed H cs sax).bind (feed H ds) := by
  induction cs generalizing sax with
  | nil => rfl
  | cons c cs ih =>
    rw [List.cons_append, feed, feed, Option.bind_assoc]
    exact congrArg _ (funext ih)

end Feed

/-! ### Tokens in turn -/

section Lexes

variable {F : Floats} {input rest : Text} {ts us : List Token}

theorem lexes_cons {token : Token} : Lexes F input (token :: ts) rest ↔
    ∃ mid, scan F input = (token, mid) ∧ Lexes F mid ts rest := by
  constructor
  · intro h
    cases h with
    | cons hscan hmid => exact ⟨_, hscan, hmid⟩
  · rintro ⟨mid, hscan, hmid⟩
    exact .cons hscan hmid

theorem lexes_nil : Lexes F input [] rest ↔ input = rest := by
  constructor
  · intro h
    cases h
    rfl
  · rintro rfl
    exact .nil

theorem lexes_append : Lexes F input (ts ++ us) rest ↔
    ∃ mid, Lexes F input ts mid ∧ Lexes F mid us rest := by
  constructor
  · intro h
    induction ts generalizing input with
    | nil => exact ⟨input, .nil, h⟩
    | cons t ts ih =>
      obtain ⟨mid, hscan, hmid⟩ := lexes_cons.mp h
      obtain ⟨mid', hts, hus⟩ := ih hmid
      exact ⟨mid', .cons hscan hts, hus⟩
  · rintro ⟨mid, hts, hus⟩
    exact hts.append hus

theorem Lexes.length_le (h : Lexes F input ts rest) : rest.length ≤ input.length := by
  induction h with
  | nil => exact Nat.le_refl _
  | @cons input mid rest token tokens hscan _ ih =>
    have hle := scan_le (F := F) input
    rw [hscan] at hle
    exact ih.trans hle

/-- Sequences of tokens, each behind a comma. -/
def trailing (tss : List (List Token)) : List Token := tss.flatMap (.valueSeparator :: ·)

theorem trailing_cons (ts : List Token) (tss : List (List Token)) :
    trailing (ts :: tss) = .valueSeparator :: (ts ++ trailing tss) := rfl

theorem separated_eq (ts : List Token) (tss : List (List Token)) :
    separated (ts :: tss) = ts ++ trailing tss := by
  induction tss generalizing ts with
  | nil => exact (separated_singleton ts).trans (List.append_nil ts).symm
  | cons us tss ih =>
    rw [separated_cons, ih, trailing_cons]

/-- A value begins with a bracket or with an atom. -/
theorem Value.tokens_eq_cons (v : Value) :
    ∃ token us, v.tokens = token :: us ∧ token ≠ .endArray ∧ token ≠ .parseError := by
  cases v with
  | atom a =>
    refine ⟨a.token, [], rfl, ?_, ?_⟩ <;>
      rcases a with _ | (_ | _) | _ | _ | _ <;> exact Token.noConfusion
  | array elements =>
    exact ⟨_, _, Value.tokens_array elements, Token.noConfusion, Token.noConfusion⟩
  | object members =>
    exact ⟨_, _, Value.tokens_object members, Token.noConfusion, Token.noConfusion⟩

end Lexes

/-! ### Parsing is making the calls -/

section Parse

variable {σ : Type} (F : Floats) (H : Handler σ)

/-- What comes of the loop from a token that begins a value on. -/
def fromValue (states : List Bool) (token : Token) (rest : Text) (sax : σ) : Option (Text × σ) :=
  (parseLoop F H).result ⟨states, .value token, rest, sax⟩

/-- What comes of the loop behind a value. -/
def behind (states : List Bool) (rest : Text) (sax : σ) : Option (Text × σ) :=
  (parseLoop F H).result ⟨states, .evaluate, rest, sax⟩

variable {F H} {states : List Bool} {token : Token} {rest rest' mid : Text} {sax : σ}

theorem fromValue_eq : fromValue F H states token rest sax =
    (parseLoop F H).outcome (parseValue F H states token rest sax) :=
  (parseLoop F H).result_eq _

theorem behind_eq : behind F H states rest sax =
    (parseLoop F H).outcome (evaluate F H states rest sax) :=
  (parseLoop F H).result_eq _

theorem outcome_calling {c : Callback} {next : σ → Pass σ} :
    (parseLoop F H).outcome (calling H c sax next) =
      (H.call c sax).bind fun sax => (parseLoop F H).outcome (next sax) := by
  unfold calling
  cases H.call c sax with
  | none => rfl
  | some sax => rfl

theorem outcome_nextValue (h : scan F rest = (token, mid)) :
    (parseLoop F H).outcome (nextValue F states rest sax) =
      fromValue F H states token mid sax := by
  rw [nextValue, h]
  rfl

theorem Token.eq_token {a : Atom} (h : token.atom = some a) : token = a.token := by
  cases token with
  | literalTrue | literalFalse | literalNull | valueString | valueInteger | valueFloat =>
    obtain rfl := Option.some.inj h
    rfl
  | _ => cases h

/-- **Parsing a value**: the calls of `v` are made, and the loop goes on behind it. -/
def Parses (F : Floats) (H : Handler σ) (v : Value) : Prop :=
  ∀ ⦃states : List Bool⦄ ⦃token : Token⦄ ⦃us : List Token⦄ ⦃rest rest' : Text⦄ ⦃sax : σ⦄,
    v.tokens = token :: us → Lexes F rest us rest' →
      fromValue F H states token rest sax =
        (feed H v.calls sax).bind fun sax => behind F H states rest' sax

theorem parseValue_atom (a : Atom) : parseValue F H states a.token rest sax =
    if a.finite then calling H (.atom a) sax fun sax => evaluate F H states rest sax
    else .done none := by
  rcases a with _ | (_ | _) | _ | _ | _ <;> rfl

theorem parses_atom {a : Atom} (h : a.finite = true) : Parses F H (.atom a) := by
  intro states token us rest rest' sax htokens hlex
  obtain ⟨rfl, rfl⟩ := List.cons.inj htokens
  obtain rfl := lexes_nil.mp hlex
  have hcalls : (Value.atom a).calls = [.atom a] := rfl
  rw [fromValue_eq, parseValue_atom, if_pos h, outcome_calling, hcalls, feed, Option.bind_assoc]
  refine congrArg _ (funext fun sax => ?_)
  rw [← behind_eq]
  rfl

/-- The elements behind the first one, and the bracket. -/
theorem behind_elements {vs : List Value} (h : ∀ v ∈ vs, Parses F H v)
    (hlex : Lexes F rest (trailing (vs.map Value.tokens) ++ [.endArray]) rest') :
    behind F H (true :: states) rest sax =
      (feed H (vs.flatMap Value.calls ++ [.endArray]) sax).bind fun sax =>
        behind F H states rest' sax := by
  induction vs generalizing rest sax with
  | nil =>
    obtain ⟨mid, hscan, hnil⟩ := lexes_cons.mp hlex
    obtain rfl := lexes_nil.mp hnil
    rw [behind_eq, evaluate, hscan]
    dsimp only
    rw [outcome_calling, List.flatMap_nil, List.nil_append, feed, Option.bind_assoc]
    rfl
  | cons v vs ih =>
    obtain ⟨hv, hvs⟩ := List.forall_mem_cons.mp h
    obtain ⟨token, us, htokens, -⟩ := v.tokens_eq_cons
    rw [List.map_cons, trailing_cons, List.cons_append, List.append_assoc, htokens,
      List.cons_append] at hlex
    obtain ⟨mid, hcomma, hlex⟩ := lexes_cons.mp hlex
    obtain ⟨mid', htoken, hlex⟩ := lexes_cons.mp hlex
    obtain ⟨mid'', hus, hlex⟩ := lexes_append.mp hlex
    rw [behind_eq, evaluate, hcomma]
    dsimp only
    rw [outcome_nextValue htoken, hv htokens hus, List.flatMap_cons, List.append_assoc, feed_append,
      Option.bind_assoc]
    exact congrArg _ (funext fun sax => ih hvs hlex)

theorem parses_array {elements : List Value} (h : ∀ v ∈ elements, Parses F H v) :
    Parses F H (.array elements) := by
  intro states token us rest rest' sax htokens hlex
  rw [Value.tokens_array] at htokens
  obtain ⟨rfl, rfl⟩ := List.cons.inj htokens
  rw [fromValue_eq, parseValue, outcome_calling, Value.calls_array, feed, Option.bind_assoc]
  refine congrArg _ (funext fun sax => ?_)
  cases elements with
  | nil =>
    obtain ⟨mid, hscan, hnil⟩ := lexes_cons.mp hlex
    obtain rfl := lexes_nil.mp hnil
    rw [hscan, if_pos rfl, outcome_calling, List.flatMap_nil, List.nil_append, feed,
      Option.bind_assoc]
    refine congrArg _ (funext fun sax => ?_)
    rw [← behind_eq]
    rfl
  | cons v vs =>
    obtain ⟨hv, hvs⟩ := List.forall_mem_cons.mp h
    obtain ⟨token, us, htokens, hne, -⟩ := v.tokens_eq_cons
    rw [List.map_cons, separated_eq, List.append_assoc, htokens, List.cons_append] at hlex
    obtain ⟨mid, htoken, hlex⟩ := lexes_cons.mp hlex
    obtain ⟨mid', hus, hlex⟩ := lexes_append.mp hlex
    have hfirst : (scan F rest).1 ≠ .endArray := by rwa [htoken]
    rw [if_neg hfirst, outcome_nextValue htoken, hv htokens hus, List.flatMap_cons,
      List.append_assoc, feed_append, Option.bind_assoc]
    exact congrArg _ (funext fun sax => behind_elements hvs hlex)

/-- A key, which has been read, and its value. -/
theorem outcome_parseKey {key : Text} {v : Value} (h : Parses F H v)
    (hlex : Lexes F rest (.nameSeparator :: v.tokens) rest') :
    (parseLoop F H).outcome (parseKey F H states (.valueString key) rest sax) =
      (feed H (.key key :: v.calls) sax).bind fun sax => behind F H states rest' sax := by
  obtain ⟨token, us, htokens, -⟩ := v.tokens_eq_cons
  rw [htokens] at hlex
  obtain ⟨mid, hcolon, hlex⟩ := lexes_cons.mp hlex
  obtain ⟨mid', htoken, hus⟩ := lexes_cons.mp hlex
  rw [parseKey, outcome_calling, feed, Option.bind_assoc]
  refine congrArg _ (funext fun sax => ?_)
  rw [hcolon]
  dsimp only
  rw [outcome_nextValue htoken, h htokens hus]

/-- The members behind the first one, and the brace. -/
theorem behind_members {ms : List (Text × Value)} (h : ∀ m ∈ ms, Parses F H m.2)
    (hlex : Lexes F rest (trailing (ms.map fun m => memberTokens (m.1, m.2.tokens)) ++
      [.endObject]) rest') :
    behind F H (false :: states) rest sax =
      (feed H (ms.flatMap (fun m => .key m.1 :: m.2.calls) ++ [.endObject]) sax).bind fun sax =>
        behind F H states rest' sax := by
  induction ms generalizing rest sax with
  | nil =>
    obtain ⟨mid, hscan, hnil⟩ := lexes_cons.mp hlex
    obtain rfl := lexes_nil.mp hnil
    rw [behind_eq, evaluate, hscan]
    dsimp only
    rw [outcome_calling, List.flatMap_nil, List.nil_append, feed, Option.bind_assoc]
    rfl
  | cons m ms ih =>
    obtain ⟨hm, hms⟩ := List.forall_mem_cons.mp h
    rw [List.map_cons, trailing_cons, List.cons_append, List.append_assoc, memberTokens,
      List.cons_append] at hlex
    obtain ⟨mid, hcomma, hlex⟩ := lexes_cons.mp hlex
    obtain ⟨mid', hkey, hlex⟩ := lexes_cons.mp hlex
    obtain ⟨mid'', hmember, hlex⟩ := lexes_append.mp hlex
    rw [behind_eq, evaluate, hcomma]
    dsimp only
    rw [hkey]
    dsimp only
    rw [outcome_parseKey hm hmember, List.flatMap_cons, List.append_assoc, feed_append,
      Option.bind_assoc]
    exact congrArg _ (funext fun sax => ih hms hlex)

theorem parses_object {members : List (Text × Value)} (h : ∀ m ∈ members, Parses F H m.2) :
    Parses F H (.object members) := by
  intro states token us rest rest' sax htokens hlex
  rw [Value.tokens_object] at htokens
  obtain ⟨rfl, rfl⟩ := List.cons.inj htokens
  rw [fromValue_eq, parseValue, outcome_calling, Value.calls_object, feed, Option.bind_assoc]
  refine congrArg _ (funext fun sax => ?_)
  cases members with
  | nil =>
    obtain ⟨mid, hscan, hnil⟩ := lexes_cons.mp hlex
    obtain rfl := lexes_nil.mp hnil
    rw [hscan, if_pos rfl, outcome_calling, List.flatMap_nil, List.nil_append, feed,
      Option.bind_assoc]
    refine congrArg _ (funext fun sax => ?_)
    rw [← behind_eq]
    rfl
  | cons m ms =>
    obtain ⟨hm, hms⟩ := List.forall_mem_cons.mp h
    rw [List.map_cons, separated_eq, List.append_assoc, memberTokens, List.cons_append] at hlex
    obtain ⟨mid, hkey, hlex⟩ := lexes_cons.mp hlex
    obtain ⟨mid', hmember, hlex⟩ := lexes_append.mp hlex
    rw [hkey, if_neg (by simp)]
    dsimp only
    rw [outcome_parseKey hm hmember, List.flatMap_cons, List.append_assoc, feed_append,
      Option.bind_assoc]
    exact congrArg _ (funext fun sax => behind_members hms hlex)

/-- **Parsing the tokens of a value is making its calls.** -/
theorem parse_value {v : Value} (h : v.Finite) : Parses F H v := by
  induction v with
  | atom a => exact parses_atom (h a List.mem_cons_self)
  | array elements ih =>
    have hall := Value.forall_atoms_array.mp h
    exact parses_array fun v hv => ih v hv (hall v hv)
  | object members ih =>
    have hall := (Value.forall_atoms_object (P := fun a => a.finite = true)).mp h
    exact parses_object fun m hm => ih m hm (hall m hm).2

/-! ### Whatever gets through are the tokens of a value -/

/-- What is read if the loop gets through: the tokens of a value, and inside an array or an object
those of the elements or members behind the last one. -/
structure Through (F : Floats) (H : Handler σ) (rest : Text) : Prop where
  value : ∀ {states : List Bool} {token : Token} {sax : σ},
    fromValue F H states token rest sax ≠ none →
      ∃ v us rest', Value.Finite v ∧ v.tokens = token :: us ∧ Lexes F rest us rest'
  elements : ∀ {states : List Bool} {sax : σ}, behind F H (true :: states) rest sax ≠ none →
    ∃ (vs : List Value) (rest' : Text), (∀ v ∈ vs, v.Finite) ∧
      Lexes F rest (trailing (vs.map Value.tokens) ++ [.endArray]) rest'
  members : ∀ {states : List Bool} {sax : σ}, behind F H (false :: states) rest sax ≠ none →
    ∃ (ms : List (Text × Value)) (rest' : Text), (∀ m ∈ ms, m.2.Finite) ∧
      Lexes F rest (trailing (ms.map fun m => memberTokens (m.1, m.2.tokens)) ++ [.endObject])
        rest'

theorem bind_ne_none {α β : Type} {o : Option α} {f : α → Option β} (h : o.bind f ≠ none) :
    ∃ a, o = some a ∧ f a ≠ none := by
  cases o with
  | none => exact absurd rfl h
  | some a => exact ⟨a, rfl, h⟩

theorem fromValue_endOfInput : fromValue F H states .endOfInput rest sax = none := by
  rw [fromValue_eq]
  rfl

theorem through_atom {a : Atom} (ha : token.atom = some a)
    (h : fromValue F H states token rest sax ≠ none) :
    ∃ v us rest', Value.Finite v ∧ v.tokens = token :: us ∧ Lexes F rest us rest' := by
  rw [Token.eq_token ha] at h ⊢
  rw [fromValue_eq, parseValue_atom] at h
  split_ifs at h with hfinite
  · exact ⟨.atom a, [], rest, fun a' ha' => List.mem_singleton.mp ha' ▸ hfinite, rfl, .nil⟩
  · exact absurd rfl h

section Shorter

variable (ih : ∀ r : Text, r.length < rest.length → Through F H r)

include ih

/-- A value is read behind what has been read, and the loop gets through behind it. -/
theorem through_nextValue (h : (parseLoop F H).outcome (nextValue F states rest sax) ≠ none) :
    ∃ v mid sax', Value.Finite v ∧ Lexes F rest v.tokens mid ∧ mid.length < rest.length ∧
      behind F H states mid sax' ≠ none := by
  rw [outcome_nextValue Prod.mk.eta.symm] at h
  rcases scan_lt (F := F) rest with hlt | heq
  · obtain ⟨v, us, mid, hfinite, htokens, hus⟩ := (ih _ hlt).value h
    rw [parse_value hfinite htokens hus] at h
    obtain ⟨sax', -, hbehind⟩ := bind_ne_none h
    refine ⟨v, mid, sax', hfinite, ?_, Nat.lt_of_le_of_lt hus.length_le hlt, hbehind⟩
    rw [htokens]
    exact .cons rfl hus
  · rw [heq] at h
    exact absurd fromValue_endOfInput h

theorem through_parseKey
    (h : (parseLoop F H).outcome (parseKey F H states token rest sax) ≠ none) :
    ∃ key v mid sax', token = .valueString key ∧ Value.Finite v ∧
      Lexes F rest (.nameSeparator :: v.tokens) mid ∧ mid.length < rest.length ∧
      behind F H states mid sax' ≠ none := by
  unfold parseKey at h
  split at h
  · rename_i key
    rw [outcome_calling] at h
    obtain ⟨sax', -, h⟩ := bind_ne_none h
    split at h
    · rename_i mid hcolon
      have hlt := scan_lt_of_ne hcolon Token.noConfusion
      obtain ⟨v, mid', sax'', hfinite, hlex, hlt', hbehind⟩ :=
        through_nextValue (fun r hr => ih r (hr.trans hlt)) h
      exact ⟨key, v, mid', sax'', rfl, hfinite, .cons hcolon hlex, hlt'.trans hlt, hbehind⟩
    · exact absurd rfl h
  · exact absurd rfl h

theorem through_elements (h : behind F H (true :: states) rest sax ≠ none) :
    ∃ (vs : List Value) (rest' : Text), (∀ v ∈ vs, v.Finite) ∧
      Lexes F rest (trailing (vs.map Value.tokens) ++ [.endArray]) rest' := by
  rw [behind_eq, evaluate] at h
  split at h
  · rename_i mid hcomma
    have hlt := scan_lt_of_ne hcomma Token.noConfusion
    obtain ⟨v, mid', sax', hfinite, hlex, hlt', hbehind⟩ :=
      through_nextValue (fun r hr => ih r (hr.trans hlt)) h
    obtain ⟨vs, rest', hvs, htail⟩ := (ih mid' (hlt'.trans hlt)).elements hbehind
    refine ⟨v :: vs, rest', List.forall_mem_cons.mpr ⟨hfinite, hvs⟩, ?_⟩
    rw [List.map_cons, trailing_cons, List.cons_append, List.append_assoc]
    exact .cons hcomma (hlex.append htail)
  · rename_i mid hclose
    exact ⟨[], mid, List.forall_mem_nil _, .cons hclose .nil⟩
  · exact absurd rfl h

theorem through_members (h : behind F H (false :: states) rest sax ≠ none) :
    ∃ (ms : List (Text × Value)) (rest' : Text), (∀ m ∈ ms, m.2.Finite) ∧
      Lexes F rest (trailing (ms.map fun m => memberTokens (m.1, m.2.tokens)) ++ [.endObject])
        rest' := by
  rw [behind_eq, evaluate] at h
  split at h
  · rename_i mid hcomma
    have hlt := scan_lt_of_ne hcomma Token.noConfusion
    have hle := (scan_le (F := F) mid).trans_lt hlt
    obtain ⟨key, v, mid', sax', hkey, hfinite, hlex, hlt', hbehind⟩ :=
      through_parseKey (fun r hr => ih r (hr.trans hle)) h
    obtain ⟨ms, rest', hms, htail⟩ := (ih mid' (hlt'.trans hle)).members hbehind
    refine ⟨(key, v) :: ms, rest', List.forall_mem_cons.mpr ⟨hfinite, hms⟩, ?_⟩
    rw [List.map_cons, trailing_cons, List.cons_append, List.append_assoc]
    exact .cons hcomma ((Lexes.cons (Prod.ext hkey rfl) hlex).append htail)
  · rename_i mid hclose
    exact ⟨[], mid, List.forall_mem_nil _, .cons hclose .nil⟩
  · exact absurd rfl h

theorem through_beginArray (h : fromValue F H states .beginArray rest sax ≠ none) :
    ∃ v us rest', Value.Finite v ∧ v.tokens = .beginArray :: us ∧ Lexes F rest us rest' := by
  rw [fromValue_eq, parseValue, outcome_calling] at h
  obtain ⟨sax', -, h⟩ := bind_ne_none h
  split_ifs at h with hend
  · refine ⟨.array [], [.endArray], (scan F rest).2, ?_, rfl, .cons (Prod.ext hend rfl) .nil⟩
    exact Value.forall_atoms_array.mpr (List.forall_mem_nil _)
  · obtain ⟨v, mid, sax'', hfinite, hlex, hlt, hbehind⟩ := through_nextValue ih h
    obtain ⟨vs, rest', hvs, htail⟩ := (ih mid hlt).elements hbehind
    refine ⟨.array (v :: vs), _, rest', ?_, Value.tokens_array _, ?_⟩
    · exact Value.forall_atoms_array.mpr (List.forall_mem_cons.mpr ⟨hfinite, hvs⟩)
    · rw [List.map_cons, separated_eq, List.append_assoc]
      exact hlex.append htail

theorem through_beginObject (h : fromValue F H states .beginObject rest sax ≠ none) :
    ∃ v us rest', Value.Finite v ∧ v.tokens = .beginObject :: us ∧ Lexes F rest us rest' := by
  have hfinite : ∀ {ms : List (Text × Value)}, (∀ m ∈ ms, m.2.Finite) →
      (Value.object ms).Finite := fun hms =>
    (Value.forall_atoms_object (P := fun a => a.finite = true)).mpr fun m hm => ⟨rfl, hms m hm⟩
  rw [fromValue_eq, parseValue, outcome_calling] at h
  obtain ⟨sax', -, h⟩ := bind_ne_none h
  split_ifs at h with hend
  · refine ⟨.object [], [.endObject], (scan F rest).2, ?_, rfl, .cons (Prod.ext hend rfl) .nil⟩
    exact hfinite (List.forall_mem_nil _)
  · have hle := scan_le (F := F) rest
    obtain ⟨key, v, mid, sax'', hkey, hv, hlex, hlt, hbehind⟩ :=
      through_parseKey (fun r hr => ih r (hr.trans_le hle)) h
    obtain ⟨ms, rest', hms, htail⟩ := (ih mid (hlt.trans_le hle)).members hbehind
    refine ⟨.object ((key, v) :: ms), _, rest', ?_, Value.tokens_object _, ?_⟩
    · exact hfinite (List.forall_mem_cons.mpr ⟨hv, hms⟩)
    · rw [List.map_cons, separated_eq, List.append_assoc]
      exact (Lexes.cons (Prod.ext hkey rfl) hlex).append htail

theorem through_value (h : fromValue F H states token rest sax ≠ none) :
    ∃ v us rest', Value.Finite v ∧ v.tokens = token :: us ∧ Lexes F rest us rest' := by
  cases token with
  | beginArray => exact through_beginArray ih h
  | beginObject => exact through_beginObject ih h
  | literalTrue | literalFalse | literalNull | valueString | valueInteger | valueFloat =>
    exact through_atom rfl h
  | endArray | endObject | nameSeparator | valueSeparator | endOfInput | parseError =>
    rw [fromValue_eq] at h
    exact absurd rfl h

end Shorter

theorem through (rest : Text) : Through F H rest := by
  induction hn : rest.length using Nat.strongRecOn generalizing rest with
  | ind n ih =>
    subst hn
    have hshorter : ∀ r : Text, r.length < rest.length → Through F H r := fun r hr => ih _ hr r rfl
    exact ⟨through_value hshorter, through_elements hshorter, through_members hshorter⟩

end Parse

/-! ### What is accepted -/

section Accept

variable {σ : Type} {F : Floats} {H : Handler σ} {input : Text} {sax : σ} {v : Value}

/-- The input behind the byte order mark, if it has one. -/
def behindMark : Text → Text
  | 0xEF :: 0xBB :: 0xBF :: rest => rest
  | input => input

/-- The first byte of the mark begins no token. -/
theorem scan_mark (rest : Text) : scan F (0xEF :: rest) = (.parseError, []) := rfl

theorem scanFirst_eq (input : Text) : scanFirst F input = scan F (behindMark input) := by
  unfold behindMark
  split
  · rfl
  · rename_i hmark
    unfold scanFirst
    split
    · rename_i rest
      rw [if_neg, scan_mark]
      intro htake
      obtain ⟨u, rfl⟩ : ∃ u, rest = 0xBB :: 0xBF :: u := by
        rw [← List.take_append_drop 2 rest, htake]
        exact ⟨_, rfl⟩
      exact hmark u rfl
    · rfl

/-- **An input reads as a value**: behind the mark are its tokens, and then the end. -/
def Reads (F : Floats) (input : Text) (v : Value) : Prop :=
  ∃ rest, Lexes F (behindMark input) v.tokens rest ∧ (scan F rest).1 = .endOfInput

/-- Without a mark, the tokens are at the beginning. -/
theorem Reads.of_lexes {rest : Text} (h : Lexes F input v.tokens rest)
    (hend : (scan F rest).1 = .endOfInput) : Reads F input v := by
  obtain ⟨token, us, htokens, -, hne⟩ := v.tokens_eq_cons
  have hmark : behindMark input = input := by
    unfold behindMark
    split
    · obtain ⟨mid, hscan, -⟩ := lexes_cons.mp (htokens ▸ h)
      rw [scan_mark] at hscan
      exact absurd (Prod.mk.inj hscan).1.symm hne
    · rfl
  exact ⟨rest, hmark.symm ▸ h, hend⟩

theorem saxParse_eq : saxParse F H input sax =
    (fromValue F H [] (scan F (behindMark input)).1 (scan F (behindMark input)).2 sax).bind
      fun p => if (scan F p.1).1 = .endOfInput then some p.2 else none := by
  rw [saxParse, scanFirst_eq, fromValue]
  cases (parseLoop F H).result _ with
  | none => rfl
  | some p => rfl

theorem behind_nil {rest : Text} : behind F H [] rest sax = some (rest, sax) := by
  rw [behind_eq]
  rfl

/-- If an input reads as a value, its calls are made. -/
theorem saxParse_of_reads (hfinite : v.Finite) (h : Reads F input v) :
    saxParse F H input sax = feed H v.calls sax := by
  obtain ⟨rest, hlex, hend⟩ := h
  obtain ⟨token, us, htokens, -⟩ := v.tokens_eq_cons
  obtain ⟨mid, htoken, hus⟩ := lexes_cons.mp (htokens ▸ hlex)
  rw [saxParse_eq, htoken, parse_value hfinite htokens hus, Option.bind_assoc]
  cases feed H v.calls sax with
  | none => rfl
  | some sax' => rw [Option.bind_some, behind_nil, Option.bind_some, if_pos hend]

/-- If the parser gets through, the input reads as a value. -/
theorem exists_reads (h : saxParse F H input sax ≠ none) :
    ∃ v : Value, v.Finite ∧ Reads F input v := by
  rw [saxParse_eq] at h
  obtain ⟨p, hp, hend⟩ := bind_ne_none h
  have hne : fromValue F H [] (scan F (behindMark input)).1 (scan F (behindMark input)).2 sax ≠
      none := by
    rw [hp]
    exact Option.some_ne_none p
  obtain ⟨v, us, rest, hfinite, htokens, hus⟩ := (through _).value hne
  refine ⟨v, hfinite, rest, ?_, ?_⟩
  · rw [htokens]
    exact .cons Prod.mk.eta.symm hus
  · rw [parse_value hfinite htokens hus] at hp
    obtain ⟨sax', -, hbehind⟩ := Option.bind_eq_some_iff.mp hp
    rw [behind_nil] at hbehind
    obtain rfl := Option.some.inj hbehind
    by_contra hc
    exact hend (if_neg hc)

theorem feed_acceptor (cs : List Callback) : feed acceptor cs () = some () := by
  induction cs with
  | nil => rfl
  | cons c cs ih => exact ih

theorem accept_of_reads (hfinite : v.Finite) (h : Reads F input v) : accept F input = true := by
  rw [accept, saxParse_of_reads hfinite h, feed_acceptor]
  rfl

/-- **What `accept` accepts**: the inputs that read as a value whose numbers are finite. -/
theorem accept_iff_reads : accept F input = true ↔ ∃ v : Value, v.Finite ∧ Reads F input v := by
  constructor
  · intro h
    exact exists_reads (Option.isSome_iff_ne_none.mp h)
  · rintro ⟨v, hfinite, hreads⟩
    exact accept_of_reads hfinite hreads

end Accept

end Json

end PlayerTrace
