import PlayerTrace.Lib.Utf8
import PlayerTrace.Store.Checks

/-!
# What passes for a CHECK constraint

Two facts about `check_expressions` on a DDL that went through `strip_sql_noise`.

What is in a comment or in quotes does not matter
(`PlayerTrace.checkExpressions_replace`): on the pieces of the text, a region leaves one blank,
whatever its contents.

What is counted should be the keyword itself (`PlayerTrace.Genuine`): a token of its own, with
no character of an identifier next to it. SQLite takes every byte from `0x80` on for such a
character, and `is_ident_char` takes none of these, so that an identifier that ends in `CHECK`
and has such a byte right before it passes for the keyword. Nothing else does
(`PlayerTrace.genuine_iff_ascii`).
-/

namespace PlayerTrace

open Loop SqlText Parens

variable {ps qs : List Piece} {k : Kind} {s s' ddl : List UInt8} {closed : Bool} {g : Group}

/-! ### Text in comments and quotes -/

theorem blanked_replace :
    blanked (ps ++ .region k s closed :: qs) = blanked (ps ++ .region k s' closed :: qs) := by
  simp [blanked, Piece.blank]

theorem stripped_checkExpressions (hps : Lexed ps) :
    ∃ exprs, checkExpressions (blanked ps) = some exprs ∧
      (stripSqlNoise (text ps)).bind checkExpressions = some exprs := by
  obtain ⟨gs, heq, -⟩ := checkGroups_spec (toLowerAscii (blanked ps))
  have hexprs : checkExpressions (blanked ps) =
      some (gs.map (expression (toLowerAscii (blanked ps)))) := by
    rw [checkExpressions, heq]
    rfl
  exact ⟨_, hexprs, by rw [stripSqlNoise_eq hps]; exact hexprs⟩

/-- **Text in comments and quotes has no influence**: replacing the contents of a region by
others that do not end it leaves the expressions and the verdict as they are. -/
theorem checkExpressions_replace (hddl : Lexed (ps ++ .region k s closed :: qs))
    (hs : k.Inside s') :
    ∃ exprs,
      (stripSqlNoise (text (ps ++ .region k s closed :: qs))).bind checkExpressions = some exprs ∧
      (stripSqlNoise (text (ps ++ .region k s' closed :: qs))).bind checkExpressions = some exprs ∧
      validateEventsCheck (some (text (ps ++ .region k s' closed :: qs))) =
        validateEventsCheck (some (text (ps ++ .region k s closed :: qs))) := by
  obtain ⟨exprs, heq, hexprs⟩ := stripped_checkExpressions hddl
  obtain ⟨exprs', heq', hexprs'⟩ := stripped_checkExpressions (lexed_replace hddl hs)
  rw [← blanked_replace (s := s), heq] at heq'
  obtain rfl := Option.some.inj heq'
  exact ⟨exprs, hexprs, hexprs', by rw [validateEventsCheck, validateEventsCheck, hexprs, hexprs']⟩

theorem lexed_plain {w : List UInt8}
    (hw : ∀ c ∈ w, c ≠ ch '-' ∧ c ≠ ch '/' ∧ isQuote c = false) (hqs : Lexed qs) :
    Lexed (w.map .plain ++ qs) := by
  induction w with
  | nil => exact hqs
  | cons c w ih =>
    obtain ⟨hline, hblock, hquote⟩ := hw c List.mem_cons_self
    refine ⟨⟨fun heq => absurd heq hline, fun heq => absurd heq hblock, fun q heq => ?_⟩,
      ih fun d hd => hw d (List.mem_cons_of_mem _ hd)⟩
    exact absurd (isQuote_iff.mpr ⟨q, heq⟩) (by simp [hquote])

theorem quoted_of_not_mem {q : Quote} (hs : q.closing ∉ s) : Quoted q s := by
  induction s with
  | nil => exact .nil
  | cons c s ih =>
    exact .other (fun heq => hs (heq ▸ List.mem_cons_self))
      (ih fun h => hs (List.mem_cons_of_mem _ h))

/-- A default value that is a string literal with an escaped quote in it, and one with a
constraint and the beginning of a comment in its place. -/
theorem checkExpressions_replace_literal :
    ∃ exprs,
      (stripSqlNoise (bytes "a DEFAULT 'it''s' CHECK(b)")).bind checkExpressions = some exprs ∧
      (stripSqlNoise (bytes "a DEFAULT ' CHECK(c) --' CHECK(b)")).bind checkExpressions =
        some exprs ∧
      validateEventsCheck (some (bytes "a DEFAULT ' CHECK(c) --' CHECK(b)")) =
        validateEventsCheck (some (bytes "a DEFAULT 'it''s' CHECK(b)")) := by
  have hquoted : Quoted .single (bytes "it''s") :=
    .other (by decide) (.other (by decide) (.pair rfl (quoted_of_not_mem (by decide))))
  have hrest : Lexed ((bytes " CHECK(b)").map .plain) := by
    rw [← List.append_nil (List.map _ _)]
    exact lexed_plain (List.forall_iff_forall_mem.mp (by decide)) trivial
  have hlexed : Lexed ((bytes "a DEFAULT ").map .plain ++
      .region (.quote .single) (bytes "it''s") true :: (bytes " CHECK(b)").map .plain) :=
    lexed_plain (List.forall_iff_forall_mem.mp (by decide))
      ⟨⟨hquoted, fun _ => by decide⟩, hrest⟩
  have hother : (Kind.quote .single).Inside (bytes " CHECK(c) --") :=
    quoted_of_not_mem (by decide)
  have hreplaced := checkExpressions_replace hlexed hother
  have hfirst : text ((bytes "a DEFAULT ").map .plain ++ .region (.quote .single) (bytes "it''s")
      true :: (bytes " CHECK(b)").map .plain) = bytes "a DEFAULT 'it''s' CHECK(b)" := by decide
  have hsecond : text ((bytes "a DEFAULT ").map .plain ++ .region (.quote .single)
      (bytes " CHECK(c) --") true :: (bytes " CHECK(b)").map .plain) =
        bytes "a DEFAULT ' CHECK(c) --' CHECK(b)" := by decide
  rwa [hfirst, hsecond] at hreplaced

/-! ### The keyword itself -/

/-- A character of an identifier, for SQLite. -/
def sqliteIdent (c : UInt8) : Bool := isIdentChar c || 0x80 ≤ c

/-- The group of a CHECK that is a token of its own: outside comments and quotes, with no
character of an identifier on either side, and with blanks and a balanced group behind it
whose text without white space is `expr`. -/
def Genuine (ddl : List UInt8) (g : Group) (expr : List UInt8) : Prop :=
  ∃ (ps : List Piece) (word : List UInt8) (qs : List Piece) (ws body rest : List UInt8),
    Lexed (ps ++ (word.map .plain ++ qs)) ∧ text (ps ++ (word.map .plain ++ qs)) = ddl ∧
    ps.length = g.pos ∧ toLowerAscii word = keyword ∧
    (∀ c ∈ (text ps).getLast?, sqliteIdent c = false) ∧
    (∀ c ∈ (text qs).head?, sqliteIdent c = false) ∧
    toLowerAscii (blanked qs) = ws ++ ch '(' :: (body ++ ch ')' :: rest) ∧
    (∀ c ∈ ws, isBlank c = true) ∧ RoundBalanced body ∧ expr = collapseSpaces body

/-- The word has a byte outside ASCII right before it. -/
def NonAsciiBefore (text : List UInt8) (g : Group) : Prop :=
  0 < g.pos ∧ ∃ c, text[g.pos - 1]? = some c ∧ 0x80 ≤ c

theorem isIdentChar_lower (c : UInt8) : isIdentChar (toLowerChar c) = isIdentChar c := by
  revert c
  exact Utf8.forall_byte (by decide +kernel)

theorem ge_80_lower (c : UInt8) : 0x80 ≤ toLowerChar c ↔ 0x80 ≤ c := by
  revert c
  exact Utf8.forall_byte (by decide +kernel)

theorem sqliteIdent_of_lower (c : UInt8) :
    isBlank (toLowerChar c) = true ∨ toLowerChar c = ch '(' → sqliteIdent c = false := by
  revert c
  exact Utf8.forall_byte (by decide +kernel)

/-- The letters of a word are pieces of the text. -/
theorem exists_word {kw : List UInt8} (hkw : ch ' ' ∉ kw) (h : toLowerAscii (blanked ps) = kw) :
    ∃ word, ps = word.map .plain ∧ toLowerAscii word = kw := by
  induction ps generalizing kw with
  | nil => exact ⟨[], rfl, h⟩
  | cons p ps ih =>
    subst h
    cases p with
    | plain c =>
      obtain ⟨word, rfl, hword⟩ := ih (fun hmem => hkw (List.mem_cons_of_mem _ hmem)) rfl
      exact ⟨c :: word, rfl, congrArg (toLowerChar c :: ·) hword⟩
    | region k contents closed => exact absurd List.mem_cons_self hkw

/-- The last byte of a region with a letter behind it. -/
theorem getLast_region {c : UInt8} {rest : List UInt8} (hc : toLowerChar c = ch 'c')
    (hfits : (Piece.region k s closed).Fits (c :: rest)) :
    ∀ d ∈ (Piece.region k s closed).text.getLast?, sqliteIdent d = false := by
  cases closed with
  | false => exact absurd hfits.2 (List.cons_ne_nil _ _)
  | true =>
    cases k with
    | line =>
      have hline : (c :: rest).head? = some lineFeed := hfits.2
      rw [Option.some.inj hline] at hc
      exact absurd hc (by decide)
    | block =>
      intro d hd
      simp [Piece.text, Kind.closing] at hd
      rw [← hd]
      decide
    | quote q =>
      intro d hd
      simp [Piece.text, Kind.closing] at hd
      rw [← hd]
      cases q <;> decide

theorem head_region : ∀ d ∈ (Piece.region k s closed).text.head?, sqliteIdent d = false := by
  intro d hd
  cases k with
  | line =>
    simp [Piece.text, Kind.opening] at hd
    rw [← hd]
    decide
  | block =>
    simp [Piece.text, Kind.opening] at hd
    rw [← hd]
    decide
  | quote q =>
    simp [Piece.text, Kind.opening] at hd
    rw [← hd]
    cases q <;> decide

theorem expression_eq {lowered ws body rest : List UInt8}
    (h : lowered.drop (g.pos + 5) = ws ++ ch '(' :: (body ++ ch ')' :: rest))
    (hstart : g.start = g.pos + 5 + ws.length) (hstop : g.stop = g.start + body.length + 2) :
    expression lowered g = collapseSpaces body := by
  have hopen : lowered.drop g.start = ch '(' :: (body ++ ch ')' :: rest) := by
    rw [hstart]
    exact drop_add h
  rw [expression, drop_succ hopen]
  congr 1
  exact List.take_left' (by omega)

/-- The pieces around a word of the blanked text. -/
theorem exists_pieces {tail : List UInt8} {pos : Nat}
    (h : (toLowerAscii (blanked ps)).drop pos = keyword ++ tail) :
    ∃ ps₁ word qs, ps = ps₁ ++ (word.map .plain ++ qs) ∧ ps₁.length = pos ∧
      toLowerAscii word = keyword ∧ toLowerAscii (blanked qs) = tail := by
  have hdrop : ∀ n, (toLowerAscii (blanked ps)).drop n = toLowerAscii (blanked (ps.drop n)) := by
    intro n
    simp [toLowerAscii, blanked, List.map_drop]
  have hpos : pos < ps.length := by
    have := lt_of_drop h
    simpa [toLowerAscii, blanked] using this
  have hword : toLowerAscii (blanked ((ps.drop pos).take 5)) = keyword := by
    have htake : (toLowerAscii (blanked (ps.drop pos))).take 5 = keyword := by
      rw [← hdrop, h]
      rfl
    rw [← htake]
    simp [toLowerAscii, blanked, List.map_take]
  obtain ⟨word, heq, hlower⟩ := exists_word (by decide) hword
  refine ⟨ps.take pos, word, (ps.drop pos).drop 5, ?_, ?_, hlower, ?_⟩
  · rw [← heq, List.take_append_drop, List.take_append_drop]
  · rw [List.length_take]
    omega
  · rw [List.drop_drop, ← hdrop, drop_keyword h]

/-- The byte before a word is what is left of the last piece before it. -/
theorem read_before (ps₁ : List Piece) (p : Piece) (qs : List Piece) :
    (toLowerAscii (blanked (ps₁ ++ [p] ++ qs)))[(ps₁ ++ [p]).length - 1]? =
      some (toLowerChar p.blank) := by
  simp [toLowerAscii, blanked]

theorem getLast_text {ps₁ : List Piece} {p : Piece} :
    (text (ps₁ ++ [p])).getLast? = p.text.getLast? := by
  rw [text_append, text_cons, text_nil, List.append_nil]
  exact List.getLast?_append_of_ne_nil _ (List.ne_nil_of_length_pos (length_text_pos p))

theorem not_nonAscii_of_genuine {expr : List UInt8} (hps : Lexed ps)
    (h : Genuine (text ps) g expr) : ¬NonAsciiBefore (toLowerAscii (blanked ps)) g := by
  obtain ⟨ps₁, word, qs, -, -, -, hlexed, htext, hlen, -, hleft, -⟩ := h
  -- the text has been cut into pieces twice, and what is left of it is the same
  have hblanked : blanked ps = blanked (ps₁ ++ (word.map .plain ++ qs)) := by
    have heq := stripSqlNoise_eq hps
    rw [← htext, stripSqlNoise_eq hlexed] at heq
    exact (Option.some.inj heq).symm
  rintro ⟨hpos, c, hread, hge⟩
  rcases List.eq_nil_or_concat' ps₁ with rfl | ⟨init, p, rfl⟩
  · exact absurd hlen (by simp; omega)
  rw [hblanked, ← hlen, read_before] at hread
  obtain rfl := Option.some.inj hread
  rw [ge_80_lower] at hge
  cases p with
  | plain d =>
    have hd := hleft d (by rw [getLast_text]; rfl)
    simp only [sqliteIdent, Bool.or_eq_false_iff, decide_eq_false_iff_not] at hd
    exact hd.2 hge
  | region k contents closed => exact absurd (show 0x80 ≤ ch ' ' from hge) (by decide)

theorem genuine_of_not_nonAscii (hps : Lexed ps) (hg : IsGroup (toLowerAscii (blanked ps)) g)
    (hn : ¬NonAsciiBefore (toLowerAscii (blanked ps)) g) :
    Genuine (text ps) g (expression (toLowerAscii (blanked ps)) g) := by
  obtain ⟨ws, body, rest, heq, hws, hbody, hstart, hstop⟩ := hg.word
  obtain ⟨ps₁, word, qs, rfl, hlen, hword, htail⟩ := exists_pieces heq
  refine ⟨ps₁, word, qs, ws, body, rest, hps, rfl, hlen, hword, ?_, ?_, htail, hws, hbody,
    expression_eq (drop_keyword heq) hstart hstop⟩
  · -- on the left
    rcases List.eq_nil_or_concat' ps₁ with rfl | ⟨init, p, rfl⟩
    · simp
    rw [getLast_text]
    cases p with
    | plain d =>
      intro c hc
      obtain rfl : d = c := Option.some.inj hc
      have hread := read_before init (.plain d) (word.map .plain ++ qs)
      rw [hlen] at hread
      have hpos : 0 < g.pos := by rw [← hlen]; simp
      have hident : isIdentChar d = false := by
        rcases hg.left with hzero | ⟨c, hc, hfree⟩
        · omega
        · rw [hread] at hc
          rwa [← Option.some.inj hc, Piece.blank, isIdentChar_lower] at hfree
      have hascii : ¬0x80 ≤ d := fun hge => hn ⟨hpos, _, hread, (ge_80_lower d).mpr hge⟩
      simp [sqliteIdent, hident, hascii]
    | region k contents closed =>
      cases word with
      | nil => exact absurd hword (by decide)
      | cons c word =>
        rw [List.append_assoc] at hps
        exact getLast_region (List.cons.inj hword).1 hps.right.1
  · -- on the right
    cases qs with
    | nil => simp
    | cons q qs =>
      cases q with
      | plain d =>
        intro c hc
        obtain rfl : d = c := Option.some.inj hc
        refine sqliteIdent_of_lower d ?_
        cases ws with
        | nil => exact .inr (List.cons.inj htail).1
        | cons w ws =>
          left
          rw [show toLowerChar d = w from (List.cons.inj htail).1]
          exact hws w List.mem_cons_self
      | region k contents closed =>
        intro c hc
        rw [text_cons, List.head?_append_of_ne_nil _
          (List.ne_nil_of_length_pos (length_text_pos _))] at hc
        exact head_region c hc

/-- With comments and quotes blanked, no CHECK with a balanced group that lies in no other one
has a byte outside ASCII right before it. -/
def AsciiBefore (ddl : List UInt8) : Prop :=
  ∀ ps, Lexed ps → text ps = ddl → ∀ g, Outermost (toLowerAscii (blanked ps)) g →
    ¬NonAsciiBefore (toLowerAscii (blanked ps)) g

/-- **Which constraints are genuine.** On every DDL the scan ends without a read out of range,
and all the expressions it returns come from a CHECK that is a token of its own if and only if
no such CHECK has a byte outside ASCII right before it. -/
theorem genuine_iff_ascii (ddl : List UInt8) :
    ∃ stripped gs, stripSqlNoise ddl = some stripped ∧
      checkGroups (toLowerAscii stripped) = some gs ∧
      checkExpressions stripped = some (gs.map (expression (toLowerAscii stripped))) ∧
      ((∀ g ∈ gs, Genuine ddl g (expression (toLowerAscii stripped) g)) ↔ AsciiBefore ddl) := by
  obtain ⟨ps, hps, rfl⟩ := exists_lexed ddl
  obtain ⟨gs, hgs, hmem, -⟩ := checkGroups_spec (toLowerAscii (blanked ps))
  refine ⟨blanked ps, gs, stripSqlNoise_eq hps, hgs, by rw [checkExpressions, hgs]; rfl, ?_⟩
  constructor
  · intro hgen ps' hps' htext g hout
    have hblanked : blanked ps' = blanked ps := by
      have heq := stripSqlNoise_eq hps'
      rw [htext, stripSqlNoise_eq hps] at heq
      exact (Option.some.inj heq).symm
    rw [hblanked] at hout ⊢
    exact not_nonAscii_of_genuine hps (hgen g ((hmem g).mpr hout))
  · intro hascii g hg
    have hout := (hmem g).mp hg
    exact genuine_of_not_nonAscii hps hout.1 (hascii ps hps rfl g hout)

/-- An identifier that ends in the five letters, with the letter U+00E9 in front of them. -/
def forgedDdl : List UInt8 := [0xC3, 0xA9] ++ bytes "CHECK(length(event_id) > 0)"

/-- There is no CHECK in it, but an expression is returned, and it is the one that is asked
for. -/
theorem forged_check_accepted :
    (stripSqlNoise forgedDdl).bind checkExpressions = some [bytes "length(event_id)>0"] ∧
      validateEventsCheck (some forgedDdl) = some {} ∧
      checkGroups (toLowerAscii forgedDdl) = some [⟨2, 7, 29⟩] ∧
      ¬Genuine forgedDdl ⟨2, 7, 29⟩ (bytes "length(event_id)>0") := by
  have hstrip : stripSqlNoise forgedDdl = some forgedDdl := by decide +kernel
  refine ⟨by decide +kernel, by decide +kernel, by decide +kernel, fun hgen => ?_⟩
  obtain ⟨ps, hps, htext⟩ := exists_lexed forgedDdl
  rw [← htext] at hgen hstrip
  have hblanked : blanked ps = text ps :=
    Option.some.inj ((stripSqlNoise_eq hps).symm.trans hstrip)
  refine not_nonAscii_of_genuine hps hgen ?_
  rw [hblanked, htext]
  exact ⟨by decide, 0xA9, by decide +kernel, by decide⟩

end PlayerTrace
