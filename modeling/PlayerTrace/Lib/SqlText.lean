import Mathlib.Data.List.Basic
import Mathlib.Data.List.Infix

/-!
# Comments and quotes in SQL text

A text is a sequence of pieces: bytes that stand for themselves, and regions, which are
comments and quoted texts. SQL has two kinds of comments, and of the four kinds of quotes three
write a quote inside by doubling it. A region may be unterminated; it then runs to the end of
the text.

What pieces a text has is decided from left to right (`SqlText.Lexed`), since inside a region
nothing opens another one. Every text is a sequence of pieces (`SqlText.exists_lexed`), and
replacing the contents of a region leaves a sequence of pieces
(`SqlText.lexed_replace`).
-/

namespace SqlText

/-- The byte of an ASCII character. -/
def ch (c : Char) : UInt8 := UInt8.ofNat c.toNat

def lineFeed : UInt8 := 10

/-- The four kinds of quotes. -/
inductive Quote
  | single
  | double
  | grave
  | bracket
  deriving DecidableEq, Repr

namespace Quote

/-- What begins the region. -/
def opening : Quote → UInt8
  | single => 39
  | double => 34
  | grave => 96
  | bracket => ch '['

/-- What ends the region. -/
def closing : Quote → UInt8
  | single => 39
  | double => 34
  | grave => 96
  | bracket => ch ']'

/-- The closing quote is written inside by doubling it. -/
def doubling : Quote → Bool
  | bracket => false
  | _ => true

end Quote

/-- A text inside quotes: other bytes, and doubled quotes where these are an escape. -/
inductive Quoted (q : Quote) : List UInt8 → Prop
  | nil : Quoted q []
  | other {c : UInt8} {s : List UInt8} (hc : c ≠ q.closing) (hs : Quoted q s) : Quoted q (c :: s)
  | pair {s : List UInt8} (hq : q.doubling = true) (hs : Quoted q s) :
    Quoted q (q.closing :: q.closing :: s)

/-- The kinds of regions: a comment to the end of the line, a comment up to its end mark, or
a quoted text. -/
inductive Kind
  | line
  | block
  | quote (q : Quote)
  deriving DecidableEq, Repr

namespace Kind

def opening : Kind → List UInt8
  | line => [ch '-', ch '-']
  | block => [ch '/', ch '*']
  | quote q => [q.opening]

/-- What closes a region and belongs to it; the line feed behind a comment does not. -/
def closing : Kind → List UInt8
  | line => []
  | block => [ch '*', ch '/']
  | quote q => [q.closing]

/-- Contents that do not end the region. -/
def Inside : Kind → List UInt8 → Prop
  | line, s => lineFeed ∉ s
  | block, s => ¬[ch '*', ch '/'] <:+: s
  | quote q, s => Quoted q s

/-- What may stand behind a region that is closed. -/
def Closed : Kind → List UInt8 → Prop
  | line, rest => rest.head? = some lineFeed
  | block, _ => True
  | quote q, rest => q.doubling = true → rest.head? ≠ some q.closing

end Kind

/-- A byte that stands for itself, or a region. -/
inductive Piece
  | plain (c : UInt8)
  | region (k : Kind) (contents : List UInt8) (closed : Bool)
  deriving DecidableEq, Repr

namespace Piece

def text : Piece → List UInt8
  | plain c => [c]
  | region k contents closed => k.opening ++ contents ++ if closed then k.closing else []

/-- The byte `c` opens no region before `rest`. -/
def Plain (c : UInt8) (rest : List UInt8) : Prop :=
  (c = ch '-' → rest.head? ≠ some (ch '-')) ∧ (c = ch '/' → rest.head? ≠ some (ch '*')) ∧
    ∀ q : Quote, c ≠ q.opening

/-- The piece may stand before `rest`. -/
def Fits : Piece → List UInt8 → Prop
  | plain c, rest => Plain c rest
  | region k contents closed, rest =>
    k.Inside contents ∧ if closed then k.Closed rest else rest = []

/-- The piece, with a blank for a region. -/
def blank : Piece → UInt8
  | plain c => c
  | region _ _ _ => ch ' '

end Piece

/-- The text of a sequence of pieces. -/
def text (ps : List Piece) : List UInt8 := ps.flatMap Piece.text

/-- The text with a blank for each region. -/
def blanked (ps : List Piece) : List UInt8 := ps.map Piece.blank

/-- The pieces of a text, from left to right. -/
def Lexed : List Piece → Prop
  | [] => True
  | p :: ps => p.Fits (text ps) ∧ Lexed ps

variable {p : Piece} {ps qs : List Piece} {k : Kind} {s s' t : List UInt8} {c : UInt8}

@[simp] theorem text_nil : text [] = [] := rfl

@[simp] theorem text_cons : text (p :: ps) = p.text ++ text ps := rfl

@[simp] theorem text_append : text (ps ++ qs) = text ps ++ text qs := List.flatMap_append

theorem length_text_pos (p : Piece) : 0 < p.text.length := by
  cases p with
  | plain c => exact Nat.one_pos
  | region k contents closed => cases k <;> simp [Piece.text, Kind.opening]

theorem Lexed.right (h : Lexed (ps ++ qs)) : Lexed qs := by
  induction ps with
  | nil => exact h
  | cons p ps ih => exact ih h.2

/-! ### Every text has pieces -/

/-- The contents at the front of a text, up to what closes the region or to the end. -/
theorem Kind.exists_contents (k : Kind) (s : List UInt8) :
    ∃ (contents : List UInt8) (closed : Bool) (rest : List UInt8),
      s = contents ++ (if closed then k.closing else []) ++ rest ∧
      k.Inside contents ∧ if closed then k.Closed rest else rest = [] := by
  cases k with
  | line =>
    induction s with
    | nil => exact ⟨[], false, [], rfl, List.not_mem_nil, rfl⟩
    | cons c s ih =>
      by_cases hc : c = lineFeed
      · exact ⟨[], true, c :: s, rfl, List.not_mem_nil, congrArg some hc⟩
      · obtain ⟨contents, closed, rest, rfl, hin, hrest⟩ := ih
        refine ⟨c :: contents, closed, rest, rfl, ?_, hrest⟩
        exact fun hmem => (List.mem_cons.mp hmem).elim (fun heq => hc heq.symm) hin
  | block =>
    induction s with
    | nil => exact ⟨[], false, [], rfl, by simp [Inside], rfl⟩
    | cons c s ih =>
      by_cases hc : c = ch '*' ∧ s.head? = some (ch '/')
      · obtain ⟨rfl, hs⟩ := hc
        obtain ⟨rest, rfl⟩ := List.head?_eq_some_iff.mp hs
        exact ⟨[], true, rest, rfl, by simp [Inside], trivial⟩
      · obtain ⟨contents, closed, rest, rfl, hin, hrest⟩ := ih
        refine ⟨c :: contents, closed, rest, rfl, ?_, hrest⟩
        intro hmark
        rcases List.infix_cons_iff.mp hmark with hpre | hmark
        · obtain ⟨t, ht⟩ := hpre
          obtain ⟨rfl, rfl⟩ := List.cons.inj ht
          exact hc ⟨rfl, rfl⟩
        · exact hin hmark
  | quote q =>
    induction hn : s.length using Nat.strong_induction_on generalizing s with
    | _ n ih =>
      cases s with
      | nil => exact ⟨[], false, [], rfl, .nil, rfl⟩
      | cons c s =>
        subst hn
        by_cases hc : c = q.closing
        · subst hc
          by_cases hd : q.doubling = true ∧ s.head? = some q.closing
          · obtain ⟨hd, hs⟩ := hd
            obtain ⟨s, rfl⟩ := List.head?_eq_some_iff.mp hs
            obtain ⟨contents, closed, rest, rfl, hin, hrest⟩ := ih s.length
              (by simp only [List.length_cons]; omega) s rfl
            exact ⟨q.closing :: q.closing :: contents, closed, rest, rfl, .pair hd hin, hrest⟩
          · exact ⟨[], true, s, rfl, .nil, fun hq hs => hd ⟨hq, hs⟩⟩
        · obtain ⟨contents, closed, rest, rfl, hin, hrest⟩ := ih s.length (by simp) s rfl
          exact ⟨c :: contents, closed, rest, rfl, .other hc hin, hrest⟩

/-- The first piece of a text. -/
theorem exists_piece (c : UInt8) (s : List UInt8) :
    ∃ (p : Piece) (rest : List UInt8), c :: s = p.text ++ rest ∧ p.Fits rest := by
  by_cases hplain : Piece.Plain c s
  · exact ⟨.plain c, s, rfl, hplain⟩
  · obtain ⟨k, t, ht⟩ : ∃ (k : Kind) (t : List UInt8), c :: s = k.opening ++ t := by
      unfold Piece.Plain at hplain
      by_cases hline : c = ch '-' ∧ s.head? = some (ch '-')
      · obtain ⟨rfl, hs⟩ := hline
        obtain ⟨t, rfl⟩ := List.head?_eq_some_iff.mp hs
        exact ⟨.line, t, rfl⟩
      by_cases hblock : c = ch '/' ∧ s.head? = some (ch '*')
      · obtain ⟨rfl, hs⟩ := hblock
        obtain ⟨t, rfl⟩ := List.head?_eq_some_iff.mp hs
        exact ⟨.block, t, rfl⟩
      by_cases hquote : ∃ q : Quote, c = q.opening
      · obtain ⟨q, rfl⟩ := hquote
        exact ⟨.quote q, s, rfl⟩
      · exact absurd ⟨fun h h' => hline ⟨h, h'⟩, fun h h' => hblock ⟨h, h'⟩,
          fun q h => hquote ⟨q, h⟩⟩ hplain
    obtain ⟨contents, closed, rest, rfl, hin, hrest⟩ := k.exists_contents t
    exact ⟨.region k contents closed, rest, by simp [ht, Piece.text], hin, hrest⟩

theorem exists_lexed (s : List UInt8) : ∃ ps, Lexed ps ∧ text ps = s := by
  induction hn : s.length using Nat.strong_induction_on generalizing s with
  | _ n ih =>
    cases s with
    | nil => exact ⟨[], trivial, rfl⟩
    | cons c s =>
      obtain ⟨p, rest, heq, hfits⟩ := exists_piece c s
      have hpos := length_text_pos p
      have hlen : rest.length < n := by
        have := congrArg List.length heq
        rw [List.length_append] at this
        omega
      obtain ⟨ps, hps, rfl⟩ := ih rest.length hlen rest rfl
      exact ⟨p :: ps, ⟨hfits, hps⟩, heq.symm⟩

/-! ### Replacing the contents of a region -/

/-- Whether a piece may stand before a text depends on the first byte of the text only. -/
theorem Piece.Fits.congr (h : p.Fits s) (hs : s.head? = s'.head?) : p.Fits s' := by
  cases p with
  | plain c =>
    have hc : Plain c s := h
    unfold Plain at hc
    rw [hs] at hc
    exact hc
  | region k contents closed =>
    refine ⟨h.1, ?_⟩
    have hrest := h.2
    cases closed with
    | false =>
      obtain rfl : s = [] := hrest
      exact List.head?_eq_none_iff.mp hs.symm
    | true =>
      cases k <;> simp only [if_true, Kind.Closed] at hrest ⊢
      · rwa [← hs]
      · rwa [← hs]

theorem head?_text_replace {closed : Bool} :
    (text (ps ++ .region k s closed :: qs)).head? =
      (text (ps ++ .region k s' closed :: qs)).head? := by
  cases ps with
  | nil => cases k <;> rfl
  | cons p ps =>
    obtain ⟨c, t, ht⟩ := List.exists_cons_of_length_pos (length_text_pos p)
    simp [ht]

theorem lexed_replace {closed : Bool} (h : Lexed (ps ++ .region k s closed :: qs))
    (hs : k.Inside s') : Lexed (ps ++ .region k s' closed :: qs) := by
  induction ps with
  | nil => exact ⟨⟨hs, h.1.2⟩, h.2⟩
  | cons p ps ih => exact ⟨h.1.congr head?_text_replace, ih h.2⟩

end SqlText
