import Mathlib.Data.List.Basic

/-!
# Loops that read by index

A loop of an imperative program, over a state: a round goes on with another state or is done
with a result. A round may also have no value, which is how a read outside the text is
modelled, and then the loop has none; nor has it one when it has not ended after the rounds it
is given. So a loop that has a value has ended, and has read nothing it should not have.
-/

namespace Loop

/-- How a round ends. -/
inductive Round (σ α : Type)
  | again (s : σ)
  | done (a : α)
  deriving DecidableEq

variable {σ α : Type} {body : σ → Option (Round σ α)}

/-- The loop, for at most the given number of rounds. -/
def loop (body : σ → Option (Round σ α)) : Nat → σ → Option α
  | 0, _ => none
  | rounds + 1, s =>
    match body s with
    | none => none
    | some (.again s) => loop body rounds s
    | some (.done a) => some a

theorem loop_again {rounds : Nat} {s s' : σ} (h : body s = some (.again s')) :
    loop body (rounds + 1) s = loop body rounds s' := by
  rw [loop, h]

theorem loop_done {rounds : Nat} {s : σ} {a : α} (h : body s = some (.done a)) :
    loop body (rounds + 1) s = some a := by
  rw [loop, h]

/-- The rule for loops: an invariant that every round keeps, a measure that every round
lowers, and what holds when a round is done. -/
theorem loop_rule {I : σ → Prop} {m : σ → Nat} {Q : α → Prop}
    (hbody : ∀ s, I s → (∃ a, body s = some (.done a) ∧ Q a) ∨
      ∃ s', body s = some (.again s') ∧ I s' ∧ m s' < m s) :
    ∀ rounds s, I s → m s < rounds → ∃ a, loop body rounds s = some a ∧ Q a := by
  intro rounds
  induction rounds with
  | zero => exact fun s _ hlt => absurd hlt (Nat.not_lt_zero _)
  | succ rounds ih =>
    intro s hs hlt
    rcases hbody s hs with ⟨a, heq, ha⟩ | ⟨s', heq, hs', hm⟩
    · exact ⟨a, loop_done heq, ha⟩
    · rw [loop_again heq]
      exact ih s' hs' (by omega)

/-! ### Loops that end -/

/-- A loop whose rounds all have a value, and get smaller. -/
structure Ending (σ α : Type) where
  pass : σ → Round σ α
  /-- The variant. -/
  size : σ → Nat
  size_lt : ∀ {s s' : σ}, pass s = .again s' → size s' < size s

namespace Ending

variable (l : Ending σ α) {s s' : σ} {a : α} {n k : Nat}

/-- The body, as that of any loop. -/
def round (s : σ) : Option (Round σ α) := some (l.pass s)

theorem round_eq {r : Round σ α} (h : l.pass s = r) : l.round s = some r := congrArg some h

theorem loop_isSome (h : l.size s < n) : (loop l.round n s).isSome = true := by
  induction n generalizing s with
  | zero => exact absurd h (Nat.not_lt_zero _)
  | succ n ih =>
    cases hpass : l.pass s with
    | again s' =>
      have hlt := l.size_lt hpass
      rw [loop_again (l.round_eq hpass)]
      exact ih (by omega)
    | done a =>
      rw [loop_done (l.round_eq hpass)]
      rfl

/-- More rounds than the variant asks for change nothing. -/
theorem loop_congr (hn : l.size s < n) (hk : l.size s < k) :
    loop l.round n s = loop l.round k s := by
  induction n generalizing s k with
  | zero => exact absurd hn (Nat.not_lt_zero _)
  | succ n ih =>
    obtain ⟨k, rfl⟩ : ∃ j, k = j + 1 := ⟨k - 1, by omega⟩
    cases hpass : l.pass s with
    | again s' =>
      have hlt := l.size_lt hpass
      rw [loop_again (l.round_eq hpass), loop_again (l.round_eq hpass)]
      exact ih (by omega) (by omega)
    | done a => rw [loop_done (l.round_eq hpass), loop_done (l.round_eq hpass)]

/-- What the loop is done with. -/
def result (s : σ) : α := (loop l.round (l.size s + 1) s).get (l.loop_isSome (Nat.lt_succ_self _))

theorem result_done (h : l.pass s = .done a) : l.result s = a :=
  Option.get_of_eq_some _ (loop_done (l.round_eq h))

theorem result_again (h : l.pass s = .again s') : l.result s = l.result s' := by
  refine Option.get_of_eq_some _ ?_
  rw [loop_again (l.round_eq h), l.loop_congr (l.size_lt h) (Nat.lt_succ_self _), result,
    Option.some_get]

/-- What a round leads to. -/
def outcome : Round σ α → α
  | .again s => l.result s
  | .done a => a

theorem result_eq (s : σ) : l.result s = l.outcome (l.pass s) := by
  cases hpass : l.pass s with
  | again s' => exact l.result_again hpass
  | done a => exact l.result_done hpass

end Ending

/-! ### Reading -/

variable {text l : List α} {i : Nat} {c : α}

/-- What is read at an index, told by what is left of the text there. -/
theorem read_drop (h : text.drop i = l) (k : Nat) : text[i + k]? = l[k]? := by
  rw [← h, List.getElem?_drop]

theorem read_of_drop (h : text.drop i = c :: l) : text[i]? = some c := by
  have := read_drop h 0
  rwa [Nat.add_zero] at this

theorem lt_of_drop (h : text.drop i = c :: l) : i < text.length := by
  have hne : text.drop i ≠ [] := by simp [h]
  simpa using hne

theorem drop_add {u v : List α} (h : text.drop i = u ++ v) : text.drop (i + u.length) = v := by
  rw [← List.drop_drop, h, List.drop_left]

theorem drop_succ (h : text.drop i = c :: l) : text.drop (i + 1) = l :=
  drop_add (u := [c]) h

end Loop
