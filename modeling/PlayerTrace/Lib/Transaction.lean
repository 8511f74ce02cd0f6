import Mathlib.Data.Option.Basic

/-!
# Transactions with rollback

A connection to a transactional store: what its statements currently see, and – while a
transaction is open – the state at its `BEGIN`. Rolling back restores that state,
committing forgets it. What a crash keeps is `Txn.Conn.committed`.

An operation that may leave in the middle is a computation in
`Except (ε × Txn.Conn σ) (Txn.Conn σ)`: the error carries the connection the early exit
leaves behind, so that an exit that forgets to roll back is visible. The lemmas say what
such an operation needs for all its exits to be clean (`Txn.Clean`): that each of them is
the rolled-back state of one and the same transaction.
-/

namespace Txn

/-- A connection over states `σ`. -/
structure Conn (σ : Type*) where
  /-- What a statement on this connection sees. -/
  view : σ
  /-- The state at the `BEGIN` of the open transaction, if one is open. -/
  saved : Option σ
  deriving DecidableEq

namespace Conn

variable {σ : Type*}

/-- A connection with no transaction open. -/
def idle (v : σ) : Conn σ := ⟨v, none⟩

/-- What survives a crash. -/
def committed (c : Conn σ) : σ := c.saved.getD c.view

/-- `BEGIN`; refused inside an open transaction. -/
def begin (c : Conn σ) : Option (Conn σ) :=
  match c.saved with
  | none => some ⟨c.view, some c.view⟩
  | some _ => none

/-- One statement. -/
def update (c : Conn σ) (f : σ → σ) : Conn σ := { c with view := f c.view }

/-- `COMMIT`. -/
def commit (c : Conn σ) : Conn σ := { c with saved := none }

/-- `ROLLBACK`. -/
def rollback (c : Conn σ) : Conn σ :=
  match c.saved with
  | none => c
  | some v => ⟨v, none⟩

@[simp] theorem idle_view (v : σ) : (idle v).view = v := rfl

@[simp] theorem idle_saved (v : σ) : (idle v).saved = none := rfl

@[simp] theorem committed_idle (v : σ) : (idle v).committed = v := rfl

@[simp] theorem update_view (c : Conn σ) (f : σ → σ) : (c.update f).view = f c.view := rfl

@[simp] theorem update_saved (c : Conn σ) (f : σ → σ) : (c.update f).saved = c.saved := rfl

theorem begin_saved {c c' : Conn σ} (h : c.begin = some c') :
    c.saved = none ∧ c'.saved = some c.view ∧ c'.view = c.view := by
  obtain ⟨v, s⟩ := c
  cases s with
  | none =>
    obtain rfl : _ = c' := by simpa [begin] using h
    exact ⟨rfl, rfl, rfl⟩
  | some w => simp [begin] at h

end Conn

/-! ### Computations whose early exits roll back -/

universe u

variable {σ ε : Type*} {α β : Type u}

/-- Whether every way out of an operation is clean: an early exit leaves the connection
as it was at `c₀`, with an error `bad` recognises, and a normal end is described by `Q`. -/
def Clean (c₀ : Conn σ) (bad : ε → Prop) (x : Except (ε × Conn σ) α) (Q : α → Prop) : Prop :=
  match x with
  | .error (e, c) => bad e ∧ c = c₀
  | .ok a => Q a

variable {c₀ : Conn σ} {bad : ε → Prop} {Q : α → Prop}

@[simp] theorem clean_ok {a : α} : Clean c₀ bad (.ok a) Q ↔ Q a := Iff.rfl

@[simp] theorem clean_pure {a : α} : Clean c₀ bad (pure a) Q ↔ Q a := Iff.rfl

@[simp] theorem clean_error {e : ε} {c : Conn σ} :
    Clean c₀ bad (.error (e, c) : Except (ε × Conn σ) α) Q ↔ bad e ∧ c = c₀ := Iff.rfl

/-- **Sequencing**: clean exits of the first half, and of the second wherever the first
ends. -/
theorem Clean.bind {x : Except (ε × Conn σ) α} {f : α → Except (ε × Conn σ) β}
    {R : β → Prop} (hx : Clean c₀ bad x Q) (hf : ∀ a, Q a → Clean c₀ bad (f a) R) :
    Clean c₀ bad (x >>= f) R := by
  cases x with
  | error e => exact hx
  | ok a => exact hf a hx

/-- Weakening the description of a normal end. -/
theorem Clean.mono {x : Except (ε × Conn σ) α} {R : α → Prop} (hx : Clean c₀ bad x Q)
    (h : ∀ a, Q a → R a) : Clean c₀ bad x R := by
  cases x with
  | error e => exact hx
  | ok a => exact h a hx

/-- What is known after an early exit. -/
theorem Clean.of_error {x : Except (ε × Conn σ) α} {e : ε} {c : Conn σ} (hx : Clean c₀ bad x Q)
    (h : x = .error (e, c)) : bad e ∧ c = c₀ := by
  rw [h] at hx
  exact hx

/-- What is known after a normal end. -/
theorem Clean.of_ok {x : Except (ε × Conn σ) α} {a : α} (hx : Clean c₀ bad x Q) (h : x = .ok a) :
    Q a := by
  rw [h] at hx
  exact hx

end Txn
