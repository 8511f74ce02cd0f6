import PlayerTrace.Control.Exits

/-!
# What calls return

The results a run gives to its callers, one after the other: a step returns if it leaves its
thread outside any call (`PlayerTrace.returns`). So that a run can be asked what it has told
its callers, and not only what it has done.
-/

namespace PlayerTrace

/-- The result a step has left its caller with. -/
def returned (s' : State) (l : Label) : List Outcome :=
  match l.thread.map s'.callers with
  | some (.done o) => [o]
  | _ => []

/-- **The results of a step.** -/
def returns (env : Env) (s : State) (l : Label) : List Outcome :=
  match step env s l with
  | some s' => returned s' l
  | none => []

variable {env : Env} {i : Input} {s s' : State} {l : Label} {t : Tid} {o : Outcome}

theorem returns_of_step (h : step env s l = some s') : returns env s l = returned s' l := by
  rw [returns, h]

/-- A caller that is not outside any call has not returned. -/
theorem returned_of_busy (hl : l.thread = some t) (h : (s'.callers t).free = false) :
    returned s' l = [] := by
  rw [returned, hl, Option.map_some]
  cases hc : s'.callers t with
  | done o => rw [hc] at h; cases h
  | _ => rfl

theorem returned_of_done (hl : l.thread = some t) (h : s'.callers t = .done o) :
    returned s' l = [o] := by
  rw [returned, hl, Option.map_some, h]

theorem mem_returned : o ∈ returned s' l ↔ ∃ t, l.thread = some t ∧ s'.callers t = .done o := by
  constructor
  · intro h
    unfold returned at h
    split at h
    · rename_i o' heq
      obtain ⟨t, ht, hc⟩ := Option.map_eq_some_iff.mp heq
      exact ⟨t, ht, List.mem_singleton.mp h ▸ hc⟩
    · exact absurd h List.not_mem_nil
  · rintro ⟨t, ht, hc⟩
    rw [returned_of_done ht hc]
    exact List.mem_singleton_self o

end PlayerTrace
