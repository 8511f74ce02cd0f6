import PlayerTrace.Lib.Machine

/-!
# Progress

Two arguments about machines whose steps several agents take.

*Nobody waits for ever on a ring.* When every agent that has something to do can do it, or
waits for another agent of a lower rank that has something to do, a chain of waits from any of
them ends at one that can move (`Lts.exists_able`).

*A descent that nothing can stop.* When an agent can always take its next step, whatever the
environment answers, and each step lowers a measure until a goal is reached, it reaches the
goal with as many answers as the measure says (`Lts.Machine.exec_descends`).
-/

namespace Lts

/-- **A chain of waits ends at somebody who can move**: everybody who has something to do can
do it, or waits for somebody of a lower rank. -/
theorem exists_able {α : Type*} {Waits : α → α → Prop} {busy able : α → Prop} (rank : α → Nat)
    (h : ∀ a, busy a → able a ∨ ∃ b, Waits a b ∧ busy b ∧ rank b < rank a) {a : α}
    (ha : busy a) : ∃ b, Relation.ReflTransGen Waits a b ∧ busy b ∧ able b := by
  -- by strong induction on the rank
  induction hn : rank a using Nat.strongRecOn generalizing a with
  | _ n ih =>
    rcases h a ha with hable | ⟨b, hab, hb, hlt⟩
    · exact ⟨a, .refl, ha, hable⟩
    · obtain ⟨c, hbc, hc, hable⟩ := ih (rank b) (hn ▸ hlt) hb rfl
      exact ⟨c, .head hab hbc, hc, hable⟩

namespace Machine

variable {σ Λ ι α : Type*} {M : Machine σ Λ} {s : σ} {obs : σ → Λ → List α} {p : σ × List α}

/-- **The invariant rule for a run and its record**, from a reachable state. -/
theorem Reach.observed_run_rule {P : σ → List α → Prop} (hr : M.Reach s)
    (hstep : ∀ s w l s', M.Reach s → P s w → M.step s l = some s' → P s' (w ++ obs s l))
    (h : (M.observed obs).Run (s, []) p) (hs : P s []) : P p.1 p.2 := by
  have key : M.Reach p.1 ∧ P p.1 p.2 := by
    induction h with
    | refl => exact ⟨hr, hs⟩
    | tail _ hnext ih =>
      obtain ⟨l, -, hl⟩ := hnext
      obtain ⟨hl, hw⟩ := observed_step hl
      rw [hw]
      exact ⟨ih.1.step hl, hstep _ _ _ _ ih.1 ih.2 hl⟩
  exact key.2

/-- **The descent rule**: where `P` holds and the goal is not reached, a step with any answer
of the environment is defined, keeps `P` and lowers `Φ`; so the goal is reached with no more
answers than `Φ`, whatever they are. -/
theorem exec_descends {P goal : σ → Prop} {ok : ι → Prop} {Φ : σ → Nat} (label : ι → Λ)
    (hstep : ∀ s i, P s → ¬goal s → ok i →
      ∃ s', M.step s (label i) = some s' ∧ P s' ∧ Φ s' < Φ s)
    (inputs : List ι) (hok : ∀ i ∈ inputs, ok i) (hs : P s) (hlen : Φ s ≤ inputs.length) :
    ∃ used s', used <+: inputs ∧ M.exec s (used.map label) = some s' ∧ P s' ∧
      (goal s' ∨ Φ s' = 0) := by
  induction inputs generalizing s with
  | nil => exact ⟨[], s, List.prefix_rfl, rfl, hs, Or.inr (Nat.le_zero.mp hlen)⟩
  | cons i inputs ih =>
    by_cases hgoal : goal s
    · exact ⟨[], s, List.nil_prefix, rfl, hs, Or.inl hgoal⟩
    · obtain ⟨s₁, hs₁, hP, hlt⟩ := hstep s i hs hgoal (hok i List.mem_cons_self)
      rw [List.length_cons] at hlen
      obtain ⟨used, s', hused, hexec, hend⟩ :=
        ih (fun j hj => hok j (List.mem_cons_of_mem i hj)) hP (by omega)
      refine ⟨i :: used, s', (List.prefix_cons_inj i).mpr hused, ?_, hend⟩
      rw [List.map_cons, exec, hs₁]
      exact hexec

end Machine

end Lts
