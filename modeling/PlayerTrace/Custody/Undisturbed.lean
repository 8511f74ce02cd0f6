import PlayerTrace.Custody.Delivery

/-!
# Custody under consent that is never withdrawn

Why a row is not in the store any more: it was quarantined, acknowledged, or purged
(`PlayerTrace.Custody.Step.row_left`). The third needs a withdrawal of consent. As long as
consent is granted at every move, the generation stays what the worker has read, so neither
the worker nor anyone else gets to purge, and the marker of an owed purge is never set
(`PlayerTrace.Custody.Undisturbed`).
-/

namespace PlayerTrace

namespace Custody

variable {env : Env} {c c' : Custody}

/-- A revocation that holds the admission lock or owes a purge has withdrawn consent. -/
theorem Gated.elim {st : ConsentState} {pc : ConsentPc} (hi : Gated c) (hc : c.consent = .granted)
    (h : c.revocation = some (st, pc)) (hpc : pc.inSection = true ∨ pc.owes = true) : False :=
  (hi.holder st pc h).2.2.1 hpc hc

/-- **How a row leaves the store.** -/
theorem Step.row_left (hs : Step env c c') {r : Row} (hr : r ∈ c.rows) (hr' : r ∉ c'.rows) :
    ((∃ seen, c.stage = .looking seen) ∧ r.usable env.isValidJson = false) ∨
      (∃ b, c.stage = .acknowledging b ∧ ∃ x ∈ b, r.eventId = some x.eventId) ∨
      c.stage = .purging ∨ ∃ st, c.revocation = some (st, .purge) := by
  cases hs with
  | @commit v k db _ hev =>
    refine absurd ?_ hr'
    obtain ⟨new, hrows, -⟩ := c.store.view.events.insertAll_rows (k.map Kept.record)
    simp only [rows, Database.rows, hev, hrows]
    exact List.mem_append_left _ hr
  | @fetch seen n db read h _ _ hdb =>
    refine Or.inl ⟨⟨seen, h⟩, ?_⟩
    rcases hdb with ⟨rfl, -⟩ | ⟨hev, -, -⟩
    · exact absurd hr hr'
    · simp only [rows, Database.rows, hev, Events.mem_withoutRows, not_and, not_not] at hr'
      simpa using (List.mem_filter.mp (hr' hr)).2
  | @acknowledge b db n h _ hev =>
    refine Or.inr (Or.inl ⟨b, h, ?_⟩)
    simp only [rows, Database.rows, hev, Events.mem_without, not_and, not_forall, not_not] at hr'
    obtain ⟨id, hid, heq⟩ := hr' hr
    obtain ⟨x, hx, rfl⟩ := List.mem_map.mp hid
    exact ⟨x, hx, heq⟩
  | purge h => exact Or.inr (Or.inr (Or.inl h))
  | mark _ _ hev =>
    refine absurd ?_ hr'
    simpa only [rows, Database.rows, hev] using hr
  | purgeAll h => exact Or.inr (Or.inr (Or.inr ⟨_, h⟩))
  | _ => exact absurd hr hr'

/-- **Nobody has a reason to purge.** -/
structure Undisturbed (c : Custody) : Prop where
  stage : c.stage ≠ .purging
  view : ∀ v, c.stage.view = some v → v = c.generation
  marker : c.store.marker = false

theorem undisturbed_start (h : Start env c) : Undisturbed c where
  stage := by simp [h.stage]
  view := by simp [h.stage, Stage.view]
  marker := h.marker

/-- Under consent the generation stays. -/
theorem Step.generation_eq (hs : Step env c c') (hi : Gated c) (hc : c.consent = .granted) :
    c'.generation = c.generation := by
  rcases hs.consent_cases hi with hq | ⟨-, h, -⟩ | ⟨-, -, -, -, -, st, hrev⟩ | ⟨-, h, -⟩
  · exact hq.generation
  · exact h
  · exact (hi.elim hc hrev (Or.inl rfl)).elim
  · exact h

theorem undisturbed_step (hi : Undisturbed c) (hg : Gated c) (hc : c.consent = .granted)
    (hs : Step env c c') : Undisturbed c' where
  stage h := by
    rcases hs.purging_cases h with h | h | ⟨v, hv, hne⟩
    · exact hi.stage h
    · exact h hc
    · exact hne (hi.view v hv).symm
  view v hv := by
    rw [hs.generation_eq hg hc]
    rcases hs.view_cases hv with ⟨hv, -⟩ | rfl
    · exact hi.view v hv
    · rfl
  marker := by
    rcases hm : c'.store.marker
    · rfl
    · rcases hs.marker_cases hm with hm | ⟨st, hrev, -⟩
      · exact absurd (hi.marker.symm.trans hm) Bool.false_ne_true
      · exact (hg.elim hc hrev (Or.inr rfl)).elim

/-- Then a row leaves the store by a quarantine or an acknowledgment, and the batch of the
acknowledgment has it. -/
theorem Undisturbed.row_left (hi : Undisturbed c) (hr : Reachable env c) (hc : c.consent = .granted)
    (hs : Step env c c') {r : Row} (hmem : r ∈ c.rows) (hnot : r ∉ c'.rows) :
    ((∃ seen, c.stage = .looking seen) ∧ r.usable env.isValidJson = false) ∨
      ∃ b, c.stage = .acknowledging b ∧ r.serialized ∈ b := by
  rcases hs.row_left hmem hnot with h | ⟨b, hst, x, hx, hid⟩ | h | ⟨st, hrev⟩
  · exact Or.inl h
  · refine Or.inr ⟨b, hst, ?_⟩
    have hb : c.stage.batch = b := by rw [hst]; rfl
    rcases (batched_of_reachable hr).held with hnil | hheld
    · exact absurd hmem (by simp [hnil])
    · obtain ⟨r', hr', hu, rfl⟩ := hheld x (hb ▸ hx)
      obtain rfl := Events.eq_of_eventId hmem hr' hid (Row.eventId_of_usable hu)
      exact hx
  · exact absurd h hi.stage
  · exact ((gated_of_reachable hr).elim hc hrev (Or.inr rfl)).elim

end Custody

end PlayerTrace
