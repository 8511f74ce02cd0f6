import PlayerTrace.Control.Exits

/-!
# While consent is granted

A revocation begins by withdrawing consent, and a grant ends by giving it. In between the
consent is not granted, so from a state in which it is, the only steps a caller can take
are those of a producer, of a shutdown, and the two ends of a consent change. None of them
touches the store, the retry buffer, the generation or what the worker has done; the queue
may grow by one event at its back (`PlayerTrace.Consented`).
-/

namespace PlayerTrace

namespace Custody

variable {env : Env} {c c' : Custody}

/-- What only the worker and a revocation touch, and how a producer extends the queue. -/
structure Left (c c' : Custody) : Prop where
  store : c'.store = c.store
  generation : c'.generation = c.generation
  retry : c'.retry = c.retry
  queue : (c'.queue = c.queue ∧ c'.history.accepted = c.history.accepted) ∨
    ∃ e origin, c.entry = .reserved e ∧ c'.queue = c.queue ++ [e] ∧
      c'.history.accepted = c.history.accepted ++ [⟨e, origin⟩]
  acked : c'.history.acked = c.history.acked
  discarded : c'.history.discarded = c.history.discarded
  purged : c'.history.purged = c.history.purged
  dropped : c'.history.dropped = c.history.dropped
  lost : c'.history.lost = c.history.lost
  droppedInvalid : c'.counts.droppedInvalid = c.counts.droppedInvalid

/-- **A move that is not the worker's, under consent.** -/
theorem Step.left (hs : Step env c c') (hi : Gated c) (hc : c.consent = .granted)
    (hstage : c'.stage = c.stage) (hdue : c'.due = c.due) : Left c c' := by
  -- a revocation that holds the lock, or owes a purge, has withdrawn consent
  have hno : ∀ {st pc}, c.revocation = some (st, pc) → pc.inSection = true ∨ pc.owes = true →
      False := fun h hpc => (hi.holder _ _ h).2.2.1 hpc hc
  cases hs with
  | drain n h | takeNothing h | takeRetry h | read h | refuse h | stale h | drop h | keep _ h
  | keptNothing h | guard h | pass h | commit h | insertFailed h | hold h | look h | readAgain h
  | send h | notSent h | sent h | notAcknowledged h | acknowledge h | outdated h | purge h
  | notPurged h | reset h => simp [h] at hstage
  | refuseKept hd => simp [hd] at hdue
  | count hd => exact absurd hdue.symm hd
  | @fetch seen n db read h =>
    rcases Stage.offered_cases seen ((read.filter (Row.usable env.isValidJson)).map Row.serialized)
      with ⟨-, heq⟩ | ⟨-, heq⟩
    · simp [h, heq] at hstage
    · simp [h, heq] at hstage
  | refuseDelivery h =>
    have hpurging : Stage.purging = c.stage := hstage
    rw [← hpurging] at h
    cases h
  | raise =>
    have hidle : Stage.idle = c.stage := hstage
    exact ⟨rfl, rfl, rfl, Or.inl ⟨rfl, rfl⟩, rfl, rfl, rfl, rfl,
      by simp [← hidle, Stage.hands], rfl⟩
  | push _ h =>
    exact ⟨rfl, rfl, rfl, Or.inr ⟨_, _, h, rfl, rfl⟩, rfl, rfl, rfl, rfl, rfl, rfl⟩
  | bump h | clear h | countCleared h | owe h | discardRetry h | countDiscarded h | unlock h =>
    exact (hno h (Or.inl rfl)).elim
  | mark h | purgeAll h | settle h => exact (hno h (Or.inr rfl)).elim
  | fail h => exact h.elim (fun h => (hno h (Or.inr rfl)).elim) fun h => (hno h (Or.inr rfl)).elim
  | identify | gate | check | giveUp | build | reserve | overflow | undo | countAccepted | enter
  | revoke | grant => exact ⟨rfl, rfl, rfl, Or.inl ⟨rfl, rfl⟩, rfl, rfl, rfl, rfl, rfl, rfl⟩

end Custody

variable {env : Env} {s s' : State}

/-- What a caller's step leaves alone while consent is granted. -/
structure Consented (s s' : State) : Prop where
  frame : s'.frame = s.frame
  written : s'.log.written = s.log.written
  errors : Forgets s s'
  left : Custody.Left (custody s) (custody s')

/-- **Every step under consent** is one of the worker, or leaves all this alone. -/
theorem consented_of_step {l : Label} (hr : (machine env).Reach s)
    (hc : s.pipeline.consent = .granted) (h : step env s l = some s') :
    (∃ i, l = .worker i ∧ Worker.step env i s = some s') ∨
      ((∀ i, l ≠ .worker i) ∧ Consented s s') := by
  rcases course_of_step hr h with hw | ⟨t, ht, ha, hco⟩
  · exact Or.inl hw
  · refine Or.inr ⟨fun i hl => by simp [hl, Label.thread] at ht, ha.frame, ha.written,
      hco.errors, ?_⟩
    rcases step_moves h with heq | hm
    · rw [heq]
      exact ⟨rfl, rfl, rfl, Or.inl ⟨rfl, rfl⟩, rfl, rfl, rfl, rfl, rfl, rfl⟩
    · refine hm.left (Custody.gated_of_reachable (custody_reachable hr)) hc ?_ ?_
      · exact congrArg (fun f => stageOf f.pc) ha.frame
      · exact congrArg (fun f => dueOf f.pc) ha.frame

end PlayerTrace
