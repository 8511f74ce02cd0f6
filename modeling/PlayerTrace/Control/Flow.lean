import PlayerTrace.Control.Turns

/-!
# Where the worker goes

What a statement of the worker decides by where it goes, said once for all statements
(`PlayerTrace.Flow`):

* the worker *binds* itself to a deed – an insertion, a write, an acknowledgment – only where it
  has just seen that consent is granted (`PlayerTrace.WorkerPc.bound`);
* it comes to the head of its loop only from the check of the stop flag, and to the pop only from
  the head, with the tokens it has latched there (`PlayerTrace.WorkerPc.opening`).

All other statements lead to *inert* points, where neither is the case.
-/

namespace PlayerTrace

/-- What the worker does with events, beyond its own memory. -/
inductive Deed
  | insert (kept : List Kept)
  | write (batch : List SerializedEvent)
  | acknowledge (batch : List SerializedEvent)

/-- The deed the worker is bound to: it is past the last consent check before it. -/
def WorkerPc.bound : WorkerPc → Option Deed
  | .boundaryGeneration _ k | .insert _ k => some (.insert k)
  | .write _ _ b => some (.write b)
  | .postGeneration _ _ b | .acknowledge _ b => some (.acknowledge b)
  | _ => none

/-- The deed a statement of the worker does. -/
def WorkerPc.deed : WorkerPc → Option Deed
  | .insert _ k => some (.insert k)
  | .write _ _ b => some (.write b)
  | .acknowledge _ b => some (.acknowledge b)
  | _ => none

/-- The points of an iteration up to the pop. -/
def WorkerPc.opening : WorkerPc → Bool
  | .start | .latch | .clearError | .pop => true
  | _ => false

/-- The tokens of the iteration are latched, and the queue has not been popped. -/
def WorkerPc.latched : WorkerPc → Bool
  | .clearError | .pop => true
  | _ => false

/-- Points that neither bind the worker nor open an iteration. -/
def WorkerPc.inert (pc : WorkerPc) : Bool := pc.bound.isNone && !pc.opening

/-- **Where a statement leads.** -/
structure Flow (s s' : State) : Prop where
  bound : s.pipeline.consent ≠ .granted → s'.frame.pc.bound = none ∨
    s'.frame.pc.bound = s.frame.pc.bound ∧ s.frame.pc.deed = none
  opening : s'.frame.pc.opening = true →
    (s.frame.pc.opening = true ∧ s.frame.pc ≠ .pop) ∨
      (s.frame.pc = .checkStop ∧ s.core.stop = false)
  latched : s'.frame.pc.latched = true → s' = Worker.latch s ∨
    s.frame.pc.latched = true ∧ s'.frame = { s.frame with pc := s'.frame.pc }

variable {env : Env} {i : Input} {s s' : State}

theorem WorkerPc.opening_of_latched {pc : WorkerPc} (h : pc.latched = true) :
    pc.opening = true := by
  cases pc with
  | clearError | pop => rfl
  | _ => cases h

/-- A statement that opens no iteration. -/
theorem Flow.of_bound (ho : s'.frame.pc.opening = false)
    (hb : s.pipeline.consent ≠ .granted → s'.frame.pc.bound = none ∨
      s'.frame.pc.bound = s.frame.pc.bound ∧ s.frame.pc.deed = none) : Flow s s' := by
  refine ⟨hb, fun h => ?_, fun h => ?_⟩
  · rw [ho] at h
    cases h
  · rw [WorkerPc.opening_of_latched h] at ho
    cases ho

theorem Flow.of_inert (h : s'.frame.pc.inert = true) : Flow s s' := by
  rw [WorkerPc.inert, Bool.and_eq_true, Option.isNone_iff_eq_none, Bool.not_eq_true'] at h
  exact .of_bound h.2 fun _ => Or.inl h.1

namespace Worker

theorem inert_remainsDone (r : Remains) (why : Option Status) :
    (remainsDone s r why).frame.pc.inert = true := by
  cases r with
  | loop => cases why <;> rfl
  | residual o => cases why <;> rfl

theorem inert_enterRemains (r : Remains) : (enterRemains s r).frame.pc.inert = true := by
  unfold enterRemains
  split
  · exact inert_remainsDone r none
  · rfl

theorem inert_afterDelivery (d : Bool) : (afterDelivery s d).frame.pc.inert = true := by
  unfold afterDelivery
  split
  · rw [State.goto]
    split <;> rfl
  · split
    · rfl
    · exact inert_enterRemains .loop

theorem inert_afterPurge (site : PurgeSite) : (afterPurge s site).frame.pc.inert = true := by
  cases site with
  | incoming => rfl
  | delivery d => exact inert_afterDelivery d

theorem inert_afterFetch (d : Bool) (seen : Nat) (events : List SerializedEvent) :
    (afterFetch s d seen events).frame.pc.inert = true := by
  unfold afterFetch
  split
  · exact inert_afterDelivery d
  · rfl

theorem inert_reportFetch (d : Bool) (seen : Nat) (pending : FetchResult) :
    (reportFetch s d seen pending).frame.pc.inert = true := by
  unfold reportFetch
  split
  · rfl
  · exact inert_afterFetch d seen _

/-- **Where each statement leads.** -/
theorem flow_of_execute (h : execute env i s = some s') : Flow s s' := by
  unfold execute at h
  generalize hpc : s.frame.pc = pc at h
  cases pc with
  | start =>
    obtain rfl := Option.some.inj h
    refine ⟨fun _ => Or.inl rfl, fun _ => Or.inl ⟨by rw [hpc]; rfl, ?_⟩, fun hl => by cases hl⟩
    rw [hpc]
    exact WorkerPc.noConfusion
  | latch =>
    obtain rfl := Option.some.inj h
    refine ⟨fun _ => Or.inl ?_, fun _ => Or.inl ⟨by rw [hpc]; rfl, ?_⟩, fun _ => Or.inl rfl⟩
    · dsimp only [latch]
      split <;> rfl
    · rw [hpc]
      exact WorkerPc.noConfusion
  | clearError =>
    obtain rfl := Option.some.inj h
    refine ⟨fun _ => Or.inl rfl, fun _ => Or.inl ⟨by rw [hpc]; rfl, ?_⟩,
      fun _ => Or.inr ⟨by rw [hpc]; rfl, rfl⟩⟩
    rw [hpc]
    exact WorkerPc.noConfusion
  | checkStop =>
    obtain rfl := Option.some.inj h
    unfold checkStop
    cases hstop : s.core.stop with
    | true => exact .of_inert rfl
    | false => exact ⟨fun _ => Or.inl rfl, fun _ => Or.inr ⟨hpc, hstop⟩, fun hl => by cases hl⟩
  -- the two generation checks leave the worker bound as it was
  | boundaryGeneration v k =>
    obtain rfl := Option.some.inj h
    unfold boundaryGeneration
    split
    · exact .of_inert rfl
    · exact .of_bound rfl fun _ => Or.inr ⟨by rw [hpc]; rfl, by rw [hpc]; rfl⟩
  | postGeneration d v b =>
    obtain rfl := Option.some.inj h
    unfold postGeneration
    split
    · exact .of_inert rfl
    · exact .of_bound rfl fun _ => Or.inr ⟨by rw [hpc]; rfl, by rw [hpc]; rfl⟩
  -- the consent checks bind it
  | boundaryConsent v k =>
    obtain rfl := Option.some.inj h
    unfold boundaryConsent
    split
    · exact .of_inert rfl
    · rename_i hgr
      exact .of_bound rfl fun hc => absurd hc hgr
  | recheckConsent d seen v b =>
    obtain rfl := Option.some.inj h
    unfold recheckConsent
    split
    · exact .of_inert rfl
    · rename_i hgr
      exact .of_bound rfl fun hc => absurd hc hgr
  | postConsent d v b =>
    obtain rfl := Option.some.inj h
    unfold postConsent
    split
    · exact .of_inert rfl
    · rename_i hgr
      exact .of_bound rfl fun hc => absurd hc hgr
  | pop | readGeneration | countRevoked | countStale | countInvalid
  | countBoundary | noteInsert | countPersisted | deliverGeneration | countDelivered | queueBefore
  | popMore | noteFlushSink | record | terminate | reportTerminal | finish =>
    obtain rfl := Option.some.inj h
    exact .of_inert rfl
  | noteWrite d st | noteAck d st =>
    obtain rfl := Option.some.inj h
    exact .of_inert (inert_afterDelivery d)
  | notePurge site | resetOutstanding site =>
    obtain rfl := Option.some.inj h
    exact .of_inert (inert_afterPurge site)
  | countQuarantined d seen p =>
    obtain rfl := Option.some.inj h
    exact .of_inert (inert_reportFetch d seen p)
  | noteFetch d seen p =>
    obtain rfl := Option.some.inj h
    exact .of_inert (inert_afterFetch d seen _)
  | fetch d seen =>
    obtain rfl := Option.some.inj h
    unfold fetch
    dsimp only
    split
    · exact .of_inert rfl
    · exact .of_inert (inert_reportFetch d seen _)
  | readBarrier | takeOutcome =>
    obtain rfl := Option.some.inj h
    exact .of_inert (inert_enterRemains _)
  | checkConsent | deliverConsent | insert | write | acknowledge | purge | flushSink | stopped =>
    obtain rfl := Option.some.inj h
    dsimp only [checkConsent, deliverConsent, insert, write, acknowledge, purge, flushSink, stopped,
      State.goto]
    split <;> exact .of_inert rfl
  | serialize v k l =>
    obtain rfl := Option.some.inj h
    cases l with
    | nil =>
      rw [serialize]
      split <;> exact .of_inert rfl
    | cons e l =>
      rw [serialize]
      split
      · exact .of_inert rfl
      · split <;> exact .of_inert rfl
  | takeRetry l =>
    dsimp only [takeRetry] at h
    split at h
    · obtain rfl := Option.some.inj h
      split <;> exact .of_inert rfl
    · cases h
  | holdForRetry l =>
    dsimp only [holdForRetry] at h
    split at h
    · obtain rfl := Option.some.inj h
      exact .of_inert rfl
    · split at h
      · obtain rfl := Option.some.inj h
        exact .of_inert rfl
      · cases h
  | remainsQueue r =>
    obtain rfl := Option.some.inj h
    unfold remainsQueue
    split
    · exact .of_inert (inert_remainsDone r _)
    · exact .of_inert rfl
  | remainsRetry r =>
    dsimp only [remainsRetry] at h
    split at h
    · obtain rfl := Option.some.inj h
      split
      · exact .of_inert (inert_remainsDone r _)
      · exact .of_inert rfl
    · cases h
  | remainsStore r =>
    obtain rfl := Option.some.inj h
    unfold remainsStore
    split
    · exact .of_inert (inert_remainsDone r _)
    · split <;> exact .of_inert (inert_remainsDone r _)
  | stallCheck q =>
    obtain rfl := Option.some.inj h
    unfold stallCheck
    split
    · exact .of_inert rfl
    · exact .of_inert (inert_enterRemains .loop)
  | exited => cases h

end Worker

end PlayerTrace
