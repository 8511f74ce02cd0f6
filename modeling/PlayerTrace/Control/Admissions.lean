import PlayerTrace.Control.Passes
import PlayerTrace.Custody.Capacity

/-!
# The admission lock, seen from outside

The session record, the last ordinal, the list of accepted events, the lifecycle and the
consent state are all protected by the admission lock. Inside it a producer moves by
`PlayerTrace.Client.admitStep`; what *any other* step can do to these is said once, by
`PlayerTrace.Beside`: nothing, but for the lock itself changing hands and for what the
revocation that holds it does. The worker and the purges only ever give capacity back.
-/

namespace PlayerTrace

/-- How a caller enters the admission lock, and what it has read by then. -/
inductive Enters (s : State) (t : Tid) : AdmitPc → Prop
  | start {playerId : String} (hc : s.callers t = .startLock playerId)
      (hrun : s.client.lifecycle = .running) (hcons : s.pipeline.consent = .granted) :
      Enters s t (.startTerminal playerId)
  | finish (hc : s.callers t = .endLock) (hrun : s.client.lifecycle = .running) :
      Enters s t .endTerminal
  | track {name : String} {properties filtered : Properties} {generation : Nat}
      (hc : s.callers t = .trackLock name properties filtered generation)
      (hgen : s.pipeline.consentGeneration = generation) :
      Enters s t (.gate (.track name properties) name filtered)
  | flush (hc : s.callers t = .flushLock) (hrun : s.client.lifecycle = .running) :
      Enters s t .flushTerminal

/-- What the fields of the client may do in a step outside the admission lock. -/
structure Outside (s s' : State) : Prop where
  /-- The lock changes hands, or does not. -/
  slot : s'.client.admission = s.client.admission ∨
    (s.client.admission = .free ∧ s'.client.admission = .consent) ∨
    (s.client.admission = .consent ∧ s'.client.admission = .free) ∨
    ∃ t pc, s.client.admission = .free ∧ s'.client.admission = .producer t pc ∧
      Enters s t pc ∧ s'.callers t = .admitting
  session : s'.client.session = s.client.session ∨
    (s.client.admission = .consent ∧ s'.client.admission = .consent ∧
      s'.client.session = s.client.session.deactivate)
  generation : s'.pipeline.consentGeneration = s.pipeline.consentGeneration ∨
    (s.client.admission = .consent ∧ s'.client.admission = .consent ∧
      s'.pipeline.consentGeneration = s.pipeline.consentGeneration + 1)
  lifecycle : s'.client.lifecycle = s.client.lifecycle ∨ s.client.admission = .free
  consent : s'.pipeline.consent = s.pipeline.consent ∨ s.client.admission = .free
  used : s'.history.used = s.history.used
  terminated : s.pipeline.terminated = true → s'.pipeline.terminated = true

/-- **What a step outside the admission lock can do.** -/
structure Beside (s s' : State) : Prop extends Outside s s' where
  accepted : s'.history.accepted = s.history.accepted
  ordinal : s'.client.ordinal = s.client.ordinal
  counted : s'.pipeline.stats.accepted = s.pipeline.stats.accepted
  queue : s'.pipeline.queue.Sublist s.pipeline.queue
  outstanding : s'.pipeline.outstanding ≤ s.pipeline.outstanding

variable {env : Env} {i : Input} {s s' : State} {t : Tid}

/-! ### What custody says about it -/

namespace Custody

variable {c c' : Custody}

/-- Unless the producer inside the lock moves, its ledger stays and capacity is only given
back. -/
theorem Step.producer_cases (hs : Step env c c') (hb : Bounded env c)
    (hentry : c'.entry = c.entry ∨ c.entry = .out ∨ c.entry = .locked) :
    c'.history.accepted = c.history.accepted ∧ c'.ordinal = c.ordinal ∧
      c'.counts.accepted = c.counts.accepted ∧ c'.queue.Sublist c.queue ∧
      c'.outstanding ≤ c.outstanding := by
  have habsurd : ∀ {P : Prop}, c.entry ≠ .out → c.entry ≠ .locked → c'.entry ≠ c.entry → P :=
    fun h₁ h₂ h₃ => absurd hentry (by simp [h₁, h₂, h₃])
  cases hs with
  | drain n => exact ⟨rfl, rfl, rfl, List.drop_sublist _ _, Nat.le_refl _⟩
  | clear => exact ⟨rfl, rfl, rfl, List.nil_sublist _, Nat.le_refl _⟩
  | count =>
    refine ⟨rfl, rfl, ?_, List.Sublist.refl _, by simp only [release_eq]; omega⟩
    cases c.due <;> rfl
  | countCleared | countDiscarded =>
    exact ⟨rfl, rfl, rfl, List.Sublist.refl _, by simp only [release_eq]; omega⟩
  | reset h =>
    refine ⟨rfl, rfl, rfl, List.Sublist.refl _, ?_⟩
    rw [hb.reset _ h]
    exact Nat.zero_le _
  | settle => exact ⟨rfl, rfl, rfl, List.Sublist.refl _, Nat.zero_le _⟩
  | build h | reserve h | push _ h | undo h | countAccepted h =>
    exact habsurd (by simp [h]) (by simp [h]) (by simp [h])
  | _ => exact ⟨rfl, rfl, rfl, List.Sublist.refl _, Nat.le_refl _⟩

end Custody

/-- A step outside the lock, from what it does to the fields of the client. -/
theorem Outside.beside {l : Label} (h : Outside s s') (hr : (machine env).Reach s)
    (hs : step env s l = some s') : Beside s s' := by
  have hentry : (custody s').entry = (custody s).entry ∨ (custody s).entry = .out ∨
      (custody s).entry = .locked := by
    rcases h.slot with heq | ⟨hfree, -⟩ | ⟨hcons, -⟩ | ⟨-, -, hfree, -⟩
    · exact Or.inl (congrArg entryOf heq)
    · exact Or.inr (Or.inl (congrArg entryOf hfree))
    · exact Or.inr (Or.inr (congrArg entryOf hcons))
    · exact Or.inr (Or.inl (congrArg entryOf hfree))
  rcases step_moves hs with heq | hm
  · exact ⟨h, congrArg (fun c => c.history.accepted) heq, congrArg Custody.ordinal heq,
      congrArg (fun c => c.counts.accepted) heq,
      by rw [show s'.pipeline.queue = s.pipeline.queue from congrArg Custody.queue heq],
      Nat.le_of_eq (congrArg Custody.outstanding heq)⟩
  · obtain ⟨hacc, hord, hcount, hqueue, hout⟩ :=
      hm.producer_cases (Custody.bounded_of_reachable (custody_reachable hr)) hentry
    exact ⟨h, hacc, hord, hcount, hqueue, hout⟩

/-! ### The worker -/

/-- What the worker has no part in. -/
structure Foreign (s s' : State) : Prop where
  client : s'.client = s.client
  generation : s'.pipeline.consentGeneration = s.pipeline.consentGeneration
  consent : s'.pipeline.consent = s.pipeline.consent
  used : s'.history.used = s.history.used
  terminated : s.pipeline.terminated = true → s'.pipeline.terminated = true

theorem Foreign.outside (h : Foreign s s') : Outside s s' where
  slot := Or.inl (by rw [h.client])
  session := Or.inl (by rw [h.client])
  generation := Or.inl h.generation
  lifecycle := Or.inl (by rw [h.client])
  consent := Or.inl h.consent
  used := h.used
  terminated := h.terminated

namespace Worker

theorem foreign_remainsDone {x : State} (h : Foreign s x) (r : Remains) (why : Option Status) :
    Foreign s (remainsDone x r why) := by
  cases r <;> cases why <;> exact ⟨h.1, h.2, h.3, h.4, h.5⟩

theorem foreign_enterRemains {x : State} (h : Foreign s x) (r : Remains) :
    Foreign s (enterRemains x r) := by
  unfold enterRemains
  split
  · exact foreign_remainsDone h r none
  · exact ⟨h.1, h.2, h.3, h.4, h.5⟩

theorem foreign_afterDelivery {x : State} (h : Foreign s x) (d : Bool) :
    Foreign s (afterDelivery x d) := by
  unfold afterDelivery
  split
  · exact ⟨h.1, h.2, h.3, h.4, h.5⟩
  · split
    · exact ⟨h.1, h.2, h.3, h.4, h.5⟩
    · exact foreign_enterRemains h .loop

theorem foreign_afterPurge {x : State} (h : Foreign s x) (site : PurgeSite) :
    Foreign s (afterPurge x site) := by
  cases site with
  | incoming => exact ⟨h.1, h.2, h.3, h.4, h.5⟩
  | delivery d => exact foreign_afterDelivery h d

theorem foreign_afterFetch {x : State} (h : Foreign s x) (d : Bool) (seen : Nat)
    (events : List SerializedEvent) : Foreign s (afterFetch x d seen events) := by
  unfold afterFetch
  split
  · exact foreign_afterDelivery h d
  · exact ⟨h.1, h.2, h.3, h.4, h.5⟩

theorem foreign_reportFetch {x : State} (h : Foreign s x) (d : Bool) (seen : Nat)
    (pending : FetchResult) : Foreign s (reportFetch x d seen pending) := by
  unfold reportFetch
  split
  · exact ⟨h.1, h.2, h.3, h.4, h.5⟩
  · exact foreign_afterFetch h d seen pending.events

theorem execute_foreign (h : execute env i s = some s') : Foreign s s' := by
  have hs : Foreign s s := ⟨rfl, rfl, rfl, rfl, id⟩
  unfold execute at h
  cases hpc : s.frame.pc <;> simp only [hpc] at h
  case exited => cases h
  case takeRetry =>
    simp only [takeRetry] at h
    split at h
    · obtain rfl := Option.some.inj h
      split <;> exact ⟨rfl, rfl, rfl, rfl, id⟩
    · cases h
  case holdForRetry =>
    simp only [holdForRetry] at h
    split at h
    · obtain rfl := Option.some.inj h
      exact ⟨rfl, rfl, rfl, rfl, id⟩
    split at h
    · obtain rfl := Option.some.inj h
      exact ⟨rfl, rfl, rfl, rfl, id⟩
    · cases h
  case remainsRetry r =>
    simp only [remainsRetry] at h
    split at h
    · obtain rfl := Option.some.inj h
      split
      · exact foreign_remainsDone hs r _
      · exact ⟨rfl, rfl, rfl, rfl, id⟩
    · cases h
  all_goals obtain rfl := Option.some.inj h
  case serialize v k l =>
    cases l with
    | nil => simp only [serialize]; split <;> exact ⟨rfl, rfl, rfl, rfl, id⟩
    | cons e l =>
      simp only [serialize]
      split
      · exact ⟨rfl, rfl, rfl, rfl, id⟩
      · split <;> exact ⟨rfl, rfl, rfl, rfl, id⟩
  case checkConsent => unfold checkConsent; split <;> exact ⟨rfl, rfl, rfl, rfl, id⟩
  case boundaryConsent => unfold boundaryConsent; split <;> exact ⟨rfl, rfl, rfl, rfl, id⟩
  case boundaryGeneration => unfold boundaryGeneration; split <;> exact ⟨rfl, rfl, rfl, rfl, id⟩
  case insert => simp only [insert]; split <;> exact ⟨rfl, rfl, rfl, rfl, id⟩
  case deliverConsent => unfold deliverConsent; split <;> exact ⟨rfl, rfl, rfl, rfl, id⟩
  case fetch d seen =>
    simp only [fetch]
    split
    · exact ⟨rfl, rfl, rfl, rfl, id⟩
    · refine foreign_reportFetch ?_ d seen _
      exact ⟨rfl, rfl, rfl, rfl, id⟩
  case countQuarantined d seen pending =>
    refine foreign_reportFetch ?_ d seen pending
    exact ⟨rfl, rfl, rfl, rfl, id⟩
  case noteFetch d seen pending =>
    refine foreign_afterFetch ?_ d seen _
    exact ⟨rfl, rfl, rfl, rfl, id⟩
  case recheckConsent => unfold recheckConsent; split <;> exact ⟨rfl, rfl, rfl, rfl, id⟩
  case write => simp only [write]; split <;> exact ⟨rfl, rfl, rfl, rfl, id⟩
  case noteWrite d written =>
    refine foreign_afterDelivery ?_ d
    exact ⟨rfl, rfl, rfl, rfl, id⟩
  case postConsent => unfold postConsent; split <;> exact ⟨rfl, rfl, rfl, rfl, id⟩
  case postGeneration => unfold postGeneration; split <;> exact ⟨rfl, rfl, rfl, rfl, id⟩
  case acknowledge => simp only [acknowledge]; split <;> exact ⟨rfl, rfl, rfl, rfl, id⟩
  case noteAck d ack =>
    refine foreign_afterDelivery ?_ d
    exact ⟨rfl, rfl, rfl, rfl, id⟩
  case purge site => simp only [purge]; split <;> exact ⟨rfl, rfl, rfl, rfl, id⟩
  case notePurge site purged =>
    refine foreign_afterPurge ?_ site
    exact ⟨rfl, rfl, rfl, rfl, id⟩
  case resetOutstanding site n =>
    refine foreign_afterPurge ?_ site
    exact ⟨rfl, rfl, rfl, rfl, id⟩
  case readBarrier =>
    refine foreign_enterRemains ?_ .loop
    exact ⟨rfl, rfl, rfl, rfl, id⟩
  case remainsQueue r =>
    unfold remainsQueue
    split
    · exact foreign_remainsDone hs r _
    · exact ⟨rfl, rfl, rfl, rfl, id⟩
  case remainsStore r =>
    unfold remainsStore
    split
    · exact foreign_remainsDone hs r _
    · split <;> exact foreign_remainsDone hs r _
  case stallCheck q =>
    unfold stallCheck
    split
    · exact ⟨rfl, rfl, rfl, rfl, id⟩
    · exact foreign_enterRemains hs .loop
  case flushSink => simp only [flushSink]; split <;> exact ⟨rfl, rfl, rfl, rfl, id⟩
  case takeOutcome =>
    refine foreign_enterRemains ?_ _
    exact ⟨rfl, rfl, rfl, rfl, id⟩
  case terminate => exact ⟨rfl, rfl, rfl, rfl, fun _ => rfl⟩
  case finish => simp only [finish]; exact ⟨rfl, rfl, rfl, rfl, id⟩
  case record => simp only [record]; exact ⟨rfl, rfl, rfl, rfl, id⟩
  all_goals exact ⟨rfl, rfl, rfl, rfl, id⟩

theorem step_foreign (h : step env i s = some s') : Foreign s s' := by
  unfold step at h
  split at h
  · cases h
  split at h
  · split at h
    · obtain rfl := Option.some.inj h
      exact ⟨rfl, rfl, rfl, rfl, id⟩
    · cases h
  · exact execute_foreign h

end Worker

/-! ### The callers -/

/-- A step that leaves the client's fields and the pipeline alone is outside. -/
theorem Outside.of_eq (hclient : s'.client = s.client) (hpipe : s'.pipeline = s.pipeline)
    (hused : s'.history.used = s.history.used) : Outside s s' :=
  Foreign.outside ⟨hclient, by rw [hpipe], by rw [hpipe], hused, by rw [hpipe]; exact id⟩

namespace Client

theorem consentStep_outside {st : ConsentState} {pc : ConsentPc} (hg : Custody.Gated (custody s))
    (hsec : s.client.consentSection = .held t st pc) (h : consentStep i s t st pc = some s') :
    Outside s s' := by
  have hadm : pc.inSection = true → s.client.admission = .consent := admission_of_section hg hsec
  cases pc with
  | store =>
    simp only [consentStep, store] at h
    split at h
    · cases h
    · rename_i hfree
      have hfree := not_not.mp hfree
      obtain rfl := Option.some.inj h
      exact ⟨Or.inr (Or.inl ⟨hfree, rfl⟩), Or.inl rfl, Or.inl rfl, Or.inl rfl, Or.inr hfree,
        rfl, id⟩
  | bump =>
    obtain rfl := Option.some.inj h
    exact ⟨Or.inl rfl, Or.inl rfl, Or.inr ⟨hadm rfl, hadm rfl, rfl⟩, Or.inl rfl, Or.inl rfl,
      rfl, id⟩
  | deactivate =>
    obtain rfl := Option.some.inj h
    exact ⟨Or.inl rfl, Or.inr ⟨hadm rfl, hadm rfl, rfl⟩, Or.inl rfl, Or.inl rfl, Or.inl rfl,
      rfl, id⟩
  | forget =>
    obtain rfl := Option.some.inj h
    exact ⟨Or.inr (Or.inr (Or.inl ⟨hadm rfl, rfl⟩)), Or.inl rfl, Or.inl rfl, Or.inl rfl, Or.inl rfl,
      rfl, id⟩
  | mark =>
    simp only [consentStep, mark] at h
    split at h
    · obtain rfl := Option.some.inj h
      split <;> exact ⟨Or.inl rfl, Or.inl rfl, Or.inl rfl, Or.inl rfl, Or.inl rfl, rfl, id⟩
    · cases h
  | purge =>
    simp only [consentStep, purge] at h
    split at h
    · obtain rfl := Option.some.inj h
      split <;> exact ⟨Or.inl rfl, Or.inl rfl, Or.inl rfl, Or.inl rfl, Or.inl rfl, rfl, id⟩
    · cases h
  | reset =>
    obtain rfl := Option.some.inj h
    simp only [reset]
    split <;> exact ⟨Or.inl rfl, Or.inl rfl, Or.inl rfl, Or.inl rfl, Or.inl rfl, rfl, id⟩
  | grant =>
    simp only [consentStep, grant] at h
    split at h
    · cases h
    · rename_i hfree
      obtain rfl := Option.some.inj h
      exact ⟨Or.inl rfl, Or.inl rfl, Or.inl rfl, Or.inl rfl, Or.inr (not_not.mp hfree), rfl, id⟩
  | clear | countCleared | discard | countDiscarded =>
    obtain rfl := Option.some.inj h
    exact ⟨Or.inl rfl, Or.inl rfl, Or.inl rfl, Or.inl rfl, Or.inl rfl, rfl, id⟩

/-- Taking the admission lock. -/
theorem lockAdmission_outside {pc : AdmitPc} (hfree : s.client.admission = .free)
    (he : Enters s t pc) : Outside s (lockAdmission s t pc) where
  slot := Or.inr (Or.inr (Or.inr ⟨t, pc, hfree, rfl, he, Function.update_self ..⟩))
  session := Or.inl rfl
  generation := Or.inl rfl
  lifecycle := Or.inl rfl
  consent := Or.inl rfl
  used := rfl
  terminated := id

/-- A change of the lifecycle needs the lock to be free. -/
theorem setLifecycle_outside {l : LifecycleState} {c : Caller}
    (hfree : s.client.admission = .free) :
    Outside s ((setLifecycle s l).move t c) :=
  ⟨Or.inl rfl, Or.inl rfl, Or.inl rfl, Or.inr hfree, Or.inl rfl, rfl, id⟩

/-- **Every step of a caller that is not inside the admission lock is outside it.** -/
theorem step_outside (hg : Custody.Gated (custody s)) (h : step env i s t = some s')
    (hc : s.callers t ≠ .admitting) : Outside s s' := by
  unfold step at h
  generalize hcall : s.callers t = caller at h hc
  cases caller with
  | idle => cases h
  | done o => cases h
  | admitting => exact absurd rfl hc
  | consenting =>
    dsimp only at h
    split at h
    · rename_i t' st pc hsec
      split at h
      · rename_i ht
        exact consentStep_outside hg (ht ▸ hsec) h
      · cases h
    · cases h
  | startLock p =>
    simp only [startLock] at h
    split at h
    · cases h
    rename_i hfree
    split at h
    · obtain rfl := Option.some.inj h
      exact .of_eq rfl rfl rfl
    rename_i hrun
    split at h
    · obtain rfl := Option.some.inj h
      exact .of_eq rfl rfl rfl
    · rename_i hcons
      obtain rfl := Option.some.inj h
      exact lockAdmission_outside (not_not.mp hfree)
        (.start hcall (not_not.mp hrun) (not_not.mp hcons))
  | endLock =>
    simp only [endLock] at h
    split at h
    · cases h
    rename_i hfree
    split at h
    · obtain rfl := Option.some.inj h
      exact .of_eq rfl rfl rfl
    · rename_i hrun
      obtain rfl := Option.some.inj h
      exact lockAdmission_outside (not_not.mp hfree) (.finish hcall (not_not.mp hrun))
  | trackLock name ps filtered g =>
    simp only [trackLock] at h
    split at h
    · cases h
    rename_i hfree
    split at h
    · obtain rfl := Option.some.inj h
      exact .of_eq rfl rfl rfl
    · rename_i hgen
      obtain rfl := Option.some.inj h
      exact lockAdmission_outside (not_not.mp hfree) (.track hcall (not_not.mp hgen))
  | flushLock =>
    simp only [flushLock] at h
    split at h
    · cases h
    rename_i hfree
    split at h
    · obtain rfl := Option.some.inj h
      exact .of_eq rfl rfl rfl
    · rename_i hrun
      obtain rfl := Option.some.inj h
      exact lockAdmission_outside (not_not.mp hfree) (.flush hcall (not_not.mp hrun))
  | shutdownLock d =>
    simp only [shutdownLock] at h
    split at h
    · cases h
    rename_i hfree
    split at h
    · obtain rfl := Option.some.inj h
      rw [shutdownDone_eq]
      exact .of_eq rfl rfl rfl
    · obtain rfl := Option.some.inj h
      exact setLifecycle_outside (not_not.mp hfree)
  | shutdownMark d st =>
    simp only [shutdownMark] at h
    split at h
    · cases h
    · rename_i hfree
      obtain rfl := Option.some.inj h
      exact setLifecycle_outside (not_not.mp hfree)
  | ownClose =>
    simp only [ownClose] at h
    split at h
    · cases h
    · rename_i hfree
      obtain rfl := Option.some.inj h
      split
      · exact setLifecycle_outside (not_not.mp hfree)
      · exact .of_eq rfl rfl rfl
  | exitMark =>
    simp only [exitMark] at h
    split at h
    · cases h
    · rename_i hfree
      obtain rfl := Option.some.inj h
      split
      · exact setLifecycle_outside (not_not.mp hfree)
      · exact .of_eq rfl rfl rfl
  | trackEnter name ps =>
    obtain rfl := Option.some.inj h
    unfold trackEnter
    dsimp only
    repeat' split
    all_goals exact .of_eq rfl rfl rfl
  | shutdownTerminal d persist =>
    obtain rfl := Option.some.inj h
    unfold shutdownTerminal
    repeat' split
    all_goals
      rw [shutdownDone_eq]
      exact .of_eq rfl rfl rfl
  | trackFilter | shutdownCancel | shutdownBarrier | shutdownToken | shutdownStop | destroyStop
  | destroyCancel | ownStop =>
    obtain rfl := Option.some.inj h
    exact .of_eq rfl rfl rfl
  | flushWait | shutdownOrdinal | shutdownWait | shutdownJoin | destroyJoin | exitJoin
  | consentLock =>
    -- a wait: its step is taken in one of the branches only
    simp only [flushWait, shutdownOrdinal, shutdownWait, shutdownJoin, destroyJoin, exitJoin,
      consentLock] at h
    repeat' split at h
    all_goals first
      | cases h; done
      | obtain rfl := Option.some.inj h; first
          | exact ⟨Or.inl rfl, Or.inl rfl, Or.inl rfl, Or.inl rfl, Or.inl rfl, rfl, id⟩
          | rw [shutdownDone_eq]; exact .of_eq rfl rfl rfl

theorem call_outside {op : Op} (h : call env s t op = some s') : Outside s s' := by
  unfold call at h
  split at h
  · cases h
  cases op with
  | destroy =>
    dsimp only at h
    split at h
    · cases h
    · obtain rfl := Option.some.inj h
      exact .of_eq rfl rfl rfl
  | startSession | flush | shutdown | waitForWorkerExit =>
    obtain rfl := Option.some.inj h
    split <;> exact .of_eq rfl rfl rfl
  | endSession | track | setConsent =>
    obtain rfl := Option.some.inj h
    exact .of_eq rfl rfl rfl

end Client

/-- **A step of a client is outside the admission lock, or of the producer inside it.** -/
theorem admission_of_step {l : Label} (hr : (machine env).Reach s) (h : step env s l = some s') :
    Beside s s' ∨ ∃ t i pc, l = .caller t i ∧ s.callers t = .admitting ∧
      s.client.admission = .producer t pc ∧ Client.admitStep env i s t pc = some s' := by
  have hg := Custody.gated_of_reachable (custody_reachable hr)
  cases l with
  | worker i => exact Or.inl ((Worker.step_foreign h).outside.beside hr h)
  | call t op => exact Or.inl ((Client.call_outside h).beside hr h)
  | caller t i =>
    by_cases hc : s.callers t = .admitting
    · refine Or.inr ?_
      have hstep : Client.step env i s t = some s' := h
      simp only [Client.step, hc] at hstep
      split at hstep
      · rename_i t' pc hadm
        split at hstep
        · rename_i ht
          exact ⟨t, i, pc, rfl, hc, ht ▸ hadm, hstep⟩
        · cases hstep
      · cases hstep
    · exact Or.inl ((Client.step_outside hg h hc).beside hr h)

/-- A terminal status is never taken back. -/
theorem terminal_of_step {l : Label} (h : step env s l = some s')
    (hi : s.core.terminalStatus.ok = false) : s'.core.terminalStatus.ok = false := by
  have hraised : (custody s).raised = true := congrArg (!·) hi
  suffices (custody s').raised = true by simpa [custody] using this
  rcases step_moves h with heq | hm
  · rwa [heq]
  · by_contra hne
    exact absurd (hm.raised_mono (Bool.eq_false_iff.mpr hne)) (by simp [hraised])

end PlayerTrace
