import PlayerTrace.Custody.Consent
import PlayerTrace.Refine.Client

/-!
# The control side of a client

Flushes, shutdowns and the worker's loop meet at a few fields that no event depends on:
the flush counters and their results, the stop flag, the lifecycle. `PlayerTrace.Desk`
gathers them. A caller's step hardly ever touches the desk; when it does, or when it
leaves the caller in a position that promises something about it, it is one of the turns
listed in `PlayerTrace.Turn`. Everything else a step can be – sessions, admissions, the
inside of a consent change – is a *plain* turn: the desk is as it was.
-/

namespace PlayerTrace

/-- The barrier a flush has submitted and not drawn a token for. -/
def ticketOf : Admission → Option Nat
  | .producer _ (.flushToken barrier) => some barrier
  | _ => none

/-- What flushes, shutdowns and the worker's loop share. -/
structure Desk where
  flushSeq : Nat
  flushBarrier : Nat
  passResults : List (Nat × Status)
  stop : Bool
  lifecycle : LifecycleState
  issued : List (Nat × Nat)
  ticket : Option Nat

/-- The desk of a client. -/
def desk (s : State) : Desk where
  flushSeq := s.core.flushSeq
  flushBarrier := s.core.flushBarrier
  passResults := s.core.passResults
  stop := s.core.stop
  lifecycle := s.client.lifecycle
  issued := s.log.issued
  ticket := ticketOf s.client.admission

namespace Caller

/-- A caller of `shutdown` or the destructor that has closed admission. -/
def closing : Caller → Bool
  | .shutdownCancel _ | .shutdownOrdinal _ | .shutdownBarrier .. | .shutdownToken ..
  | .shutdownWait .. | .shutdownStop .. | .shutdownJoin .. | .shutdownMark ..
  | .shutdownTerminal .. | .destroyStop | .destroyCancel | .destroyJoin | .ownStop => true
  | _ => false

/-- A caller that has seen the worker's thread end. -/
def joined : Caller → Bool
  | .shutdownMark .. | .shutdownTerminal .. | .exitMark => true
  | _ => false

/-- A position that promises nothing. -/
def plain : Caller → Bool
  | .done (.flushed ..) | .done (.consented ..) | .flushWait .. => false
  | .done (.status .shutdown status) => !status.ok
  | c => !c.closing && !c.joined

end Caller

/-- Where a finished `shutdown` leaves its caller. -/
def shutdownCaller (destroying : Bool) (status : Status) : Caller :=
  if destroying then .destroyStop else .done (.status .shutdown status)

/-- The barrier after one more was submitted. -/
def Desk.submitted (d : Desk) (barrier : Nat) : Nat :=
  if barrier > d.flushBarrier then barrier else d.flushBarrier

theorem Desk.le_submitted (d : Desk) (b : Nat) :
    b ≤ d.submitted b ∧ d.flushBarrier ≤ d.submitted b := by
  unfold submitted
  split <;> omega

theorem Desk.submitted_cases (d : Desk) (b : Nat) :
    d.submitted b = b ∨ d.submitted b = d.flushBarrier := by
  unfold submitted
  split
  · exact Or.inl rfl
  · exact Or.inr rfl

/-- The desk once a token was drawn for a barrier. -/
def Desk.drawn (d : Desk) (barrier : Nat) : Desk :=
  { d with flushSeq := d.flushSeq + 1, issued := (d.flushSeq + 1, barrier) :: d.issued }

/-- The desk without its oldest results. -/
def Desk.pruned (d : Desk) : Desk :=
  { d with passResults := d.passResults.drop (d.passResults.length - kMaxRetainedPasses) }

/-- **The turns of a caller.** -/
inductive Turn (s : State) (t : Tid) (s' : State) : Prop
  | plain (hd : desk s' = desk s) (hc : (s'.callers t).plain = true)
  | consented {state : ConsentState} {pc : ConsentPc} {status : Status}
      (hsec : s.client.consentSection = .held t state pc)
      (hok : status.ok = true → pc = .reset ∨ pc = .grant) (hd : desk s' = desk s)
      (hc : s'.callers t = .done (.consented state s.history.fence status))
  -- `flush`
  | flushBarrier (hadm : s.client.admission = .producer t .flushBarrier)
      (hd : desk s' = { desk s with
        flushBarrier := (desk s).submitted s.client.ordinal, ticket := some s.client.ordinal })
      (hc : s'.callers t = .admitting)
  | flushToken {barrier : Nat} (hticket : (desk s).ticket = some barrier)
      (hd : desk s' = { (desk s).drawn barrier with ticket := none })
      (hc : s'.callers t = .flushWait (s.core.flushSeq + 1) barrier)
  | flushed {token barrier : Nat} (hw : s.callers t = .flushWait token barrier)
      (hd : desk s' = (desk s).pruned)
      (hc : s'.callers t = .done (.flushed token barrier (Client.flushOutcome s token)))
  | flushTimeout {token barrier : Nat} {status : Status}
      (hw : s.callers t = .flushWait token barrier) (hst : status.ok = false)
      (hd : desk s' = desk s) (hc : s'.callers t = .done (.flushed token barrier status))
  -- `shutdown`
  | close (hfree : s'.client.admission = .free)
      (hd : (s.client.lifecycle ≠ .stopped ∧ desk s' = { desk s with lifecycle := .stopping }) ∨
        (s.client.lifecycle = .stopped ∧ desk s' = desk s))
      (hc : (∃ d, s'.callers t = .shutdownCancel d) ∨ s'.callers t = .ownStop)
  | advance (hw : (s.callers t).closing = true) (hd : desk s' = desk s ∨ desk s' = (desk s).pruned)
      (hc : (∃ d, s'.callers t = .shutdownOrdinal d) ∨ s'.callers t = .destroyJoin ∨
        ∃ d status, s'.callers t = .shutdownStop d status)
  | ordinal {d : Bool} (hw : s.callers t = .shutdownOrdinal d)
      (hfree : s.client.admission = .free) (hd : desk s' = desk s)
      (hc : s'.callers t = .shutdownBarrier d s.client.ordinal)
  | barrier {d : Bool} {barrier : Nat} (hw : s.callers t = .shutdownBarrier d barrier)
      (hd : desk s' = { desk s with flushBarrier := (desk s).submitted barrier })
      (hc : s'.callers t = .shutdownToken d barrier)
  | token {d : Bool} {barrier : Nat} (hw : s.callers t = .shutdownToken d barrier)
      (hd : desk s' = (desk s).drawn barrier)
      (hc : s'.callers t = .shutdownWait d (s.core.flushSeq + 1))
  | stop (hw : (s.callers t).closing = true) (hd : desk s' = { desk s with stop := true })
      (hc : (∃ d status, s'.callers t = .shutdownJoin d status) ∨ s'.callers t = .destroyCancel ∨
        (s'.callers t).plain = true)
  | join (hfin : s.core.finished = true) (hd : desk s' = desk s)
      (hc : ((s.callers t).closing = true ∧ ∃ d status, s'.callers t = .shutdownMark d status) ∨
        s'.callers t = .exitMark)
  | mark (hw : (s.callers t).joined = true) (hfree : s'.client.admission = .free)
      (hd : desk s' = { desk s with lifecycle := .stopped })
      (hc : ((s.callers t).closing = true ∧ ∃ d status, s'.callers t = .shutdownTerminal d status) ∨
        (s'.callers t).plain = true)
  | finish {d : Bool} {status : Status}
      (hw : s.client.lifecycle = .stopped ∨
        ((s.callers t).closing = true ∧ ((s.callers t).joined = true ∨ status.ok = false)))
      (hd : desk s' = desk s) (hc : s'.callers t = shutdownCaller d status)

/-- What no caller's step touches. -/
structure Aside (s : State) (t : Tid) (s' : State) : Prop where
  frame : s'.frame = s.frame
  finished : s'.core.finished = s.core.finished
  terminalStatus : s'.core.terminalStatus = s.core.terminalStatus
  written : s'.log.written = s.log.written
  others : ∀ u, u ≠ t → s'.callers u = s.callers u

variable {env : Env} {i : Input} {s s' : State} {t : Tid}

theorem move_callers (c : Caller) : (s.move t c).callers t = c := Function.update_self ..

theorem move_others (c : Caller) (u : Tid) (h : u ≠ t) : (s.move t c).callers u = s.callers u :=
  Function.update_of_ne h ..

/-- The holder of the admission lock only matters to the desk by its ticket. -/
theorem desk_setAdmission {a : Admission} (h : ticketOf a = (desk s).ticket) :
    desk { s with client := { s.client with admission := a } } = desk s := by
  have key : { desk s with ticket := ticketOf a } = desk s := by rw [h]
  exact key

/-- The end of a turn: from `x`, where everything but the pipeline, the session and the
history is as in `s`, the caller moves to `c`. -/
structure Before (s x : State) : Prop where
  desk : desk x = desk s
  frame : x.frame = s.frame
  finished : x.core.finished = s.core.finished
  terminalStatus : x.core.terminalStatus = s.core.terminalStatus
  written : x.log.written = s.log.written
  callers : x.callers = s.callers

namespace Before

variable {x : State}

theorem refl (s : State) : Before s s := ⟨rfl, rfl, rfl, rfl, rfl, rfl⟩

theorem aside (h : Before s x) (c : Caller) : Aside s t (x.move t c) :=
  ⟨h.frame, h.finished, h.terminalStatus, h.written, fun u hu =>
    (move_others c u hu).trans (congrFun h.callers u)⟩

theorem move (h : Before s x) {c : Caller} (hc : c.plain = true) :
    Aside s t (x.move t c) ∧ Turn s t (x.move t c) :=
  ⟨h.aside c, .plain h.desk (by rw [move_callers]; exact hc)⟩

/-- Staying inside the admission lock. -/
theorem proceed {pc : AdmitPc} (h : Before s x) (hadm : s.callers t = .admitting)
    (hticket : (PlayerTrace.desk s).ticket = none) (hpc : ticketOf (.producer t pc) = none) :
    Aside s t (Client.proceed x t pc) ∧ Turn s t (Client.proceed x t pc) := by
  refine ⟨⟨h.frame, h.finished, h.terminalStatus, h.written, fun u _ => congrFun h.callers u⟩,
    .plain ?_ ?_⟩
  · rw [← h.desk] at hticket ⊢
    exact desk_setAdmission (hpc.trans hticket.symm)
  · rw [show (Client.proceed x t pc).callers = s.callers from h.callers, hadm]
    rfl

/-- Leaving the admission lock. -/
theorem leave {op : Op} {st : Status} (h : Before s x) (hop : op ≠ .shutdown)
    (hticket : (PlayerTrace.desk s).ticket = none) :
    Aside s t (Client.leave x t op st) ∧ Turn s t (Client.leave x t op st) := by
  have hx : Before s { x with client := { x.client with admission := .free } } := by
    refine ⟨?_, h.frame, h.finished, h.terminalStatus, h.written, h.callers⟩
    rw [← h.desk] at hticket ⊢
    exact desk_setAdmission hticket.symm
  refine hx.move ?_
  cases op <;> first | rfl | exact absurd rfl hop

theorem resume {k : AdmitFor} {st : Status} (h : Before s x) (hadm : s.callers t = .admitting)
    (hticket : (PlayerTrace.desk s).ticket = none) :
    Aside s t (Client.resume x t k st) ∧ Turn s t (Client.resume x t k st) := by
  have hset : ∀ m, Before s (Client.setSession x m) := fun m =>
    ⟨h.desk, h.frame, h.finished, h.terminalStatus, h.written, h.callers⟩
  cases k with
  | track name ps => exact h.leave nofun hticket
  | endSession =>
    unfold Client.resume
    dsimp only
    split
    · exact (hset _).leave nofun hticket
    · exact h.leave nofun hticket
  | replaceEnd p previous =>
    unfold Client.resume
    dsimp only
    split
    · exact (hset _).proceed hadm hticket rfl
    · exact (hset _).leave nofun hticket
  | start p replacing previous =>
    unfold Client.resume
    dsimp only
    split
    · exact h.leave nofun hticket
    · split
      · exact (hset _).leave nofun hticket
      · exact (hset _).leave nofun hticket

end Before

namespace Client

theorem endSessionLocked_turn {k : AdmitFor} (hadm : s.callers t = .admitting)
    (hticket : (desk s).ticket = none) :
    Aside s t (endSessionLocked env i s t k) ∧ Turn s t (endSessionLocked env i s t k) := by
  unfold endSessionLocked
  split
  · exact (Before.refl s).resume hadm hticket
  · exact (Before.refl s).proceed hadm hticket rfl

theorem admitStep_turn {pc : AdmitPc} (hc : s.callers t = .admitting)
    (hadm : s.client.admission = .producer t pc) (h : admitStep env i s t pc = some s') :
    Aside s t s' ∧ Turn s t s' := by
  have hticket : (desk s).ticket = ticketOf (.producer t pc) := congrArg ticketOf hadm
  have hs := Before.refl s
  cases pc with
  | startTerminal p =>
    obtain rfl := Option.some.inj h
    unfold startTerminal
    dsimp only
    split
    · exact hs.leave nofun hticket
    · split
      · exact hs.proceed hc hticket rfl
      · exact hs.proceed hc hticket rfl
  | startReserve p =>
    obtain rfl := Option.some.inj h
    unfold startReserve
    split
    · exact Before.leave ⟨rfl, rfl, rfl, rfl, rfl, rfl⟩ nofun hticket
    · exact hs.proceed hc hticket rfl
  | startRoom p =>
    obtain rfl := Option.some.inj h
    unfold startRoom
    split
    · exact Before.leave ⟨rfl, rfl, rfl, rfl, rfl, rfl⟩ nofun hticket
    · exact endSessionLocked_turn hc hticket
  | startBegin p replacing previous =>
    simp only [admitStep, startBegin] at h
    split at h
    · obtain rfl := Option.some.inj h
      exact Before.proceed ⟨rfl, rfl, rfl, rfl, rfl, rfl⟩ hc hticket rfl
    · cases h
  | endTerminal =>
    obtain rfl := Option.some.inj h
    unfold endTerminal
    dsimp only
    split
    · exact hs.leave nofun hticket
    · exact endSessionLocked_turn hc hticket
  | gate k name ps =>
    obtain rfl := Option.some.inj h
    unfold gate
    dsimp only
    repeat' split
    all_goals first | exact hs.resume hc hticket | exact hs.proceed hc hticket rfl
  | capacity k name ps =>
    obtain rfl := Option.some.inj h
    unfold capacity
    split
    · exact Before.resume ⟨rfl, rfl, rfl, rfl, rfl, rfl⟩ hc hticket
    · exact hs.proceed hc hticket rfl
  | room k name ps =>
    simp only [admitStep, room] at h
    split at h
    · obtain rfl := Option.some.inj h
      exact Before.resume ⟨rfl, rfl, rfl, rfl, rfl, rfl⟩ hc hticket
    split at h
    · obtain rfl := Option.some.inj h
      exact hs.resume hc hticket
    split at h
    · obtain rfl := Option.some.inj h
      exact Before.proceed ⟨rfl, rfl, rfl, rfl, rfl, rfl⟩ hc hticket rfl
    · cases h
  | reserve k qe =>
    obtain rfl := Option.some.inj h
    exact Before.proceed ⟨rfl, rfl, rfl, rfl, rfl, rfl⟩ hc hticket rfl
  | push k qe =>
    obtain rfl := Option.some.inj h
    unfold push
    split
    · exact Before.proceed ⟨rfl, rfl, rfl, rfl, rfl, rfl⟩ hc hticket rfl
    · exact hs.proceed hc hticket rfl
  | undo k qe =>
    obtain rfl := Option.some.inj h
    exact Before.resume ⟨rfl, rfl, rfl, rfl, rfl, rfl⟩ hc hticket
  | count k =>
    obtain rfl := Option.some.inj h
    exact Before.resume ⟨rfl, rfl, rfl, rfl, rfl, rfl⟩ hc hticket
  | flushTerminal =>
    obtain rfl := Option.some.inj h
    unfold flushTerminal
    dsimp only
    split
    · exact hs.leave nofun hticket
    · exact hs.proceed hc hticket rfl
  | flushBarrier =>
    obtain rfl := Option.some.inj h
    exact ⟨⟨rfl, rfl, rfl, rfl, fun _ _ => rfl⟩, .flushBarrier hadm rfl hc⟩
  | flushToken b =>
    obtain rfl := Option.some.inj h
    exact ⟨⟨rfl, rfl, rfl, rfl, move_others _⟩, .flushToken hticket rfl (move_callers _)⟩

theorem leaveConsent_turn {x : State} {st : ConsentState} {pc : ConsentPc} {status : Status}
    (h : Before s x) (hfence : x.history.fence = s.history.fence)
    (hsec : s.client.consentSection = .held t st pc)
    (hok : status.ok = true → pc = .reset ∨ pc = .grant) :
    Aside s t (leaveConsent x t st status) ∧ Turn s t (leaveConsent x t st status) := by
  refine ⟨⟨h.frame, h.finished, h.terminalStatus, h.written, fun u hu => ?_⟩,
    .consented hsec hok h.desk ?_⟩
  · rw [leaveConsent, move_others _ u hu]
    exact congrFun h.callers u
  · rw [leaveConsent, move_callers, hfence]

theorem proceedConsent_turn {x : State} {st : ConsentState} {pc : ConsentPc}
    (h : Before s x) (hc : s.callers t = .consenting) :
    Aside s t (proceedConsent x t st pc) ∧ Turn s t (proceedConsent x t st pc) := by
  refine ⟨⟨h.frame, h.finished, h.terminalStatus, h.written, fun u _ => congrFun h.callers u⟩,
    .plain h.desk ?_⟩
  rw [show (proceedConsent x t st pc).callers = s.callers from h.callers, hc]
  rfl

theorem purgeFailed_ok {st : ConsentState} {message : String} :
    (purgeFailed st message).ok = false := by
  unfold purgeFailed
  split <;> rfl

theorem consentStep_turn {st : ConsentState} {pc : ConsentPc} (hc : s.callers t = .consenting)
    (hsec : s.client.consentSection = .held t st pc)
    (hforget : pc = .forget → s.client.admission = .consent)
    (h : consentStep i s t st pc = some s') : Aside s t s' ∧ Turn s t s' := by
  cases pc with
  | store =>
    simp only [consentStep, store] at h
    split at h
    · cases h
    · rename_i hfree
      obtain rfl := Option.some.inj h
      refine proceedConsent_turn ⟨?_, rfl, rfl, rfl, rfl, rfl⟩ hc
      exact desk_setAdmission (congrArg ticketOf (not_not.mp hfree)).symm
  | bump =>
    obtain rfl := Option.some.inj h
    exact proceedConsent_turn ⟨rfl, rfl, rfl, rfl, rfl, rfl⟩ hc
  | clear =>
    obtain rfl := Option.some.inj h
    exact proceedConsent_turn ⟨rfl, rfl, rfl, rfl, rfl, rfl⟩ hc
  | countCleared n =>
    obtain rfl := Option.some.inj h
    exact proceedConsent_turn ⟨rfl, rfl, rfl, rfl, rfl, rfl⟩ hc
  | deactivate =>
    obtain rfl := Option.some.inj h
    exact proceedConsent_turn ⟨rfl, rfl, rfl, rfl, rfl, rfl⟩ hc
  | discard =>
    obtain rfl := Option.some.inj h
    exact proceedConsent_turn ⟨rfl, rfl, rfl, rfl, rfl, rfl⟩ hc
  | countDiscarded n =>
    obtain rfl := Option.some.inj h
    exact proceedConsent_turn ⟨rfl, rfl, rfl, rfl, rfl, rfl⟩ hc
  | forget =>
    obtain rfl := Option.some.inj h
    refine proceedConsent_turn ⟨?_, rfl, rfl, rfl, rfl, rfl⟩ hc
    exact desk_setAdmission (congrArg ticketOf (hforget rfl)).symm
  | mark =>
    simp only [consentStep, mark] at h
    split at h
    · obtain rfl := Option.some.inj h
      split
      · exact leaveConsent_turn ⟨rfl, rfl, rfl, rfl, rfl, rfl⟩ rfl hsec (by simp [purgeFailed_ok])
      · exact proceedConsent_turn ⟨rfl, rfl, rfl, rfl, rfl, rfl⟩ hc
    · cases h
  | purge =>
    simp only [consentStep, purge] at h
    split at h
    · obtain rfl := Option.some.inj h
      split
      · exact leaveConsent_turn ⟨rfl, rfl, rfl, rfl, rfl, rfl⟩ rfl hsec (by simp [purgeFailed_ok])
      · exact proceedConsent_turn ⟨rfl, rfl, rfl, rfl, rfl, rfl⟩ hc
    · cases h
  | reset =>
    obtain rfl := Option.some.inj h
    unfold reset
    dsimp only
    split
    · exact proceedConsent_turn ⟨rfl, rfl, rfl, rfl, rfl, rfl⟩ hc
    · exact leaveConsent_turn ⟨rfl, rfl, rfl, rfl, rfl, rfl⟩ rfl hsec fun _ => Or.inl rfl
  | grant =>
    simp only [consentStep, grant] at h
    split at h
    · cases h
    · obtain rfl := Option.some.inj h
      exact leaveConsent_turn ⟨rfl, rfl, rfl, rfl, rfl, rfl⟩ rfl hsec fun _ => Or.inr rfl

/-- A revocation inside its section has the admission lock. -/
theorem admission_of_section {st : ConsentState} {pc : ConsentPc} (hg : Custody.Gated (custody s))
    (hsec : s.client.consentSection = .held t st pc) (hpc : pc.inSection = true) :
    s.client.admission = .consent := by
  have hlocked : entryOf s.client.admission = .locked :=
    ((hg.holder st pc (congrArg revocationOf hsec)).1 hpc).1
  cases hadm : s.client.admission with
  | consent => rfl
  | free => simp [hadm, entryOf] at hlocked
  | producer t' pc => cases pc <;> simp [hadm, entryOf] at hlocked

theorem desk_prunePassResults (c : Caller) :
    desk ((prunePassResults s).move t c) = (desk s).pruned := by
  simp only [desk, prunePassResults, Desk.pruned, State.move]

theorem aside_prunePassResults (c : Caller) : Aside s t ((prunePassResults s).move t c) := by
  refine ⟨?_, ?_, ?_, ?_, fun u hu => ?_⟩
  · simp only [prunePassResults, State.move]
  · simp only [prunePassResults, State.move]
  · simp only [prunePassResults, State.move]
  · simp only [prunePassResults, State.move]
  · rw [move_others c u hu, prunePassResults]

theorem shutdownDone_eq (d : Bool) (st : Status) :
    shutdownDone s t d st = s.move t (shutdownCaller d st) := by
  cases d <;> rfl

theorem lock_turn {pc : AdmitPc} (hfree : s.client.admission = .free)
    (hpc : ticketOf (.producer t pc) = none) :
    Aside s t (lockAdmission s t pc) ∧ Turn s t (lockAdmission s t pc) := by
  have hs : Before s (proceed s t pc) :=
    ⟨desk_setAdmission (hpc.trans (congrArg ticketOf hfree).symm), rfl, rfl, rfl, rfl, rfl⟩
  exact hs.move rfl

/-- A step that takes the admission lock, or returns at once for the reason `c`. -/
theorem lock_or_return_turn {c : Prop} [Decidable c] {op : Op} {st : Status} {pc : AdmitPc}
    (h : (if s.client.admission ≠ .free then none
      else if c then some (return_ s t op st) else some (lockAdmission s t pc)) = some s')
    (hop : op ≠ .shutdown) (hpc : ticketOf (.producer t pc) = none) :
    Aside s t s' ∧ Turn s t s' := by
  split at h
  · cases h
  rename_i hfree
  split at h
  · obtain rfl := Option.some.inj h
    refine (Before.refl s).move ?_
    cases op <;> first | rfl | exact absurd rfl hop
  · obtain rfl := Option.some.inj h
    exact lock_turn (not_not.mp hfree) hpc

/-- A step of a caller is a turn, if a revocation that leaves its section has the admission
lock. -/
theorem step_turn_of (hown : ∀ st, s.callers t = .consenting →
      s.client.consentSection = .held t st .forget → s.client.admission = .consent)
    (h : step env i s t = some s') : Aside s t s' ∧ Turn s t s' := by
  have hs := Before.refl s
  have haside : ∀ c, Aside s t (s.move t c) := hs.aside
  unfold step at h
  generalize hc : s.callers t = caller at h
  cases caller with
  | idle => cases h
  | done o => cases h
  | admitting =>
    dsimp only at h
    split at h
    · rename_i t' pc hadm
      split at h
      · rename_i ht
        exact admitStep_turn hc (ht ▸ hadm) h
      · cases h
    · cases h
  | consenting =>
    dsimp only at h
    split at h
    · rename_i t' st pc hsec
      split at h
      · rename_i ht
        exact consentStep_turn hc (ht ▸ hsec) (fun hpc => hown st hc (ht ▸ hpc ▸ hsec)) h
      · cases h
    · cases h
  | startLock p =>
    simp only [startLock] at h
    split at h
    · cases h
    rename_i hfree
    split at h
    · obtain rfl := Option.some.inj h
      exact hs.move rfl
    split at h
    · obtain rfl := Option.some.inj h
      exact hs.move rfl
    · obtain rfl := Option.some.inj h
      exact lock_turn (not_not.mp hfree) rfl
  | endLock => exact lock_or_return_turn h (by simp) rfl
  | trackEnter name ps =>
    obtain rfl := Option.some.inj h
    unfold trackEnter
    dsimp only
    repeat' split
    all_goals exact hs.move rfl
  | trackFilter name ps g => obtain rfl := Option.some.inj h; exact hs.move rfl
  | trackLock name ps filtered g => exact lock_or_return_turn h (by simp) rfl
  | flushLock => exact lock_or_return_turn h (by simp) rfl
  | flushWait token b =>
    simp only [flushWait] at h
    split at h
    · obtain rfl := Option.some.inj h
      exact ⟨aside_prunePassResults _, .flushed hc (desk_prunePassResults _) (move_callers _)⟩
    · split at h
      · obtain rfl := Option.some.inj h
        exact ⟨haside _, .flushTimeout hc rfl rfl (move_callers _)⟩
      · cases h
  | shutdownLock d =>
    simp only [shutdownLock] at h
    split at h
    · cases h
    rename_i hfree
    split at h
    · rename_i hl
      obtain rfl := Option.some.inj h
      rw [shutdownDone_eq]
      exact ⟨haside _, .finish (Or.inl hl) rfl (move_callers _)⟩
    · rename_i hl
      obtain rfl := Option.some.inj h
      exact ⟨⟨rfl, rfl, rfl, rfl, move_others _⟩,
        .close (not_not.mp hfree) (Or.inl ⟨hl, rfl⟩) (Or.inl ⟨d, move_callers _⟩)⟩
  | shutdownCancel d =>
    obtain rfl := Option.some.inj h
    exact ⟨haside _, .advance (by rw [hc]; rfl) (Or.inl rfl) (Or.inl ⟨d, move_callers _⟩)⟩
  | shutdownOrdinal d =>
    simp only [shutdownOrdinal] at h
    split at h
    · cases h
    · rename_i hfree
      obtain rfl := Option.some.inj h
      exact ⟨haside _, .ordinal hc (not_not.mp hfree) rfl (move_callers _)⟩
  | shutdownBarrier d b =>
    obtain rfl := Option.some.inj h
    exact ⟨⟨rfl, rfl, rfl, rfl, move_others _⟩, .barrier hc rfl (move_callers _)⟩
  | shutdownToken d b =>
    obtain rfl := Option.some.inj h
    exact ⟨⟨rfl, rfl, rfl, rfl, move_others _⟩, .token hc rfl (move_callers _)⟩
  | shutdownWait d token =>
    simp only [shutdownWait] at h
    split at h
    · obtain rfl := Option.some.inj h
      exact ⟨aside_prunePassResults _, .advance (by rw [hc]; rfl) (Or.inr (desk_prunePassResults _))
        (Or.inr (Or.inr ⟨d, _, move_callers _⟩))⟩
    · split at h
      · obtain rfl := Option.some.inj h
        exact ⟨haside _, .advance (by rw [hc]; rfl) (Or.inl rfl)
          (Or.inr (Or.inr ⟨d, _, move_callers _⟩))⟩
      · cases h
  | shutdownStop d st =>
    obtain rfl := Option.some.inj h
    exact ⟨⟨rfl, rfl, rfl, rfl, move_others _⟩, .stop (by rw [hc]; rfl) rfl
      (Or.inl ⟨d, st, move_callers _⟩)⟩
  | shutdownJoin d st =>
    simp only [shutdownJoin] at h
    split at h
    · rename_i hfin
      obtain rfl := Option.some.inj h
      exact ⟨⟨rfl, rfl, rfl, rfl, move_others _⟩, .join hfin rfl
        (Or.inl ⟨by rw [hc]; rfl, d, st, move_callers _⟩)⟩
    · split at h
      · obtain rfl := Option.some.inj h
        rw [shutdownDone_eq]
        exact ⟨haside _, .finish (Or.inr ⟨by rw [hc]; rfl, Or.inr rfl⟩) rfl (move_callers _)⟩
      · cases h
  | shutdownMark d st =>
    simp only [shutdownMark] at h
    split at h
    · cases h
    · rename_i hfree
      obtain rfl := Option.some.inj h
      exact ⟨⟨rfl, rfl, rfl, rfl, move_others _⟩, .mark (by rw [hc]; rfl) (not_not.mp hfree) rfl
        (Or.inl ⟨by rw [hc]; rfl, d, st, move_callers _⟩)⟩
  | shutdownTerminal d st =>
    obtain rfl := Option.some.inj h
    unfold shutdownTerminal
    repeat' split
    all_goals
      rw [shutdownDone_eq]
      exact ⟨haside _, .finish (Or.inr ⟨by rw [hc]; rfl, Or.inl (by rw [hc]; rfl)⟩) rfl
        (move_callers _)⟩
  | destroyStop =>
    obtain rfl := Option.some.inj h
    exact ⟨⟨rfl, rfl, rfl, rfl, move_others _⟩, .stop (by rw [hc]; rfl) rfl
      (Or.inr (Or.inl (move_callers _)))⟩
  | destroyCancel =>
    obtain rfl := Option.some.inj h
    exact ⟨haside _, .advance (by rw [hc]; rfl) (Or.inl rfl) (Or.inr (Or.inl (move_callers _)))⟩
  | destroyJoin =>
    simp only [destroyJoin] at h
    split at h
    · obtain rfl := Option.some.inj h
      have hs' : Before s { s with client := { s.client with joined := true } } :=
        ⟨rfl, rfl, rfl, rfl, rfl, rfl⟩
      exact hs'.move rfl
    · cases h
  | ownClose =>
    simp only [ownClose] at h
    split at h
    · cases h
    rename_i hfree
    obtain rfl := Option.some.inj h
    by_cases hrun : s.client.lifecycle = .running
    · rw [if_pos hrun]
      exact ⟨⟨rfl, rfl, rfl, rfl, move_others _⟩,
        .close (not_not.mp hfree) (Or.inl ⟨by simp [hrun], rfl⟩) (Or.inr (move_callers _))⟩
    · rw [if_neg hrun]
      refine ⟨haside _, .close (not_not.mp hfree) ?_ (Or.inr (move_callers _))⟩
      cases hl : s.client.lifecycle with
      | running => exact absurd hl hrun
      | stopping => exact Or.inl ⟨by simp, by rw [← hl]; rfl⟩
      | stopped => exact Or.inr ⟨rfl, rfl⟩
  | ownStop =>
    obtain rfl := Option.some.inj h
    exact ⟨⟨rfl, rfl, rfl, rfl, move_others _⟩, .stop (by rw [hc]; rfl) rfl
      (Or.inr (Or.inr (by rw [ownStop, return_, move_callers]; rfl)))⟩
  | exitJoin =>
    simp only [exitJoin] at h
    split at h
    · rename_i hfin
      obtain rfl := Option.some.inj h
      exact ⟨⟨rfl, rfl, rfl, rfl, move_others _⟩, .join hfin rfl (Or.inr (move_callers _))⟩
    · split at h
      · obtain rfl := Option.some.inj h
        exact hs.move rfl
      · cases h
  | exitMark =>
    simp only [exitMark] at h
    split at h
    · cases h
    rename_i hfree
    obtain rfl := Option.some.inj h
    split
    · exact ⟨⟨rfl, rfl, rfl, rfl, move_others _⟩, .mark (by rw [hc]; rfl) (not_not.mp hfree) rfl
        (Or.inr (by rw [move_callers]; rfl))⟩
    · exact hs.move rfl
  | consentLock st =>
    simp only [consentLock] at h
    split at h
    · cases h
    · obtain rfl := Option.some.inj h
      have hs' : ∀ pc, Before s (proceedConsent s t st pc) := fun _ =>
        ⟨rfl, rfl, rfl, rfl, rfl, rfl⟩
      exact (hs' _).move rfl

/-- **Every step of a caller is a turn.** -/
theorem step_turn (hg : Custody.Gated (custody s)) (h : step env i s t = some s') :
    Aside s t s' ∧ Turn s t s' :=
  step_turn_of (fun _ _ hsec => admission_of_section hg hsec rfl) h

/-- A step of a caller keeps aside, in every state. -/
theorem step_aside (h : step env i s t = some s') : Aside s t s' := by
  by_cases hc : s.callers t = .consenting
  · by_cases hsec : ∃ st, s.client.consentSection = .held t st .forget
    · obtain ⟨st, hsec⟩ := hsec
      simp only [step, hc, hsec, if_true, consentStep, forget] at h
      obtain rfl := Option.some.inj h
      exact ⟨rfl, rfl, rfl, rfl, fun _ _ => rfl⟩
    · exact (step_turn_of (fun st _ hst => absurd ⟨st, hst⟩ hsec) h).1
  · exact (step_turn_of (fun _ hcon => absurd hcon hc) h).1

/-- A new call does nothing but move its caller. -/
theorem call_eq_move {op : Op} (h : call env s t op = some s') : ∃ c, s' = s.move t c := by
  unfold call at h
  split at h
  · cases h
  · cases op with
    | destroy =>
      dsimp only at h
      split at h
      · cases h
      · exact ⟨_, (Option.some.inj h).symm⟩
    | startSession | flush =>
      obtain rfl := Option.some.inj h
      split
      · exact ⟨_, rfl⟩
      · exact ⟨_, rfl⟩
    | _ => exact ⟨_, (Option.some.inj h).symm⟩

/-- A new call touches no field of the client. -/
theorem call_client {op : Op} (h : call env s t op = some s') : s'.client = s.client := by
  obtain ⟨c, rfl⟩ := call_eq_move h
  rfl

theorem call_turn {op : Op} (h : call env s t op = some s') : Aside s t s' ∧ Turn s t s' := by
  have hs := Before.refl s
  unfold call at h
  split at h
  · cases h
  cases op with
  | startSession p =>
    obtain rfl := Option.some.inj h
    split <;> exact hs.move rfl
  | endSession => obtain rfl := Option.some.inj h; exact hs.move rfl
  | track name ps => obtain rfl := Option.some.inj h; exact hs.move rfl
  | flush =>
    obtain rfl := Option.some.inj h
    split <;> exact hs.move rfl
  | shutdown =>
    obtain rfl := Option.some.inj h
    split <;> exact hs.move rfl
  | waitForWorkerExit =>
    obtain rfl := Option.some.inj h
    split <;> exact hs.move rfl
  | setConsent st => obtain rfl := Option.some.inj h; exact hs.move rfl
  | destroy =>
    dsimp only at h
    split at h
    · cases h
    · obtain rfl := Option.some.inj h
      exact hs.move rfl

end Client

/-- A step of a client is a step of its worker, or keeps aside. -/
theorem aside_of_step {l : Label} (h : step env s l = some s') :
    (∃ i, l = .worker i ∧ Worker.step env i s = some s') ∨
      ∃ t, (∀ i, l ≠ .worker i) ∧ Aside s t s' := by
  cases l with
  | worker i => exact Or.inl ⟨i, rfl, h⟩
  | call t op => exact Or.inr ⟨t, nofun, (Client.call_turn h).1⟩
  | caller t i => exact Or.inr ⟨t, nofun, Client.step_aside h⟩

/-- With nobody past the consent check nothing is admitted. -/
theorem accepted_of_outside {l : Label} (hout : (custody s).entry.inside = false)
    (h : step env s l = some s') : s'.history.accepted = s.history.accepted := by
  rcases step_moves h with heq | hm
  · exact congrArg (fun c => c.history.accepted) heq
  · change (custody s').history.accepted = (custody s).history.accepted
    generalize custody s = c at hm hout
    generalize custody s' = c' at hm
    cases hm with
    | push _ hentry =>
      rw [hentry] at hout
      cases hout
    | _ => rfl

/-- **A step of a client is a step of its worker, or a turn of a caller.** -/
theorem turn_of_step {l : Label} (hr : (machine env).Reach s) (h : step env s l = some s') :
    (∃ i, l = .worker i ∧ Worker.step env i s = some s') ∨
      ∃ t, (∀ i, l ≠ .worker i) ∧ Aside s t s' ∧ Turn s t s' := by
  cases l with
  | worker i => exact Or.inl ⟨i, rfl, h⟩
  | call t op => exact Or.inr ⟨t, nofun, Client.call_turn h⟩
  | caller t i =>
    exact Or.inr ⟨t, nofun, Client.step_turn (Custody.gated_of_reachable (custody_reachable hr)) h⟩

end PlayerTrace
