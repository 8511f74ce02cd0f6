import PlayerTrace.Control.Passes
import PlayerTrace.Custody.Capacity

/-!
# Accounting

Where the events of a client are, how many of them were counted, and how much of the
durable capacity they take.

* **Nothing is lost or doubled.** Every event that was recovered or accepted is in exactly
  one container or one column of the history; the statistics add up whenever nothing is
  between being moved and being counted; and while consent stays granted, `outstanding_`
  is the number of live events.
* **The cap can be exceeded after a re-grant.** `run_purge` sets `outstanding_` to zero
  while the worker may still hold a drained batch; what is admitted next comes on top of
  it. In runs whose resets find nothing claimed, the cap holds in every state.
-/

namespace PlayerTrace

variable {env : Env} {i : Input} {l : Label} {s s' : State} {t : Tid}

namespace State

/-- The live events: in the queue, in the worker's hands, in the retry buffer, in the store. -/
def live (s : State) : Nat :=
  s.pipeline.queue.length + s.hands.length + s.core.retry.length + s.pipeline.store.rows.length

/-- No operation is between moving an event and counting it, or between reserving capacity
for one and using it. -/
def settled (s : State) : Prop :=
  (custody s).due = .none ∧ (custody s).pending = 0 ∧ (custody s).entry.uncounted = 0 ∧
    (custody s).entry.reservation = 0

instance (s : State) : Decidable s.settled :=
  inferInstanceAs (Decidable (_ ∧ _ ∧ _ ∧ _))

end State

theorem custody_live (s : State) : (custody s).live = s.live := by
  rw [Custody.live, show (custody s).stage.hands = s.hands from stageOf_hands _]
  rfl

/-! ### Nothing is lost or doubled -/

/-- Consent that was there before a step and after it was there throughout. -/
theorem revocations_of_granted (hr : (machine env).Reach s) (h : step env s l = some s')
    (hc' : s'.pipeline.consent = .granted) : s'.history.revocations = s.history.revocations := by
  rcases step_moves h with heq | hm
  · exact congrArg (fun c => c.history.revocations) heq
  · rcases hm.consent_cases (Custody.gated_of_reachable (custody_reachable hr)) with
      hq | ⟨-, -, -, -, hne, -⟩ | ⟨-, -, -, hrev, -⟩ | ⟨-, -, -, hrev, -⟩
    · exact hq.revocations
    · exact absurd hc' hne
    · exact hrev
    · exact hrev

/-- A run in which consent stays granted begins with it and sees no revocation. -/
theorem steady_of_reachIf (h : (machine env).ReachIf (fun s _ => s.pipeline.consent = .granted) s)
    (hc : s.pipeline.consent = .granted) :
    env.config.consent = .granted ∧ s.history.revocations = 0 := by
  refine h.rule (P := fun s => s.pipeline.consent = .granted →
    env.config.consent = .granted ∧ s.history.revocations = 0) (fun s hs hc => ?_)
    (fun s l s' hr hi hok hs hc' => ?_) hc
  · obtain ⟨db, m, earlier, rfl⟩ := start_eq hs
    exact ⟨hc, rfl⟩
  · rw [revocations_of_granted hr hs hc']
    exact hi hok

/-- The identifiers of what was recovered and accepted are unique. -/
theorem known_nodup (hr : (machine env).Reach s) :
    ((s.history.recovered ++ s.history.accepted.map fun a => a.qe.item).filterMap Item.id).Nodup :=
  (Custody.named_of_reachable (custody_reachable hr)).nodup.sublist
    (Custody.known_ids_sublist (custody s))

/-- **Nothing is lost or doubled.** The containers and the columns of the history hold
together exactly what was recovered and accepted, each event once. As long as the worker's
loop was not left by an exception nothing is lost, and the statistics add up whenever
everything moved is counted. While consent stays granted, `outstanding_` then is the number
of live events. -/
theorem nothing_lost_or_doubled (hr : (machine env).Reach s) :
    (s.pipeline.queue.map QueuedEvent.item ++ s.hands.map QueuedEvent.item ++
        s.core.retry.map QueuedEvent.item ++ s.pipeline.store.rows.map Row.item ++
        s.history.acked ++ s.history.discarded ++ s.history.purged ++ s.history.dropped ++
        s.history.lost).Perm
      (s.history.recovered ++ s.history.accepted.map fun a => a.qe.item) ∧
    ((s.history.recovered ++ s.history.accepted.map fun a => a.qe.item).filterMap Item.id).Nodup ∧
    (s.core.terminalStatus.ok = true → s.history.lost = [] ∧
      (s.settled → s.pipeline.stats.accepted + s.history.recovered.length =
        s.pipeline.stats.delivered + s.pipeline.stats.discardedConsent +
          s.pipeline.stats.droppedInvalid + s.history.purged.length + s.live)) ∧
    ((machine env).ReachIf (fun s _ => s.pipeline.consent = .granted) s →
      s.pipeline.consent = .granted → s.core.terminalStatus.ok = true → s.settled →
      s.pipeline.outstanding = s.live) := by
  have hr' := custody_reachable hr
  have hconserved := Custody.conserved_of_reachable hr'
  have hlive := Custody.live_eq hr'
  rw [Custody.Conserved, Custody.places,
    show (custody s).stage.hands = s.hands from stageOf_hands _] at hconserved
  refine ⟨hconserved, known_nodup hr, fun hok => ?_, fun hgranted hc hok hset => ?_⟩
  · have hcount := Custody.counted_of_reachable hr' (by simp [custody, hok])
    refine ⟨hcount.lost, ?_⟩
    rintro ⟨hdue, hpend, hunc, -⟩
    obtain ⟨hacc, hdel, hdisc, hdrop, hlost⟩ := hcount
    rw [hdue] at hdel hdisc hdrop
    rw [hpend] at hdisc
    rw [hunc] at hacc
    rw [hlost, custody_live] at hlive
    simp only [custody, countsOf, Due.deliveredCount, Due.discardedCount, Due.droppedCount,
      List.length_nil] at hacc hdel hdisc hdrop hlive
    omega
  · obtain ⟨hconfig, hrev⟩ := steady_of_reachIf hgranted hc
    obtain ⟨-, hclaim⟩ := Custody.exact_of_reachable hconfig hr' hrev (by simp [custody, hok])
    obtain ⟨hdue, hpend, -, hres⟩ := hset
    rw [Custody.claimed, hdue, hpend, hres, custody_live, Due.amount_none] at hclaim
    exact hclaim.symm

/-- An event that was stored, before and after it is delivered. -/
theorem nothing_lost_or_doubled_sample : ∃ s, (machine sample).Reach s ∧ s.settled ∧
    s.pipeline.stats.accepted = 1 ∧ s.history.lost = [] ∧
    s.pipeline.stats.accepted + s.history.recovered.length =
      s.pipeline.stats.delivered + s.pipeline.stats.discardedConsent +
        s.pipeline.stats.droppedInvalid + s.history.purged.length + s.live := by
  obtain ⟨s, hr, hp⟩ := Lts.Machine.reach_of_exec sampleClient_start
    (Label.starts 1 "s" "e" ++ Label.works 12)
    (fun s => decide s.settled && decide (s.pipeline.stats.accepted = 1) &&
      s.core.terminalStatus.ok) (by decide)
  simp only [Bool.and_eq_true, decide_eq_true_eq] at hp
  obtain ⟨⟨hset, hacc⟩, hok⟩ := hp
  obtain ⟨-, -, hcount, -⟩ := nothing_lost_or_doubled hr
  exact ⟨s, hr, hset, hacc, (hcount hok).1, (hcount hok).2 hset⟩

/-! ### Who resets the counter -/

namespace Client

theorem resume_section (k : AdmitFor) (st : Status) :
    (resume s t k st).client.consentSection = s.client.consentSection := by
  unfold resume
  repeat' split
  all_goals rfl

theorem endSessionLocked_section (k : AdmitFor) :
    (endSessionLocked env i s t k).client.consentSection = s.client.consentSection := by
  unfold endSessionLocked
  split
  · exact resume_section k _
  · rfl

/-- No step under the admission lock touches the consent lock. -/
theorem admitStep_section {pc : AdmitPc} (h : admitStep env i s t pc = some s') :
    s'.client.consentSection = s.client.consentSection := by
  cases pc with
  | startBegin p replacing previous =>
    simp only [admitStep, startBegin] at h
    split at h
    · obtain rfl := Option.some.inj h
      rfl
    · cases h
  | room k name ps =>
    simp only [admitStep, room] at h
    split at h
    · obtain rfl := Option.some.inj h
      exact resume_section k _
    split at h
    · obtain rfl := Option.some.inj h
      exact resume_section k _
    split at h
    · obtain rfl := Option.some.inj h
      rfl
    · cases h
  | startTerminal p =>
    obtain rfl := Option.some.inj h
    unfold startTerminal
    dsimp only
    repeat' split
    all_goals rfl
  | startReserve p =>
    obtain rfl := Option.some.inj h
    unfold startReserve
    split <;> rfl
  | startRoom p =>
    obtain rfl := Option.some.inj h
    unfold startRoom
    split
    · rfl
    · exact endSessionLocked_section _
  | endTerminal =>
    obtain rfl := Option.some.inj h
    unfold endTerminal
    dsimp only
    split
    · rfl
    · exact endSessionLocked_section _
  | gate k name ps =>
    obtain rfl := Option.some.inj h
    unfold gate
    dsimp only
    repeat' split
    all_goals first | exact resume_section k _ | rfl
  | capacity k name ps =>
    obtain rfl := Option.some.inj h
    unfold capacity
    split
    · exact resume_section k _
    · rfl
  | push k qe =>
    obtain rfl := Option.some.inj h
    unfold push
    split <;> rfl
  | undo k qe => obtain rfl := Option.some.inj h; exact resume_section k _
  | count k => obtain rfl := Option.some.inj h; exact resume_section k _
  | flushTerminal =>
    obtain rfl := Option.some.inj h
    unfold flushTerminal
    dsimp only
    split <;> rfl
  | reserve | flushBarrier | flushToken => obtain rfl := Option.some.inj h; rfl

theorem shutdownDone_section (d : Bool) (st : Status) :
    (shutdownDone s t d st).client.consentSection = s.client.consentSection := by
  cases d <;> rfl

/-- A held consent lock is only touched by its holder. -/
theorem step_section {u : Tid} {st : ConsentState} {pc : ConsentPc}
    (hheld : s.client.consentSection = .held u st pc) (h : step env i s t = some s')
    (hne : s'.client.consentSection ≠ s.client.consentSection) : u = t := by
  by_contra hut
  refine hne ?_
  unfold step at h
  generalize s.callers t = c at h
  cases c with
  | idle => cases h
  | done o => cases h
  | admitting =>
    dsimp only at h
    split at h
    · split at h
      · exact admitStep_section h
      · cases h
    · cases h
  | consenting =>
    simp only [hheld, if_neg hut] at h
    cases h
  | consentLock st =>
    simp [consentLock, hheld] at h
  | trackEnter name ps =>
    obtain rfl := Option.some.inj h
    unfold trackEnter
    dsimp only
    repeat' split
    all_goals rfl
  | shutdownTerminal d persist =>
    obtain rfl := Option.some.inj h
    unfold shutdownTerminal
    repeat' split
    all_goals exact shutdownDone_section d _
  | trackFilter | shutdownCancel | shutdownBarrier | shutdownToken | shutdownStop | destroyStop
  | destroyCancel | ownStop =>
    obtain rfl := Option.some.inj h
    rfl
  | _ =>
    -- a wait: its step is taken in one of the branches only
    simp only [startLock, endLock, trackLock, flushLock, flushWait, shutdownLock, shutdownOrdinal,
      shutdownWait, shutdownJoin, shutdownMark, destroyJoin, ownClose, exitJoin, exitMark] at h
    repeat' split at h
    all_goals first
      | cases h; done
      | obtain rfl := Option.some.inj h; first | rfl | exact shutdownDone_section _ _

end Client

/-- The step is taken at one of the two calls of `reset_outstanding`: by the worker in
`purge_store`, or by the holder of the consent lock in `run_purge`. -/
def Label.resets (s : State) : Label → Bool
  | .worker _ =>
    match s.frame.pc with
    | .resetOutstanding .. => true
    | _ => false
  | .caller t _ =>
    match s.client.consentSection with
    | .held u _ .reset => decide (u = t)
    | _ => false
  | .call .. => false

theorem stageOf_resetting {pc : WorkerPc} {n : Nat} (h : stageOf pc = .resetting n) :
    ∃ site, pc = .resetOutstanding site n := by
  cases pc with
  | resetOutstanding site m => exact ⟨site, congrArg _ (Stage.resetting.inj h)⟩
  | countQuarantined | noteFetch =>
    rcases Stage.offered_cases _ _ with ⟨-, ho⟩ | ⟨-, ho⟩ <;> exact absurd (ho.symm.trans h) nofun
  | _ => exact absurd h nofun

/-- A move that resets the counter is such a step. -/
theorem resets_of_step (hr : (machine env).Reach s) (h : step env s l = some s')
    (hres : Custody.Resets (custody s) (custody s')) : l.resets s = true := by
  rcases hres with ⟨n, hst, hidle, -⟩ | ⟨st, hrev, hne, -⟩
  · obtain ⟨site, hpc⟩ := stageOf_resetting hst
    rcases turn_of_step hr h with ⟨i, rfl, -⟩ | ⟨t, -, haside, -⟩
    · simp [Label.resets, hpc]
    · -- a caller does not move the worker
      have hsame : (custody s').stage = (custody s).stage :=
        congrArg (fun f : Frame => stageOf f.pc) haside.frame
      rw [hsame, hst] at hidle
      cases hidle
  · obtain ⟨u, hsec⟩ : ∃ u, s.client.consentSection = .held u st .reset := by
      cases hsec : s.client.consentSection with
      | free => simp [custody, hsec, revocationOf] at hrev
      | held u st' pc =>
        obtain ⟨rfl, rfl⟩ : st' = st ∧ pc = .reset := by
          simpa [custody, hsec, revocationOf] using hrev
        exact ⟨u, rfl⟩
    have hchanged : s'.client.consentSection ≠ s.client.consentSection := fun heq => by
      refine hne ?_
      rw [← hrev]
      exact congrArg revocationOf heq
    cases l with
    | worker i =>
      exact absurd (congrArg Client.consentSection (Worker.step_pass h).1.client) hchanged
    | call t op => exact absurd (congrArg Client.consentSection (Client.call_client h)) hchanged
    | caller t i =>
      obtain rfl := Client.step_section hsec h hchanged
      simp [Label.resets, hsec]

/-! ### The durable cap -/

/-- A reset of the counter finds nothing that needs capacity: no live event, nothing moved
that is still to be counted, and no reservation. -/
def CleanReset (s : State) (l : Label) : Prop := l.resets s = true → (custody s).claimed = 0

theorem covered_of_reachIf (h : (machine env).ReachIf CleanReset s) :
    Custody.Covered (custody s) := by
  refine h.rule (P := fun s => Custody.Covered (custody s)) (fun s hs => ?_)
    fun s l s' hr hi hok hs => ?_
  · exact Nat.le_of_eq (Custody.claimed_start (machine_simulated.start s hs))
  · rcases step_moves hs with heq | hm
    · rw [heq]
      exact hi
    · exact Custody.covered_step hi (custody_reachable hr) hm
        fun hres => hok (resets_of_step hr hs hres)

/-- **The durable cap.** In every run whose resets of the counter find nothing that needs
capacity, the live events never exceed the cap, or what was recovered. -/
theorem live_le_cap (h : (machine env).ReachIf CleanReset s) :
    s.live ≤ max env.config.maxPendingEvents s.history.recovered.length := by
  have hcover := covered_of_reachIf h
  have hbound : s.pipeline.outstanding ≤ _ :=
    (Custody.bounded_of_reachable (custody_reachable h.reach)).le
  calc s.live = (custody s).live := (custody_live s).symm
    _ ≤ (custody s).claimed := by
      unfold Custody.claimed
      omega
    _ ≤ s.pipeline.outstanding := hcover
    _ ≤ _ := hbound

instance (s : State) (l : Label) : Decidable (CleanReset s l) :=
  inferInstanceAs (Decidable (_ → _))

/-- A revocation and a re-grant around an idle worker keep the cap. -/
theorem live_le_cap_sample : ∃ s, (machine sample).ReachIf CleanReset s ∧
    s.history.revocations = 1 ∧ s.live = 1 ∧ s.live ≤ max 1 s.history.recovered.length := by
  obtain ⟨s, hreach, hp⟩ := Lts.Machine.reachIf_of_exec CleanReset sampleClient_start
    (Label.starts 1 "s" "e" ++ Label.consents 2 .denied 11 ++ Label.consents 2 .granted 2 ++
      Label.starts 1 "t" "f")
    (fun s => decide (s.history.revocations = 1) && decide (s.live = 1)) (by decide) (by decide)
  simp only [Bool.and_eq_true, decide_eq_true_eq] at hp
  exact ⟨s, hreach, hp.1, hp.2, live_le_cap hreach⟩

/-- **The cap can be exceeded.** The worker has drained an event; consent is denied, which
resets the counter although the event is still in its hands, and granted again; the next
event is admitted on top of it. With a cap of one and nothing recovered, two are live. -/
theorem cap_exceeded : ∃ s, (machine sample).Reach s ∧ s.live = 2 ∧
    max sample.config.maxPendingEvents s.history.recovered.length = 1 := by
  obtain ⟨s, hr, hp⟩ := Lts.Machine.reach_of_exec sampleClient_start
    (Label.starts 1 "s" "e" ++ Label.works 3 ++ Label.consents 2 .denied 10 ++
      Label.consents 2 .granted 2 ++ Label.starts 1 "t" "f")
    (fun s => decide (s.live = 2) && decide (s.history.recovered.length = 0)) (by decide)
  simp only [Bool.and_eq_true, decide_eq_true_eq] at hp
  exact ⟨s, hr, hp.1, by rw [hp.2]; rfl⟩

end PlayerTrace
