import PlayerTrace.Control.Barriers
import PlayerTrace.Custody.Ledger

/-!
# Flush tells the truth

If `flush` returns `Ok`, then the pass that answered its token had found nothing left from
before the flush: every event admitted by then was acknowledged after the sink had accepted
it, or discarded or purged by a revocation, or dropped as unusable.

An outcome is recorded for a token only by the pass that has latched it
(`PlayerTrace.Truthful`), and an outcome `Ok` only after the residual check has found the
queue, the retry buffer and the store clear up to the barrier of the pass. The tokens that
the end of the thread answers, and those whose record was pruned, are never answered `Ok`.

Ordinals are given out from one on. A row with ordinal zero was not written by this
program; a flush issued before anything was admitted does not look for such a row.
-/

namespace PlayerTrace

variable {env : Env} {i : Input} {l : Label} {s s' : State} {t : Tid}

/-! ### The results of the passes -/

namespace Worker

theorem mem_setResult {k : Nat} {v : Status} {m : List (Nat × Status)} {p : Nat × Status}
    (h : p ∈ setResult k v m) : p = (k, v) ∨ p ∈ m := by
  induction m with
  | nil => exact Or.inl (List.mem_singleton.mp h)
  | cons q m ih =>
    simp only [setResult] at h
    split at h
    · exact List.mem_cons.mp h
    · split at h
      · exact (List.mem_cons.mp h).imp id (List.mem_cons_of_mem _)
      · rcases List.mem_cons.mp h with rfl | h
        · exact Or.inr List.mem_cons_self
        · exact (ih h).imp id (List.mem_cons_of_mem _)

/-- A result was there before, or is the outcome for one of the tokens. -/
theorem mem_setResults {m : List (Nat × Status)} {first last : Nat} {v : Status}
    {p : Nat × Status} (h : p ∈ setResults m first last v) :
    p ∈ m ∨ (first ≤ p.1 ∧ p.1 ≤ last ∧ p.2 = v) := by
  have key : ∀ (ts : List Nat) (m : List (Nat × Status)),
      p ∈ ts.foldl (fun m t => setResult t v m) m → p ∈ m ∨ (p.1 ∈ ts ∧ p.2 = v) := by
    intro ts
    induction ts with
    | nil => exact fun m h => Or.inl h
    | cons t ts ih =>
      intro m h
      rcases ih _ h with h | ⟨hts, hv⟩
      · rcases mem_setResult h with rfl | h
        · exact Or.inr ⟨List.mem_cons_self, rfl⟩
        · exact Or.inl h
      · exact Or.inr ⟨List.mem_cons_of_mem _ hts, hv⟩
  refine (key _ m h).imp id fun ⟨hts, hv⟩ => ?_
  rw [List.mem_range'_1] at hts
  exact ⟨hts.1, by omega, hv⟩

end Worker

/-- An outcome `Ok` is one of the recorded results. -/
theorem mem_of_flushOutcome {token : Nat} (h : (Client.flushOutcome s token).ok = true) :
    s.core.terminalStatus.ok = true ∧
      (token, Client.flushOutcome s token) ∈ s.core.passResults := by
  unfold Client.flushOutcome at h ⊢
  split at h
  · rename_i hfail
    exact absurd (hfail.symm.trans h) nofun
  · rename_i hok
    rw [if_neg hok]
    refine ⟨by simpa using hok, ?_⟩
    unfold Client.flushResult at h ⊢
    split at h
    · rename_i status hlookup
      obtain ⟨m₁, m₂, heq, -⟩ := List.lookup_eq_some_iff.mp hlookup
      simp [heq]
    · split at h <;> cases h

/-! ### What was written -/

/-- **What is acknowledged was written**: so far as the sink is concerned, and before. -/
structure Written (s : State) : Prop where
  sent : ∀ x ∈ s.frame.pc.sent, x ∈ s.log.written
  acked : ∀ x ∈ s.history.acked, ∃ w ∈ s.log.written, x.id = some w.eventId

/-- A statement forgets nothing that was written, and what is with the store after it was
so before, or has just been written. -/
theorem Pass.written_cases (h : Pass i s s') :
    (∀ x ∈ s.log.written, x ∈ s'.log.written) ∧
      ∀ x ∈ s'.frame.pc.sent, x ∈ s.frame.pc.sent ∨ x ∈ s'.log.written := by
  cases h with
  | plain hidle _ _ hsent =>
    exact ⟨fun x hx => hidle.written ▸ hx, fun x hx => Or.inl (hsent x hx)⟩
  | write hpc hs =>
    subst hs
    exact ⟨fun x hx => List.mem_append_left _ hx, fun x hx => Or.inr (List.mem_append_right _ hx)⟩
  | latch _ _ hlog hf =>
    obtain ⟨pending, pc, hpc, hf⟩ := hf
    refine ⟨fun x hx => hlog ▸ hx, fun x hx => ?_⟩
    rw [hf] at hx
    rcases hpc with rfl | rfl <;> cases hx
  | readBarrier _ _ hlog hf =>
    obtain ⟨pc, hpc, hf⟩ := hf
    refine ⟨fun x hx => hlog ▸ hx, fun x hx => ?_⟩
    rw [hf] at hx
    rcases hpc with rfl | rfl <;> cases hx
  | popMore _ _ hlog hf =>
    obtain ⟨l, site, hf⟩ := hf
    refine ⟨fun x hx => hlog ▸ hx, fun x hx => ?_⟩
    rw [hf] at hx
    cases hx
  | vacuous _ _ hidle hpc' =>
    refine ⟨fun x hx => hidle.written ▸ hx, fun x hx => ?_⟩
    rw [hpc'] at hx
    cases hx
  | ending _ hidle hpc' =>
    refine ⟨fun x hx => hidle.written ▸ hx, fun x hx => ?_⟩
    cases hpc : s'.frame.pc <;> simp [hpc, WorkerPc.ending, WorkerPc.sent] at hpc' hx
  | queueClear _ _ hs | retryClear _ _ hs | storeClear _ _ hs | failed _ _ hs | record _ hs
  | stop _ _ hs | finish _ hs | raise _ hs =>
    subst hs
    exact ⟨fun x hx => hx, fun x hx => by cases hx⟩

/-- The worker acknowledges the batch it has sent. -/
theorem stageOf_acknowledging {pc : WorkerPc} {b : List SerializedEvent}
    (h : stageOf pc = .acknowledging b) : pc.sent = b := by
  cases pc with
  | acknowledge d batch => exact Stage.acknowledging.inj h
  | countQuarantined | noteFetch =>
    rcases Stage.offered_cases _ _ with ⟨-, ho⟩ | ⟨-, ho⟩ <;> exact absurd (ho.symm.trans h) nofun
  | _ => exact absurd h nofun

theorem written_step (hi : Written s) (h : step env s l = some s')
    (hkeep : ∀ x ∈ s.log.written, x ∈ s'.log.written)
    (hsent : ∀ x ∈ s'.frame.pc.sent, x ∈ s.frame.pc.sent ∨ x ∈ s'.log.written) : Written s' := by
  refine ⟨fun x hx => ?_, fun x hx => ?_⟩
  · rcases hsent x hx with hx | hx
    · exact hkeep x (hi.sent x hx)
    · exact hx
  · have hold : x ∈ s.history.acked → ∃ w ∈ s'.log.written, x.id = some w.eventId := fun hx => by
      obtain ⟨w, hw, hid⟩ := hi.acked x hx
      exact ⟨w, hkeep w hw, hid⟩
    rcases step_moves h with heq | hm
    · exact hold ((congrArg (fun c => c.history.acked) heq : s'.history.acked = _) ▸ hx)
    · rcases hm.acked_cases hx with hx | ⟨b, hst, w, hw, hid⟩
      · exact hold hx
      · exact ⟨w, hkeep w (hi.sent w (stageOf_acknowledging hst ▸ hw)), hid⟩

theorem written_of_reach (h : (machine env).Reach s) : Written s := by
  refine h.rule (P := Written) (fun s hs => ?_) (fun s l s' hr hi hs => ?_)
  · obtain ⟨db, m, earlier, rfl⟩ := start_eq hs
    exact ⟨nofun, nofun⟩
  · rcases turn_of_step hr hs with ⟨i, -, hw⟩ | ⟨t, -, ha, -⟩
    · obtain ⟨hkeep, hsent⟩ := (Worker.step_pass hw).2.written_cases
      exact written_step hi hs hkeep hsent
    · refine written_step hi hs (fun x hx => ha.written ▸ hx) fun x hx => Or.inl ?_
      rw [ha.frame] at hx
      exact hx

/-! ### The pass that answers a token -/

/-- Nothing admitted up to the barrier `b` is left in any of the containers. -/
def Drained (b : Nat) (s : State) : Prop :=
  Above b (s.pipeline.queue ++ s.hands ++ s.core.retry) ∧
    ∀ r ∈ s.pipeline.store.rows, 0 < r.ordinal → b < r.ordinal

/-- A pass that records `Ok` has found everything drained up to its barrier. -/
theorem drained_of_record (hr : (machine env).Reach s) {o : Status} {b : Nat}
    (hpc : s.frame.pc = .record o) (hok : o.ok = true) (hb : b ≤ s.frame.barrier) :
    Drained b s := by
  have hhands : s.hands = [] := by rw [State.hands, hpc]; rfl
  rw [Drained, hhands, List.append_nil]
  rcases (checked_of_reach hr).record o hpc hok with hzero | ⟨hqueue, hretry, hrows⟩
  · -- the barrier is zero, and ordinals begin at one
    obtain rfl : b = 0 := by omega
    have hbound := (Custody.ordered_of_reachable (custody_reachable hr)).bound
    refine ⟨fun e he => (hbound e ?_).1, fun _ _ h => h⟩
    simp only [Custody.line, List.mem_append]
    rcases List.mem_append.mp he with he | he
    · exact Or.inl (Or.inr he)
    · exact Or.inl (Or.inl (Or.inl he))
  · refine ⟨fun e he => ?_, fun r hmem _ => Nat.lt_of_le_of_lt hb (hrows r hmem)⟩
    rcases List.mem_append.mp he with he | he
    · exact Nat.lt_of_le_of_lt hb (hqueue e he)
    · exact Nat.lt_of_le_of_lt hb (hretry e he)

/-- **The token was answered `Ok` by its own pass**: at some earlier step of the worker,
which recorded `Ok` for a range of tokens with this one among them, everything up to the
barrier was drained. -/
def Answered (env : Env) (token barrier : Nat) (s : State) : Prop :=
  ∃ s₁ i s₂ o, (machine env).Reach s₁ ∧ s₁.frame.pc = .record o ∧ o.ok = true ∧
    s₁.frame.handledFlush < token ∧ token ≤ s₁.frame.want ∧ (token, barrier) ∈ s₁.log.issued ∧
    Drained barrier s₁ ∧ Worker.step env i s₁ = some s₂ ∧ (machine env).Run s₂ s

theorem Answered.step {token barrier : Nat} (h : Answered env token barrier s)
    (hs : step env s l = some s') : Answered env token barrier s' := by
  obtain ⟨s₁, i, s₂, o, hr, hpc, hok, hlt, hle, hissued, hdrained, hstep, hrun⟩ := h
  exact ⟨s₁, i, s₂, o, hr, hpc, hok, hlt, hle, hissued, hdrained, hstep, hrun.tail hs⟩

/-- **Results and returned flushes tell the truth.** -/
structure Truthful (env : Env) (s : State) : Prop where
  keys : ∀ p ∈ s.core.passResults, p.1 ≤ s.core.flushSeq
  results : ∀ p ∈ s.core.passResults, p.2.ok = true → ∀ b, (p.1, b) ∈ s.log.issued →
    Answered env p.1 b s
  returned : ∀ t token barrier status, s.callers t = .done (.flushed token barrier status) →
    status.ok = true → Answered env token barrier s

/-- A turn records nothing. -/
theorem Turn.mem_passResults (h : Turn s t s') {p : Nat × Status} (hp : p ∈ s'.core.passResults) :
    p ∈ s.core.passResults := by
  have hsame : s'.core.passResults = s.core.passResults → p ∈ s.core.passResults :=
    fun heq => heq ▸ hp
  have hprune : desk s' = (desk s).pruned → p ∈ s.core.passResults := fun hd => by
    rw [show s'.core.passResults = _ from congrArg Desk.passResults hd] at hp
    simp only [Desk.pruned] at hp
    exact List.mem_of_mem_drop hp
  cases h with
  | flushed _ hd => exact hprune hd
  | close _ hd => rcases hd with ⟨-, hd⟩ | ⟨-, hd⟩ <;> exact hsame (congrArg Desk.passResults hd)
  | advance _ hd =>
    rcases hd with hd | hd
    · exact hsame (congrArg Desk.passResults hd)
    · exact hprune hd
  | plain hd | consented _ _ hd | flushBarrier _ hd | flushToken _ hd | flushTimeout _ _ hd
  | ordinal _ _ hd | barrier _ hd | token _ hd | stop _ hd | join _ hd | mark _ _ hd
  | finish _ hd => exact hsame (congrArg Desk.passResults hd)

/-- A flush returns `Ok` only with the result recorded for its token, and while the worker has
not died. -/
theorem Turn.flushed_cases (h : Turn s t s') {token barrier : Nat} {status : Status}
    (hc : s'.callers t = .done (.flushed token barrier status)) (hok : status.ok = true) :
    s.callers t = .flushWait token barrier ∧ (token, status) ∈ s.core.passResults ∧
      s.core.terminalStatus.ok = true := by
  cases h with
  | @flushed token' barrier' hw _ hc' =>
    obtain ⟨rfl, rfl, rfl⟩ : token' = token ∧ barrier' = barrier ∧
        Client.flushOutcome s token' = status := by simpa [hc] using hc'.symm
    exact ⟨hw, (mem_of_flushOutcome hok).symm⟩
  | @flushTimeout _ _ status' _ hfail _ hc' =>
    obtain ⟨-, -, rfl⟩ : _ ∧ _ ∧ status' = status := by simpa [hc] using hc'.symm
    exact absurd (hfail.symm.trans hok) nofun
  | plain _ hp => simp [hc, Caller.plain] at hp
  | @finish d _ _ _ hc' => cases d <;> simp [hc, shutdownCaller] at hc'
  | consented _ _ _ hc' | flushBarrier _ _ hc' | flushToken _ _ hc' | close _ _ hc'
  | advance _ _ hc' | ordinal _ _ _ hc' | barrier _ _ hc' | token _ _ hc' | stop _ _ hc'
  | join _ _ hc' | mark _ _ _ hc' => simp [hc, Caller.plain] at hc'

theorem truthful_turn (hi : Truthful env s) (hb : Barriers s) (hs : step env s l = some s')
    (ha : Aside s t s') (ht : Turn s t s') : Truthful env s' := by
  refine ⟨fun p hp => ?_, fun p hp hok b hissued => ?_, fun u token barrier status hc hok => ?_⟩
  · have hkey := hi.keys p (ht.mem_passResults hp)
    rcases ht.issued_cases hb with ⟨-, hseq⟩ | ⟨-, -, hseq, -⟩ <;> omega
  · have hp := ht.mem_passResults hp
    refine (hi.results p hp hok b ?_).step hs
    rcases ht.issued_cases hb with ⟨heq, -⟩ | ⟨b', -, -, heq⟩
    · exact heq ▸ hissued
    · -- a result is never for the token that is just drawn
      rw [heq] at hissued
      refine (List.mem_cons.mp hissued).resolve_left fun hnew => ?_
      have hkey := hi.keys p hp
      have : p.1 = s.core.flushSeq + 1 := congrArg Prod.fst hnew
      omega
  · refine Answered.step ?_ hs
    by_cases hu : u = t
    · subst hu
      obtain ⟨hw, hmem, -⟩ := ht.flushed_cases hc hok
      exact hi.results _ hmem hok _ (hb.waiting _ _ _ hw)
    · exact hi.returned u token barrier status ((ha.others u hu).symm.trans hc) hok

/-- What a statement of the worker records. -/
theorem Pass.mem_passResults (h : Pass i s s') {p : Nat × Status}
    (hp : p ∈ s'.core.passResults) :
    p ∈ s.core.passResults ∨
      (s.frame.pc = .record p.2 ∧ s.frame.handledFlush < p.1 ∧ p.1 ≤ s.frame.want) ∨
      (p.2.ok = false ∧ p.1 ≤ s.core.flushSeq) := by
  have hsame : s'.core.passResults = s.core.passResults → p ∈ s.core.passResults :=
    fun heq => heq ▸ hp
  cases h with
  | @record o hpc hs =>
    subst hs
    simp only [Worker.record, Worker.prune] at hp
    refine (Worker.mem_setResults (List.mem_of_mem_drop hp)).imp id fun ⟨hlo, hhi, ho⟩ => ?_
    exact Or.inl ⟨ho ▸ hpc, hlo, hhi⟩
  | finish _ hs =>
    subst hs
    simp only [Worker.finish, Worker.prune] at hp
    refine (Worker.mem_setResults (List.mem_of_mem_drop hp)).imp id fun ⟨_, hhi, ho⟩ => ?_
    exact Or.inr ⟨ho ▸ rfl, hhi⟩
  | plain hidle | vacuous _ _ hidle | ending _ hidle => exact Or.inl (hsame hidle.passResults)
  | latch _ hcore | readBarrier _ hcore | popMore _ hcore =>
    exact Or.inl (hsame (congrArg WorkerCore.passResults hcore))
  | write _ hs | queueClear _ _ hs | retryClear _ _ hs | storeClear _ _ hs | failed _ _ hs
  | stop _ _ hs | raise _ hs =>
    subst hs
    exact Or.inl hp

theorem truthful_pass (hr : (machine env).Reach s) (hi : Truthful env s)
    (hw : Worker.step env i s = some s') : Truthful env s' := by
  obtain ⟨ha, hp⟩ := Worker.step_pass hw
  have hs : step env s (.worker i) = some s' := hw
  have hlatched := latched_of_reach hr
  refine ⟨fun p hmem => ?_, fun p hmem hok b hissued => ?_, fun t token barrier status hc hok => ?_⟩
  · rw [ha.flushSeq]
    rcases hp.mem_passResults hmem with hmem | ⟨-, -, hle⟩ | ⟨-, hle⟩
    · exact hi.keys p hmem
    · exact Nat.le_trans hle hlatched.want
    · exact hle
  · rw [ha.issued] at hissued
    rcases hp.mem_passResults hmem with hmem | ⟨hpc, hlo, hhi⟩ | ⟨hfail, -⟩
    · exact (hi.results p hmem hok b hissued).step hs
    · have harmed : s.frame.armed := Or.inr (by rw [hpc]; rfl)
      have hdrained := drained_of_record hr hpc hok (hlatched.armed harmed _ hissued hhi)
      exact ⟨s, i, s', p.2, hr, hpc, hok, hlo, hhi, hissued, hdrained, hw, .refl _⟩
    · exact absurd (hfail.symm.trans hok) nofun
  · rw [ha.callers] at hc
    exact (hi.returned t token barrier status hc hok).step hs

theorem truthful_of_reach (h : (machine env).Reach s) : Truthful env s := by
  refine h.rule (P := Truthful env) (fun s hs => ?_) (fun s l s' hr hi hs => ?_)
  · obtain ⟨db, m, earlier, rfl⟩ := start_eq hs
    exact ⟨nofun, nofun, nofun⟩
  · rcases turn_of_step hr hs with ⟨i, -, hw⟩ | ⟨t, -, ha, ht⟩
    · exact truthful_pass hr hi hw
    · exact truthful_turn hi (barriers_of_reach hr) hs ha ht

/-! ### What a flush that returned `Ok` says -/

/-- What became of the events up to a barrier that is drained, in a run whose worker is
still in its loop. -/
theorem fate_of_drained (hr : (machine env).Reach s) {b : Nat} (hdrained : Drained b s)
    (hlive : s.frame.pc.ending = false) {x : Item}
    (hx : x ∈ s.history.recovered ++ s.history.accepted.map fun a => a.qe.item)
    (hpos : 0 < x.ordinal) (hle : x.ordinal ≤ b) :
    (x ∈ s.history.acked ∧ ∃ w ∈ s.log.written, x.id = some w.eventId) ∨
      x ∈ s.history.discarded ∨ x ∈ s.history.purged ∨ x ∈ s.history.dropped := by
  have hr' := custody_reachable hr
  have hraised : (custody s).raised = false := by
    by_contra hraised
    have hterm : s.core.terminalStatus.ok = false := by simpa [custody] using hraised
    cases hlive.symm.trans (ending_of_terminal hr hterm)
  have hlost : s.history.lost = [] := (Custody.counted_of_reachable hr' hraised).lost
  have hplace := (Custody.conserved_of_reachable hr').mem_iff.mpr hx
  have hqueued : ∀ e ∈ s.pipeline.queue ++ s.hands ++ s.core.retry, x ≠ e.item := by
    rintro e he rfl
    exact absurd (hdrained.1 e he) (Nat.not_lt_of_le hle)
  have hstored : ∀ r ∈ s.pipeline.store.rows, x ≠ r.item := by
    rintro r hmem rfl
    exact absurd (hdrained.2 r hmem hpos) (Nat.not_lt_of_le hle)
  rw [Custody.places, show (custody s).stage.hands = s.hands from stageOf_hands _] at hplace
  simp only [List.mem_append, List.mem_map] at hplace hqueued
  rcases hplace with ((((((((⟨e, he, heq⟩ | ⟨e, he, heq⟩) | ⟨e, he, heq⟩) | ⟨r, hmem, heq⟩) | hx) |
    hx) | hx) | hx) | hx)
  · exact absurd heq.symm (hqueued e (Or.inl (Or.inl he)))
  · exact absurd heq.symm (hqueued e (Or.inl (Or.inr he)))
  · exact absurd heq.symm (hqueued e (Or.inr he))
  · exact absurd heq.symm (hstored r hmem)
  · exact Or.inl ⟨hx, (written_of_reach hr).acked x hx⟩
  · exact Or.inr (Or.inl hx)
  · exact Or.inr (Or.inr (Or.inl hx))
  · exact Or.inr (Or.inr (Or.inr hx))
  · rw [show (custody s).history.lost = [] from hlost] at hx
    cases hx

/-- **`flush` never reports a false `Ok`.** If it returned `Ok`, then the worker's pass that
answered its token recorded this outcome in a state in which no event admitted up to the
barrier of the token was in the queue, in the worker's hands, in the retry buffer or in
the store; each such event had been acknowledged after it was written to the sink, or
discarded or purged by a revocation, or dropped as unusable. -/
theorem flush_truthful (hr : (machine env).Reach s) {token barrier : Nat} {status : Status}
    (hc : s.callers t = .done (.flushed token barrier status)) (hok : status.ok = true) :
    ∃ s₁ i s₂ o, (machine env).Reach s₁ ∧ Worker.step env i s₁ = some s₂ ∧
      (machine env).Run s₂ s ∧ s₁.frame.pc = .record o ∧ o.ok = true ∧
      s₁.frame.handledFlush < token ∧ token ≤ s₁.frame.want ∧ (token, barrier) ∈ s₁.log.issued ∧
      Drained barrier s₁ ∧
      ∀ x ∈ s₁.history.recovered ++ s₁.history.accepted.map fun a => a.qe.item,
        0 < x.ordinal → x.ordinal ≤ barrier →
        (x ∈ s₁.history.acked ∧ ∃ w ∈ s₁.log.written, x.id = some w.eventId) ∨
          x ∈ s₁.history.discarded ∨ x ∈ s₁.history.purged ∨ x ∈ s₁.history.dropped := by
  obtain ⟨s₁, i, s₂, o, hr₁, hpc, ho, hlt, hle, hissued, hdrained, hstep, hrun⟩ :=
    (truthful_of_reach hr).returned t token barrier status hc hok
  refine ⟨s₁, i, s₂, o, hr₁, hstep, hrun, hpc, ho, hlt, hle, hissued, hdrained, ?_⟩
  intro x hx hpos hord
  exact fate_of_drained hr₁ hdrained (by rw [hpc]; rfl) hx hpos hord

/-- A flush of one event. -/
theorem flush_truthful_sample : ∃ s, (machine sample).Reach s ∧
    s.callers 3 = .done (.flushed 1 1 {}) ∧ ∃ s₁, (machine sample).Reach s₁ ∧ Drained 1 s₁ := by
  obtain ⟨s, hr, hp⟩ := Lts.Machine.reach_of_exec sampleClient_start
    (Label.starts 1 "s" "e" ++ [.call 3 .flush] ++ Label.steps 3 4 ++ Label.works 34 ++
      Label.steps 3 1)
    (fun s => decide (s.callers 3 = .done (.flushed 1 1 {}))) (by decide)
  have hc := of_decide_eq_true hp
  obtain ⟨s₁, -, -, -, hr₁, -, -, -, -, -, -, -, hdrained, -⟩ := flush_truthful hr hc rfl
  exact ⟨s, hr, hc, s₁, hr₁, hdrained⟩

end PlayerTrace
