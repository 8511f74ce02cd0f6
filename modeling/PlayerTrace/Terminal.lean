import PlayerTrace.Control.Positions
import PlayerTrace.Control.Returns
import PlayerTrace.Flush
import PlayerTrace.Lib.Progress

/-!
# After the worker has died

An exception that escapes the worker's loop ends it for good. The worker then sets
`terminated_` before it does anything else, so that no producer is told `Ok` any more for work
that nothing will do. This module says how true that is.

What `terminated_` cannot undo is an admission that has read it already: the tests of
`admit_locked` come first and the push later, and the worker does not take the admission lock.
There is at most one such admission (`PlayerTrace.State.passed`), since only the holder of the
lock can be one. Apart from it nothing is admitted, no admitting call returns `Ok`, and no flush
does – not even one whose pass had been recorded as a success (`PlayerTrace.dead_worker_refuses`).
-/

namespace PlayerTrace

/-! ### Past the gate -/

namespace AdmitPc

/-- The points between the tests of `admit_locked` and the push. -/
def pushing : AdmitPc → Bool
  | .capacity .. | .room .. | .reserve .. | .push .. => true
  | _ => false

/-- The points from which an admission can still succeed without another test of
`terminated_`. -/
def passed : AdmitPc → Bool
  | .count _ => true
  | pc => pc.pushing

end AdmitPc

/-- Whether the holder of the admission lock may still push an event. -/
def State.pushing (s : State) : Bool :=
  match s.client.admission with
  | .producer _ pc => pc.pushing
  | _ => false

/-- Whether the holder of the admission lock may still return `Ok`. -/
def State.passed (s : State) : Bool :=
  match s.client.admission with
  | .producer _ pc => pc.passed
  | _ => false

/-- An `Ok` for an admitting call. -/
def Outcome.admitted : Outcome → Bool
  | .status op result => op.admits && result.ok
  | _ => false

/-- An `Ok` for a flush. -/
def Outcome.assured : Outcome → Bool
  | .flushed _ _ result => result.ok
  | _ => false

variable {env : Env} {i : Input} {s s' : State} {l : Label} {t : Tid} {pc : AdmitPc}

theorem State.pushing_of_producer (h : s.client.admission = .producer t pc) :
    s.pushing = pc.pushing := by
  rw [State.pushing, h]

theorem State.passed_of_producer (h : s.client.admission = .producer t pc) :
    s.passed = pc.passed := by
  rw [State.passed, h]

theorem AdmitPc.passed_of_pushing (h : pc.pushing = true) : pc.passed = true := by
  cases pc with
  | capacity | room | reserve | push => rfl
  | _ => cases h

theorem State.passed_of_pushing (h : s.pushing = true) : s.passed = true := by
  unfold State.pushing at h
  unfold State.passed
  split
  · rename_i t pc hadm
    rw [hadm] at h
    exact AdmitPc.passed_of_pushing h
  · rename_i hne
    split at h
    · rename_i t pc hadm
      exact absurd hadm (hne t pc)
    · cases h

/-! ### A step without a worker -/

/-- **What a step may use up** when the worker is dead: the push of the one admission under way,
and its `Ok`. -/
structure Expires (s s' : State) (results : List Outcome) : Prop where
  pushed : ∃ new, s'.history.accepted = s.history.accepted ++ new ∧
    new.length + s'.pushing.toNat ≤ s.pushing.toNat
  granted : results.countP Outcome.admitted + s'.passed.toNat ≤ s.passed.toNat

/-- A step that pushes nothing, returns no `Ok`, and leaves nobody past the gate. -/
theorem Expires.of_refusal {results : List Outcome}
    (hacc : s'.history.accepted = s.history.accepted) (hpassed : s'.passed = false)
    (hres : ∀ o ∈ results, o.admitted = false) : Expires s s' results := by
  have hpushing : s'.pushing = false := by
    by_contra h
    rw [Bool.not_eq_false] at h
    rw [State.passed_of_pushing h] at hpassed
    cases hpassed
  have hnone : results.countP Outcome.admitted = 0 := by
    refine List.countP_eq_zero.mpr fun o ho => ?_
    rw [hres o ho]
    exact Bool.false_ne_true
  refine ⟨⟨[], by rw [hacc, List.append_nil], ?_⟩, ?_⟩
  · rw [hpushing]
    exact Nat.zero_le _
  · rw [hnone, hpassed]
    exact Nat.zero_le _

/-- The holder of the lock moves on inside it. -/
theorem Expires.of_proceed {x : State} {pc' : AdmitPc} {results : List Outcome}
    (hadm : s.client.admission = .producer t pc) (hacc : x.history.accepted = s.history.accepted)
    (hpushing : pc'.pushing = true → pc.pushing = true)
    (hpassed : pc'.passed = true → pc.passed = true) (hres : results = []) :
    Expires s (Client.proceed x t pc') results := by
  have hle : ∀ {a b : Bool}, (a = true → b = true) → a.toNat ≤ b.toNat := by
    intro a b h
    cases a with
    | false => exact Nat.zero_le _
    | true => rw [h rfl]
  refine ⟨⟨[], ?_, ?_⟩, ?_⟩
  · rw [List.append_nil]
    exact hacc
  · rw [State.pushing_of_producer hadm, List.length_nil, Nat.zero_add]
    exact hle hpushing
  · rw [State.passed_of_producer hadm, hres, List.countP_nil, Nat.zero_add]
    exact hle hpassed

/-- The holder of the lock is refused. -/
theorem Expires.of_leave {x : State} {op : Op} {status : Status} (hl : l.thread = some t)
    (hacc : x.history.accepted = s.history.accepted) (hok : status.ok = false) :
    Expires s (Client.leave x t op status) (returned (Client.leave x t op status) l) := by
  refine .of_refusal hacc rfl fun o ho => ?_
  have hdone : (Client.leave x t op status).callers t = .done (.status op status) :=
    move_callers _
  rw [returned_of_done hl hdone] at ho
  rw [List.mem_singleton.mp ho, Outcome.admitted, hok, Bool.and_false]

/-- The guards of a move inside the lock, when `terminated_` is set. -/
theorem Leads.passed {pc' : AdmitPc} (h : Leads env s pc pc')
    (hdead : s.pipeline.terminated = true) :
    (pc'.pushing = true → pc.pushing = true) ∧ (pc'.passed = true → pc.passed = true) := by
  cases h with
  | gated hterm => rw [hdead] at hterm; cases hterm
  | covered => exact ⟨fun _ => rfl, fun _ => rfl⟩
  | replacing | opening | reserved | ending | finishing | overflow | flushing =>
    refine ⟨fun h => ?_, fun h => ?_⟩
    all_goals cases h

/-- **The holder of the admission lock.** -/
theorem Inside.expires (hl : l.thread = some t) (hc : s.callers t = .admitting)
    (hadm : s.client.admission = .producer t pc) (hdead : s.pipeline.terminated = true)
    (h : Inside env i s t pc s') : Expires s s' (returned s' l) := by
  have hbusy : ∀ {x : State} {pc' : AdmitPc}, x.callers = s.callers →
      returned (Client.proceed x t pc') l = [] := by
    intro x pc' hx
    refine returned_of_busy hl ?_
    rw [show (Client.proceed x t pc').callers = s.callers from hx, hc]
    rfl
  cases h with
  | moves h =>
    obtain ⟨hpushing, hpassed⟩ := h.passed hdead
    exact .of_proceed hadm rfl hpushing hpassed (hbusy rfl)
  | refuses _ hok => exact .of_leave hl rfl hok
  | fails _ hok =>
    rw [Client.resume_of_fail hok]
    exact .of_leave hl rfl hok
  | undoes =>
    unfold Client.undo
    rw [Client.resume_of_fail rfl]
    exact .of_leave hl rfl rfl
  | begins =>
    refine .of_proceed hadm rfl (fun h => ?_) (fun h => ?_) (hbusy rfl)
    all_goals cases h
  | builds => exact .of_proceed hadm rfl (fun _ => rfl) (fun _ => rfl) (hbusy rfl)
  | reserves => exact .of_proceed hadm rfl (fun _ => rfl) (fun _ => rfl) (hbusy rfl)
  | @pushes k qe =>
    refine ⟨⟨[⟨qe, k.origin⟩], rfl, ?_⟩, ?_⟩
    · rw [State.pushing_of_producer hadm]
      exact Nat.le_refl _
    · rw [State.passed_of_producer hadm, hbusy]
      · exact Nat.le_refl _
      · rfl
  | @counts k =>
    unfold Client.count
    rw [Client.resume_of_ok]
    refine ⟨⟨[], (List.append_nil _).symm, ?_⟩, ?_⟩
    · cases k <;> exact Nat.zero_le _
    · rw [State.passed_of_producer hadm]
      -- the one `Ok`, or none yet when a session is being replaced
      have hone : ∀ results : List Outcome, results.length ≤ 1 →
          results.countP Outcome.admitted ≤ 1 :=
        fun _ h => Nat.le_trans List.countP_le_length h
      cases k <;> refine hone _ ?_ <;> unfold returned <;> split <;> simp
  | flushBarrier =>
    refine .of_proceed hadm rfl (fun h => ?_) (fun h => ?_) (hbusy rfl)
    all_goals cases h
  | flushToken =>
    refine .of_refusal rfl rfl fun o ho => ?_
    obtain ⟨u, hu, hc'⟩ := mem_returned.mp ho
    obtain rfl : t = u := Option.some.inj (hl.symm.trans hu)
    cases (move_callers _).symm.trans hc'

/-- Everybody else: the lock changes hands at most, and whoever takes it is before the gate. -/
theorem Beside.expires (h : Beside s s') (hr : (machine env).Reach s)
    (hs : step env s l = some s') : Expires s s' (returned s' l) := by
  have hseated := seated_of_reach (hr.step hs)
  -- an `Ok` would be that of the holder, who has not moved
  have hres : (returned s' l).countP Outcome.admitted = 0 := by
    refine List.countP_eq_zero.mpr fun o ho hok => ?_
    obtain ⟨t, hl, hc⟩ := mem_returned.mp ho
    rcases course_of_step hr hs with ⟨i, rfl, -⟩ | ⟨u, hu, -, hcourse⟩
    · cases hl
    obtain rfl : t = u := Option.some.inj (hl.symm.trans hu)
    cases o with
    | status op result =>
      rw [Outcome.admitted, Bool.and_eq_true] at hok
      obtain ⟨k, hadm⟩ := hcourse.admits op result hc hok.1 hok.2
      rcases h.slot with hsame | ⟨hfree, -⟩ | ⟨hcons, -⟩ | ⟨-, -, hfree, -⟩
      · cases (hseated.producer t _ (hsame.trans hadm)).symm.trans hc
      · cases hadm.symm.trans hfree
      · cases hadm.symm.trans hcons
      · cases hadm.symm.trans hfree
    | flushed | consented | waited => cases hok
  have hnew : s'.history.accepted = s.history.accepted ++ [] := by
    rw [h.accepted, List.append_nil]
  have hgate : s'.pushing = s.pushing ∧ s'.passed = s.passed ∨
      s'.pushing = false ∧ s'.passed = false := by
    unfold State.pushing State.passed
    rcases h.slot with hsame | ⟨-, hcons⟩ | ⟨-, hfree⟩ | ⟨t, pc, -, hadm, hent, -⟩
    · rw [hsame]
      exact Or.inl ⟨rfl, rfl⟩
    · rw [hcons]
      exact Or.inr ⟨rfl, rfl⟩
    · rw [hfree]
      exact Or.inr ⟨rfl, rfl⟩
    · rw [hadm]
      cases hent <;> exact Or.inr ⟨rfl, rfl⟩
  rcases hgate with ⟨hpushing, hpassed⟩ | ⟨hpushing, hpassed⟩
  · refine ⟨⟨[], hnew, ?_⟩, ?_⟩
    · rw [hpushing, List.length_nil, Nat.zero_add]
    · rw [hpassed, hres, Nat.zero_add]
  · refine ⟨⟨[], hnew, ?_⟩, ?_⟩
    · rw [hpushing]
      exact Nat.zero_le _
    · rw [hpassed, hres]
      exact Nat.zero_le _

/-! ### The run -/

theorem Inside.terminated (h : Inside env i s t pc s') :
    s'.pipeline.terminated = s.pipeline.terminated := by
  cases h with
  | fails _ hok =>
    rw [Client.resume_of_fail hok]
    rfl
  | undoes =>
    unfold Client.undo
    rw [Client.resume_of_fail rfl]
    rfl
  | counts =>
    unfold Client.count
    rw [Client.resume_of_ok]
    rfl
  | moves | refuses | begins | builds | reserves | pushes | flushBarrier | flushToken => rfl

/-- **A step of a client whose worker has set `terminated_`.** -/
theorem expires_of_step (hr : (machine env).Reach s) (hdead : s.pipeline.terminated = true)
    (h : step env s l = some s') :
    s'.pipeline.terminated = true ∧ Expires s s' (returns env s l) := by
  rw [returns_of_step h]
  rcases admission_of_step hr h with hb | ⟨t, i, pc, rfl, hc, hadm, hstep⟩
  · exact ⟨hb.terminated hdead, hb.expires hr h⟩
  · have hin := Client.admitStep_inside hstep
    exact ⟨hin.terminated.trans hdead, hin.expires rfl hc hadm hdead⟩

/-- A flush that returns once the worker has died does not return `Ok`. -/
theorem assured_of_step (hr : (machine env).Reach s) (hterm : s.core.terminalStatus.ok = false)
    (h : step env s l = some s') {o : Outcome} (ho : o ∈ returns env s l) : o.assured = false := by
  rw [returns_of_step h] at ho
  obtain ⟨t, hl, hc⟩ := mem_returned.mp ho
  have hturn : Turn s t s' := by
    cases l with
    | worker i => cases hl
    | call u op =>
      obtain rfl := Option.some.inj hl
      exact (Client.call_turn h).2
    | caller u i =>
      obtain rfl := Option.some.inj hl
      exact (Client.step_turn (Custody.gated_of_reachable (custody_reachable hr)) h).2
  cases o with
  | flushed token barrier result =>
    by_contra hok
    rw [Bool.not_eq_false] at hok
    cases hterm.symm.trans (hturn.flushed_cases hc hok).2.2
  | status | consented | waited => rfl

/-- A dead worker hands nothing to the sink. -/
theorem written_of_terminal (hr : (machine env).Reach s) (hterm : s.core.terminalStatus.ok = false)
    (h : step env s l = some s') : s'.log.written = s.log.written := by
  rcases turn_of_step hr h with ⟨i, -, hw⟩ | ⟨t, -, ha, -⟩
  · refine (Worker.written_cases hw).elim id ?_
    rintro ⟨d, v, batch, hpc, -⟩
    have hend := ending_of_terminal hr hterm
    rw [hpc] at hend
    cases hend
  · exact ha.written

/-- **Nobody is told `Ok` for work that nothing will do.** Once the worker has died of an
exception, along every run and whatever is called: nothing more reaches the sink, and no flush
returns `Ok`. Once it has set `terminated_`, at most one more event is admitted and at most one
admitting call returns `Ok`, and none does unless the holder of the admission lock had passed the
gate by then. -/
theorem dead_worker_refuses {s₀ : State} {log : List Outcome} (hr : (machine env).Reach s₀)
    (hterm : s₀.core.terminalStatus.ok = false)
    (h : ((machine env).observed (returns env)).Run (s₀, []) (s, log)) :
    s.log.written = s₀.log.written ∧ (∀ o ∈ log, o.assured = false) ∧
      (s₀.pipeline.terminated = true →
        (∃ new, s.history.accepted = s₀.history.accepted ++ new ∧
          new.length ≤ s₀.pushing.toNat) ∧
        log.countP Outcome.admitted ≤ s₀.passed.toNat) := by
  have key : s.core.terminalStatus.ok = false ∧ s.log.written = s₀.log.written ∧
      (∀ o ∈ log, o.assured = false) ∧
      (s₀.pipeline.terminated = true → s.pipeline.terminated = true ∧ Expires s₀ s log) := by
    refine hr.observed_run_rule (P := fun s log => s.core.terminalStatus.ok = false ∧
      s.log.written = s₀.log.written ∧ (∀ o ∈ log, o.assured = false) ∧
      (s₀.pipeline.terminated = true → s.pipeline.terminated = true ∧ Expires s₀ s log))
      (fun s log l s' hr hi hs => ?_) h ⟨hterm, rfl, ?_, fun hdead => ⟨hdead, ⟨[], ?_, ?_⟩, ?_⟩⟩
    · obtain ⟨hterm, hwritten, hassured, hexpires⟩ := hi
      refine ⟨terminal_of_step hs hterm, (written_of_terminal hr hterm hs).trans hwritten,
        fun o ho => ?_, fun hdead => ?_⟩
      · exact (List.mem_append.mp ho).elim (hassured o) (assured_of_step hr hterm hs)
      · obtain ⟨hdead, ⟨new, hnew, hpush⟩, hgrant⟩ := hexpires hdead
        obtain ⟨hdead', ⟨more, hmore, hpush'⟩, hgrant'⟩ := expires_of_step hr hdead hs
        refine ⟨hdead', ⟨new ++ more, by rw [hmore, hnew, List.append_assoc], ?_⟩, ?_⟩
        · rw [List.length_append]
          omega
        · rw [List.countP_append]
          omega
    · exact fun o ho => absurd ho List.not_mem_nil
    · exact (List.append_nil _).symm
    · simp
    · simp
  obtain ⟨-, hwritten, hassured, hexpires⟩ := key
  refine ⟨hwritten, hassured, fun hdead => ?_⟩
  obtain ⟨-, ⟨new, hnew, hpush⟩, hgrant⟩ := hexpires hdead
  exact ⟨⟨new, hnew, by omega⟩, by omega⟩

/-- An exception in place of the next statement. -/
def thrown : Input := { raise := some (some "out of memory") }

/-- **The one admission that is too late**: a session is being started when the worker dies. It
is told `Ok`; the call after it is not. -/
theorem dead_worker_refuses_late : ∃ s₀ s log, (machine sample).Reach s₀ ∧
    s₀.pipeline.terminated = true ∧ s₀.passed = true ∧
    ((machine sample).observed (returns sample)).Run (s₀, []) (s, log) ∧
    s.history.accepted.length = 1 ∧ log.length = 2 ∧ log.countP Outcome.admitted = 1 ∧
    log.countP Outcome.admitted ≤ s₀.passed.toNat := by
  have hany : ((machine sample).exec sampleClient ([.call 1 (.startSession "")] ++
      Label.steps 1 2 ++ [.caller 1 { uuid := "s" }] ++ Label.steps 1 2 ++
      [.worker thrown] ++ Label.works 1)).any (fun s₀ => !s₀.core.terminalStatus.ok &&
        s₀.pipeline.terminated && s₀.passed &&
        (((machine sample).observed (returns sample)).exec (s₀, [])
          ([.caller 1 { uuid := "e" }] ++ Label.steps 1 3 ++ [.call 1 .endSession] ++
            Label.steps 1 2)).any fun p =>
          decide (p.1.history.accepted.length = 1 ∧ p.2.length = 2 ∧
            p.2.countP Outcome.admitted = 1)) = true := by
    decide +kernel
  obtain ⟨s₀, hex, hp⟩ := Lts.Machine.exec_of_any hany
  simp only [Bool.and_eq_true, Bool.not_eq_true'] at hp
  obtain ⟨⟨⟨hterm, hdead⟩, hpassed⟩, hlate⟩ := hp
  obtain ⟨⟨s, log⟩, hrun, hend⟩ := Lts.Machine.exec_of_any hlate
  rw [decide_eq_true_eq] at hend
  have hr : (machine sample).Reach s₀ := ⟨_, sampleClient_start, Lts.Machine.run_of_exec hex⟩
  have hobs := Lts.Machine.run_of_exec hrun
  have hle := ((dead_worker_refuses hr hterm hobs).2.2 hdead).2
  exact ⟨s₀, s, log, hr, hdead, hpassed, hobs, hend.1, hend.2.1, hend.2.2, hle⟩

end PlayerTrace
