import PlayerTrace.Control.Exits
import PlayerTrace.Shutdown

/-!
# What a shutdown reports

A shutdown reports `Ok`, and `wait_for_worker_exit` reports `true`, only after the worker's
thread has ended and was joined (`PlayerTrace.shutdown_reports`). That much is true for every
number of concurrent callers.

What does not follow is that the sink is left alone from then on. `request_cancel` is not
called by the worker but by `shutdown` itself, between its first section of the admission
lock and the rest, and by the destructor. A second `shutdown` that has passed that section
calls it whenever it gets to run; the destructor calls it even if the client was stopped long
ago; and a `wait_for_worker_exit` that found the thread ended by an exception, with no
shutdown asked for, does not keep a later `shutdown` from it (`PlayerTrace.sink_touched`).
Without these nothing touches the sink any more (`PlayerTrace.sink_left_alone`).
-/

namespace PlayerTrace

variable {env : Env} {i : Input} {l : Label} {s s' s'' : State} {t : Tid}

/-! ### Who has joined the thread -/

/-- **What the end of the worker's thread is told by.** -/
structure Exited (s : State) : Prop where
  joined : s.client.joined = true → s.core.finished = true
  marked : ∀ t, (s.callers t).joined = true → s.client.joined = true
  terminal : ∀ t d persist, s.callers t = .shutdownTerminal d persist →
    s.client.lifecycle = .stopped
  stopped : s.client.lifecycle = .stopped → s.client.joined = true
  returned : ∀ t status, s.callers t = .done (.status .shutdown status) → status.ok = true →
    s.client.lifecycle = .stopped
  waited : ∀ t, s.callers t = .done (.waited true) → s.client.joined = true

theorem Course.lifecycle_stopped (h : Course s t s') (hs : s.client.lifecycle = .stopped) :
    s'.client.lifecycle = .stopped := by
  rcases h.lifecycle with heq | ⟨hne, -⟩ | ⟨-, -, heq⟩
  · exact heq.trans hs
  · exact absurd hs hne
  · exact heq

theorem Course.joined_mono (h : Course s t s') (hj : s.client.joined = true) :
    s'.client.joined = true := by
  rcases h.joined with heq | ⟨-, hj'⟩
  · exact heq.trans hj
  · exact hj'

theorem exited_course (hi : Exited s) (ha : Aside s t s') (h : Course s t s') : Exited s' := by
  have hother : ∀ u c, s'.callers u = c → u ≠ t → s.callers u = c := fun u c hc hu =>
    (ha.others u hu).symm.trans hc
  refine ⟨fun hj => ?_, fun u hu => ?_, fun u d p hu => ?_, fun hst => ?_, fun u st hu hok => ?_,
    fun u hu => ?_⟩
  · rw [ha.finished]
    rcases h.joined with heq | ⟨hfin, -⟩
    · exact hi.joined (heq ▸ hj)
    · exact hfin
  · by_cases hut : u = t
    · subst hut
      exact (h.marked hu).elim (fun hu => h.joined_mono (hi.marked u hu)) id
    · rw [ha.others u hut] at hu
      exact h.joined_mono (hi.marked u hu)
  · by_cases hut : u = t
    · subst hut
      exact h.marks d p hu
    · exact h.lifecycle_stopped (hi.terminal u d p (hother u _ hu hut))
  · rcases h.lifecycle with heq | ⟨-, heq⟩ | ⟨-, hpos, -⟩
    · exact h.joined_mono (hi.stopped (heq ▸ hst))
    · exact absurd (heq.symm.trans hst) nofun
    · exact h.joined_mono (hi.marked t hpos)
  · by_cases hut : u = t
    · subst hut
      rcases h.returns st hu hok with hst | ⟨d, p, hterm⟩
      · exact h.lifecycle_stopped hst
      · exact h.lifecycle_stopped (hi.terminal u d p hterm)
    · exact h.lifecycle_stopped (hi.returned u st (hother u _ hu hut) hok)
  · by_cases hut : u = t
    · subst hut
      exact h.joined_mono (hi.marked u (h.waited hu))
    · exact h.joined_mono (hi.waited u (hother u _ hu hut))

theorem exited_of_reach (h : (machine env).Reach s) : Exited s := by
  refine h.rule (P := Exited) (fun s hs => ?_) (fun s l s' hr hi hs => ?_)
  · obtain ⟨db, m, earlier, rfl⟩ := start_eq hs
    exact ⟨nofun, nofun, nofun, nofun, nofun, nofun⟩
  · rcases course_of_step hr hs with ⟨i, -, hw⟩ | ⟨t, -, ha, hc⟩
    · have hap := (Worker.step_pass hw).1
      -- a thread that has been joined takes no step
      have hnot : s.client.joined ≠ true := fun hj => by
        rw [Worker.step_exited ((closed_of_reach hr).exited (hi.joined hj))] at hw
        cases hw
      refine ⟨fun hj => ?_, ?_, ?_, ?_, ?_, ?_⟩
      · rw [hap.client] at hj
        exact absurd hj hnot
      · rw [hap.callers, hap.client]
        exact hi.marked
      · rw [hap.callers, hap.client]
        exact hi.terminal
      · rw [hap.client]
        exact hi.stopped
      · rw [hap.callers, hap.client]
        exact hi.returned
      · rw [hap.callers, hap.client]
        exact hi.waited
    · exact exited_course hi ha hc

/-! ### The order of the lifecycle -/

/-- **The lifecycle moves one way.** -/
theorem lifecycle_step (hr : (machine env).Reach s) (h : step env s l = some s') :
    s'.client.lifecycle = s.client.lifecycle ∨
      (s.client.lifecycle = .running ∧ s'.client.lifecycle = .stopping) ∨
      (s.client.lifecycle = .stopping ∧ s'.client.lifecycle = .stopped) := by
  rcases course_of_step hr h with ⟨i, -, hw⟩ | ⟨t, -, ha, hc⟩
  · exact Or.inl (congrArg Client.lifecycle (Worker.step_pass hw).1.client)
  · rcases hc.lifecycle with heq | ⟨hne, heq⟩ | ⟨hwhy, -, heq⟩
    · exact Or.inl heq
    · cases hlife : s.client.lifecycle with
      | running => exact Or.inr (Or.inl ⟨rfl, heq⟩)
      | stopping => exact Or.inl heq
      | stopped => exact absurd hlife hne
    · have hrun : s.client.lifecycle ≠ .running :=
        hwhy.elim id ((closed_of_reach hr).closing t)
      cases hlife : s.client.lifecycle with
      | running => exact absurd hlife hrun
      | stopping => exact Or.inr (Or.inr ⟨rfl, heq⟩)
      | stopped => exact Or.inl heq

/-- Once the client is not running it never runs again. -/
theorem not_running_of_run (hr : (machine env).Reach s) (hrun : (machine env).Run s s')
    (h : s.client.lifecycle ≠ .running) : s'.client.lifecycle ≠ .running := by
  refine hr.run_rule (P := fun s => s.client.lifecycle ≠ .running)
    (fun s l s' hr hi hs => ?_) hrun h
  rcases lifecycle_step hr hs with heq | ⟨hlife, -⟩ | ⟨-, heq⟩
  · rwa [heq]
  · exact absurd hlife hi
  · rw [heq]
    nofun

/-- The step by which a call of `shutdown` or the destructor passes its first section of the
admission lock. -/
def ClosesAdmission (env : Env) (s s' : State) : Prop :=
  ∃ t i, ((∃ d, s.callers t = .shutdownLock d) ∨ s.callers t = .ownClose) ∧
    step env s (.caller t i) = some s'

theorem ClosesAdmission.not_running (h : ClosesAdmission env s s') :
    s'.client.lifecycle ≠ .running := by
  obtain ⟨t, i, ⟨d, hc⟩ | hc, hs⟩ := h
  · simp only [step, Client.step, hc, Client.shutdownLock] at hs
    split at hs
    · cases hs
    split at hs
    · rename_i hst
      obtain rfl := Option.some.inj hs
      have heq : (Client.shutdownDone s t d {}).client = s.client := by
        unfold Client.shutdownDone
        split <;> rfl
      simp [heq, hst]
    · obtain rfl := Option.some.inj hs
      exact fun h => by cases h
  · simp only [step, Client.step, hc, Client.ownClose] at hs
    split at hs
    · cases hs
    · obtain rfl := Option.some.inj hs
      split
      · exact fun h => by cases h
      · rename_i hrun
        exact hrun

/-- A call that admits events returned `Ok` by this step. -/
def AdmitsOk (env : Env) (s s' : State) : Prop :=
  ∃ t l op status, l.thread = some t ∧ step env s l = some s' ∧
    s'.callers t = .done (.status op status) ∧ op.admits = true ∧ status.ok = true

/-- An admission returns `Ok` only while the client is running. -/
theorem running_of_admitsOk (hr : (machine env).Reach s) (h : AdmitsOk env s s') :
    s.client.lifecycle = .running := by
  obtain ⟨t, l, op, status, hl, hs, hc, hop, hok⟩ := h
  rcases course_of_step hr hs with ⟨i, rfl, -⟩ | ⟨u, hu, -, hcourse⟩
  · cases hl
  · obtain rfl : u = t := Option.some.inj (hu.symm.trans hl)
    obtain ⟨k, hadm⟩ := hcourse.admits op status hc hop hok
    by_contra hrun
    have hout := (closed_of_reach hr).entry hrun
    have hin : (custody s).entry = .counting := congrArg entryOf hadm
    rw [hin] at hout
    cases hout

/-- **Shutdown reports only a real worker exit.** In every run: the lifecycle moves from
`running` to `stopping` to `stopped` and no other way; it is `stopped` only when the worker's
loop has set `finished` and its thread has been joined; a `shutdown` that has returned `Ok`
did so in such a state; and once some `shutdown` has passed its first section of the
admission lock, no admission returns `Ok`. -/
theorem shutdown_reports (hr : (machine env).Reach s) :
    (∀ l s', step env s l = some s' →
      s'.client.lifecycle = s.client.lifecycle ∨
        (s.client.lifecycle = .running ∧ s'.client.lifecycle = .stopping) ∨
        (s.client.lifecycle = .stopping ∧ s'.client.lifecycle = .stopped)) ∧
    (s.client.lifecycle = .stopped → s.core.finished = true ∧ s.client.joined = true) ∧
    (∀ t status, s.callers t = .done (.status .shutdown status) → status.ok = true →
      s.client.lifecycle = .stopped ∧ s.core.finished = true ∧ s.client.joined = true) ∧
    ∀ s₁ s₂ s', ClosesAdmission env s s₁ → (machine env).Run s₁ s₂ → ¬AdmitsOk env s₂ s' := by
  have hi := exited_of_reach hr
  have hstopped : s.client.lifecycle = .stopped →
      s.core.finished = true ∧ s.client.joined = true := fun hst =>
    ⟨hi.joined (hi.stopped hst), hi.stopped hst⟩
  refine ⟨fun l s' => lifecycle_step hr, hstopped, fun t status hc hok => ?_, ?_⟩
  · have hst := hi.returned t status hc hok
    exact ⟨hst, hstopped hst⟩
  · intro s₁ s₂ s' hclose hrun hadm
    obtain ⟨t, i, -, hs⟩ := id hclose
    have hr₁ : (machine env).Reach s₁ := hr.step (l := .caller t i) hs
    exact not_running_of_run hr₁ hrun hclose.not_running (running_of_admitsOk (hr₁.run hrun) hadm)

/-- Two shutdowns at once: the second one is still waiting when the first one returns. -/
theorem shutdown_reports_sample : ∃ s, (machine sample).Reach s ∧
    s.callers 1 = .done (.status .shutdown {}) ∧ s.callers 2 = .shutdownCancel false ∧
    s.core.finished = true ∧ s.client.joined = true := by
  obtain ⟨s, hr, hp⟩ := Lts.Machine.reach_of_exec sampleClient_start
    ([.call 2 .shutdown] ++ Label.steps 2 1 ++ Label.shutsDown 1)
    (fun s => decide (s.callers 1 = .done (.status .shutdown {})) &&
      decide (s.callers 2 = .shutdownCancel false)) (by decide)
  simp only [Bool.and_eq_true, decide_eq_true_eq] at hp
  obtain ⟨-, hend⟩ := (shutdown_reports hr).2.2.1 1 {} hp.1 rfl
  exact ⟨s, hr, hp.1, hp.2, hend⟩

/-! ### The sink -/

/-- The steps in which a member function of the sink runs: `write` and `flush` on the worker's
thread, and `request_cancel` on that of a shutdown or of the destructor. -/
def touchesSink (s : State) : Label → Bool
  | .worker _ =>
    match s.frame.pc with
    | .write .. | .flushSink => true
    | _ => false
  | .caller t _ =>
    match s.callers t with
    | .shutdownCancel _ | .destroyCancel => true
    | _ => false
  | .call .. => false

/-- Some caller has been told that the worker is gone. -/
def Reported (s : State) : Prop :=
  (∃ t status, s.callers t = .done (.status .shutdown status) ∧ status.ok = true) ∨
    ∃ t, s.callers t = .done (.waited true)

theorem finished_of_reported (hr : (machine env).Reach s) (h : Reported s) :
    s.core.finished = true := by
  have hi := exited_of_reach hr
  rcases h with ⟨t, status, hc, hok⟩ | ⟨t, hc⟩
  · exact hi.joined (hi.stopped (hi.returned t status hc hok))
  · exact hi.joined (hi.waited t hc)

/-- A thread that has ended takes no step, however the run goes on. -/
theorem worker_gone (hr : (machine env).Reach s) (hfin : s.core.finished = true)
    (hrun : (machine env).Run s s') (i : Input) : Worker.step env i s' = none := by
  have hfin' : s'.core.finished = true := by
    refine hr.run_rule (P := fun s => s.core.finished = true) (fun s l s' hr hi hs => ?_) hrun hfin
    rcases course_of_step hr hs with ⟨i, -, hw⟩ | ⟨t, -, ha, -⟩
    · rw [Worker.step_exited ((closed_of_reach hr).exited hi)] at hw
      cases hw
    · exact ha.finished.trans hi
  exact Worker.step_exited ((closed_of_reach (hr.run hrun)).exited hfin')

/-- **No caller will ask the sink to cancel**: the client is stopped, no shutdown is between
its first section and its request, and none is in the destructor. -/
structure Unasked (s : State) : Prop where
  stopped : s.client.lifecycle = .stopped
  cancel : ∀ t d, s.callers t ≠ .shutdownCancel d
  destroying : ∀ t, (s.callers t).destroying = false

theorem unasked_step (hr : (machine env).Reach s) (hi : Unasked s)
    (hl : ∀ t, l ≠ .call t .destroy) (hs : step env s l = some s') : Unasked s' := by
  rcases course_of_step hr hs with ⟨i, -, hw⟩ | ⟨t, ht, ha, hc⟩
  · have hap := (Worker.step_pass hw).1
    exact ⟨by rw [hap.client]; exact hi.stopped, by rw [hap.callers]; exact hi.cancel,
      by rw [hap.callers]; exact hi.destroying⟩
  · refine ⟨hc.lifecycle_stopped hi.stopped, fun u d hu => ?_, fun u => ?_⟩
    · by_cases hut : u = t
      · subst hut
        exact hc.cancels d hu hi.stopped
      · exact hi.cancel u d ((ha.others u hut).symm.trans hu)
    · by_cases hut : u = t
      · subst hut
        rw [← Bool.not_eq_true]
        intro hd
        cases l with
        | worker i => cases ht
        | call v op =>
          obtain rfl : v = u := Option.some.inj ht
          exact hl v (by rw [Client.call_destroying hs hd])
        | caller v i =>
          obtain rfl : v = u := Option.some.inj ht
          rcases hc.destroys hd with hd | hfree
          · exact absurd ((hi.destroying v).symm.trans hd) nofun
          · exact absurd ((Client.step_busy hs).symm.trans hfree) nofun
      · rw [ha.others u hut]
        exact hi.destroying u

/-- **When the sink is left alone.** Once a `shutdown` has returned `Ok`, or a
`wait_for_worker_exit` has returned `true`, the worker takes no step any more, so it calls
neither `write` nor `flush`. And if then the client is stopped, no other shutdown has passed its
first section without having asked the sink to cancel, and the destructor is neither running
nor called later, no member function of the sink runs any more. -/
theorem sink_left_alone (hr : (machine env).Reach s) (hrep : Reported s) :
    (∀ s', (machine env).Run s s' → ∀ i, Worker.step env i s' = none) ∧
    (Unasked s → ∀ s', (machine env).RunIf (fun _ l => ∀ t, l ≠ .call t .destroy) s s' →
      ∀ l s'', step env s' l = some s'' → touchesSink s' l = false) := by
  have hgone : ∀ s', (machine env).Run s s' → ∀ i, Worker.step env i s' = none :=
    fun s' hrun => worker_gone hr (finished_of_reported hr hrep) hrun
  refine ⟨hgone, fun hi s' hrun l s'' hs => ?_⟩
  have hi' := hr.runIf_rule (P := Unasked)
    (fun s l s' hr hi hl hs => unasked_step hr hi hl hs) hrun hi
  cases l with
  | worker i =>
    rw [show step env s' (.worker i) = none from hgone s' hrun.run i] at hs
    cases hs
  | call t op => rfl
  | caller t i =>
    have hcancel := hi'.cancel t
    have hdestroy := hi'.destroying t
    simp only [touchesSink]
    split
    · rename_i d hc
      exact absurd hc (hcancel d)
    · rename_i hc
      rw [hc] at hdestroy
      cases hdestroy
    · rfl

/-- A stopped client, with a second shutdown that waits for its first section. -/
theorem sink_left_alone_sample : ∃ s s', (machine sample).Reach s ∧ Reported s ∧ Unasked s ∧
    step sample s (.caller 2 {}) = some s' ∧ touchesSink s (.caller 2 {}) = false := by
  have h₀ := Lts.Machine.Reach.of_start sampleClient_start
  have hany : ((machine sample).exec sampleClient (.call 2 .shutdown :: Label.shutsDown 1)).any
      (fun s => decide (s.callers 1 = .done (.status .shutdown {})) &&
        decide (s.callers 2 = .shutdownLock false) && decide (s.client.lifecycle = .stopped) &&
        (step sample s (.caller 2 {})).isSome) = true := by decide
  obtain ⟨s, hex, hp⟩ := Lts.Machine.exec_of_any hany
  simp only [Bool.and_eq_true, decide_eq_true_eq, Option.isSome_iff_exists] at hp
  obtain ⟨⟨⟨h₁, h₂⟩, hlife⟩, s', hs⟩ := hp
  have hr := h₀.run (Lts.Machine.run_of_exec hex)
  have hrep : Reported s := Or.inl ⟨1, {}, h₁, rfl⟩
  have hidle : ∀ t, t ≠ 1 → t ≠ 2 → s.callers t = .idle := fun t ht₁ ht₂ => by
    refine callers_of_exec h₀ hex ?_
    simp [Label.shutsDown, Label.steps, Label.works, Label.thread, Ne.symm ht₁, Ne.symm ht₂]
  have hun : Unasked s := by
    refine ⟨hlife, fun t d => ?_, fun t => ?_⟩
    all_goals
      by_cases ht₁ : t = 1
      · subst ht₁
        simp [h₁, Caller.destroying]
      · by_cases ht₂ : t = 2
        · subst ht₂
          simp [h₂, Caller.destroying]
        · simp [hidle t ht₁ ht₂, Caller.destroying]
  exact ⟨s, s', hr, hrep, hun, hs, (sink_left_alone hr hrep).2 hun s (.refl s) _ _ hs⟩

/-- **The sink is touched after the worker is reported gone**: by a second `shutdown` that had
passed its first section, by the destructor of a client stopped before, and by a first
`shutdown` after `wait_for_worker_exit` has seen the thread end by an exception. -/
theorem sink_touched :
    (∃ s l s', (machine sample).Reach s ∧ s.callers 1 = .done (.status .shutdown {}) ∧
      step sample s l = some s' ∧ touchesSink s l = true) ∧
    (∃ s s' l s'', (machine sample).Reach s ∧ s.callers 1 = .done (.status .shutdown {}) ∧
      (∀ t, t ≠ 1 → s.callers t = .idle) ∧ (machine sample).Run s s' ∧
      step sample s' l = some s'' ∧ touchesSink s' l = true) ∧
    ∃ s s' l s'', (machine sample).Reach s ∧ s.callers 1 = .done (.waited true) ∧
      (machine sample).Run s s' ∧ step sample s' l = some s'' ∧ touchesSink s' l = true := by
  refine ⟨?_, ?_, ?_⟩
  · obtain ⟨s, hr, hp⟩ := Lts.Machine.reach_of_exec sampleClient_start
      ([.call 2 .shutdown] ++ Label.steps 2 1 ++ Label.shutsDown 1)
      (fun s => decide (s.callers 1 = .done (.status .shutdown {})) &&
        touchesSink s (.caller 2 {}) && (step sample s (.caller 2 {})).isSome) (by decide)
    simp only [Bool.and_eq_true, decide_eq_true_eq, Option.isSome_iff_exists] at hp
    obtain ⟨⟨h₁, htouch⟩, s', hs⟩ := hp
    exact ⟨s, _, s', hr, h₁, hs, htouch⟩
  · have h₀ := Lts.Machine.Reach.of_start sampleClient_start
    have hany : ((machine sample).exec sampleClient (Label.shutsDown 1)).any
        (fun s => decide (s.callers 1 = .done (.status .shutdown {})) &&
          ((machine sample).exec s ([.call 2 .destroy] ++ Label.steps 2 2)).any fun s' =>
            touchesSink s' (.caller 2 {}) && (step sample s' (.caller 2 {})).isSome) = true := by
      decide
    obtain ⟨s, hex, hp⟩ := Lts.Machine.exec_of_any hany
    simp only [Bool.and_eq_true, decide_eq_true_eq] at hp
    obtain ⟨s', hex', hp'⟩ := Lts.Machine.exec_of_any hp.2
    simp only [Bool.and_eq_true, Option.isSome_iff_exists] at hp'
    obtain ⟨htouch, s'', hs⟩ := hp'
    refine ⟨s, s', _, s'', h₀.run (Lts.Machine.run_of_exec hex), hp.1, fun t ht => ?_,
      Lts.Machine.run_of_exec hex', hs, htouch⟩
    refine callers_of_exec h₀ hex ?_
    simp [Label.shutsDown, Label.steps, Label.works, Label.thread, Ne.symm ht]
  · obtain ⟨s, s', hr, hrun, hp⟩ := Lts.Machine.reach_run_of_exec sampleClient_start
      ([.worker { raise := some none }] ++ Label.works 3 ++ [.call 1 .waitForWorkerExit] ++
        Label.steps 1 2)
      ([.call 2 .shutdown] ++ Label.steps 2 1)
      (fun s s' => decide (s.callers 1 = .done (.waited true)) &&
        touchesSink s' (.caller 2 {}) && (step sample s' (.caller 2 {})).isSome) (by decide)
    simp only [Bool.and_eq_true, decide_eq_true_eq, Option.isSome_iff_exists] at hp
    obtain ⟨⟨h₁, htouch⟩, s'', hs⟩ := hp
    exact ⟨s, s', _, s'', hr, h₁, hrun, hs, htouch⟩

end PlayerTrace
