import PlayerTrace.Control.Calls

/-!
# Admissions are all or nothing

A call of `start_session`, `end_session` or `track` either returns `Ok` and has pushed what it
is for, or returns an error and has left no trace (`PlayerTrace.admission_atomic`). Only
`start_session` on a live session pushes twice, and it reserves for both before it pushes
either. That reservation is only a test – nothing is set aside – but while the admission lock
is held only the worker moves capacity, and only downwards, so what was tested stays true
(`PlayerTrace.Standing.worker`). For each position inside the lock `PlayerTrace.Stands` says what
the call has done so far; from a position behind the reservation there is no way back
(`PlayerTrace.AdmitPc.reserved`).
-/

namespace PlayerTrace

/-! ### What a call promises -/

/-- What an error leaves behind: everything as it was in `s₀`, nothing pushed, nothing
reserved. -/
structure Untouched (s₀ s : State) (pushed : List Admitted) (reserved : Int) : Prop where
  session : s.client.session = s₀.client.session
  ordinal : s.client.ordinal = s₀.client.ordinal
  accepted : s.pipeline.stats.accepted = s₀.pipeline.stats.accepted
  pushed : pushed = []
  reserved : reserved = 0

/-- An event of this origin and name, for this session. -/
def Admitted.Is (a : Admitted) (origin : Origin) (name sessionId : String) : Prop :=
  a.origin = origin ∧ a.qe.event.name = name ∧ a.qe.event.sessionId = sessionId

/-- What `Ok` stands for: the events pushed by the call, in order. -/
def Completed (op : Op) (s₀ s : State) (pushed : List Admitted) : Prop :=
  match op with
  | .track name _ => ∃ a, pushed = [a] ∧ a.Is .track name s₀.client.session.sessionId
  | .endSession => ∃ a, pushed = [a] ∧ a.Is .finish "session_end" s₀.client.session.sessionId
  | .startSession _ =>
    if s₀.client.session.active then
      ∃ a b, pushed = [a, b] ∧ a.Is .finish "session_end" s₀.client.session.sessionId ∧
        b.Is .start "session_start" s.client.session.sessionId
    else ∃ b, pushed = [b] ∧ b.Is .start "session_start" s.client.session.sessionId
  | _ => False

/-- The steps of the worker, but for the one that gives up for good. -/
def Spared (env : Env) (s : State) (l : Label) : Prop :=
  ∃ i, l = .worker i ∧
    ∀ s', Worker.step env i s = some s' → s'.pipeline.terminated = s.pipeline.terminated

/-! ### The positions inside the lock -/

namespace AdmitFor

/-- The name of the event. -/
def name : AdmitFor → String
  | .track name _ => name
  | .endSession | .replaceEnd .. => "session_end"
  | .start .. => "session_start"

/-- One of the two admissions behind `reserve_locked(2)`. -/
def sure : AdmitFor → Bool
  | .replaceEnd .. | .start _ true _ => true
  | _ => false

/-- The events still to be pushed, this one included. -/
def need : AdmitFor → Nat
  | .replaceEnd .. => 2
  | _ => 1

/-- Whether there was a session to replace. -/
def Found (k : AdmitFor) (active : Bool) : Prop :=
  match k with
  | .replaceEnd .. | .start _ true _ => active = true
  | .start _ false _ => active = false
  | _ => True

/-- The session the event belongs to. -/
def identity (k : AdmitFor) (s₀ s : State) : String :=
  match k with
  | .start .. => s.client.session.sessionId
  | _ => s₀.client.session.sessionId

/-- What was pushed before this event. -/
def Earlier (k : AdmitFor) (s₀ : State) (pushed : List Admitted) : Prop :=
  match k with
  | .start _ true _ =>
    ∃ a, pushed = [a] ∧ a.Is .finish "session_end" s₀.client.session.sessionId
  | _ => pushed = []

end AdmitFor

/-- The positions behind `reserve_locked(2)`. -/
def AdmitPc.reserved : AdmitPc → Bool
  | .gate k _ _ | .capacity k _ _ | .room k _ _ | .reserve k _ | .push k _ | .undo k _
  | .count k => k.sure
  | .startBegin _ replacing _ => replacing
  | _ => false

/-- None of the tests that need no capacity refuses. -/
structure Admissible (s : State) : Prop where
  terminated : s.pipeline.terminated = false
  lifecycle : s.client.lifecycle = .running
  consent : s.pipeline.consent = .granted

/-- There is capacity for `n` more events. -/
structure Spacious (env : Env) (n : Nat) (s : State) : Prop where
  capacity : s.pipeline.outstanding + n ≤ env.config.maxPendingEvents
  room : s.pipeline.queue.length + n ≤ env.config.maxQueueSize

section Positions

variable (env : Env) (op : Op) (s₀ s : State) (pushed : List Admitted) (reserved : Int)

/-- Before the event is built: a failure can still go back, and behind the reservation there
is none. -/
structure Asking (k : AdmitFor) : Prop where
  op : op = Client.op k
  found : k.Found s₀.client.session.active
  earlier : k.Earlier s₀ pushed
  identity : s.client.session.sessionId = k.identity s₀ s
  back : k.sure = false →
    Untouched s₀ (Client.setSession s (k.fallback s.client.session)) pushed reserved
  sure : k.sure = true → s.client.session.active = true ∧ Admissible s ∧ Spacious env k.need s

/-- After it is built: there is room for it. `c` and `q` are what it already takes of the
capacity and of the queue itself. -/
structure Placing (k : AdmitFor) (c q : Nat) : Prop where
  op : op = Client.op k
  found : k.Found s₀.client.session.active
  room : s.pipeline.queue.length + k.need ≤ env.config.maxQueueSize + q
  sure : k.sure = true →
    Admissible s ∧ s.pipeline.outstanding + k.need ≤ env.config.maxPendingEvents + c

/-- What the call has done when it stands at a position inside the lock. -/
def Stands : AdmitPc → Prop
  | .startTerminal playerId => op = .startSession playerId ∧ Untouched s₀ s pushed reserved ∧
      s.client.lifecycle = .running ∧ s.pipeline.consent = .granted
  | .startReserve playerId => op = .startSession playerId ∧ Untouched s₀ s pushed reserved ∧
      s.client.session.active = true ∧ Admissible s
  | .startRoom playerId => op = .startSession playerId ∧ Untouched s₀ s pushed reserved ∧
      s.client.session.active = true ∧ Admissible s ∧
      s.pipeline.outstanding + 2 ≤ env.config.maxPendingEvents
  | .startBegin playerId true _ => op = .startSession playerId ∧
      s₀.client.session.active = true ∧ Admissible s ∧ Spacious env 1 s ∧
      ∃ a, pushed = [a] ∧ a.Is .finish "session_end" s₀.client.session.sessionId
  | .startBegin playerId false previous => op = .startSession playerId ∧
      Untouched s₀ s pushed reserved ∧ previous = s.client.session ∧
      s.client.session.active = false
  | .endTerminal => op = .endSession ∧ Untouched s₀ s pushed reserved
  | .gate k name _ | .capacity k name _ | .room k name _ =>
      name = k.name ∧ Asking env op s₀ s pushed reserved k
  | .reserve k qe => Placing env op s₀ s k 0 0 ∧ k.Earlier s₀ pushed ∧
      Admitted.Is ⟨qe, k.origin⟩ k.origin k.name (k.identity s₀ s)
  | .push k qe => Placing env op s₀ s k 1 0 ∧ k.Earlier s₀ pushed ∧
      Admitted.Is ⟨qe, k.origin⟩ k.origin k.name (k.identity s₀ s)
  | .count k => Placing env op s₀ s k 1 1 ∧ ∃ earlier a, pushed = earlier ++ [a] ∧
      k.Earlier s₀ earlier ∧ a.Is k.origin k.name (k.identity s₀ s)
  | .undo .. | .flushTerminal | .flushBarrier | .flushToken _ => False

/-- **Where a call can be**, and what it has done by then. -/
inductive Standing (t : Tid) : Prop
  | waiting (hc : (s.callers t).call = some op) (h : Untouched s₀ s pushed reserved)
  | inside {pc : AdmitPc} (hc : s.callers t = .admitting)
      (hadm : s.client.admission = .producer t pc) (h : Stands env op s₀ s pushed reserved pc)
  | completed (hc : s.callers t = .done (.status op {})) (h : Completed op s₀ s pushed)
  | refused {status : Status} (hc : s.callers t = .done (.status op status))
      (hok : status.ok = false) (h : Untouched s₀ s pushed reserved)

end Positions

variable {env : Env} {i : Input} {s s' s₀ : State} {t : Tid} {op : Op} {pushed : List Admitted}
  {reserved : Int}

/-! ### The worker cannot take away what was tested -/

/-- What the worker, and a move inside the lock, may do to all this. -/
structure Gives (s s' : State) : Prop where
  session : s'.client.session = s.client.session
  ordinal : s'.client.ordinal = s.client.ordinal
  lifecycle : s'.client.lifecycle = s.client.lifecycle
  consent : s'.pipeline.consent = s.pipeline.consent
  terminated : s'.pipeline.terminated = s.pipeline.terminated
  accepted : s'.pipeline.stats.accepted = s.pipeline.stats.accepted
  queue : s'.pipeline.queue.length ≤ s.pipeline.queue.length
  outstanding : s'.pipeline.outstanding ≤ s.pipeline.outstanding

namespace Gives

theorem of_worker (hr : (machine env).Reach s) (h : Worker.step env i s = some s')
    (hterm : s'.pipeline.terminated = s.pipeline.terminated) : Gives s s' := by
  have hf := Worker.step_foreign h
  have hb := hf.outside.beside (l := .worker i) hr h
  exact ⟨congrArg Client.session hf.client, hb.ordinal, congrArg Client.lifecycle hf.client,
    hf.consent, hterm, hb.counted, hb.queue.length_le, hb.outstanding⟩

theorem of_proceed (pc : AdmitPc) : Gives s (Client.proceed s t pc) :=
  ⟨rfl, rfl, rfl, rfl, rfl, rfl, Nat.le_refl _, Nat.le_refl _⟩

theorem of_lock (pc : AdmitPc) : Gives s (Client.lockAdmission s t pc) :=
  ⟨rfl, rfl, rfl, rfl, rfl, rfl, Nat.le_refl _, Nat.le_refl _⟩

variable (hg : Gives s s')

include hg

theorem untouched (h : Untouched s₀ s pushed reserved) : Untouched s₀ s' pushed reserved :=
  ⟨hg.session.trans h.session, hg.ordinal.trans h.ordinal, hg.accepted.trans h.accepted, h.pushed,
    h.reserved⟩

theorem admissible (h : Admissible s) : Admissible s' :=
  ⟨hg.terminated.trans h.terminated, hg.lifecycle.trans h.lifecycle, hg.consent.trans h.consent⟩

theorem spacious {n : Nat} (h : Spacious env n s) : Spacious env n s' :=
  ⟨(Nat.add_le_add_right hg.outstanding n).trans h.capacity,
    (Nat.add_le_add_right hg.queue n).trans h.room⟩

theorem identity (k : AdmitFor) : k.identity s₀ s' = k.identity s₀ s := by
  cases k <;> simp only [AdmitFor.identity, hg.session]

theorem placing {k : AdmitFor} {c q : Nat} (h : Placing env op s₀ s k c q) :
    Placing env op s₀ s' k c q where
  op := h.op
  found := h.found
  room := (Nat.add_le_add_right hg.queue _).trans h.room
  sure hk := ⟨hg.admissible (h.sure hk).1,
    (Nat.add_le_add_right hg.outstanding _).trans (h.sure hk).2⟩

theorem asking {k : AdmitFor} (h : Asking env op s₀ s pushed reserved k) :
    Asking env op s₀ s' pushed reserved k := by
  refine ⟨h.op, h.found, h.earlier, ?_, fun hk => ?_, fun hk => ?_⟩
  · rw [hg.identity, hg.session]
    exact h.identity
  · have hu := h.back hk
    exact ⟨by rw [hg.session]; exact hu.session, hg.ordinal.trans hu.ordinal,
      hg.accepted.trans hu.accepted, hu.pushed, hu.reserved⟩
  · obtain ⟨hactive, hadm, hroom⟩ := h.sure hk
    exact ⟨by rwa [hg.session], hg.admissible hadm, hg.spacious hroom⟩

/-- **A position keeps standing.** -/
theorem stands {pc : AdmitPc} (h : Stands env op s₀ s pushed reserved pc) :
    Stands env op s₀ s' pushed reserved pc := by
  cases pc with
  | startTerminal p =>
    obtain ⟨hop, hu, hrun, hcons⟩ := h
    exact ⟨hop, hg.untouched hu, hg.lifecycle.trans hrun, hg.consent.trans hcons⟩
  | startReserve p =>
    obtain ⟨hop, hu, hactive, hadm⟩ := h
    exact ⟨hop, hg.untouched hu, by rwa [hg.session], hg.admissible hadm⟩
  | startRoom p =>
    obtain ⟨hop, hu, hactive, hadm, hcap⟩ := h
    exact ⟨hop, hg.untouched hu, by rwa [hg.session], hg.admissible hadm,
      (Nat.add_le_add_right hg.outstanding 2).trans hcap⟩
  | startBegin p replacing previous =>
    cases replacing with
    | true =>
      obtain ⟨hop, hactive, hadm, hroom, hp⟩ := h
      exact ⟨hop, hactive, hg.admissible hadm, hg.spacious hroom, hp⟩
    | false =>
      obtain ⟨hop, hu, hprev, hactive⟩ := h
      exact ⟨hop, hg.untouched hu, by rwa [hg.session], by rwa [hg.session]⟩
  | endTerminal => exact ⟨h.1, hg.untouched h.2⟩
  | gate k | capacity k | room k => exact ⟨h.1, hg.asking h.2⟩
  | reserve k | push k =>
    obtain ⟨hp, he, hi⟩ := h
    exact ⟨hg.placing hp, he, by rwa [hg.identity]⟩
  | count k =>
    obtain ⟨hp, earlier, a, hps, he, hi⟩ := h
    exact ⟨hg.placing hp, earlier, a, hps, he, by rwa [hg.identity]⟩
  | undo | flushTerminal | flushBarrier | flushToken => exact h

theorem completed (h : Completed op s₀ s pushed) : Completed op s₀ s' pushed := by
  unfold Completed at h ⊢
  rwa [hg.session]

end Gives

/-- **The worker's steps do not move a call.** -/
theorem Standing.worker (hr : (machine env).Reach s)
    (h : Standing env op s₀ s pushed reserved t) (hs : Worker.step env i s = some s')
    (hterm : s'.pipeline.terminated = s.pipeline.terminated) :
    Standing env op s₀ s' pushed reserved t := by
  have hg := Gives.of_worker hr hs hterm
  have hcallers := (Worker.step_pass hs).1.callers
  cases h with
  | waiting hc h => exact .waiting (by rwa [hcallers]) (hg.untouched h)
  | inside hc hadm h =>
    refine .inside (by rwa [hcallers]) ?_ (hg.stands h)
    rwa [(Worker.step_foreign hs).client]
  | completed hc h => exact .completed (by rwa [hcallers]) (hg.completed h)
  | refused hc hok h => exact .refused (by rwa [hcallers]) hok (hg.untouched h)

/-! ### The steps of the call itself -/

/-- Taking the lock. -/
theorem stands_of_enters {pc : AdmitPc} (h : Enters s t pc) (hc : (s.callers t).call = some op)
    (hu : Untouched s₀ s pushed reserved) : Stands env op s₀ s pushed reserved pc := by
  cases h with
  | start hcall hrun hcons =>
    rw [hcall] at hc
    exact ⟨(Option.some.inj hc).symm, hu, hrun, hcons⟩
  | finish hcall =>
    rw [hcall] at hc
    exact ⟨(Option.some.inj hc).symm, hu⟩
  | track hcall =>
    rw [hcall] at hc
    refine ⟨rfl, (Option.some.inj hc).symm, trivial, hu.pushed, ?_, fun _ => hu, nofun⟩
    exact congrArg SessionManager.sessionId hu.session
  | flush hcall =>
    rw [hcall] at hc
    cases hc

/-- **A failure is possible only where one can go back**: not behind the reservation. -/
theorem Stands.fails {pc : AdmitPc} {k : AdmitFor} (h : Stands env op s₀ s pushed reserved pc)
    (hf : Fails env s pc k) : k.sure = false ∧ op = Client.op k ∧
      Untouched s₀ (Client.setSession s (k.fallback s.client.session)) pushed reserved := by
  -- a sure admission passes every test that can fail
  have hsure : ∀ {name : String}, name = k.name ∧ Asking env op s₀ s pushed reserved k →
      (k.sure = true → False) → k.sure = false ∧ op = Client.op k ∧
        Untouched s₀ (Client.setSession s (k.fallback s.client.session)) pushed reserved := by
    intro name h hno
    have hk : k.sure = false := Bool.eq_false_iff.mpr hno
    exact ⟨hk, h.2.op, h.2.back hk⟩
  cases hf with
  | startRoom hactive =>
    obtain ⟨-, -, hactive', -⟩ := h
    exact absurd hactive' (by simp [hactive])
  | endTerminal => exact ⟨rfl, h.1, h.2⟩
  | gate hwhy =>
    refine hsure h fun hk => ?_
    obtain ⟨hactive, hadm, -⟩ := h.2.sure hk
    simp [hadm.terminated, hadm.lifecycle, hadm.consent, hactive] at hwhy
  | capacity hcap =>
    refine hsure h fun hk => ?_
    have hroom := (h.2.sure hk).2.2.capacity
    have hneed : 1 ≤ k.need := by cases k <;> simp [AdmitFor.need]
    omega
  | room hwhy =>
    refine hsure h fun hk => ?_
    obtain ⟨hactive, -, hroom⟩ := h.2.sure hk
    have hneed : 1 ≤ k.need := by cases k <;> simp [AdmitFor.need]
    have hlen := hroom.room
    simp only [EventQueue.full, decide_eq_true_eq, hactive, Bool.true_eq_false, or_false] at hwhy
    omega

/-- A refusal comes before anything is done. -/
theorem Stands.refuses {pc : AdmitPc} {op' : Op} (h : Stands env op s₀ s pushed reserved pc)
    (hr : Refuses env s pc op') : op = op' ∧ Untouched s₀ s pushed reserved := by
  cases hr with
  | startTerminal | startReserve | startRoom => exact ⟨h.1, h.2.1⟩
  | endTerminal => exact h
  | flushTerminal => exact h.elim

/-- The moves inside the lock. -/
theorem Stands.leads {pc pc' : AdmitPc} (h : Stands env op s₀ s pushed reserved pc)
    (hl : Leads env s pc pc') : Stands env op s₀ s pushed reserved pc' := by
  cases hl with
  | replacing hterm hactive =>
    obtain ⟨hop, hu, hrun, hcons⟩ := h
    exact ⟨hop, hu, hactive, hterm, hrun, hcons⟩
  | opening hactive =>
    obtain ⟨hop, hu, -⟩ := h
    exact ⟨hop, hu, rfl, hactive⟩
  | reserved hcap =>
    obtain ⟨hop, hu, hactive, hadm⟩ := h
    exact ⟨hop, hu, hactive, hadm, hcap⟩
  | ending hroom =>
    obtain ⟨hop, hu, hactive, hadm, hcap⟩ := h
    have hlen : s.pipeline.queue.length + 2 ≤ env.config.maxQueueSize := by
      simp only [EventQueue.hasRoomFor, decide_eq_true_eq] at hroom
      split at hroom <;> omega
    refine ⟨rfl, hop, ?_, hu.pushed, congrArg SessionManager.sessionId hu.session, nofun,
      fun _ => ⟨hactive, hadm, hcap, hlen⟩⟩
    exact (congrArg SessionManager.active hu.session).symm.trans hactive
  | finishing =>
    obtain ⟨hop, hu⟩ := h
    exact ⟨rfl, hop, trivial, hu.pushed, congrArg SessionManager.sessionId hu.session, fun _ => hu,
      nofun⟩
  | gated | covered => exact h
  | @overflow k qe hfull =>
    have hroom := h.1.room
    have hneed : 1 ≤ k.need := by cases k <;> simp [AdmitFor.need]
    have hlen : env.config.maxQueueSize ≤ s.pipeline.queue.length := by
      simpa [EventQueue.tryPush] using hfull
    exact absurd hlen (by omega)
  | flushing => exact h

/-- A step that pushes nothing and reserves nothing adds nothing to the record. -/
theorem Standing.still (hacc : s'.history.accepted = s.history.accepted)
    (hout : s'.pipeline.outstanding = s.pipeline.outstanding)
    (h : Standing env op s₀ s' pushed reserved t) :
    Standing env op s₀ s' (pushed ++ s'.history.accepted.drop s.history.accepted.length)
      (reserved + (s'.pipeline.outstanding - s.pipeline.outstanding)) t := by
  simpa [hacc, hout] using h

/-- **The admission is counted**: the call returns, or goes on to the new session. -/
theorem Stands.count {k : AdmitFor} (hc : s.callers t = .admitting)
    (h : Stands env op s₀ s pushed reserved (.count k)) :
    Standing env op s₀ (Client.count s t k) pushed reserved t := by
  obtain ⟨hp, earlier, a, rfl, he, ha⟩ := h
  obtain ⟨rfl, hfound, hroom, hsure⟩ := hp
  rw [Client.count, Client.resume_of_ok]
  cases k with
  | track name ps =>
    obtain rfl : earlier = [] := he
    exact .completed (move_callers _) ⟨a, rfl, ha⟩
  | endSession =>
    obtain rfl : earlier = [] := he
    exact .completed (move_callers _) ⟨a, rfl, ha⟩
  | replaceEnd p previous =>
    obtain rfl : earlier = [] := he
    obtain ⟨hadm, hcap⟩ := hsure rfl
    refine .inside ((move_callers _).trans hc) rfl
      ⟨rfl, hfound, ⟨hadm.terminated, hadm.lifecycle, hadm.consent⟩, ⟨?_, ?_⟩, a, rfl, ha⟩
    · simp only [AdmitFor.need] at hcap
      exact Nat.le_of_succ_le_succ hcap
    · simp only [AdmitFor.need] at hroom
      exact Nat.le_of_succ_le_succ hroom
  | start p replacing previous =>
    refine .completed (move_callers _) ?_
    cases replacing with
    | true =>
      obtain ⟨b, rfl, hb⟩ := he
      simp only [Completed, Client.op, show s₀.client.session.active = true from hfound, if_true]
      exact ⟨b, a, rfl, hb, ha⟩
    | false =>
      obtain rfl : earlier = [] := he
      simp only [Completed, Client.op, show s₀.client.session.active = false from hfound,
        Bool.false_eq_true, if_false]
      exact ⟨a, rfl, ha⟩

/-- **A step inside the lock.** -/
theorem Stands.inside {pc : AdmitPc} (hc : s.callers t = .admitting)
    (h : Stands env op s₀ s pushed reserved pc) (hi : Inside env i s t pc s') :
    Standing env op s₀ s' (pushed ++ s'.history.accepted.drop s.history.accepted.length)
      (reserved + (s'.pipeline.outstanding - s.pipeline.outstanding)) t := by
  cases hi with
  | moves hl => exact .still rfl rfl (.inside hc rfl ((Gives.of_proceed _).stands (h.leads hl)))
  | refuses hrefuse hok hf =>
    obtain ⟨rfl, hu⟩ := h.refuses hrefuse
    refine .still rfl rfl (.refused (move_callers _) hok ?_)
    exact ⟨hu.session, hu.ordinal, (hf _).trans hu.accepted, hu.pushed, hu.reserved⟩
  | fails hfail hok hf =>
    obtain ⟨-, rfl, hu⟩ := h.fails hfail
    rw [Client.resume_of_fail hok]
    refine .still rfl rfl (.refused (move_callers _) hok ?_)
    exact ⟨hu.session, hu.ordinal, (hf _).trans hu.accepted, hu.pushed, hu.reserved⟩
  | @begins p replacing previous hfresh =>
    refine .still rfl rfl (.inside hc rfl ⟨rfl, ?_⟩)
    cases replacing with
    | true =>
      obtain ⟨hop, hactive, hadm, hroom, hp⟩ := h
      exact ⟨hop, hactive, hp, rfl, nofun,
        fun _ => ⟨rfl, ⟨hadm.terminated, hadm.lifecycle, hadm.consent⟩, hroom.capacity, hroom.room⟩⟩
    | false =>
      obtain ⟨hop, hu, rfl, hactive⟩ := h
      exact ⟨hop, (congrArg SessionManager.active hu.session).symm.trans hactive, hu.pushed, rfl,
        fun _ => ⟨hu.session, hu.ordinal, hu.accepted, hu.pushed, hu.reserved⟩, nofun⟩
  | @builds k name ps qe m hroom hnext hfresh hord hgen hname =>
    obtain ⟨hname', hask⟩ := h
    obtain ⟨hactive, hsid, -, -, rfl⟩ := SessionManager.next_eq_some.mp hnext
    refine .still rfl rfl (.inside hc rfl ⟨⟨hask.op, hask.found, ?_, fun hk => ?_⟩, hask.earlier,
      rfl, hname.trans hname', ?_⟩)
    · cases hk : k.sure with
      | true => exact (hask.sure hk).2.2.room
      | false =>
        have hneed : k.need = 1 := by cases k <;> first | rfl | cases hk
        have hlt : s.pipeline.queue.length < env.config.maxQueueSize := by
          simpa [EventQueue.full] using hroom
        rw [hneed]
        exact hlt
    · obtain ⟨-, hadm, hspace⟩ := hask.sure hk
      exact ⟨⟨hadm.terminated, hadm.lifecycle, hadm.consent⟩, hspace.capacity⟩
    · refine hsid.trans (hask.identity.trans ?_)
      cases k <;> rfl
  | @reserves k qe =>
    obtain ⟨hp, he, ha⟩ := h
    have hstands : Stands env op s₀ (Client.reserve s t k qe) pushed
        (reserved + ((s.pipeline.outstanding + 1 : Nat) - s.pipeline.outstanding))
        (.push k qe) := by
      refine ⟨⟨hp.op, hp.found, hp.room, fun hk => ?_⟩, he, ha⟩
      obtain ⟨hadm, hcap⟩ := hp.sure hk
      refine ⟨⟨hadm.terminated, hadm.lifecycle, hadm.consent⟩, ?_⟩
      have hout : (Client.reserve s t k qe).pipeline.outstanding = s.pipeline.outstanding + 1 := rfl
      omega
    refine .inside hc rfl ?_
    simpa [Client.reserve, Client.proceed] using hstands
  | @pushes k qe hroom =>
    obtain ⟨hp, he, ha⟩ := h
    have hnew : (s.history.accepted ++ [(⟨qe, k.origin⟩ : Admitted)]).drop
        s.history.accepted.length = [⟨qe, k.origin⟩] := List.drop_left
    refine .inside hc rfl ⟨⟨hp.op, hp.found, ?_, fun hk => ?_⟩, pushed,
      ⟨qe, k.origin⟩, congrArg (pushed ++ ·) hnew, he, ha⟩
    · have hlen : (s.pipeline.queue ++ [qe]).length + k.need ≤ env.config.maxQueueSize + 1 := by
        have := hp.room
        simp only [List.length_append, List.length_singleton]
        omega
      exact hlen
    · obtain ⟨hadm, hcap⟩ := hp.sure hk
      exact ⟨⟨hadm.terminated, hadm.lifecycle, hadm.consent⟩, hcap⟩
  | undoes => exact h.elim
  | @counts k =>
    refine .still ?_ ?_ (h.count hc)
    · rw [Client.count, Client.resume_of_ok]
      rfl
    · rw [Client.count, Client.resume_of_ok]
      rfl
  | flushBarrier => exact h.elim
  | flushToken => exact h.elim

/-- **Every step of the call keeps it standing.** -/
theorem Standing.own (h : Standing env op s₀ s pushed reserved t)
    (hs : Client.step env i s t = some s') :
    Standing env op s₀ s' (pushed ++ s'.history.accepted.drop s.history.accepted.length)
      (reserved + (s'.pipeline.outstanding - s.pipeline.outstanding)) t := by
  cases h with
  | waiting hc hu =>
    rcases Client.waiting_cases hc hs with
      ⟨c, rfl, hc', -⟩ | ⟨status, hok, rfl⟩ | ⟨pc, hfree, rfl, he⟩
    · refine .still rfl rfl (.waiting ?_
        ⟨hu.session, hu.ordinal, hu.accepted, hu.pushed, hu.reserved⟩)
      rwa [move_callers]
    · exact .still rfl rfl (.refused (move_callers _) hok
        ⟨hu.session, hu.ordinal, hu.accepted, hu.pushed, hu.reserved⟩)
    · exact .still rfl rfl (.inside (move_callers _) rfl
        ((Gives.of_lock pc).stands (stands_of_enters he hc hu)))
  | inside hc hadm h =>
    simp only [Client.step, hc, hadm, if_true] at hs
    exact h.inside hc (Client.admitStep_inside hs)
  | completed hc => simp [Client.step, hc] at hs
  | refused hc => simp [Client.step, hc] at hs

/-- **Behind the reservation there is no way back**: the next step of the call is behind it
too, or returns `Ok`. -/
theorem Stands.no_way_back {pc : AdmitPc} (h : Stands env op s₀ s pushed reserved pc)
    (hpc : pc.reserved = true) (hc : s.callers t = .admitting) (hi : Inside env i s t pc s') :
    (∃ pc', s'.client.admission = .producer t pc' ∧ pc'.reserved = true ∧
      s'.callers t = .admitting) ∨ s'.callers t = .done (.status op {}) := by
  cases hi with
  | moves hl =>
    refine Or.inl ⟨_, rfl, ?_, hc⟩
    cases hl <;> first | exact hpc | cases hpc
  | refuses hrefuse => cases hrefuse <;> cases hpc
  | fails hfail =>
    have hk := (h.fails hfail).1
    cases hfail <;> exact absurd hpc (by simp [AdmitPc.reserved, hk])
  | @begins p replacing previous =>
    obtain rfl : replacing = true := hpc
    exact Or.inl ⟨_, rfl, rfl, hc⟩
  | builds => exact Or.inl ⟨_, rfl, hpc, hc⟩
  | reserves => exact Or.inl ⟨_, rfl, hpc, hc⟩
  | pushes => exact Or.inl ⟨_, rfl, hpc, hc⟩
  | undoes => exact h.elim
  | @counts k =>
    rw [Client.count, Client.resume_of_ok]
    obtain ⟨⟨rfl, -⟩, -⟩ := h
    cases k with
    | replaceEnd p previous => exact Or.inl ⟨_, rfl, rfl, (move_callers _).trans hc⟩
    | start => exact Or.inr (move_callers _)
    | track | endSession => cases hpc
  | flushBarrier | flushToken => cases hpc

/-- A call after its first statement. -/
theorem standing_of_first {l : Label} (h : First t s₀ op l) (hop : op.admits = true)
    (hs : step env s₀ l = some s) : Standing env op s₀ s [] 0 t := by
  obtain ⟨c, rfl, hc | ⟨status, hok, rfl⟩⟩ := h.cases hop hs
  · refine .waiting ?_ ⟨rfl, rfl, rfl, rfl, rfl⟩
    rw [move_callers]
    exact hc.1
  · exact .refused (move_callers _) hok ⟨rfl, rfl, rfl, rfl, rfl⟩

theorem standing_of_during {w : Watched} (hr : (machine env).Reach s₀) (hop : op.admits = true)
    (h : During env (Spared env) t op s₀ w) :
    Standing env op s₀ w.state w.pushed w.reserved t := by
  refine h.rule (P := fun s ps d => Standing env op s₀ s ps d t) hr hop
    (fun l s hl hs => standing_of_first hl hop hs) (fun s ps d i s' _ hi hs => hi.own hs)
    fun s ps d l s' hr hi _ hok hs => ?_
  obtain ⟨i, rfl, hterm⟩ := hok
  exact hi.worker hr hs (hterm s' hs)

/-- **Admission calls are all or nothing.** Whatever the worker does meanwhile, short of giving
up: a call that returns `Ok` has pushed exactly its events, and one that returns an error has
pushed nothing and left the session record, the ordinal, the counter and the reservation alone.
Behind `reserve_locked(2)`, every step leads on to `Ok`. -/
theorem admission_atomic {w : Watched} (hr : (machine env).Reach s₀) (hop : op.admits = true)
    (h : During env (Spared env) t op s₀ w) :
    (∀ status, w.state.callers t = .done (.status op status) →
      (status.ok = true ∧ Completed op s₀ w.state w.pushed) ∨
        (status.ok = false ∧ Untouched s₀ w.state w.pushed w.reserved)) ∧
    ∀ pc, w.state.client.admission = .producer t pc → w.state.callers t = .admitting →
      pc.reserved = true → ∀ i s', step env w.state (.caller t i) = some s' →
        (∃ pc', s'.client.admission = .producer t pc' ∧ pc'.reserved = true ∧
          s'.callers t = .admitting) ∨ s'.callers t = .done (.status op {}) := by
  have hst := standing_of_during hr hop h
  refine ⟨fun status hdone => ?_, fun pc hadm hc hpc i s' hs => ?_⟩
  · cases hst with
    | waiting hc => simp [hdone, Caller.call] at hc
    | inside hc => simp [hdone] at hc
    | completed hc hdo =>
      obtain rfl : {} = status := by simpa [hdone, eq_comm] using hc
      exact Or.inl ⟨rfl, hdo⟩
    | @refused status' hc hok hu =>
      obtain rfl : status = status' := by simpa [hdone] using hc
      exact Or.inr ⟨hok, hu⟩
  · cases hst with
    | waiting hc' => simp [hc, Caller.call] at hc'
    | @inside pc' _ hadm' h =>
      obtain rfl : pc = pc' := by simpa [hadm] using hadm'
      have hstep : Client.step env i w.state t = some s' := hs
      simp only [Client.step, hc, hadm, if_true] at hstep
      exact h.no_way_back hpc hc (Client.admitStep_inside hstep)
    | completed hc' => simp [hc] at hc'
    | refused hc' => simp [hc] at hc'

theorem admission_atomic_sample : ∃ s₀ w, (machine roomy).Reach s₀ ∧
    s₀.client.session.active = true ∧ During roomy (Spared roomy) 1 (.startSession "") s₀ w ∧
    w.state.callers 1 = .done (.status (.startSession "") {}) ∧
    Completed (.startSession "") s₀ w.state w.pushed := by
  obtain ⟨s₀, hr, hp⟩ := Lts.Machine.reach_of_exec roomyClient_start (Label.starts 1 "s" "e")
    (fun s₀ : State => s₀.client.session.active &&
      ((watch roomy 1).exec { state := s₀ } (Label.replaces 1 "x" "t" "f")).any fun w : Watched =>
        decide (w.state.callers 1 = .done (.status (.startSession "") {}))) (by decide)
  obtain ⟨hactive, hp⟩ := Bool.and_eq_true_iff.mp hp
  obtain ⟨w, hex, hw⟩ := Lts.Machine.exec_of_any hp
  have hdone := of_decide_eq_true hw
  have hown : ∀ l ∈ (Label.replaces 1 "x" "t" "f").tail, l.isCaller 1 = true := by decide
  have hduring : During roomy (Spared roomy) 1 (.startSession "") s₀ w :=
    .of_exec (.call nofun) (fun l hl => Or.inl (hown l hl)) hex
  rcases (admission_atomic hr rfl hduring).1 _ hdone with ⟨-, hdo⟩ | ⟨hok, -⟩
  · exact ⟨s₀, w, hr, hactive, hduring, hdone, hdo⟩
  · cases hok

end PlayerTrace
