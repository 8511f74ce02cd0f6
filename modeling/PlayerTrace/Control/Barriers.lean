import PlayerTrace.Control.Passes

/-!
# Barriers

A flush is issued for a *barrier*: the last ordinal given out when it held the admission
lock. An event was admitted before the flush exactly when its ordinal is not above the
barrier, because nothing is half admitted while the lock is held
(`PlayerTrace.Custody.Below`).

The barrier then travels: into `flush_barrier_`, which only grows, and from there into the
local variable of a pass. A pass reads it *after* it has latched the tokens it will answer,
so its own barrier is at least as high as that of each of them (`PlayerTrace.Latched`). What
the pass finds below its barrier at the residual check is what decides its outcome; the
three tests are made one after the other, and what one of them has found clear stays so,
since new events are above the barrier (`PlayerTrace.Checked`).
-/

namespace PlayerTrace

/-! ### What lies above a barrier -/

/-- No event with an ordinal up to `b` can still be admitted. -/
def Custody.Below (b : Nat) (c : Custody) : Prop :=
  b ≤ c.ordinal ∧ ∀ e ∈ c.entry.events, b < e.ordinal

variable {env : Env} {i : Input} {l : Label} {s s' : State} {t : Tid} {b b' : Nat}

theorem Custody.Below.mono {c : Custody} (h : Below b c) (hle : b' ≤ b) : Below b' c :=
  ⟨Nat.le_trans hle h.1, fun e he => Nat.lt_of_le_of_lt hle (h.2 e he)⟩

theorem Custody.below_step {c c' : Custody} (h : Below b c) (ho : Ordered c)
    (hs : Step env c c') : Below b c' := by
  refine ⟨Nat.le_trans h.1 (hs.ordinal_le ho.retry), fun e he => ?_⟩
  rcases hs.mem_entry he with he | hlt
  · exact h.2 e he
  · exact Nat.lt_of_le_of_lt h.1 hlt

/-- While nothing is being admitted, everything up to the last ordinal has been. -/
theorem below_ordinal (h : entryOf s.client.admission = .out) :
    Custody.Below s.client.ordinal (custody s) := by
  refine ⟨Nat.le_refl _, fun e he => ?_⟩
  rw [show (custody s).entry = .out from h] at he
  exact absurd he nofun

theorem below_of_step (hr : (machine env).Reach s) (h : step env s l = some s')
    (hb : Custody.Below b (custody s)) : Custody.Below b (custody s') :=
  custody_step hr h hb fun _ hr' hm =>
    Custody.below_step hb (Custody.ordered_of_reachable hr') hm

/-! ### The barriers of flushes and shutdowns -/

/-- **Barriers on their way.** -/
structure Barriers (s : State) : Prop where
  /-- The common barrier is at or above those of all tokens given out. -/
  issued : ∀ p ∈ s.log.issued, p.1 ≤ s.core.flushSeq ∧ p.2 ≤ s.core.flushBarrier
  below : Custody.Below s.core.flushBarrier (custody s)
  /-- A shutdown has read the last ordinal and not submitted it. -/
  held : ∀ t d b, s.callers t = .shutdownBarrier d b → Custody.Below b (custody s)
  /-- A flush or a shutdown has submitted its barrier and not drawn its token. -/
  ticket : ∀ b, (desk s).ticket = some b → b ≤ s.core.flushBarrier
  token : ∀ t d b, s.callers t = .shutdownToken d b → b ≤ s.core.flushBarrier
  waiting : ∀ t tok b, s.callers t = .flushWait tok b → (tok, b) ∈ s.log.issued

/-- How a turn changes the common barrier: it takes up one that nothing is below. -/
theorem Turn.flushBarrier_cases (h : Turn s t s') (hi : Barriers s) :
    s.core.flushBarrier ≤ s'.core.flushBarrier ∧
      Custody.Below s'.core.flushBarrier (custody s) := by
  have hsubmit : ∀ b, s'.core.flushBarrier = (desk s).submitted b → Custody.Below b (custody s) →
      s.core.flushBarrier ≤ s'.core.flushBarrier ∧
        Custody.Below s'.core.flushBarrier (custody s) := fun b hb hbelow => by
    refine ⟨hb ▸ ((desk s).le_submitted b).2, ?_⟩
    rcases (desk s).submitted_cases b with heq | heq
    · rw [hb, heq]
      exact hbelow
    · rw [hb, heq]
      exact hi.below
  have hsame : s'.core.flushBarrier = s.core.flushBarrier →
      s.core.flushBarrier ≤ s'.core.flushBarrier ∧
        Custody.Below s'.core.flushBarrier (custody s) := fun hb =>
    ⟨Nat.le_of_eq hb.symm, hb ▸ hi.below⟩
  cases h with
  | flushBarrier hadm hd =>
    exact hsubmit _ (congrArg Desk.flushBarrier hd) (below_ordinal (by rw [hadm]; rfl))
  | barrier hw hd => exact hsubmit _ (congrArg Desk.flushBarrier hd) (hi.held _ _ _ hw)
  | close _ hd => rcases hd with ⟨-, hd⟩ | ⟨-, hd⟩ <;> exact hsame (congrArg Desk.flushBarrier hd)
  | advance _ hd => rcases hd with hd | hd <;> exact hsame (congrArg Desk.flushBarrier hd)
  | plain hd | consented _ _ hd | flushToken _ hd | flushed _ hd | flushTimeout _ _ hd
  | ordinal _ _ hd | token _ hd | stop _ hd | join _ hd | mark _ _ hd | finish _ hd =>
    exact hsame (congrArg Desk.flushBarrier hd)

/-- How a turn changes the tokens given out. -/
theorem Turn.issued_cases (h : Turn s t s') (hi : Barriers s) :
    (s'.log.issued = s.log.issued ∧ s'.core.flushSeq = s.core.flushSeq) ∨
      ∃ b, b ≤ s.core.flushBarrier ∧ s'.core.flushSeq = s.core.flushSeq + 1 ∧
        s'.log.issued = (s.core.flushSeq + 1, b) :: s.log.issued := by
  cases h with
  | flushToken hticket hd =>
    exact Or.inr ⟨_, hi.ticket _ hticket, congrArg Desk.flushSeq hd, congrArg Desk.issued hd⟩
  | token hw hd =>
    exact Or.inr ⟨_, hi.token _ _ _ hw, congrArg Desk.flushSeq hd, congrArg Desk.issued hd⟩
  | close _ hd =>
    rcases hd with ⟨-, hd⟩ | ⟨-, hd⟩ <;>
      exact Or.inl ⟨congrArg Desk.issued hd, congrArg Desk.flushSeq hd⟩
  | advance _ hd =>
    rcases hd with hd | hd <;> exact Or.inl ⟨congrArg Desk.issued hd, congrArg Desk.flushSeq hd⟩
  | plain hd | consented _ _ hd | flushBarrier _ hd | flushed _ hd | flushTimeout _ _ hd
  | ordinal _ _ hd | barrier _ hd | stop _ hd | join _ hd | mark _ _ hd | finish _ hd =>
    exact Or.inl ⟨congrArg Desk.issued hd, congrArg Desk.flushSeq hd⟩

/-- A ticket was there before, or is for the barrier just submitted. -/
theorem Turn.ticket_cases (h : Turn s t s') (hb : (desk s').ticket = some b) :
    (desk s).ticket = some b ∨ b ≤ s'.core.flushBarrier := by
  cases h with
  | flushBarrier _ hd =>
    rw [hd] at hb
    obtain rfl := Option.some.inj hb
    exact Or.inr (Nat.le_trans ((desk s).le_submitted _).1
      (Nat.le_of_eq (congrArg Desk.flushBarrier hd).symm))
  | flushToken _ hd =>
    rw [hd] at hb
    cases hb
  | close _ hd =>
    rcases hd with ⟨-, hd⟩ | ⟨-, hd⟩ <;> exact Or.inl ((congrArg Desk.ticket hd).symm.trans hb)
  | advance _ hd =>
    rcases hd with hd | hd <;> exact Or.inl ((congrArg Desk.ticket hd).symm.trans hb)
  | plain hd | consented _ _ hd | flushed _ hd | flushTimeout _ _ hd | ordinal _ _ hd
  | barrier _ hd | token _ hd | stop _ hd | join _ hd | mark _ _ hd | finish _ hd =>
    exact Or.inl ((congrArg Desk.ticket hd).symm.trans hb)

/-- A shutdown reads the last ordinal while nobody is admitting. -/
theorem Turn.held_cases (h : Turn s t s') {d : Bool} (hc : s'.callers t = .shutdownBarrier d b) :
    s.client.admission = .free ∧ b = s.client.ordinal := by
  cases h with
  | ordinal _ hfree _ hc' =>
    obtain ⟨-, rfl⟩ := Caller.shutdownBarrier.inj (hc'.symm.trans hc)
    exact ⟨hfree, rfl⟩
  | plain _ hp => simp [hc, Caller.plain, Caller.closing] at hp
  | @finish d' _ _ _ hc' => cases d' <;> simp [hc, shutdownCaller] at hc'
  | consented _ _ _ hc' | flushBarrier _ _ hc' | flushToken _ _ hc' | flushed _ _ hc'
  | flushTimeout _ _ _ hc' | close _ _ hc' | advance _ _ hc' | barrier _ _ hc' | token _ _ hc'
  | stop _ _ hc' | join _ _ hc' | mark _ _ _ hc' =>
    simp [hc, Caller.plain, Caller.closing] at hc'

theorem Turn.token_cases (h : Turn s t s') {d : Bool} (hc : s'.callers t = .shutdownToken d b) :
    b ≤ s'.core.flushBarrier := by
  cases h with
  | barrier _ hd hc' =>
    obtain ⟨-, rfl⟩ := Caller.shutdownToken.inj (hc'.symm.trans hc)
    exact Nat.le_trans ((desk s).le_submitted _).1
      (Nat.le_of_eq (congrArg Desk.flushBarrier hd).symm)
  | plain _ hp => simp [hc, Caller.plain, Caller.closing] at hp
  | @finish d' _ _ _ hc' => cases d' <;> simp [hc, shutdownCaller] at hc'
  | consented _ _ _ hc' | flushBarrier _ _ hc' | flushToken _ _ hc' | flushed _ _ hc'
  | flushTimeout _ _ _ hc' | close _ _ hc' | advance _ _ hc' | ordinal _ _ _ hc' | token _ _ hc'
  | stop _ _ hc' | join _ _ hc' | mark _ _ _ hc' =>
    simp [hc, Caller.plain, Caller.closing] at hc'

/-- A flush waits for the token it was given. -/
theorem Turn.waiting_cases (h : Turn s t s') {tok : Nat} (hc : s'.callers t = .flushWait tok b) :
    (tok, b) ∈ s'.log.issued := by
  cases h with
  | flushToken _ hd hc' =>
    obtain ⟨rfl, rfl⟩ := Caller.flushWait.inj (hc'.symm.trans hc)
    rw [show s'.log.issued = _ from congrArg Desk.issued hd]
    exact List.mem_cons_self
  | plain _ hp => simp [hc, Caller.plain] at hp
  | @finish d' _ _ _ hc' => cases d' <;> simp [hc, shutdownCaller] at hc'
  | consented _ _ _ hc' | flushBarrier _ _ hc' | flushed _ _ hc' | flushTimeout _ _ _ hc'
  | close _ _ hc' | advance _ _ hc' | ordinal _ _ _ hc' | barrier _ _ hc' | token _ _ hc'
  | stop _ _ hc' | join _ _ hc' | mark _ _ _ hc' => simp [hc, Caller.plain] at hc'

theorem barriers_turn (hr : (machine env).Reach s) (h : step env s l = some s') (hi : Barriers s)
    (ha : Aside s t s') (ht : Turn s t s') : Barriers s' := by
  obtain ⟨hle, hbelow⟩ := ht.flushBarrier_cases hi
  have hissued : ∀ p ∈ s.log.issued, p ∈ s'.log.issued := fun p hp => by
    rcases ht.issued_cases hi with ⟨heq, -⟩ | ⟨b, -, -, heq⟩
    · exact heq ▸ hp
    · exact heq ▸ List.mem_cons_of_mem _ hp
  refine ⟨fun p hp => ?_, below_of_step hr h hbelow, fun u d b hc => ?_, fun b hb => ?_,
    fun u d b hc => ?_, fun u tok b hc => ?_⟩
  · rcases ht.issued_cases hi with ⟨heq, hseq⟩ | ⟨b, hb, hseq, heq⟩
    · obtain ⟨h₁, h₂⟩ := hi.issued p (heq ▸ hp)
      exact ⟨hseq ▸ h₁, Nat.le_trans h₂ hle⟩
    · rw [heq] at hp
      rcases List.mem_cons.mp hp with rfl | hp
      · exact ⟨Nat.le_of_eq hseq.symm, Nat.le_trans hb hle⟩
      · obtain ⟨h₁, h₂⟩ := hi.issued p hp
        exact ⟨by omega, Nat.le_trans h₂ hle⟩
  · refine below_of_step hr h ?_
    by_cases hu : u = t
    · obtain ⟨hfree, rfl⟩ := ht.held_cases (hu ▸ hc)
      exact below_ordinal (by rw [hfree]; rfl)
    · exact hi.held u d b ((ha.others u hu).symm.trans hc)
  · rcases ht.ticket_cases hb with hb | hb
    · exact Nat.le_trans (hi.ticket b hb) hle
    · exact hb
  · by_cases hu : u = t
    · exact ht.token_cases (hu ▸ hc)
    · exact Nat.le_trans (hi.token u d b ((ha.others u hu).symm.trans hc)) hle
  · by_cases hu : u = t
    · exact ht.waiting_cases (hu ▸ hc)
    · exact hissued _ (hi.waiting u tok b ((ha.others u hu).symm.trans hc))

theorem barriers_pass (hr : (machine env).Reach s) (h : step env s l = some s') (hi : Barriers s)
    (ha : Apart s s') : Barriers s' := by
  have hticket : (desk s').ticket = (desk s).ticket :=
    congrArg (fun c : Client => ticketOf c.admission) ha.client
  refine ⟨?_, ?_, fun t d b hc => ?_, ?_, ?_, ?_⟩
  · rw [ha.issued, ha.flushSeq, ha.flushBarrier]
    exact hi.issued
  · rw [ha.flushBarrier]
    exact below_of_step hr h hi.below
  · rw [ha.callers] at hc
    exact below_of_step hr h (hi.held t d b hc)
  · rw [hticket, ha.flushBarrier]
    exact hi.ticket
  · rw [ha.callers, ha.flushBarrier]
    exact hi.token
  · rw [ha.callers, ha.issued]
    exact hi.waiting

theorem barriers_of_reach (h : (machine env).Reach s) : Barriers s := by
  refine h.rule (P := Barriers) (fun s hs => ?_) (fun s l s' hr hi hs => ?_)
  · obtain ⟨db, m, earlier, rfl⟩ := start_eq hs
    exact ⟨nofun, ⟨Nat.zero_le _, nofun⟩, nofun, nofun, nofun, nofun⟩
  · rcases turn_of_step hr hs with ⟨i, -, hw⟩ | ⟨t, -, ha, ht⟩
    · exact barriers_pass hr hs hi (Worker.step_pass hw).1
    · exact barriers_turn hr hs hi ha ht

/-! ### The barrier of a pass -/

/-- **What a pass has latched.** Once it has read its barrier, this is at or above the
barriers of all tokens it will answer. -/
structure Latched (s : State) : Prop where
  want : s.frame.want ≤ s.core.flushSeq
  barrier : s.frame.barrier ≤ s.core.flushBarrier
  armed : s.frame.armed → ∀ p ∈ s.log.issued, p.1 ≤ s.frame.want → p.2 ≤ s.frame.barrier

/-- What a statement does to the latched values: nothing, or it latches the tokens, or it
reads the barrier. -/
theorem Pass.frame_cases (h : Pass i s s') :
    (s'.frame.want = s.frame.want ∧ s'.frame.barrier = s.frame.barrier ∧
        (s'.frame.armed → s.frame.armed)) ∨
      (s'.frame.want = s.core.flushSeq ∧ s'.frame.barrier = s.frame.barrier ∧ ¬s'.frame.armed) ∨
      (s'.frame.want = s.frame.want ∧ s'.frame.barrier = s.core.flushBarrier) := by
  -- moving on from a point of the pass does not disarm it
  have hgoto : ∀ (x : State) (pc : WorkerPc), x.frame = s.frame →
      s.frame.pc.inPass = true ∨ pc.inPass = false → (x.goto pc).frame.want = s.frame.want ∧
        (x.goto pc).frame.barrier = s.frame.barrier ∧
        ((x.goto pc).frame.armed → s.frame.armed) := by
    intro x pc hx hpc
    simp only [State.goto, hx, true_and]
    rintro (hsite | hin)
    · exact Or.inl hsite
    · rcases hpc with hpc | hpc
      · exact Or.inr hpc
      · simp [hpc] at hin
  cases h with
  | plain hidle _ harmed =>
    left
    refine ⟨?_, ?_, harmed⟩ <;> rw [hidle.frame]
  | write hpc hs =>
    subst hs
    exact Or.inl (hgoto { s with log := _ } _ rfl (Or.inr rfl))
  | latch _ _ _ hf =>
    obtain ⟨pending, pc, hpc, hf⟩ := hf
    refine Or.inr (Or.inl ⟨by rw [hf], by rw [hf], ?_⟩)
    rw [hf]
    rintro (hsite | hin)
    · exact hsite rfl
    · rcases hpc with rfl | rfl <;> cases hin
  | readBarrier _ _ _ hf =>
    obtain ⟨pc, -, hf⟩ := hf
    exact Or.inr (Or.inr ⟨by rw [hf], by rw [hf]⟩)
  | popMore hpc _ _ hf =>
    obtain ⟨l, site, hf⟩ := hf
    exact Or.inl ⟨by rw [hf], by rw [hf], fun _ => Or.inr (by rw [hpc]; rfl)⟩
  | queueClear hpc _ hs | retryClear hpc _ hs | storeClear hpc _ hs =>
    subst hs
    exact Or.inl (hgoto s _ rfl (Or.inl (by rw [hpc]; rfl)))
  | vacuous hpc _ hidle =>
    exact Or.inl ⟨by rw [hidle.frame], by rw [hidle.frame], fun _ => Or.inr (by rw [hpc]; rfl)⟩
  | failed hin _ hs =>
    subst hs
    exact Or.inl (hgoto s _ rfl (Or.inl hin))
  | record hpc hs =>
    subst hs
    exact Or.inl ⟨rfl, rfl, fun _ => Or.inr (by rw [hpc]; rfl)⟩
  | stop _ _ hs =>
    subst hs
    exact Or.inl (hgoto s _ rfl (Or.inr rfl))
  | ending _ hidle hpc' =>
    refine Or.inl ⟨by rw [hidle.frame], by rw [hidle.frame], ?_⟩
    rintro (hsite | hin)
    · rw [hidle.frame] at hsite
      exact Or.inl hsite
    · cases hpc : s'.frame.pc <;> simp [hpc, WorkerPc.ending, WorkerPc.inPass] at hpc' hin
  | finish _ hs =>
    subst hs
    refine Or.inl ⟨rfl, rfl, ?_⟩
    rintro (hsite | hin)
    · exact Or.inl hsite
    · cases hin
  | raise _ hs =>
    subst hs
    exact Or.inl (hgoto (Worker.note { s with core := _ } _) _ rfl (Or.inr rfl))

theorem latched_turn (hi : Latched s) (hb : Barriers s) (ha : Aside s t s') (ht : Turn s t s') :
    Latched s' := by
  obtain ⟨hle, -⟩ := ht.flushBarrier_cases hb
  rcases ht.issued_cases hb with ⟨heq, hseq⟩ | ⟨b, -, hseq, heq⟩
  · refine ⟨?_, ?_, ?_⟩
    · rw [ha.frame, hseq]
      exact hi.want
    · rw [ha.frame]
      exact Nat.le_trans hi.barrier hle
    · rw [ha.frame, heq]
      exact hi.armed
  · refine ⟨?_, ?_, fun harmed p hp hle => ?_⟩
    · rw [ha.frame, hseq]
      exact Nat.le_succ_of_le hi.want
    · rw [ha.frame]
      exact Nat.le_trans hi.barrier hle
    · -- the new token is above everything the pass has latched
      rw [ha.frame] at harmed hle ⊢
      rw [heq] at hp
      rcases List.mem_cons.mp hp with rfl | hp
      · exact absurd (Nat.le_trans hle hi.want) (Nat.not_succ_le_self _)
      · exact hi.armed harmed p hp hle

theorem latched_pass (hi : Latched s) (hb : Barriers s) (ha : Apart s s') (hp : Pass i s s') :
    Latched s' := by
  rcases hp.frame_cases with ⟨hw, hbar, harmed⟩ | ⟨hw, hbar, harmed⟩ | ⟨hw, hbar⟩
  · refine ⟨?_, ?_, fun h => ?_⟩
    · rw [hw, ha.flushSeq]
      exact hi.want
    · rw [hbar, ha.flushBarrier]
      exact hi.barrier
    · rw [ha.issued, hw, hbar]
      exact hi.armed (harmed h)
  · refine ⟨?_, ?_, fun h => absurd h harmed⟩
    · rw [hw, ha.flushSeq]
    · rw [hbar, ha.flushBarrier]
      exact hi.barrier
  · refine ⟨?_, ?_, fun _ p hp _ => ?_⟩
    · rw [hw, ha.flushSeq]
      exact hi.want
    · rw [hbar, ha.flushBarrier]
    · rw [hbar]
      exact (hb.issued p (ha.issued ▸ hp)).2

theorem latched_of_reach (h : (machine env).Reach s) : Latched s := by
  refine h.rule (P := Latched) (fun s hs => ?_) (fun s l s' hr hi hs => ?_)
  · obtain ⟨db, m, earlier, rfl⟩ := start_eq hs
    exact ⟨Nat.le_refl _, Nat.le_refl _, fun _ => nofun⟩
  · have hb := barriers_of_reach hr
    rcases turn_of_step hr hs with ⟨i, -, hw⟩ | ⟨t, -, ha, ht⟩
    · obtain ⟨ha, hp⟩ := Worker.step_pass hw
      exact latched_pass hi hb ha hp
    · exact latched_turn hi hb ha ht

/-! ### The residual check -/

/-- Nothing up to the barrier `b` is in the list. -/
def Above (b : Nat) (l : List QueuedEvent) : Prop := ∀ e ∈ l, b < e.ordinal

/-- **What the residual check has found so far**, at each of its points. -/
structure Checked (s : State) : Prop where
  queue : ∀ r, s.frame.pc = .remainsRetry r ∨ s.frame.pc = .remainsStore r →
    Above s.frame.barrier s.pipeline.queue
  retry : ∀ r, s.frame.pc = .remainsStore r → Above s.frame.barrier s.core.retry
  record : ∀ o, s.frame.pc = .record o → o.ok = true → s.frame.barrier = 0 ∨
    (Above s.frame.barrier s.pipeline.queue ∧ Above s.frame.barrier s.core.retry ∧
      ∀ r ∈ s.pipeline.store.rows, s.frame.barrier < r.ordinal)

/-- A point that is not settling has nothing to show. -/
theorem Checked.of_not_settling (h : s.frame.pc.settling = false) : Checked s := by
  refine ⟨fun r hr => ?_, fun r hr => ?_, fun o ho => ?_⟩
  · rcases hr with hr | hr <;> simp [hr, WorkerPc.settling] at h
  · simp [hr, WorkerPc.settling] at h
  · simp [ho, WorkerPc.settling] at h

theorem above_queue_step (h : step env s l = some s') (hb : Custody.Below b (custody s))
    (hq : Above b s.pipeline.queue) : Above b s'.pipeline.queue := by
  rcases step_moves h with heq | hm
  · rw [show s'.pipeline.queue = s.pipeline.queue from congrArg Custody.queue heq]
    exact hq
  · intro e he
    rcases hm.mem_queue he with he | he
    · exact hq e he
    · exact hb.2 e he

theorem above_retry_step (h : step env s l = some s') (hst : (custody s).stage = .idle)
    (hr : Above b s.core.retry) : Above b s'.core.retry := by
  rcases step_moves h with heq | hm
  · rw [show s'.core.retry = s.core.retry from congrArg Custody.retry heq]
    exact hr
  · intro e he
    rcases hm.mem_retry he with he | hholds
    · exact hr e he
    · rw [hst] at hholds
      cases hholds

theorem above_rows_step (h : step env s l = some s') (hst : (custody s).stage = .idle)
    (hr : ∀ r ∈ s.pipeline.store.rows, b < r.ordinal) :
    ∀ r ∈ s'.pipeline.store.rows, b < r.ordinal := by
  rcases step_moves h with heq | hm
  · rw [show s'.pipeline.store = s.pipeline.store from congrArg Custody.store heq]
    exact hr
  · intro r hmem
    rcases hm.mem_rows hmem with hmem | ⟨v, k, hcom, -⟩
    · exact hr r hmem
    · rw [hst] at hcom
      cases hcom

/-- A caller's step cannot bring anything back below the barrier. -/
theorem checked_turn (h : step env s l = some s') (hi : Checked s)
    (hb : Custody.Below s.frame.barrier (custody s)) (ha : Aside s t s') : Checked s' := by
  have hidle : ∀ pc, s.frame.pc = pc → stageOf pc = .idle → (custody s).stage = .idle :=
    fun pc hpc hst => by rw [← hst, ← hpc]; rfl
  refine ⟨fun r hpc => ?_, fun r hpc => ?_, fun o hpc hok => ?_⟩ <;> rw [ha.frame] at hpc ⊢
  · exact above_queue_step h hb (hi.queue r hpc)
  · exact above_retry_step h (hidle _ hpc rfl) (hi.retry r hpc)
  · rcases hi.record o hpc hok with hzero | ⟨hqueue, hretry, hrows⟩
    · exact Or.inl hzero
    · have hst := hidle _ hpc rfl
      exact Or.inr ⟨above_queue_step h hb hqueue, above_retry_step h hst hretry,
        above_rows_step h hst hrows⟩

/-- A list in admission order is above a barrier when its front is. -/
theorem above_of_front {q : List QueuedEvent}
    (hsorted : q.Pairwise fun x y => x.ordinal < y.ordinal) (h : b < frontOrdinal q) :
    Above b q := by
  intro e he
  by_contra hle
  exact absurd (frontOrdinal_le_of_mem hsorted he (Nat.le_of_not_lt hle)) (Nat.not_le_of_lt h)

theorem queue_sorted (hr : (machine env).Reach s) :
    s.pipeline.queue.Pairwise fun x y => x.ordinal < y.ordinal := by
  have hline := (Custody.ordered_of_reachable (custody_reachable hr)).line
  refine hline.sublist ?_
  exact (List.sublist_append_right _ _).trans (List.sublist_append_left _ _)

theorem retry_sorted (hr : (machine env).Reach s) :
    s.core.retry.Pairwise fun x y => x.ordinal < y.ordinal := by
  have hline := (Custody.ordered_of_reachable (custody_reachable hr)).line
  refine hline.sublist ?_
  exact ((List.sublist_append_left _ _).trans (List.sublist_append_left _ _)).trans
    (List.sublist_append_left _ _)

theorem checked_pass (hr : (machine env).Reach s) (hi : Checked s) (hp : Pass i s s') :
    Checked s' := by
  cases hp with
  | plain _ hpc =>
    refine .of_not_settling ?_
    simp only [WorkerPc.plain, Bool.and_eq_true, Bool.not_eq_true'] at hpc
    exact hpc.1
  | queueClear hpc hclear hs =>
    have hqueue := above_of_front (queue_sorted hr) hclear
    subst hs
    exact ⟨fun _ _ => hqueue, fun r hpc' => absurd hpc' nofun, fun o hpc' => absurd hpc' nofun⟩
  | @retryClear r hpc hclear hs =>
    have hretry := above_of_front (retry_sorted hr) hclear
    subst hs
    exact ⟨fun _ _ => hi.queue r (Or.inl hpc), fun _ _ => hretry, fun o hpc' => absurd hpc' nofun⟩
  | @storeClear o hpc hclear hs =>
    subst hs
    refine ⟨fun r hpc' => ?_, fun r hpc' => absurd hpc' nofun, fun _ _ _ => Or.inr ?_⟩
    · rcases hpc' with hpc' | hpc' <;> exact absurd hpc' nofun
    · exact ⟨hi.queue _ (Or.inr hpc), hi.retry _ hpc, fun r hmem => countUpTo_eq_zero hclear hmem⟩
  | vacuous hpc hzero hidle hpc' =>
    refine ⟨fun r h => ?_, fun r h => ?_, fun _ _ _ => Or.inl ?_⟩
    · rcases h with h | h <;> exact absurd (hpc'.symm.trans h) nofun
    · exact absurd (hpc'.symm.trans h) nofun
    · rw [hidle.frame]
      exact hzero
  | @failed o _ hfail hs =>
    subst hs
    refine ⟨fun r h => ?_, fun r h => absurd h nofun, fun o' h hok => ?_⟩
    · rcases h with h | h <;> exact absurd h nofun
    · obtain rfl := WorkerPc.record.inj h
      exact absurd (hfail.symm.trans hok) nofun
  | ending _ _ hpc' =>
    refine .of_not_settling ?_
    cases hpc : s'.frame.pc <;> simp [hpc, WorkerPc.ending] at hpc' <;> rfl
  | latch _ _ _ hf =>
    obtain ⟨pending, pc, hpc, hf⟩ := hf
    exact .of_not_settling (by rw [hf]; rcases hpc with rfl | rfl <;> rfl)
  | readBarrier _ _ _ hf =>
    obtain ⟨pc, hpc, hf⟩ := hf
    exact .of_not_settling (by rw [hf]; rcases hpc with rfl | rfl <;> rfl)
  | popMore _ _ _ hf =>
    obtain ⟨l, site, hf⟩ := hf
    exact .of_not_settling (by rw [hf]; rfl)
  | write _ hs | record _ hs | stop _ _ hs | finish _ hs | raise _ hs =>
    subst hs
    exact .of_not_settling rfl

theorem checked_of_reach (h : (machine env).Reach s) : Checked s := by
  refine h.rule (P := Checked) (fun s hs => ?_) (fun s l s' hr hi hs => ?_)
  · obtain ⟨db, m, earlier, rfl⟩ := start_eq hs
    exact .of_not_settling rfl
  · rcases turn_of_step hr hs with ⟨i, -, hw⟩ | ⟨t, -, ha, -⟩
    · exact checked_pass hr hi (Worker.step_pass hw).2
    · exact checked_turn hs hi
        ((barriers_of_reach hr).below.mono (latched_of_reach hr).barrier) ha

end PlayerTrace
