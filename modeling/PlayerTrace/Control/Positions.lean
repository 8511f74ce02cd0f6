import PlayerTrace.Control.Exits

/-!
# Where a thread is inside a call

A thread inside a call is outside the two locks that are held across steps, or inside one of
them, at some point there: that is its *position* (`PlayerTrace.State.position`). Three things
can be said of every step a thread takes (`PlayerTrace.Placed`): the locks change hands in one of
a few ways, the position comes closer to the end of the call (`PlayerTrace.Position.budget`), and
the worker's own thread, which may call the client from a callback, keeps away from the positions
that wait for the worker (`PlayerTrace.Position.own`).

It follows that a lock is held by exactly the thread its slot names, and that the worker's
thread is inside a call only while the worker is inside a callback (`PlayerTrace.Seated`).
-/

namespace PlayerTrace

/-- Where a thread is. -/
inductive Position
  | outside (c : Caller)
  | admission (pc : AdmitPc)
  | consent (pc : ConsentPc)

/-- A caller that is described by the slot of a lock. -/
def Caller.locked : Caller → Bool
  | .admitting | .consenting => true
  | _ => false

def State.position (s : State) (t : Tid) : Position :=
  match s.callers t with
  | .admitting =>
    match s.client.admission with
    | .producer _ pc => .admission pc
    | _ => .outside .admitting
  | .consenting =>
    match s.client.consentSection with
    | .held _ _ pc => .consent pc
    | .free => .outside .consenting
  | c => .outside c

/-! ### The steps that are left to a call -/

/-- The steps after an admission has succeeded: a replacement goes on with its second marker. -/
def AdmitFor.budget : AdmitFor → Nat
  | .replaceEnd .. => 7
  | _ => 0

def AdmitPc.budget : AdmitPc → Nat
  | .startTerminal _ => 16
  | .startReserve _ => 15
  | .startRoom _ => 14
  | .startBegin .. | .endTerminal => 7
  | .gate k _ _ => k.budget + 6
  | .capacity k _ _ => k.budget + 5
  | .room k _ _ => k.budget + 4
  | .reserve k _ => k.budget + 3
  | .push k _ => k.budget + 2
  | .undo .. => 1
  | .count k => k.budget + 1
  | .flushTerminal => 4
  | .flushBarrier => 3
  | .flushToken _ => 2

def ConsentPc.budget : ConsentPc → Nat
  | .store => 12
  | .bump => 11
  | .clear => 10
  | .countCleared _ => 9
  | .deactivate => 8
  | .discard => 7
  | .countDiscarded _ => 6
  | .forget => 5
  | .mark => 4
  | .purge => 3
  | .reset => 2
  | .grant => 1

/-- The destructor goes on after its `shutdown`. -/
def Caller.budget : Caller → Nat
  | .idle | .done _ | .admitting | .consenting => 0
  | .startLock _ => 17
  | .endLock => 8
  | .trackEnter .. => 9
  | .trackFilter .. => 8
  | .trackLock .. => 7
  | .flushLock => 5
  | .flushWait .. => 1
  | .shutdownLock d => 3 * d.toNat + 10
  | .shutdownCancel d => 3 * d.toNat + 9
  | .shutdownOrdinal d => 3 * d.toNat + 8
  | .shutdownBarrier d _ => 3 * d.toNat + 7
  | .shutdownToken d _ => 3 * d.toNat + 6
  | .shutdownWait d _ => 3 * d.toNat + 5
  | .shutdownStop d _ => 3 * d.toNat + 4
  | .shutdownJoin d _ => 3 * d.toNat + 3
  | .shutdownMark d _ => 3 * d.toNat + 2
  | .shutdownTerminal d _ => 3 * d.toNat + 1
  | .destroyStop => 3
  | .destroyCancel => 2
  | .destroyJoin => 1
  | .ownClose => 2
  | .ownStop => 1
  | .exitJoin => 2
  | .exitMark => 1
  | .consentLock _ => 13

/-- The steps that are left to a call, at most. -/
def Position.budget : Position → Nat
  | .outside c => c.budget
  | .admission pc => pc.budget
  | .consent pc => pc.budget

/-- The steps of a whole call, at most. -/
def callBudget : Nat := 17

theorem Caller.budget_le (c : Caller) : c.budget ≤ callBudget := by
  unfold callBudget
  cases c with
  | shutdownLock d | shutdownCancel d | shutdownOrdinal d | shutdownBarrier d | shutdownToken d
  | shutdownWait d | shutdownStop d | shutdownJoin d | shutdownMark d | shutdownTerminal d =>
    have := d.toNat_le
    simp only [Caller.budget]
    omega
  | _ => simp [Caller.budget]

theorem Position.budget_le (p : Position) : p.budget ≤ callBudget := by
  have hk : ∀ k : AdmitFor, k.budget ≤ 7 := by
    intro k
    cases k <;> simp [AdmitFor.budget]
  unfold callBudget
  cases p with
  | outside c => exact c.budget_le
  | admission pc =>
    cases pc with
    | gate k | capacity k | room k | reserve k | push k | count k =>
      have := hk k
      simp only [Position.budget, AdmitPc.budget]
      omega
    | _ => simp [Position.budget, AdmitPc.budget]
  | consent pc => cases pc <;> simp [Position.budget, ConsentPc.budget]

/-! ### The positions of the worker's own thread -/

def AdmitPc.own : AdmitPc → Bool
  | .flushTerminal | .flushBarrier | .flushToken _ => false
  | _ => true

def Caller.own : Caller → Bool
  | .flushLock | .flushWait .. | .shutdownLock _ | .shutdownCancel _ | .shutdownOrdinal _
  | .shutdownBarrier .. | .shutdownToken .. | .shutdownWait .. | .shutdownStop ..
  | .shutdownJoin .. | .shutdownMark .. | .shutdownTerminal .. | .destroyStop | .destroyCancel
  | .destroyJoin | .exitJoin | .exitMark => false
  | _ => true

/-- A position that a call from the worker's own thread may come to: a flush and the waits of a
shutdown are refused there. -/
def Position.own : Position → Bool
  | .outside c => c.own
  | .admission pc => pc.own
  | .consent _ => true

/-! ### What a step does to the locks -/

variable {env : Env} {i : Input} {s s' x : State} {t : Tid}

/-- What a step of a consent change does to the admission lock: it has the lock exactly in the
revocation section. -/
def Sectioned (s : State) (pc pc' : ConsentPc) (s' : State) : Prop :=
  (s'.client.admission = s.client.admission ∧ (pc.inSection = true → pc'.inSection = true)) ∨
    (s.client.admission = .free ∧ s'.client.admission = .consent ∧ pc'.inSection = true) ∨
    (s.client.admission = .consent ∧ s'.client.admission = .free)

/-- **How the locks change hands** in a step of the thread `t`. -/
inductive Handover (s : State) (t : Tid) (s' : State) : Prop
  | outside (hc : (s.callers t).locked = false) (hc' : (s'.callers t).locked = false)
      (hadm : s'.client.admission = s.client.admission)
      (hsec : s'.client.consentSection = s.client.consentSection)
  | enters {pc : AdmitPc} (hc : (s.callers t).locked = false) (hc' : s'.callers t = .admitting)
      (hfree : s.client.admission = .free) (hadm : s'.client.admission = .producer t pc)
      (hsec : s'.client.consentSection = s.client.consentSection)
  | proceeds {pc pc' : AdmitPc} (hc : s.callers t = .admitting) (hc' : s'.callers t = .admitting)
      (hheld : s.client.admission = .producer t pc) (hadm : s'.client.admission = .producer t pc')
      (hsec : s'.client.consentSection = s.client.consentSection)
  | leaves {pc : AdmitPc} (hc : s.callers t = .admitting) (hc' : (s'.callers t).locked = false)
      (hheld : s.client.admission = .producer t pc) (hadm : s'.client.admission = .free)
      (hsec : s'.client.consentSection = s.client.consentSection)
  | consents {st : ConsentState} {pc : ConsentPc} (hc : (s.callers t).locked = false)
      (hc' : s'.callers t = .consenting) (hadm : s'.client.admission = s.client.admission)
      (hfree : s.client.consentSection = .free) (hsec : s'.client.consentSection = .held t st pc)
  | revokes {st : ConsentState} {pc pc' : ConsentPc} (hc : s.callers t = .consenting)
      (hc' : s'.callers t = .consenting)
      (hadm : Sectioned s pc pc' s') (hheld : s.client.consentSection = .held t st pc)
      (hsec : s'.client.consentSection = .held t st pc')
  | returns {st : ConsentState} {pc : ConsentPc} (hc : s.callers t = .consenting)
      (hc' : (s'.callers t).locked = false) (hpc : pc.inSection = false)
      (hadm : s'.client.admission = s.client.admission)
      (hheld : s.client.consentSection = .held t st pc)
      (hsec : s'.client.consentSection = .free)

/-- **What a step of the thread `t` does to its position.** -/
structure Placed (s : State) (t : Tid) (s' : State) : Prop where
  locks : Handover s t s'
  lower : (s'.position t).budget < (s.position t).budget
  own : (s.position t).own = true → (s'.position t).own = true

theorem position_of_unlocked (h : (s.callers t).locked = false) :
    s.position t = .outside (s.callers t) := by
  unfold State.position
  cases hc : s.callers t <;> first | rfl | simp [hc, Caller.locked] at h

theorem position_of_admitting {u : Tid} {pc : AdmitPc} (hc : s.callers t = .admitting)
    (hadm : s.client.admission = .producer u pc) : s.position t = .admission pc := by
  rw [State.position, hc, hadm]

theorem position_of_consenting {u : Tid} {st : ConsentState} {pc : ConsentPc}
    (hc : s.callers t = .consenting) (hsec : s.client.consentSection = .held u st pc) :
    s.position t = .consent pc := by
  rw [State.position, hc, hsec]

theorem position_move {c : Caller} (hc : c.locked = false) :
    (x.move t c).position t = .outside c := by
  have hcallers : (x.move t c).callers t = c := move_callers c
  rw [position_of_unlocked (by rw [hcallers]; exact hc), hcallers]

namespace Placed

/-- A step outside the locks. -/
theorem move {c₀ c : Caller} (hs : s.callers t = c₀) (hc₀ : c₀.locked = false)
    (hadm : x.client.admission = s.client.admission)
    (hsec : x.client.consentSection = s.client.consentSection) (hc : c.locked = false)
    (hlower : c.budget < c₀.budget) (hown : c₀.own = true → c.own = true) :
    Placed s t (x.move t c) := by
  have hlocked : (s.callers t).locked = false := by rw [hs]; exact hc₀
  have hplace : s.position t = .outside c₀ := by rw [position_of_unlocked hlocked, hs]
  refine ⟨.outside hlocked (by rw [move_callers]; exact hc) hadm hsec, ?_, ?_⟩
  · rw [position_move hc, hplace]
    exact hlower
  · rw [position_move hc, hplace]
    exact hown

/-- Taking the admission lock. -/
theorem lockAdmission {c₀ : Caller} {pc : AdmitPc} (hs : s.callers t = c₀)
    (hc₀ : c₀.locked = false) (hfree : s.client.admission = .free)
    (hlower : pc.budget < c₀.budget) (hown : c₀.own = true → pc.own = true) :
    Placed s t (Client.lockAdmission s t pc) := by
  have hlocked : (s.callers t).locked = false := by rw [hs]; exact hc₀
  have hplace : s.position t = .outside c₀ := by rw [position_of_unlocked hlocked, hs]
  have hc' : (Client.lockAdmission s t pc).callers t = .admitting := move_callers _
  have hplace' : (Client.lockAdmission s t pc).position t = .admission pc :=
    position_of_admitting (u := t) hc' rfl
  refine ⟨.enters hlocked hc' hfree rfl rfl, ?_, ?_⟩
  · rw [hplace', hplace]
    exact hlower
  · rw [hplace', hplace]
    exact hown

/-- Going on inside the admission lock. -/
theorem proceed {pc pc' : AdmitPc} (hc : s.callers t = .admitting)
    (hadm : s.client.admission = .producer t pc) (hcallers : x.callers = s.callers)
    (hsec : x.client.consentSection = s.client.consentSection) (hlower : pc'.budget < pc.budget)
    (hown : pc.own = true → pc'.own = true) : Placed s t (Client.proceed x t pc') := by
  have hc' : (Client.proceed x t pc').callers t = .admitting := by
    rw [← hc, ← hcallers]
    rfl
  have hplace' : (Client.proceed x t pc').position t = .admission pc' :=
    position_of_admitting (u := t) hc' rfl
  refine ⟨.proceeds hc hc' hadm rfl hsec, ?_, ?_⟩
  · rw [hplace', position_of_admitting hc hadm]
    exact hlower
  · rw [hplace', position_of_admitting hc hadm]
    exact hown

/-- Releasing the admission lock. -/
theorem release {pc : AdmitPc} {c : Caller} (hc : s.callers t = .admitting)
    (hadm : s.client.admission = .producer t pc) (hfree : x.client.admission = .free)
    (hsec : x.client.consentSection = s.client.consentSection) (hlocked : c.locked = false)
    (hlower : c.budget < pc.budget) (hown : pc.own = true → c.own = true) :
    Placed s t (x.move t c) := by
  refine ⟨.leaves hc (by rw [move_callers]; exact hlocked) hadm hfree hsec, ?_, ?_⟩
  · rw [position_move hlocked, position_of_admitting hc hadm]
    exact hlower
  · rw [position_move hlocked, position_of_admitting hc hadm]
    exact hown

theorem leave {pc : AdmitPc} {op : Op} {status : Status} (hc : s.callers t = .admitting)
    (hadm : s.client.admission = .producer t pc)
    (hsec : x.client.consentSection = s.client.consentSection) (hpos : 0 < pc.budget) :
    Placed s t (Client.leave x t op status) :=
  release (x := { x with client := { x.client with admission := .free } }) hc hadm rfl hsec rfl hpos
    fun _ => rfl

/-- Going on inside the consent lock. -/
theorem proceedConsent {st : ConsentState} {pc pc' : ConsentPc} (hc : s.callers t = .consenting)
    (hheld : s.client.consentSection = .held t st pc) (hcallers : x.callers = s.callers)
    (hadm : Sectioned s pc pc' x) (hlower : pc'.budget < pc.budget) :
    Placed s t (Client.proceedConsent x t st pc') := by
  have hc' : (Client.proceedConsent x t st pc').callers t = .consenting := by
    rw [← hc, ← hcallers]
    rfl
  have hsec' : (Client.proceedConsent x t st pc').client.consentSection = .held t st pc' := rfl
  have hplace' : (Client.proceedConsent x t st pc').position t = .consent pc' :=
    position_of_consenting hc' hsec'
  refine ⟨.revokes hc hc' hadm hheld hsec', ?_, fun _ => ?_⟩
  · rw [hplace', position_of_consenting hc hheld]
    exact hlower
  · rw [hplace']
    rfl

/-- Releasing the consent lock. -/
theorem leaveConsent {st : ConsentState} {pc : ConsentPc} {status : Status}
    (hc : s.callers t = .consenting) (hheld : s.client.consentSection = .held t st pc)
    (hpc : pc.inSection = false) (hadm : x.client.admission = s.client.admission)
    (hpos : 0 < pc.budget) : Placed s t (Client.leaveConsent x t st status) := by
  have hplace' : (Client.leaveConsent x t st status).position t =
      .outside (.done (.consented st x.history.fence status)) := position_move rfl
  have hc' : (Client.leaveConsent x t st status).callers t =
      .done (.consented st x.history.fence status) := move_callers _
  refine ⟨.returns hc (by rw [hc']; rfl) hpc hadm hheld rfl, ?_, fun _ => ?_⟩
  · rw [hplace', position_of_consenting hc hheld]
    exact hpos
  · rw [hplace']
    rfl

end Placed

namespace Client

/-! ### Inside the two locks -/

theorem leads_budget {pc pc' : AdmitPc} (h : Leads env s pc pc') :
    pc'.budget < pc.budget ∧ (pc.own = true → pc'.own = true) := by
  cases h <;> simp [AdmitPc.budget, AdmitFor.budget, AdmitPc.own]

/-- A step of a producer, or of a flush before it waits. -/
theorem inside_placed {pc : AdmitPc} (hc : s.callers t = .admitting)
    (hadm : s.client.admission = .producer t pc) (h : Inside env i s t pc s') : Placed s t s' := by
  cases h with
  | moves h => exact .proceed hc hadm rfl rfl (leads_budget h).1 (leads_budget h).2
  | refuses h =>
    refine .leave hc hadm rfl ?_
    cases h <;> simp [AdmitPc.budget]
  | fails h hok =>
    rw [resume_of_fail hok]
    refine .leave hc hadm rfl ?_
    cases h <;> simp [AdmitPc.budget]
  | begins =>
    exact .proceed hc hadm rfl rfl (by simp [AdmitPc.budget, AdmitFor.budget]) fun _ => rfl
  | builds | reserves | pushes =>
    exact .proceed hc hadm rfl rfl (by simp [AdmitPc.budget]) fun _ => rfl
  | undoes =>
    rw [undo, resume_of_fail rfl]
    exact .leave hc hadm rfl Nat.one_pos
  | @counts k =>
    cases k with
    | replaceEnd p previous =>
      exact .proceed hc hadm rfl rfl (by simp [AdmitPc.budget, AdmitFor.budget]) fun _ => rfl
    | track | endSession | start => exact .leave hc hadm rfl (Nat.succ_pos _)
  | flushBarrier => exact .proceed hc hadm rfl rfl (by simp [AdmitPc.budget]) id
  | flushToken =>
    exact .release hc hadm rfl rfl rfl (by simp [AdmitPc.budget, Caller.budget])
      fun h => by cases h

/-- A step of a consent change. -/
theorem consentStep_placed {st : ConsentState} {pc : ConsentPc} (hg : Custody.Gated (custody s))
    (hc : s.callers t = .consenting) (hheld : s.client.consentSection = .held t st pc)
    (h : consentStep i s t st pc = some s') : Placed s t s' := by
  cases pc with
  | store =>
    simp only [consentStep, store] at h
    split at h
    · cases h
    · rename_i hfree
      obtain rfl := Option.some.inj h
      exact .proceedConsent hc hheld rfl (Or.inr (Or.inl ⟨not_not.mp hfree, rfl, rfl⟩))
        (by simp [ConsentPc.budget])
  | forget =>
    obtain rfl := Option.some.inj h
    have hlocked := admission_of_section hg hheld rfl
    exact .proceedConsent hc hheld rfl (Or.inr (Or.inr ⟨hlocked, rfl⟩)) (by simp [ConsentPc.budget])
  | clear | discard =>
    obtain rfl := Option.some.inj h
    refine .proceedConsent hc hheld rfl (Or.inl ⟨rfl, fun _ => ?_⟩) ?_
    · split <;> rfl
    · split <;> simp [ConsentPc.budget]
  | mark | purge =>
    simp only [consentStep, mark, purge] at h
    split at h
    · obtain rfl := Option.some.inj h
      split
      · exact .leaveConsent hc hheld rfl rfl (by simp [ConsentPc.budget])
      · exact .proceedConsent hc hheld rfl (Or.inl ⟨rfl, fun h => by cases h⟩)
          (by simp [ConsentPc.budget])
    · cases h
  | reset =>
    obtain rfl := Option.some.inj h
    unfold reset
    dsimp only
    split
    · exact .proceedConsent hc hheld rfl (Or.inl ⟨rfl, fun h => by cases h⟩)
        (by simp [ConsentPc.budget])
    · exact .leaveConsent hc hheld rfl rfl (by simp [ConsentPc.budget])
  | grant =>
    simp only [consentStep, grant] at h
    split at h
    · cases h
    · obtain rfl := Option.some.inj h
      exact .leaveConsent hc hheld rfl rfl (by simp [ConsentPc.budget])
  | bump | countCleared | deactivate | countDiscarded =>
    obtain rfl := Option.some.inj h
    exact .proceedConsent hc hheld rfl (Or.inl ⟨rfl, fun _ => rfl⟩) (by simp [ConsentPc.budget])

/-! ### Outside them -/

/-- A step that takes the admission lock, or returns at once for the reason `c`. -/
theorem lock_or_return_placed {c : Prop} [Decidable c] {c₀ : Caller} {op : Op} {st : Status}
    {pc : AdmitPc} (hc : s.callers t = c₀) (hc₀ : c₀.locked = false)
    (h : (if s.client.admission ≠ .free then none
      else if c then some (return_ s t op st) else some (lockAdmission s t pc)) = some s')
    (hlower : pc.budget < c₀.budget) (hown : c₀.own = true → pc.own = true) : Placed s t s' := by
  split at h
  · cases h
  rename_i hfree
  split at h
  · obtain rfl := Option.some.inj h
    exact .move hc hc₀ rfl rfl rfl (Nat.zero_lt_of_lt hlower) fun _ => rfl
  · obtain rfl := Option.some.inj h
    exact .lockAdmission hc hc₀ (not_not.mp hfree) hlower hown

/-- The end of a shutdown. -/
theorem shutdownDone_placed {c₀ : Caller} {d : Bool} {st : Status} (hc : s.callers t = c₀)
    (hc₀ : c₀.locked = false) (hadm : x.client.admission = s.client.admission)
    (hsec : x.client.consentSection = s.client.consentSection)
    (hlower : 3 * d.toNat < c₀.budget) (hown : c₀.own = false) :
    Placed s t (shutdownDone x t d st) := by
  rw [shutdownDone_eq]
  cases d <;> exact .move hc hc₀ hadm hsec rfl hlower (by simp [hown])

/-- **Every step of a caller.** -/
theorem step_placed (hg : Custody.Gated (custody s)) (h : step env i s t = some s') :
    Placed s t s' := by
  unfold step at h
  generalize hc : s.callers t = c at h
  cases c with
  | idle | done => cases h
  | admitting =>
    dsimp only at h
    split at h
    · rename_i u pc hadm
      split at h
      · rename_i hu
        subst hu
        exact inside_placed hc hadm (admitStep_inside h)
      · cases h
    · cases h
  | consenting =>
    dsimp only at h
    split at h
    · rename_i u st pc hheld
      split at h
      · rename_i hu
        subst hu
        exact consentStep_placed hg hc hheld h
      · cases h
    · cases h
  | startLock p =>
    simp only [startLock] at h
    split at h
    · cases h
    rename_i hfree
    split at h
    · obtain rfl := Option.some.inj h
      exact .move hc rfl rfl rfl rfl (by simp [Caller.budget]) fun _ => rfl
    · split at h
      · obtain rfl := Option.some.inj h
        exact .move hc rfl rfl rfl rfl (by simp [Caller.budget]) fun _ => rfl
      · obtain rfl := Option.some.inj h
        exact .lockAdmission hc rfl (not_not.mp hfree) (Nat.lt_succ_self 16) fun _ => rfl
  | endLock => exact lock_or_return_placed hc rfl h (Nat.lt_succ_self 7) fun _ => rfl
  | trackLock name ps filtered g =>
    exact lock_or_return_placed hc rfl h (Nat.lt_succ_self 6) fun _ => rfl
  | flushLock => exact lock_or_return_placed hc rfl h (Nat.lt_succ_self 4) fun h => by cases h
  | trackEnter name ps =>
    obtain rfl := Option.some.inj h
    unfold trackEnter
    dsimp only
    repeat' split
    all_goals exact .move hc rfl rfl rfl rfl (by simp [Caller.budget]) fun _ => rfl
  | trackFilter name ps g =>
    obtain rfl := Option.some.inj h
    exact .move hc rfl rfl rfl rfl (by simp [Caller.budget]) fun _ => rfl
  | flushWait token barrier =>
    simp only [flushWait] at h
    repeat' split at h
    · obtain rfl := Option.some.inj h
      exact .move hc rfl rfl rfl rfl Nat.one_pos fun _ => rfl
    · obtain rfl := Option.some.inj h
      exact .move hc rfl rfl rfl rfl Nat.one_pos fun _ => rfl
    · cases h
  | shutdownLock d =>
    simp only [shutdownLock] at h
    repeat' split at h
    · cases h
    · obtain rfl := Option.some.inj h
      exact shutdownDone_placed hc rfl rfl rfl (by simp [Caller.budget]) rfl
    · obtain rfl := Option.some.inj h
      exact .move hc rfl rfl rfl rfl (by simp [Caller.budget]) fun h => by cases h
  | shutdownOrdinal d | shutdownMark d persist =>
    simp only [shutdownOrdinal, shutdownMark] at h
    split at h
    · cases h
    · obtain rfl := Option.some.inj h
      exact .move hc rfl rfl rfl rfl (by simp [Caller.budget]) fun h => by cases h
  | shutdownWait d token =>
    simp only [shutdownWait] at h
    repeat' split at h
    · obtain rfl := Option.some.inj h
      exact .move hc rfl rfl rfl rfl (by simp [Caller.budget]) fun h => by cases h
    · obtain rfl := Option.some.inj h
      exact .move hc rfl rfl rfl rfl (by simp [Caller.budget]) fun h => by cases h
    · cases h
  | shutdownJoin d persist =>
    simp only [shutdownJoin] at h
    repeat' split at h
    · obtain rfl := Option.some.inj h
      exact .move hc rfl rfl rfl rfl (by simp [Caller.budget]) fun h => by cases h
    · obtain rfl := Option.some.inj h
      exact shutdownDone_placed hc rfl rfl rfl (by simp [Caller.budget]) rfl
    · cases h
  | shutdownTerminal d persist =>
    obtain rfl := Option.some.inj h
    unfold shutdownTerminal
    repeat' split
    all_goals exact shutdownDone_placed hc rfl rfl rfl (by simp [Caller.budget]) rfl
  | shutdownCancel | shutdownBarrier | shutdownToken | shutdownStop | destroyStop
  | destroyCancel =>
    obtain rfl := Option.some.inj h
    exact .move hc rfl rfl rfl rfl (by simp [Caller.budget]) fun h => by cases h
  | destroyJoin =>
    simp only [destroyJoin] at h
    split at h
    · obtain rfl := Option.some.inj h
      exact .move hc rfl rfl rfl rfl Nat.one_pos fun _ => rfl
    · cases h
  | ownClose =>
    simp only [ownClose] at h
    split at h
    · cases h
    · obtain rfl := Option.some.inj h
      split <;> exact .move hc rfl rfl rfl rfl (by simp [Caller.budget]) fun _ => rfl
  | ownStop =>
    obtain rfl := Option.some.inj h
    exact .move hc rfl rfl rfl rfl (by simp [Caller.budget]) fun _ => rfl
  | exitJoin =>
    simp only [exitJoin] at h
    repeat' split at h
    · obtain rfl := Option.some.inj h
      exact .move hc rfl rfl rfl rfl (by simp [Caller.budget]) fun h => by cases h
    · obtain rfl := Option.some.inj h
      exact .move hc rfl rfl rfl rfl (by simp [Caller.budget]) fun _ => rfl
    · cases h
  | exitMark =>
    simp only [exitMark] at h
    split at h
    · cases h
    · obtain rfl := Option.some.inj h
      split <;> exact .move hc rfl rfl rfl rfl Nat.one_pos fun _ => rfl
  | consentLock st =>
    simp only [consentLock] at h
    split at h
    · cases h
    rename_i hfree
    obtain rfl := Option.some.inj h
    have hlocked : (s.callers t).locked = false := by rw [hc]; rfl
    have hplace : s.position t = .outside (.consentLock st) := by
      rw [position_of_unlocked hlocked, hc]
    generalize hpc : (if st = ConsentState.granted then
      if s.client.purgeRequired then ConsentPc.mark else .grant else .store) = pc
    have hc' : ((proceedConsent s t st pc).move t .consenting).callers t = .consenting :=
      move_callers _
    have hsec' : ((proceedConsent s t st pc).move t .consenting).client.consentSection =
      .held t st pc := rfl
    have hplace' : ((proceedConsent s t st pc).move t .consenting).position t = .consent pc :=
      position_of_consenting hc' hsec'
    refine ⟨.consents hlocked hc' rfl (not_not.mp hfree) rfl, ?_, fun _ => ?_⟩
    · rw [hplace', hplace, ← hpc]
      repeat' split
      all_goals simp [Position.budget, ConsentPc.budget, Caller.budget]
    · rw [hplace']
      rfl

/-- **Every call**: it begins outside the locks, and on the worker's own thread from a callback
and on a way that does not wait for the worker. -/
theorem call_placed {op : Op} (h : call env s t op = some s') :
    ∃ c, s' = s.move t c ∧ c.locked = false ∧ (s.callers t).free = true ∧
      (t = 0 → c.own = true ∧ s.frame.pc.inCallback = true) := by
  unfold call at h
  split at h
  · cases h
  rename_i hcan
  obtain ⟨hfree, hback⟩ : (s.callers t).free = true ∧ (t = 0 → s.frame.pc.inCallback = true) := by
    simpa [not_or] using hcan
  have key : ∀ c, c.locked = false → (t = 0 → c.own = true) → s' = s.move t c →
      ∃ c, s' = s.move t c ∧ c.locked = false ∧ (s.callers t).free = true ∧
        (t = 0 → c.own = true ∧ s.frame.pc.inCallback = true) :=
    fun c hc hown hs => ⟨c, hs, hc, hfree, fun ht => ⟨hown ht, hback ht⟩⟩
  cases op with
  | startSession p =>
    have hs := Option.some.inj h
    split at hs
    · exact key _ rfl (fun _ => rfl) hs.symm
    · exact key _ rfl (fun _ => rfl) hs.symm
  | endSession | track | setConsent =>
    exact key _ rfl (fun _ => rfl) (Option.some.inj h).symm
  | flush =>
    have hs := Option.some.inj h
    split at hs
    · exact key _ rfl (fun _ => rfl) hs.symm
    · rename_i ht
      exact key _ rfl (fun h0 => absurd h0 ht) hs.symm
  | shutdown | waitForWorkerExit =>
    refine key _ ?_ (fun ht => ?_) (Option.some.inj h).symm
    · split <;> rfl
    · rw [if_pos ht]
      rfl
  | destroy =>
    dsimp only at h
    split at h
    · cases h
    · rename_i ht
      exact key _ rfl (fun h0 => absurd h0 ht) (Option.some.inj h).symm

end Client

/-! ### Who holds a lock -/

/-- **The slots name the holders**: a lock is held by the thread its slot names and by no other;
the admission lock is taken on behalf of a consent change only in its revocation section; the
worker's thread is inside a call only from a callback. -/
structure Seated (s : State) : Prop where
  producer : ∀ t pc, s.client.admission = .producer t pc → s.callers t = .admitting
  admitting : ∀ t, s.callers t = .admitting → ∃ pc, s.client.admission = .producer t pc
  holder : ∀ t st pc, s.client.consentSection = .held t st pc → s.callers t = .consenting
  consenting : ∀ t, s.callers t = .consenting →
    ∃ st pc, s.client.consentSection = .held t st pc
  section_ : s.client.admission = .consent →
    ∃ t st pc, s.client.consentSection = .held t st pc ∧ pc.inSection = true
  own : (s.position 0).own = true
  callback : (s.callers 0).free = false → s.frame.pc.inCallback = true

/-- The position of a thread depends on nothing but the thread itself and the slots. -/
theorem position_congr {u : Tid} (hc : s'.callers u = s.callers u)
    (hadm : s.callers u = .admitting → s'.client.admission = s.client.admission)
    (hsec : s.callers u = .consenting → s'.client.consentSection = s.client.consentSection) :
    s'.position u = s.position u := by
  unfold State.position
  rw [hc]
  cases hcs : s.callers u with
  | admitting => rw [hadm hcs]
  | consenting => rw [hsec hcs]
  | _ => rfl

namespace Handover

/-- A lock that another thread holds stays with it. -/
theorem admission_kept {u : Tid} {pc : AdmitPc} (h : Handover s t s') (hu : u ≠ t)
    (hadm : s.client.admission = .producer u pc) :
    s'.client.admission = s.client.admission := by
  cases h with
  | outside _ _ h | consents _ _ h | returns _ _ _ h => exact h
  | enters _ _ hfree => rw [hfree] at hadm; cases hadm
  | proceeds _ _ hheld | leaves _ _ hheld =>
    rw [hheld] at hadm
    cases hadm
    exact absurd rfl hu
  | revokes _ _ h =>
    rcases h with ⟨h, -⟩ | ⟨hfree, -⟩ | ⟨hcons, -⟩
    · exact h
    · rw [hfree] at hadm; cases hadm
    · rw [hcons] at hadm; cases hadm

theorem section_kept {u : Tid} {st : ConsentState} {pc : ConsentPc} (h : Handover s t s')
    (hu : u ≠ t) (hsec : s.client.consentSection = .held u st pc) :
    s'.client.consentSection = s.client.consentSection := by
  cases h with
  | outside _ _ _ h | enters _ _ _ _ h | proceeds _ _ _ _ h | leaves _ _ _ _ h => exact h
  | consents _ _ _ hfree => rw [hfree] at hsec; cases hsec
  | revokes _ _ _ hheld | returns _ _ _ _ hheld =>
    rw [hheld] at hsec
    cases hsec
    exact absurd rfl hu

/-- A producer after the step: the one of before, or the thread that moved. -/
theorem producer_cases {u : Tid} {pc : AdmitPc} (h : Handover s t s')
    (hadm : s'.client.admission = .producer u pc) :
    (u = t ∧ s'.callers t = .admitting) ∨
      (s.client.admission = .producer u pc ∧ s.callers t ≠ .admitting) := by
  have hcons : s.callers t = .consenting → s.callers t ≠ .admitting := by
    intro hc
    rw [hc]
    exact Caller.noConfusion
  have hout : (s.callers t).locked = false → s.callers t ≠ .admitting := by
    intro hc hadm
    rw [hadm] at hc
    cases hc
  cases h with
  | outside hc _ h | consents hc _ h => exact Or.inr ⟨h ▸ hadm, hout hc⟩
  | returns hc _ _ h => exact Or.inr ⟨h ▸ hadm, hcons hc⟩
  | enters _ hc' _ h | proceeds _ hc' _ h =>
    rw [h] at hadm
    cases hadm
    exact Or.inl ⟨rfl, hc'⟩
  | leaves _ _ _ h => rw [h] at hadm; cases hadm
  | revokes hc _ h =>
    rcases h with ⟨h, -⟩ | ⟨-, h, -⟩ | ⟨-, h⟩
    · exact Or.inr ⟨h ▸ hadm, hcons hc⟩
    · rw [h] at hadm; cases hadm
    · rw [h] at hadm; cases hadm

/-- The same for the consent lock. -/
theorem holder_cases {u : Tid} {st : ConsentState} {pc : ConsentPc} (h : Handover s t s')
    (hsec : s'.client.consentSection = .held u st pc) :
    (u = t ∧ s'.callers t = .consenting) ∨
      (s.client.consentSection = .held u st pc ∧ s.callers t ≠ .consenting) := by
  have hadm : s.callers t = .admitting → s.callers t ≠ .consenting := by
    intro hc
    rw [hc]
    exact Caller.noConfusion
  have hout : (s.callers t).locked = false → s.callers t ≠ .consenting := by
    intro hc hadm
    rw [hadm] at hc
    cases hc
  cases h with
  | outside hc _ _ h | enters hc _ _ _ h => exact Or.inr ⟨h ▸ hsec, hout hc⟩
  | proceeds hc _ _ _ h | leaves hc _ _ _ h => exact Or.inr ⟨h ▸ hsec, hadm hc⟩
  | consents _ hc' _ _ h | revokes _ hc' _ _ h =>
    rw [h] at hsec
    cases hsec
    exact Or.inl ⟨rfl, hc'⟩
  | returns _ _ _ _ _ h => rw [h] at hsec; cases hsec

/-- A thread that has come into the admission lock holds it. -/
theorem admission_of_caller (h : Handover s t s') (hc : s'.callers t = .admitting) :
    ∃ pc, s'.client.admission = .producer t pc := by
  cases h with
  | enters _ _ _ h | proceeds _ _ _ h => exact ⟨_, h⟩
  | outside _ hc' | leaves _ hc' | returns _ hc' => rw [hc] at hc'; cases hc'
  | consents _ hc' | revokes _ hc' => rw [hc] at hc'; cases hc'

theorem section_of_caller (h : Handover s t s') (hc : s'.callers t = .consenting) :
    ∃ st pc, s'.client.consentSection = .held t st pc := by
  cases h with
  | consents _ _ _ _ h | revokes _ _ _ _ h => exact ⟨_, _, h⟩
  | outside _ hc' | leaves _ hc' | returns _ hc' => rw [hc] at hc'; cases hc'
  | enters _ hc' | proceeds _ hc' => rw [hc] at hc'; cases hc'

end Handover

namespace Seated

theorem of_placed (hi : Seated s) (ha : Aside s t s') (hp : Placed s t s') : Seated s' where
  producer u pc hadm := by
    rcases hp.locks.producer_cases hadm with ⟨rfl, hc⟩ | ⟨hadm, hne⟩
    · exact hc
    · have hc := hi.producer u pc hadm
      rw [ha.others u fun h => hne (h ▸ hc)]
      exact hc
  admitting u hc := by
    by_cases hu : u = t
    · subst hu
      exact hp.locks.admission_of_caller hc
    · rw [ha.others u hu] at hc
      obtain ⟨pc, hadm⟩ := hi.admitting u hc
      exact ⟨pc, (hp.locks.admission_kept hu hadm).trans hadm⟩
  holder u st pc hsec := by
    rcases hp.locks.holder_cases hsec with ⟨rfl, hc⟩ | ⟨hsec, hne⟩
    · exact hc
    · have hc := hi.holder u st pc hsec
      rw [ha.others u fun h => hne (h ▸ hc)]
      exact hc
  consenting u hc := by
    by_cases hu : u = t
    · subst hu
      exact hp.locks.section_of_caller hc
    · rw [ha.others u hu] at hc
      obtain ⟨st, pc, hsec⟩ := hi.consenting u hc
      exact ⟨st, pc, (hp.locks.section_kept hu hsec).trans hsec⟩
  section_ hadm := by
    cases hp.locks with
    | outside _ _ h h' => rw [h']; exact hi.section_ (h ▸ hadm)
    | enters _ _ _ h | proceeds _ _ _ h | leaves _ _ _ h => rw [h] at hadm; cases hadm
    | consents _ _ h hfree =>
      obtain ⟨u, st, pc, hsec, -⟩ := hi.section_ (h ▸ hadm)
      rw [hfree] at hsec
      cases hsec
    | revokes _ _ h hheld hsec =>
      rcases h with ⟨h, hkeep⟩ | ⟨-, -, hpc⟩ | ⟨-, h⟩
      · obtain ⟨u, st, pc, hsec₀, hpc⟩ := hi.section_ (h ▸ hadm)
        rw [hheld] at hsec₀
        cases hsec₀
        exact ⟨_, _, _, hsec, hkeep hpc⟩
      · exact ⟨_, _, _, hsec, hpc⟩
      · rw [h] at hadm; cases hadm
    | returns _ _ hpc h hheld =>
      obtain ⟨u, st, pc, hsec₀, hpc₀⟩ := hi.section_ (h ▸ hadm)
      rw [hheld] at hsec₀
      cases hsec₀
      rw [hpc] at hpc₀
      cases hpc₀
  own := by
    by_cases ht : 0 = t
    · subst ht
      exact hp.own hi.own
    · rw [position_congr (ha.others 0 ht)]
      · exact hi.own
      · intro hc
        obtain ⟨pc, hadm⟩ := hi.admitting 0 hc
        exact hp.locks.admission_kept ht hadm
      · intro hc
        obtain ⟨st, pc, hsec⟩ := hi.consenting 0 hc
        exact hp.locks.section_kept ht hsec
  callback hfree := by
    rw [ha.frame]
    refine hi.callback ?_
    by_cases ht : 0 = t
    · subst ht
      rcases hf : (s.callers 0).free with _ | _
      · rfl
      · -- a thread outside any call takes no step
        have := hp.lower
        cases hc : s.callers 0 <;> simp [hc, Caller.free] at hf
        all_goals simp [State.position, hc, Position.budget, Caller.budget] at this
    · rwa [ha.others 0 ht] at hfree

theorem of_call {c : Caller} (hi : Seated s) (hc : c.locked = false)
    (hfree : (s.callers t).free = true)
    (hown : t = 0 → c.own = true ∧ s.frame.pc.inCallback = true) : Seated (s.move t c) := by
  have hlocked : (s.callers t).locked = false := by
    cases hcs : s.callers t <;> simp [hcs, Caller.free] at hfree <;> rfl
  have hne : ∀ u c', s.callers u = c' → c'.locked = true → u ≠ t := by
    rintro u c' hu hc' rfl
    rw [hu, hc'] at hlocked
    cases hlocked
  have hne' : ∀ u c', (s.move t c).callers u = c' → c'.locked = true → u ≠ t := by
    rintro u c' hu hc' rfl
    rw [move_callers] at hu
    rw [hu, hc'] at hc
    cases hc
  refine ⟨fun u pc h => ?_, fun u h => ?_, fun u st pc h => ?_, fun u h => ?_, hi.section_, ?_, ?_⟩
  · have hu := hi.producer u pc h
    exact (move_others c u (hne u _ hu rfl)).trans hu
  · rw [move_others c u (hne' u _ h rfl)] at h
    exact hi.admitting u h
  · have hu := hi.holder u st pc h
    exact (move_others c u (hne u _ hu rfl)).trans hu
  · rw [move_others c u (hne' u _ h rfl)] at h
    exact hi.consenting u h
  · by_cases ht : t = 0
    · subst ht
      rw [position_move hc]
      exact (hown rfl).1
    · rw [position_congr (s := s) (move_others c 0 (Ne.symm ht)) (fun _ => rfl) fun _ => rfl]
      exact hi.own
  · intro h
    by_cases ht : t = 0
    · exact (hown ht).2
    · rw [move_others c 0 (Ne.symm ht)] at h
      exact hi.callback h

end Seated

/-- A step of a caller that is not a new call. -/
theorem placed_of_step (hr : (machine env).Reach s) (h : step env s (.caller t i) = some s') :
    Aside s t s' ∧ Placed s t s' :=
  ⟨Client.step_aside h,
    Client.step_placed (Custody.gated_of_reachable (custody_reachable hr)) h⟩

theorem seated_of_reach (h : (machine env).Reach s) : Seated s := by
  refine h.rule (fun s hs => ?_) fun s l s' hr hi hs => ?_
  · obtain ⟨db, m, earlier, rfl⟩ := start_eq hs
    refine ⟨fun t pc h => ?_, fun t h => ?_, fun t st pc h => ?_, fun t h => ?_, fun h => ?_, rfl,
      fun h => ?_⟩
    all_goals cases h
  · cases l with
    | worker i =>
      have ha := (Worker.step_pass hs).1
      have hfree : (s.callers 0).free = true := by
        by_contra hf
        rw [Bool.not_eq_true] at hf
        change Worker.step env i s = some s' at hs
        rw [Worker.step, if_pos hf] at hs
        cases hs
      have hplace : s'.position 0 = s.position 0 :=
        position_congr (congrFun ha.callers 0) (fun _ => by rw [ha.client])
          fun _ => by rw [ha.client]
      refine ⟨?_, ?_, ?_, ?_, ?_, hplace ▸ hi.own, fun hf => ?_⟩
      · rw [ha.client, ha.callers]; exact hi.producer
      · rw [ha.client, ha.callers]; exact hi.admitting
      · rw [ha.client, ha.callers]; exact hi.holder
      · rw [ha.client, ha.callers]; exact hi.consenting
      · rw [ha.client]; exact hi.section_
      · rw [ha.callers, hfree] at hf
        cases hf
    | call t op =>
      obtain ⟨c, rfl, hc, hfree, hown⟩ := Client.call_placed hs
      exact hi.of_call hc hfree hown
    | caller t i =>
      obtain ⟨ha, hp⟩ := placed_of_step hr hs
      exact hi.of_placed ha hp

end PlayerTrace
