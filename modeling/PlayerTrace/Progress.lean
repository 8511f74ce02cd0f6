import PlayerTrace.Control.Calls
import PlayerTrace.Control.Positions
import PlayerTrace.Lib.Progress
import PlayerTrace.Shutdown

/-!
# No call is stuck

Four mutexes are held across steps: the admission lock, the consent lock, the store mutex
between the last consent check and the insertion, and the retry mutex while `discard_in_flight`
counts; every other mutex of the client is taken and released within a step, with nothing
awaited in between. On top of these a caller may wait for the worker – for a flush, for its
exit – and the worker waits for a callback, inside which its own thread may call the client.

Who waits for whom is `PlayerTrace.Awaits`. The waits never close into a ring: a consent change
takes its own lock before the admission lock and before the store mutex, the worker holds the
store mutex only where it waits for nothing, and what its own thread may call waits for
everything but the worker. So from any thread that has something to do, a chain of waits leads
to one that can move, whatever the environment answers (`PlayerTrace.no_deadlock`). And a call
that is not kept waiting ends: it takes no more than seventeen steps of its own
(`PlayerTrace.call_bounded`).
-/

namespace PlayerTrace

/-- The threads of a client: its worker, and those that call it. -/
inductive Thread
  | worker
  | caller (t : Tid)
  deriving DecidableEq

def Thread.label : Thread → Input → Label
  | .worker, i => .worker i
  | .caller t, i => .caller t i

/-- A thread that has something left to do. -/
def Engaged (s : State) : Thread → Prop
  | .worker => s.frame.pc ≠ .exited
  | .caller t => (s.callers t).free = false

/-- **A thread that can move**, however the store, the sink, the clock and the filter answer
it and though no wait times out. -/
def Able (env : Env) (s : State) (a : Thread) : Prop :=
  ∀ i : Input, i.raise = none → Client.fresh s i.uuid = true →
    ∃ s', step env s (a.label i) = some s'

/-! ### Who waits for whom -/

namespace Position

def wantsAdmission : Position → Bool
  | .outside (.startLock _) | .outside .endLock | .outside (.trackLock ..) | .outside .flushLock
  | .outside (.shutdownLock _) | .outside (.shutdownOrdinal _) | .outside (.shutdownMark ..)
  | .outside .ownClose | .outside .exitMark | .consent .store | .consent .grant => true
  | _ => false

def wantsConsent : Position → Bool
  | .outside (.consentLock _) => true
  | _ => false

def wantsStore : Position → Bool
  | .consent .mark | .consent .purge => true
  | _ => false

def wantsWorker : Position → Bool
  | .outside (.flushWait ..) | .outside (.shutdownWait ..) | .outside (.shutdownJoin ..)
  | .outside .destroyJoin | .outside .exitJoin => true
  | _ => false

end Position

def WorkerPc.wantsRetry : WorkerPc → Bool
  | .takeRetry _ | .holdForRetry _ | .remainsRetry _ => true
  | _ => false

/-- The thread inside the consent lock. -/
def State.consentHolder (s : State) : Option Tid :=
  match s.client.consentSection with
  | .free => none
  | .held t _ _ => some t

/-- The thread inside the admission lock. -/
def State.admissionHolder (s : State) : Option Tid :=
  match s.client.admission with
  | .free => none
  | .producer t _ => some t
  | .consent => s.consentHolder

/-- **Who waits for whom.** -/
inductive Awaits (s : State) : Thread → Thread → Prop
  | admission {t u : Tid} (h : (s.position t).wantsAdmission = true)
      (hu : s.admissionHolder = some u) : Awaits s (.caller t) (.caller u)
  | consent {t u : Tid} (h : (s.position t).wantsConsent = true) (hu : s.consentHolder = some u) :
      Awaits s (.caller t) (.caller u)
  | store {t : Tid} (h : (s.position t).wantsStore = true) (hw : s.frame.pc.holdsStore = true) :
      Awaits s (.caller t) .worker
  | retry {u : Tid} (h : s.frame.pc.wantsRetry = true) (hheld : s.retryFree = false)
      (hu : s.consentHolder = some u) : Awaits s .worker (.caller u)
  | callback (h : (s.callers 0).free = false) : Awaits s .worker (.caller 0)
  | exit {t : Tid} (h : (s.position t).wantsWorker = true) (hfin : s.core.finished = false) :
      Awaits s (.caller t) .worker

/-- What a thread waits for ranks below what it would itself keep others waiting for. -/
def Position.rank (p : Position) : Nat :=
  if p.wantsWorker then 4 else if p.wantsConsent then 2
  else if p.wantsAdmission || p.wantsStore then 1 else 0

def State.rank (s : State) : Thread → Nat
  | .worker => if (s.callers 0).free = false then 3 else if s.frame.pc.wantsRetry then 1 else 0
  | .caller t => (s.position t).rank

variable {env : Env} {i : Input} {s s' : State} {t : Tid}

theorem Position.rank_lt_of_own {p : Position} (h : p.own = true) : p.rank < 3 := by
  cases p with
  | outside c =>
    cases c <;> first
      | cases h; done
      | simp [rank, wantsWorker, wantsConsent, wantsAdmission, wantsStore]
  | admission pc => simp [rank, wantsWorker, wantsConsent, wantsAdmission, wantsStore]
  | consent pc =>
    cases pc <;> simp [rank, wantsWorker, wantsConsent, wantsAdmission, wantsStore]

theorem Position.rank_consent (pc : ConsentPc) : (Position.consent pc).rank ≤ 1 := by
  cases pc <;> simp [rank, wantsWorker, wantsConsent, wantsAdmission, wantsStore]

theorem Position.rank_section {pc : ConsentPc} (h : pc.inSection = true) :
    (Position.consent pc).rank = 0 := by
  cases pc <;> first | cases h; done | rfl

/-! ### The worker -/

/-- The thread ends only after it has said so. -/
theorem finished_of_exited (h : (machine env).Reach s) :
    s.frame.pc = .exited → s.core.finished = true := by
  refine h.rule (P := fun s => s.frame.pc = .exited → s.core.finished = true) (fun s hs hpc => ?_)
    fun s l s' hr hi hs hpc => ?_
  · obtain ⟨db, m, earlier, rfl⟩ := start_eq hs
    cases hpc
  · rcases aside_of_step hs with ⟨i, -, hw⟩ | ⟨t, -, ha⟩
    · cases (Worker.step_pass hw).2 with
      | plain _ hplain => rw [hpc] at hplain; cases hplain
      | ending _ _ _ hne => exact absurd hpc hne
      | vacuous _ _ _ hpc' => rw [hpc] at hpc'; cases hpc'
      | finish _ heq => rw [heq]; rfl
      | latch _ _ _ hf =>
        obtain ⟨p, pc, hor, hf⟩ := hf
        rw [hf] at hpc
        rcases hor with rfl | rfl <;> cases hpc
      | readBarrier _ _ _ hf =>
        obtain ⟨pc, hor, hf⟩ := hf
        rw [hf] at hpc
        rcases hor with rfl | rfl <;> cases hpc
      | popMore _ _ _ hf =>
        obtain ⟨l, site, hf⟩ := hf
        rw [hf] at hpc
        cases hpc
      | write _ heq | queueClear _ _ heq | retryClear _ _ heq | storeClear _ _ heq
      | failed _ _ heq | record _ heq | stop _ _ heq | raise _ heq =>
        rw [heq] at hpc
        cases hpc
    · rw [ha.finished]
      exact hi (ha.frame ▸ hpc)

/-- A statement waits for nothing but the retry mutex. -/
theorem Worker.execute_defined (hpc : s.frame.pc ≠ .exited)
    (hretry : s.frame.pc.wantsRetry = true → s.retryFree = true) :
    ∃ s', execute env i s = some s' := by
  unfold execute
  cases hp : s.frame.pc with
  | takeRetry l =>
    rw [hp] at hretry
    exact ⟨_, if_pos (hretry rfl)⟩
  | remainsRetry r =>
    rw [hp] at hretry
    exact ⟨_, if_pos (hretry rfl)⟩
  | holdForRetry keep =>
    rw [hp] at hretry
    dsimp only [holdForRetry]
    rw [if_pos (hretry rfl)]
    split <;> exact ⟨_, rfl⟩
  | exited => exact absurd hp hpc
  | _ => exact ⟨_, rfl⟩

/-- Whoever has the retry mutex is about to release it. -/
theorem retry_holder (h : s.retryFree = false) :
    ∃ u st n, s.client.consentSection = .held u st (.countDiscarded n) := by
  unfold State.retryFree at h
  split at h
  · cases h
  · rename_i u st pc hsec
    cases pc with
    | countDiscarded n => exact ⟨u, st, n, hsec⟩
    | _ => cases h

theorem worker_able_or_awaits (hi : Seated s) (hpc : s.frame.pc ≠ .exited) :
    Able env s .worker ∨ ∃ b, Awaits s .worker b ∧ Engaged s b ∧ s.rank b < s.rank .worker := by
  rcases hfree : (s.callers 0).free with _ | _
  · refine Or.inr ⟨.caller 0, .callback hfree, hfree, ?_⟩
    rw [State.rank, State.rank, if_pos hfree]
    exact Position.rank_lt_of_own hi.own
  · by_cases hwait : s.frame.pc.wantsRetry = true ∧ s.retryFree = false
    · obtain ⟨hwants, hheld⟩ := hwait
      obtain ⟨u, st, n, hsec⟩ := retry_holder hheld
      have hu := hi.holder u st _ hsec
      refine Or.inr ⟨.caller u, .retry hwants hheld (by rw [State.consentHolder, hsec]), ?_, ?_⟩
      · rw [Engaged, hu]
        rfl
      · rw [State.rank, State.rank, if_neg (by simp [hfree]), if_pos hwants,
          position_of_consenting hu hsec]
        exact Nat.one_pos
    · refine Or.inl fun i hraise _ => ?_
      change ∃ s', Worker.step env i s = some s'
      rw [Worker.step, if_neg (by simp [hfree]), hraise]
      refine Worker.execute_defined hpc fun hwants => ?_
      by_contra hretry
      exact hwait ⟨hwants, by simpa using hretry⟩

/-! ### A thread inside the admission lock -/

/-- The holder of the admission lock goes on, if it can draw an identifier. -/
theorem Client.admitStep_defined {pc : AdmitPc} (hfresh : fresh s i.uuid = true) :
    ∃ s', admitStep env i s t pc = some s' := by
  cases pc with
  | startBegin p replacing previous => exact ⟨_, if_pos hfresh⟩
  | room k name ps =>
    dsimp only [admitStep, room]
    repeat' split
    all_goals exact ⟨_, rfl⟩
  | _ => exact ⟨_, rfl⟩

theorem producer_able {pc : AdmitPc} (hc : s.callers t = .admitting)
    (hadm : s.client.admission = .producer t pc) : Able env s (.caller t) := by
  intro i _ hfresh
  obtain ⟨s', hs⟩ : ∃ s', Client.admitStep env i s t pc = some s' :=
    Client.admitStep_defined hfresh
  refine ⟨s', ?_⟩
  change Client.step env i s t = some s'
  simp only [Client.step, hc, hadm, if_true]
  exact hs

/-- Whoever waits for the admission lock waits for somebody who waits for nothing. -/
theorem awaits_admission (hi : Seated s) (hwants : (s.position t).wantsAdmission = true)
    (hadm : s.client.admission ≠ .free) :
    ∃ b, Awaits s (.caller t) b ∧ Engaged s b ∧ s.rank b < s.rank (.caller t) := by
  have hrank : 0 < s.rank (.caller t) := by
    rw [State.rank, Position.rank]
    split
    · exact Nat.succ_pos 3
    split
    · exact Nat.succ_pos 1
    · rw [hwants]
      exact Nat.one_pos
  cases hslot : s.client.admission with
  | free => exact absurd hslot hadm
  | producer u pc =>
    have hu := hi.producer u pc hslot
    refine ⟨.caller u, .admission hwants (by rw [State.admissionHolder, hslot]), ?_, ?_⟩
    · rw [Engaged, hu]
      rfl
    · rw [State.rank, position_of_admitting hu hslot]
      exact hrank
  | consent =>
    obtain ⟨u, st, pc, hsec, hin⟩ := hi.section_ hslot
    have hu := hi.holder u st pc hsec
    refine ⟨.caller u, .admission hwants ?_, ?_, ?_⟩
    · rw [State.admissionHolder, hslot, State.consentHolder, hsec]
    · rw [Engaged, hu]
      rfl
    · rw [State.rank, position_of_consenting hu hsec, Position.rank_section hin]
      exact hrank

/-! ### A thread inside the consent lock -/

theorem holder_able_or_awaits {st : ConsentState} {pc : ConsentPc} (hi : Seated s)
    (hc : s.callers t = .consenting) (hsec : s.client.consentSection = .held t st pc) :
    Able env s (.caller t) ∨
      ∃ b, Awaits s (.caller t) b ∧ Engaged s b ∧ s.rank b < s.rank (.caller t) := by
  have hplace := position_of_consenting hc hsec
  have hable : (∀ i, ∃ s', Client.consentStep i s t st pc = some s') →
      Able env s (.caller t) := by
    intro h i _ _
    obtain ⟨s', hs⟩ := h i
    refine ⟨s', ?_⟩
    change Client.step env i s t = some s'
    simp only [Client.step, hc, hsec, if_true]
    exact hs
  cases pc with
  | store | grant =>
    by_cases hadm : s.client.admission = .free
    · exact Or.inl (hable fun i => ⟨_, if_neg (not_not.mpr hadm)⟩)
    · exact Or.inr (awaits_admission hi (by rw [hplace]; rfl) hadm)
  | mark | purge =>
    rcases hstore : s.frame.pc.holdsStore with _ | _
    · exact Or.inl (hable fun i => ⟨_, if_pos (by rw [State.storeFree, hstore]; rfl)⟩)
    · -- the worker has the store mutex, and then waits for nothing
      have hfree : (s.callers 0).free = true := by
        by_contra hbusy
        rw [Bool.not_eq_true] at hbusy
        have hback := hi.callback hbusy
        cases hp : s.frame.pc <;>
          simp [hp, WorkerPc.holdsStore, WorkerPc.inCallback] at hstore hback
      have hretry : s.frame.pc.wantsRetry = false := by
        cases hp : s.frame.pc <;> first | rfl | simp [hp, WorkerPc.holdsStore] at hstore
      refine Or.inr ⟨.worker, .store (by rw [hplace]; rfl) hstore, fun hpc => ?_, ?_⟩
      · rw [hpc] at hstore
        cases hstore
      · rw [State.rank, State.rank, if_neg (by simp [hfree]), if_neg (by simp [hretry]), hplace]
        exact Nat.one_pos
  | bump | clear | countCleared | deactivate | discard | countDiscarded | forget | reset =>
    exact Or.inl (hable fun i => ⟨_, rfl⟩)

/-! ### A thread outside the locks -/

theorem awaits_worker (hr : (machine env).Reach s) (hwants : (s.position t).wantsWorker = true)
    (hfin : s.core.finished = false) :
    ∃ b, Awaits s (.caller t) b ∧ Engaged s b ∧ s.rank b < s.rank (.caller t) := by
  refine ⟨.worker, .exit hwants hfin, fun hpc => ?_, ?_⟩
  · rw [finished_of_exited hr hpc] at hfin
    cases hfin
  · rw [State.rank, State.rank, Position.rank, if_pos hwants]
    repeat' split
    all_goals omega

theorem caller_able_or_awaits (hr : (machine env).Reach s) (hi : Seated s)
    (hbusy : (s.callers t).free = false) :
    Able env s (.caller t) ∨
      ∃ b, Awaits s (.caller t) b ∧ Engaged s b ∧ s.rank b < s.rank (.caller t) := by
  have hable : (∀ i, ∃ s', Client.step env i s t = some s') → Able env s (.caller t) :=
    fun h i _ _ => h i
  have hplace : (s.callers t).locked = false → s.position t = .outside (s.callers t) :=
    position_of_unlocked
  cases hc : s.callers t with
  | idle | done => rw [hc] at hbusy; cases hbusy
  | admitting =>
    obtain ⟨pc, hadm⟩ := hi.admitting t hc
    exact Or.inl (producer_able hc hadm)
  | consenting =>
    obtain ⟨st, pc, hsec⟩ := hi.consenting t hc
    exact holder_able_or_awaits hi hc hsec
  | startLock | endLock | trackLock | flushLock | shutdownLock | shutdownOrdinal | shutdownMark
  | ownClose | exitMark =>
    rw [hc] at hplace
    by_cases hadm : s.client.admission = .free
    · refine Or.inl (hable fun i => ?_)
      simp only [Client.step, hc, Client.startLock, Client.endLock, Client.trackLock,
        Client.flushLock, Client.shutdownLock, Client.shutdownOrdinal, Client.shutdownMark,
        Client.ownClose, Client.exitMark, hadm, ne_eq, not_true_eq_false, if_false]
      repeat' split
      all_goals exact ⟨_, rfl⟩
    · exact Or.inr (awaits_admission hi (by rw [hplace rfl]; rfl) hadm)
  | consentLock st =>
    rw [hc] at hplace
    cases hsec : s.client.consentSection with
    | free =>
      refine Or.inl (hable fun i => ?_)
      simp only [Client.step, hc, Client.consentLock, hsec, ne_eq, not_true_eq_false, if_false]
      exact ⟨_, rfl⟩
    | held u st' pc =>
      have hu := hi.holder u st' pc hsec
      have hwants : (s.position t).wantsConsent = true := by rw [hplace rfl]; rfl
      refine Or.inr ⟨.caller u, .consent hwants (by rw [State.consentHolder, hsec]), ?_, ?_⟩
      · rw [Engaged, hu]
        rfl
      · rw [State.rank, State.rank, position_of_consenting hu hsec, hplace rfl]
        exact Nat.lt_succ_of_le (Position.rank_consent pc)
  | flushWait | shutdownWait =>
    rw [hc] at hplace
    rcases hfin : s.core.finished with _ | _
    · exact Or.inr (awaits_worker hr (by rw [hplace rfl]; rfl) hfin)
    · refine Or.inl (hable fun i => ?_)
      have hready : ∀ token, Client.flushReady s token = true := by
        intro token
        rw [Client.flushReady, hfin, Bool.or_true]
      simp only [Client.step, hc, Client.flushWait, Client.shutdownWait, hready, if_true]
      exact ⟨_, rfl⟩
  | shutdownJoin | destroyJoin | exitJoin =>
    rw [hc] at hplace
    rcases hfin : s.core.finished with _ | _
    · exact Or.inr (awaits_worker hr (by rw [hplace rfl]; rfl) hfin)
    · refine Or.inl (hable fun i => ?_)
      simp only [Client.step, hc, Client.shutdownJoin, Client.destroyJoin, Client.exitJoin, hfin,
        if_true]
      exact ⟨_, rfl⟩
  | trackEnter | trackFilter | shutdownCancel | shutdownBarrier | shutdownToken | shutdownStop
  | shutdownTerminal | destroyStop | destroyCancel | ownStop =>
    refine Or.inl (hable fun i => ?_)
    simp only [Client.step, hc]
    exact ⟨_, rfl⟩

/-! ### The two results -/

/-- **No deadlock.** In every reachable state, and for every thread that has something left to
do – a caller inside a call, or the worker before its end –, a chain of waits leads from it to a
thread that has something to do and can do it at once, whatever the store, the sink and the clock
answer, with no wait timing out and no new call being made. In particular no ring of threads
waits for one another, and what a callback may call on the worker's own thread never waits for
the worker. -/
theorem no_deadlock (hr : (machine env).Reach s) {a : Thread} (ha : Engaged s a) :
    ∃ b, Relation.ReflTransGen (Awaits s) a b ∧ Engaged s b ∧ Able env s b := by
  have hi := seated_of_reach hr
  refine Lts.exists_able s.rank (fun a ha => ?_) ha
  cases a with
  | worker => exact worker_able_or_awaits hi ha
  | caller t => exact caller_able_or_awaits hr hi ha

/-- **A thread that waits for another**: the second is about to start a session, the first to end
one. -/
theorem no_deadlock_sample : ∃ s, (machine sample).Reach s ∧ Engaged s (.caller 2) ∧
    s.admissionHolder = some 1 ∧ ∃ b, Relation.ReflTransGen (Awaits s) (.caller 2) b ∧
      Engaged s b ∧ Able sample s b := by
  obtain ⟨s, hr, hp⟩ := Lts.Machine.reach_of_exec sampleClient_start
    ([.call 1 (.startSession "")] ++ Label.steps 1 1 ++ [.call 2 .endSession])
    (fun s => decide ((s.callers 2).free = false) && decide (s.admissionHolder = some 1))
    (by decide +kernel)
  simp only [Bool.and_eq_true, decide_eq_true_eq] at hp
  exact ⟨s, hr, hp.1, hp.2, no_deadlock hr hp.1⟩

/-- The steps a thread takes inside its calls. -/
def ownSteps (t : Tid) (_ : State) : Label → List Unit
  | .caller u _ => if u = t then [()] else []
  | _ => []

/-- No new call of the thread `t`. -/
def NoCall (t : Tid) (_ : State) (l : Label) : Prop := ∀ op, l ≠ .call t op

/-- A step of anybody else leaves the position of a thread alone. -/
theorem position_of_others {l : Label} (hr : (machine env).Reach s) (h : step env s l = some s')
    (hl : l.thread ≠ some t) : s'.position t = s.position t := by
  have hi := seated_of_reach hr
  cases l with
  | worker i =>
    have ha := (Worker.step_pass h).1
    exact position_congr (congrFun ha.callers t) (fun _ => by rw [ha.client])
      fun _ => by rw [ha.client]
  | call u op =>
    have hu : t ≠ u := fun hu => hl (congrArg some hu.symm)
    obtain ⟨c, rfl, -, -, -⟩ := Client.call_placed h
    exact position_congr (move_others c t hu) (fun _ => rfl) fun _ => rfl
  | caller u i =>
    have hu : t ≠ u := fun hu => hl (congrArg some hu.symm)
    obtain ⟨ha, hp⟩ := placed_of_step hr h
    refine position_congr (ha.others t hu) (fun hc => ?_) fun hc => ?_
    · obtain ⟨pc, hadm⟩ := hi.admitting t hc
      exact hp.locks.admission_kept hu hadm
    · obtain ⟨st, pc, hsec⟩ := hi.consenting t hc
      exact hp.locks.section_kept hu hsec

/-- A thread with no step left is inside no call. -/
theorem free_of_budget (hi : Seated s) (h : (s.position t).budget = 0) :
    (s.callers t).free = true := by
  cases hc : s.callers t with
  | idle | done => rfl
  | admitting =>
    obtain ⟨pc, hadm⟩ := hi.admitting t hc
    rw [position_of_admitting hc hadm] at h
    cases pc <;> simp [Position.budget, AdmitPc.budget] at h
  | consenting =>
    obtain ⟨st, pc, hsec⟩ := hi.consenting t hc
    rw [position_of_consenting hc hsec] at h
    cases pc <;> simp [Position.budget, ConsentPc.budget] at h
  | _ =>
    rw [position_of_unlocked (by rw [hc]; rfl), hc] at h
    simp [Position.budget, Caller.budget] at h

/-- **A call is bounded.** From any reachable state, however the other threads and the worker
interleave with it and whatever fails: as long as the thread `t` makes no new call, the steps it
takes are no more than its position has left, hence never more than seventeen; and once it has
taken that many it is inside no call. -/
theorem call_bounded {s₀ : State} {w : List Unit} (hr : (machine env).Reach s₀)
    (h : ((machine env).observed (ownSteps t)).RunIf (fun p l => NoCall t p.1 l) (s₀, []) (s, w)) :
    w.length ≤ (s₀.position t).budget ∧ (s₀.position t).budget ≤ callBudget ∧
      (w.length = (s₀.position t).budget → (s.callers t).free = true) := by
  have key : (machine env).Reach s ∧
      w.length + (s.position t).budget ≤ (s₀.position t).budget := by
    refine Lts.Machine.Reach.observed_runIf_rule
      (P := fun s w => (machine env).Reach s ∧
        w.length + (s.position t).budget ≤ (s₀.position t).budget) hr
      (fun s w l s' hr hi hok hs => ⟨hr.step hs, ?_⟩) h ⟨hr, by simp⟩
    by_cases hl : l.thread = some t
    · cases l with
      | worker i => cases hl
      | call u op =>
        obtain rfl : u = t := Option.some.inj hl
        exact absurd rfl (hok op)
      | caller u i =>
        obtain rfl : u = t := Option.some.inj hl
        have hlower := (placed_of_step hr hs).2.lower
        have hle := hi.2
        simp only [ownSteps, if_true, List.length_append, List.length_singleton]
        omega
    · have hnone : ownSteps t s l = [] := by
        cases l with
        | worker i => rfl
        | call u op => rfl
        | caller u i => exact if_neg fun hu => hl (congrArg some hu)
      rw [hnone, List.append_nil, position_of_others hr hs hl]
      exact hi.2
  obtain ⟨hreach, hle⟩ := key
  exact ⟨by omega, Position.budget_le _,
    fun hw => free_of_budget (seated_of_reach hreach) (by omega)⟩

/-- **The longest call** is a session that replaces another: it takes all of them. -/
theorem call_bounded_replacing : ∃ s₀ s w, (machine roomy).Reach s₀ ∧
    ((machine roomy).observed (ownSteps 1)).RunIf (fun p l => NoCall 1 p.1 l) (s₀, []) (s, w) ∧
    w.length = callBudget ∧ (s₀.position 1).budget = callBudget ∧ (s.callers 1).free = true := by
  have hany : ((machine roomy).exec roomyClient (Label.starts 1 "s" "e" ++
      (Label.replaces 1 "f" "t" "g").take 1)).any (fun s₀ =>
        ((machine roomy).observed (ownSteps 1)).meets (fun _ l => l.isCaller 1) (s₀, [])
          ((Label.replaces 1 "f" "t" "g").drop 1) &&
        (((machine roomy).observed (ownSteps 1)).exec (s₀, [])
          ((Label.replaces 1 "f" "t" "g").drop 1)).any fun p =>
            decide (p.2.length = callBudget)) = true := by
    decide +kernel
  obtain ⟨s₀, hex, hp⟩ := Lts.Machine.exec_of_any hany
  simp only [Bool.and_eq_true] at hp
  obtain ⟨hmeets, hpass⟩ := hp
  obtain ⟨⟨s, w⟩, hrun, hend⟩ := Lts.Machine.exec_of_any hpass
  have hlen : w.length = callBudget := of_decide_eq_true hend
  have hr : (machine roomy).Reach s₀ := ⟨_, roomyClient_start, Lts.Machine.run_of_exec hex⟩
  have hif : ((machine roomy).observed (ownSteps 1)).RunIf (fun p l => NoCall 1 p.1 l) (s₀, [])
      (s, w) := by
    refine Lts.Machine.runIf_of_meets (fun l _ p hl op heq => ?_) hrun hmeets
    obtain ⟨i, hl⟩ := Label.isCaller_iff.mp hl
    rw [heq] at hl
    cases hl
  obtain ⟨hle, hmax, hfree⟩ := call_bounded hr hif
  have hall : (s₀.position 1).budget = callBudget := by omega
  exact ⟨s₀, s, w, hr, hif, hlen, hall, hfree (hlen.trans hall.symm)⟩

end PlayerTrace
