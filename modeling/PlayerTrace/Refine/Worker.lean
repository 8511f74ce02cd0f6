import PlayerTrace.Custody.Machine
import PlayerTrace.System

/-!
# The worker moves custody

The custody of a client (`PlayerTrace.custody`) forgets what no event depends on; a
statement of the worker then is one of the moves of `PlayerTrace.Custody.Step`, or leaves
custody alone. The lemmas follow the functions of `src/worker.cpp`.
-/

namespace PlayerTrace

/-! ### Reading custody off a client -/

/-- The stage a program point stands for. -/
def stageOf : WorkerPc → Stage
  | .takeRetry l => .drained l
  | .readGeneration l | .noteInsert _ l | .holdForRetry l => .holding none [] l
  | .checkConsent v l => .holding (some v) [] l
  | .serialize v k l | .countStale v k l | .countInvalid v k l => .holding (some v) k l
  | .boundaryConsent v k => .holding (some v) k []
  | .boundaryGeneration v k => .guarded v k
  | .insert v k => .committing v k
  | .fetch _ seen => .looking seen
  | .countQuarantined _ seen pending | .noteFetch _ seen pending => .offered seen pending.events
  | .deliverGeneration _ seen b => .fetched seen none b
  | .recheckConsent _ seen v b => .fetched seen (some v) b
  | .write _ v b | .postConsent _ v b | .postGeneration _ v b => .sending v b
  | .acknowledge _ b => .acknowledging b
  | .countRevoked _ | .purge _ => .purging
  | .resetOutstanding _ n => .resetting n
  | _ => .idle

/-- What is decided and not counted at a program point. -/
def dueOf : WorkerPc → Due
  | .countRevoked n | .countBoundary n => .discarded n
  | .countStale .. => .discarded 1
  | .countInvalid .. => .dropped 1
  | .countQuarantined _ _ pending => .dropped pending.quarantined
  | .countDelivered n => .delivered n
  | _ => .none

/-- What the holder of the admission lock is doing to an event. -/
def entryOf : Admission → Entry
  | .producer _ (.capacity ..) => .gated
  | .producer _ (.room ..) => .checked
  | .producer _ (.reserve _ e) => .built e
  | .producer _ (.push _ e) => .reserved e
  | .producer _ (.undo ..) => .undoing
  | .producer _ (.count _) => .counting
  | .consent => .locked
  | _ => .out

/-- The consent change in progress. -/
def revocationOf : ConsentSection → Option (ConsentState × ConsentPc)
  | .free => none
  | .held _ state pc => some (state, pc)

/-- The statistics custody accounts for. -/
def countsOf (st : Stats) : Counts :=
  ⟨st.accepted, st.delivered, st.discardedConsent, st.droppedInvalid⟩

/-- The custody of a client. -/
def custody (s : State) : Custody where
  queue := s.pipeline.queue
  retry := s.core.retry
  stage := stageOf s.frame.pc
  due := dueOf s.frame.pc
  entry := entryOf s.client.admission
  store := s.pipeline.store
  consent := s.pipeline.consent
  generation := s.pipeline.consentGeneration
  ordinal := s.client.ordinal
  purgeRequired := s.client.purgeRequired
  revocation := revocationOf s.client.consentSection
  outstanding := s.pipeline.outstanding
  counts := countsOf s.pipeline.stats
  raised := !s.core.terminalStatus.ok
  history := s.history

/-- The hands of custody are those of the worker. -/
theorem stageOf_hands (pc : WorkerPc) : (stageOf pc).hands = pc.hands := by
  cases pc <;> first | rfl | exact Stage.offered_hands _ _ | exact List.append_nil _

theorem stageOf_locked (pc : WorkerPc) : (stageOf pc).locked = pc.holdsStore := by
  cases pc <;> first | rfl | exact Stage.offered_locked _ _

/-- **A client moves custody**: one move, or none. -/
def Moves (env : Env) (s s' : State) : Prop :=
  custody s' = custody s ∨ Custody.Step env (custody s) (custody s')

variable {env : Env} {i : Input} {s s' : State}

/-- Custody once the worker has nothing in hand and nothing to count. -/
def Custody.atRest (c : Custody) : Custody := { c with stage := .idle, due := .none }

namespace Worker

@[simp] theorem custody_remainsDone (r : Remains) (why : Option Status) :
    custody (remainsDone s r why) = (custody s).atRest := by
  cases r <;> cases why <;> rfl

@[simp] theorem custody_enterRemains (r : Remains) :
    custody (enterRemains s r) = (custody s).atRest := by
  unfold enterRemains
  split
  · exact custody_remainsDone r none
  · rfl

@[simp] theorem custody_afterDelivery (d : Bool) :
    custody (afterDelivery s d) = (custody s).atRest := by
  unfold afterDelivery
  split
  · cases s.frame.flushPending <;> rfl
  · split
    · rfl
    · exact custody_enterRemains .loop

@[simp] theorem custody_afterIncoming : custody (afterIncoming s) = (custody s).atRest := rfl

@[simp] theorem custody_afterPurge (site : PurgeSite) :
    custody (afterPurge s site) = (custody s).atRest := by
  cases site with
  | incoming => rfl
  | delivery d => exact custody_afterDelivery d

/-! ### `process_incoming` -/

theorem takeRetry_moves {l : List QueuedEvent}
    (h : takeRetry (s.goto (.takeRetry l)) l = some s') :
    Moves env (s.goto (.takeRetry l)) s' := by
  unfold takeRetry at h
  split at h
  · obtain rfl := Option.some.inj h
    split
    · rename_i hl
      exact Or.inr (.takeNothing rfl (List.isEmpty_iff.mp hl))
    · exact Or.inr (.takeRetry rfl)
  · cases h

theorem checkConsent_moves {v : Nat} {l : List QueuedEvent} :
    Moves env (s.goto (.checkConsent v l)) (checkConsent (s.goto (.checkConsent v l)) v l) := by
  unfold checkConsent
  split
  · rename_i hc
    exact Or.inr (.refuse rfl rfl hc)
  · exact Or.inl rfl

theorem serialize_moves {v : Nat} {k : List Kept} {l : List QueuedEvent} :
    Moves env (s.goto (.serialize v k l)) (serialize env (s.goto (.serialize v k l)) v k l) := by
  cases l with
  | nil =>
    cases k with
    | nil => exact Or.inr (.keptNothing rfl)
    | cons _ _ => exact Or.inl rfl
  | cons e l =>
    simp only [serialize]
    split
    · rename_i hg
      exact Or.inr (.stale rfl rfl hg)
    · rename_i hg
      split
      · exact Or.inr (.drop rfl rfl)
      · exact Or.inr (.keep _ rfl (not_not.mp hg))

theorem boundaryConsent_moves {v : Nat} {k : List Kept} :
    Moves env (s.goto (.boundaryConsent v k))
      (boundaryConsent (s.goto (.boundaryConsent v k)) v k) := by
  unfold boundaryConsent
  split
  · rename_i hc
    exact Or.inr (.refuseKept rfl (Or.inl ⟨rfl, hc⟩))
  · rename_i hc
    exact Or.inr (.guard rfl (not_not.mp hc))

theorem boundaryGeneration_moves {v : Nat} {k : List Kept} :
    Moves env (s.goto (.boundaryGeneration v k))
      (boundaryGeneration (s.goto (.boundaryGeneration v k)) v k) := by
  unfold boundaryGeneration
  split
  · rename_i hg
    exact Or.inr (.refuseKept rfl (Or.inr ⟨rfl, hg⟩))
  · rename_i hg
    exact Or.inr (.pass rfl (not_not.mp hg))

theorem insert_moves {v : Nat} {k : List Kept} :
    Moves env (s.goto (.insert v k)) (insert i (s.goto (.insert v k)) k) := by
  obtain ⟨st, db, hins⟩ : ∃ st db, PlayerTrace.insert i.faults (k.map Kept.record)
      (s.goto (.insert v k)).pipeline.store = (st, db) := ⟨_, _, rfl⟩
  simp only [insert, hins]
  rcases insert_cases hins with ⟨hok, hev, hm, hsaved⟩ | ⟨hok, rfl⟩
  · rw [if_pos hok]
    exact Or.inr (.commit rfl hev hm hsaved)
  · rw [if_neg (by simp [hok])]
    exact Or.inr (.insertFailed rfl)

theorem holdForRetry_moves {l : List QueuedEvent}
    (h : holdForRetry (s.goto (.holdForRetry l)) l = some s') :
    Moves env (s.goto (.holdForRetry l)) s' := by
  have key : Custody.Step env (custody (s.goto (.holdForRetry l)))
      (custody (afterIncoming (setRetry (s.goto (.holdForRetry l)) (l ++ s.core.retry)))) :=
    .hold rfl
  unfold holdForRetry at h
  split at h
  · rename_i hl
    obtain rfl := List.isEmpty_iff.mp hl
    obtain rfl := Option.some.inj h
    exact Or.inr key
  · split at h
    · obtain rfl := Option.some.inj h
      refine Or.inr ?_
      split
      · rename_i hr
        rw [show s.core.retry = [] from List.isEmpty_iff.mp hr, List.append_nil] at key
        exact key
      · exact key
    · cases h

/-! ### `deliver_all` -/

theorem deliverConsent_moves {d : Bool} :
    Moves env (s.goto (.deliverConsent d)) (deliverConsent (s.goto (.deliverConsent d)) d) := by
  unfold deliverConsent
  split
  · rename_i hc
    exact Or.inr (.refuseDelivery rfl hc)
  · rename_i hc
    exact Or.inr (.look rfl (not_not.mp hc))

theorem custody_afterFetch (d : Bool) (seen : Nat) (events : List SerializedEvent) :
    custody (afterFetch s d seen events) =
      { custody s with stage := .offered seen events, due := .none } := by
  unfold afterFetch
  cases events with
  | nil => exact custody_afterDelivery d
  | cons b events => rfl

theorem custody_reportFetch (d : Bool) (seen : Nat) (pending : FetchResult) :
    custody (reportFetch s d seen pending) =
      { custody s with stage := .offered seen pending.events, due := .none } := by
  unfold reportFetch
  split
  · rfl
  · exact custody_afterFetch d seen pending.events

theorem fetch_moves {d : Bool} {seen : Nat} :
    Moves env (s.goto (.fetch d seen)) (fetch env i (s.goto (.fetch d seen)) d seen) := by
  obtain ⟨res, db, hres⟩ : ∃ res db, fetchPending i.faults env.isValidJson env.config.batchSize
      (s.goto (.fetch d seen)).pipeline.store = (res, db) := ⟨_, _, rfl⟩
  obtain ⟨read, hpre, hev, hdb⟩ := fetchPending_cases hres
  have hwindow : read <+: (s.goto (.fetch d seen)).pipeline.store.view.events.ordered :=
    hpre.trans <| List.take_prefix _ _
  have key : Custody.Step env (custody (s.goto (.fetch d seen))) _ :=
    .fetch rfl rfl hwindow
      (hdb.imp (fun h => ⟨h.1, h.2.1⟩) fun h => ⟨h.1, h.2.1, h.2.2.2.1⟩)
      (hdb.elim (fun h => congrArg Txn.Conn.saved h.1) fun h => h.2.2.1)
  rw [← hev] at key
  refine Or.inr ?_
  simp only [fetch, hres]
  by_cases hq : res.quarantined = 0
  · rw [if_neg (by omega), custody_reportFetch]
    rw [if_pos hq] at key
    exact key
  · rw [if_pos (by omega)]
    rw [if_neg hq] at key
    exact key

theorem countQuarantined_moves {d : Bool} {seen : Nat} {pending : FetchResult} :
    Moves env (s.goto (.countQuarantined d seen pending))
      (countQuarantined (s.goto (.countQuarantined d seen pending)) d seen pending) := by
  refine Or.inr ?_
  unfold countQuarantined
  rw [custody_reportFetch]
  exact .count (by simp [custody, State.goto, dueOf])

theorem noteFetch_moves {d : Bool} {seen : Nat} {pending : FetchResult} :
    Moves env (s.goto (.noteFetch d seen pending))
      (noteFetch (s.goto (.noteFetch d seen pending)) d seen pending) := by
  refine Or.inl ?_
  unfold noteFetch
  rw [custody_afterFetch]
  rfl

theorem recheckConsent_moves {d : Bool} {seen v : Nat} {b : List SerializedEvent} :
    Moves env (s.goto (.recheckConsent d seen v b))
      (recheckConsent (s.goto (.recheckConsent d seen v b)) d v b) := by
  unfold recheckConsent
  split
  · rename_i hc
    exact Or.inr (.refuseDelivery rfl hc)
  · rename_i hc
    exact Or.inr (.send rfl (not_not.mp hc))

theorem write_moves {d : Bool} {v : Nat} {b : List SerializedEvent} :
    Moves env (s.goto (.write d v b)) (write i (s.goto (.write d v b)) d v b) := by
  unfold write
  dsimp only
  split
  · exact Or.inr (.notSent rfl)
  · exact Or.inl rfl

theorem postConsent_moves {d : Bool} {v : Nat} {b : List SerializedEvent} :
    Moves env (s.goto (.postConsent d v b)) (postConsent (s.goto (.postConsent d v b)) d v b) := by
  unfold postConsent
  split
  · rename_i hc
    exact Or.inr (.refuseDelivery rfl hc)
  · exact Or.inl rfl

theorem postGeneration_moves {d : Bool} {v : Nat} {b : List SerializedEvent} :
    Moves env (s.goto (.postGeneration d v b))
      (postGeneration (s.goto (.postGeneration d v b)) d v b) := by
  unfold postGeneration
  split
  · rename_i hg
    exact Or.inr (.outdated rfl hg)
  · exact Or.inr (.sent rfl)

theorem acknowledge_moves {d : Bool} {b : List SerializedEvent} :
    Moves env (s.goto (.acknowledge d b)) (acknowledge i (s.goto (.acknowledge d b)) d b) := by
  refine Or.inr ?_
  obtain ⟨st, n, db, hack⟩ : ∃ st n db, PlayerTrace.acknowledge i.faults
      (b.map SerializedEvent.eventId) (s.goto (.acknowledge d b)).pipeline.store = (st, n, db) :=
    ⟨_, _, _, rfl⟩
  simp only [acknowledge, hack]
  rcases acknowledge_cases hack with ⟨hok, rfl⟩ | ⟨hev, hm, hsaved, hn, hiff⟩
  · rw [if_pos hok]
    simp only [Database.gone_self, List.append_nil]
    exact .notAcknowledged rfl
  · have key : Custody.Step env (custody (s.goto (.acknowledge d b))) _ :=
      .acknowledge rfl rfl hev hm hn hsaved
    rw [List.length_map] at hiff
    split
    · rename_i hfail
      rw [if_neg (fun hl => by simp [hiff.mpr hl] at hfail)] at key
      exact key
    · rename_i hok
      have hl : n = b.length := hiff.mp (by simpa using hok)
      rw [if_pos hl] at key
      subst hl
      exact key

theorem purge_moves {site : PurgeSite} :
    Moves env (s.goto (.purge site)) (purge i (s.goto (.purge site)) site) := by
  refine Or.inr ?_
  obtain ⟨st, n, db, hp⟩ : ∃ st n db, purgeAndClearRevocation i.faults
      (s.goto (.purge site)).pipeline.store = (st, n, db) := ⟨_, _, _, rfl⟩
  simp only [purge, hp]
  rcases purgeAndClearRevocation_cases hp with ⟨hok, hv, hsaved, -⟩ | ⟨hok, rfl, -⟩
  · rw [if_neg (by simp [hok])]
    -- the table is empty, so whatever the count answers, nothing remains
    have hzero : (PlayerTrace.count i.faults db).toOption.getD 0 = 0 := by
      rcases hcnt : PlayerTrace.count i.faults db with e | m
      · rfl
      · rw [count_eq_ok hcnt, Database.rows, hv]
        rfl
    rw [hzero]
    exact .purge rfl rfl hv hsaved
  · rw [if_pos hok]
    simp only [Database.gone_self, List.append_nil]
    exact .notPurged rfl rfl

theorem resetOutstanding_moves {site : PurgeSite} {n : Nat} :
    Moves env (s.goto (.resetOutstanding site n))
      (resetOutstanding (s.goto (.resetOutstanding site n)) site n) := by
  refine Or.inr ?_
  unfold resetOutstanding
  rw [custody_afterPurge]
  exact .reset rfl

/-! ### `run` -/

theorem remainsRetry_moves {r : Remains}
    (h : remainsRetry (s.goto (.remainsRetry r)) r = some s') :
    Moves env (s.goto (.remainsRetry r)) s' := by
  unfold remainsRetry at h
  split at h
  · obtain rfl := Option.some.inj h
    refine Or.inl ?_
    split
    · exact custody_remainsDone r _
    · rfl
  · cases h

theorem remainsStore_moves {r : Remains} :
    Moves env (s.goto (.remainsStore r)) (remainsStore i (s.goto (.remainsStore r)) r) := by
  refine Or.inl ?_
  unfold remainsStore
  split
  · exact custody_remainsDone r _
  · split
    · exact custody_remainsDone r _
    · exact custody_remainsDone r _

theorem unexpected_moves {what : Option String} : Moves env s (unexpected s what) := by
  have key : Custody.Step env (custody s) _ := .raise
  rw [show (custody s).stage.hands = s.hands from stageOf_hands s.frame.pc] at key
  cases what <;> exact Or.inr key

theorem latch_moves : Moves env (s.goto .latch) (latch (s.goto .latch)) := by
  refine Or.inl ?_
  unfold latch
  dsimp only
  by_cases h : (s.goto .latch).core.flushSeq > (s.goto .latch).frame.handledFlush
  · simp only [h, decide_true, if_true]
    rfl
  · simp only [h, decide_false, Bool.false_eq_true, if_false]
    rfl

theorem flushSink_moves : Moves env (s.goto .flushSink) (flushSink i (s.goto .flushSink)) := by
  refine Or.inl ?_
  unfold flushSink
  dsimp only
  split <;> rfl

theorem checkStop_moves : Moves env (s.goto .checkStop) (checkStop (s.goto .checkStop)) := by
  refine Or.inl ?_
  unfold checkStop
  split <;> rfl

theorem stopped_moves : Moves env (s.goto .stopped) (stopped (s.goto .stopped)) := by
  refine Or.inl ?_
  unfold stopped
  split <;> rfl

theorem remainsQueue_moves {r : Remains} :
    Moves env (s.goto (.remainsQueue r)) (remainsQueue (s.goto (.remainsQueue r)) r) := by
  refine Or.inl ?_
  unfold remainsQueue
  split
  · exact custody_remainsDone r _
  · rfl

theorem stallCheck_moves {q : Nat} :
    Moves env (s.goto (.stallCheck q)) (stallCheck (s.goto (.stallCheck q)) q) := by
  refine Or.inl ?_
  unfold stallCheck
  split
  · rfl
  · exact custody_enterRemains .loop

/-- **Every statement of the worker moves custody.** -/
theorem execute_moves (h : execute env i s = some s') : Moves env s s' := by
  obtain ⟨pc, hs⟩ : ∃ pc, s.goto pc = s := ⟨s.frame.pc, rfl⟩
  rw [← hs] at h ⊢
  cases pc with
  | start => obtain rfl := Option.some.inj h; exact Or.inl rfl
  | latch => obtain rfl := Option.some.inj h; exact latch_moves
  | clearError => obtain rfl := Option.some.inj h; exact Or.inl rfl
  | pop => obtain rfl := Option.some.inj h; exact Or.inr (.drain env.config.batchSize rfl)
  | takeRetry l => exact takeRetry_moves h
  | readGeneration l => obtain rfl := Option.some.inj h; exact Or.inr (.read rfl)
  | checkConsent v l => obtain rfl := Option.some.inj h; exact checkConsent_moves
  | countRevoked n => obtain rfl := Option.some.inj h; exact Or.inr (.count nofun)
  | serialize v k l => obtain rfl := Option.some.inj h; exact serialize_moves
  | countStale v k l => obtain rfl := Option.some.inj h; exact Or.inr (.count nofun)
  | countInvalid v k l => obtain rfl := Option.some.inj h; exact Or.inr (.count nofun)
  | boundaryConsent v k => obtain rfl := Option.some.inj h; exact boundaryConsent_moves
  | boundaryGeneration v k => obtain rfl := Option.some.inj h; exact boundaryGeneration_moves
  | insert v k => obtain rfl := Option.some.inj h; exact insert_moves
  | countBoundary n => obtain rfl := Option.some.inj h; exact Or.inr (.count nofun)
  | noteInsert st l => obtain rfl := Option.some.inj h; exact Or.inl rfl
  | holdForRetry l => exact holdForRetry_moves h
  | countPersisted n => obtain rfl := Option.some.inj h; exact Or.inl rfl
  | deliverConsent d => obtain rfl := Option.some.inj h; exact deliverConsent_moves
  | fetch d seen => obtain rfl := Option.some.inj h; exact fetch_moves
  | countQuarantined d seen p => obtain rfl := Option.some.inj h; exact countQuarantined_moves
  | noteFetch d seen p => obtain rfl := Option.some.inj h; exact noteFetch_moves
  | deliverGeneration d seen b => obtain rfl := Option.some.inj h; exact Or.inr (.readAgain rfl)
  | recheckConsent d seen v b => obtain rfl := Option.some.inj h; exact recheckConsent_moves
  | write d v b => obtain rfl := Option.some.inj h; exact write_moves
  | noteWrite d st => obtain rfl := Option.some.inj h; exact Or.inl (custody_afterDelivery d)
  | postConsent d v b => obtain rfl := Option.some.inj h; exact postConsent_moves
  | postGeneration d v b => obtain rfl := Option.some.inj h; exact postGeneration_moves
  | acknowledge d b => obtain rfl := Option.some.inj h; exact acknowledge_moves
  | noteAck d st => obtain rfl := Option.some.inj h; exact Or.inl (custody_afterDelivery d)
  | countDelivered n => obtain rfl := Option.some.inj h; exact Or.inr (.count nofun)
  | purge site => obtain rfl := Option.some.inj h; exact purge_moves
  | notePurge site st => obtain rfl := Option.some.inj h; exact Or.inl (custody_afterPurge site)
  | resetOutstanding site n => obtain rfl := Option.some.inj h; exact resetOutstanding_moves
  | readBarrier => obtain rfl := Option.some.inj h; exact Or.inl (custody_enterRemains .loop)
  | remainsQueue r => obtain rfl := Option.some.inj h; exact remainsQueue_moves
  | remainsRetry r => exact remainsRetry_moves h
  | remainsStore r => obtain rfl := Option.some.inj h; exact remainsStore_moves
  | queueBefore => obtain rfl := Option.some.inj h; exact Or.inl rfl
  | popMore q => obtain rfl := Option.some.inj h; exact Or.inr (.drain env.config.batchSize rfl)
  | stallCheck q => obtain rfl := Option.some.inj h; exact stallCheck_moves
  | flushSink => obtain rfl := Option.some.inj h; exact flushSink_moves
  | noteFlushSink st => obtain rfl := Option.some.inj h; exact Or.inl rfl
  | takeOutcome => obtain rfl := Option.some.inj h; exact Or.inl (custody_enterRemains _)
  | record st => obtain rfl := Option.some.inj h; exact Or.inl rfl
  | checkStop => obtain rfl := Option.some.inj h; exact checkStop_moves
  | stopped => obtain rfl := Option.some.inj h; exact stopped_moves
  | terminate => obtain rfl := Option.some.inj h; exact Or.inl rfl
  | reportTerminal => obtain rfl := Option.some.inj h; exact Or.inl rfl
  | finish => obtain rfl := Option.some.inj h; exact Or.inl rfl
  | exited => cases h

theorem step_moves (h : step env i s = some s') : Moves env s s' := by
  unfold step at h
  split at h
  · cases h
  split at h
  · split at h
    · obtain rfl := Option.some.inj h
      exact unexpected_moves
    · cases h
  · exact execute_moves h

end Worker

end PlayerTrace
