import PlayerTrace.FaultFree

/-!
# The end of a flush pass

A pass works in rounds as long as anything up to its barrier is left, and every container can
hold its events back: a batch that cannot be inserted goes back to the retry buffer, one that
the sink refuses stays in the store, and the count of the store may fail. So no size goes down
from round to round. What does is the *weight* of the events (`PlayerTrace.State.weight`): three
for an event in the queue, two in the retry buffer or in the worker's hands, one in the store.
A round that goes on has popped something, acknowledged something, or found the queue shorter
than it was, and each of these lowers the weight; otherwise the stall test ends the loop.

That a round *has* made progress is known before it ends, so the rounds that are left are
counted as the weight and one more once progress is made (`PlayerTrace.State.rounds`). Inside
a round the statements up to its end are counted (`PlayerTrace.State.steps`): a turn of the
serialization loop takes an event of the batch, and a turn of `deliver_all` that goes on has
acknowledged a batch, so that the store is smaller.

Nothing is assumed about the state a pass begins in, nor about the environment: every store
operation, every count and the sink may fail or succeed whenever they are called, rows may be
quarantined, and other threads may clear the queue, the retry buffer and the store at any
time. They only must not admit events.
-/

namespace PlayerTrace

/-! ### The measures -/

/-- What a pass works on, in numbers. -/
structure Sizes where
  queue : Nat
  retry : Nat
  rows : Nat

def State.sizes (s : State) : Sizes :=
  ⟨s.pipeline.queue.length, s.core.retry.length, s.pipeline.store.rows.length⟩

/-- The events of a pass, with `n` of them in the worker's hands. -/
def Sizes.load (x : Sizes) (n : Nat) : Nat := x.queue + x.retry + n + x.rows

/-- Their weight. -/
def Sizes.weight (x : Sizes) (n : Nat) : Nat := 3 * x.queue + 2 * (x.retry + n) + x.rows

def State.load (s : State) : Nat := s.sizes.load s.hands.length

def State.weight (s : State) : Nat := s.sizes.weight s.hands.length

/-- Whether the iteration has made progress, `delivered` being what `deliver_all` has to say
about it. The iteration of the main loop is followed by the first round in any case. -/
def Site.progress (queue : Nat) (delivered : Bool) : Site → Bool
  | .main => true
  | .drain queueBefore moved => moved || delivered || decide (queue < queueBefore)

/-- The rounds that are left where `work_remains_at_or_below` is asked. -/
def Remains.rounds (weight : Nat) : Remains → Nat
  | .loop => weight + 1
  | .residual _ => 0

/-- What `deliver_all` has delivered so far. -/
def PurgeSite.delivered : PurgeSite → Bool
  | .incoming => false
  | .delivery deliveredAny => deliveredAny

/-- The rounds that are left. An empty batch, which no fetch hands on, is taken for
delivered: its acknowledgement would be progress without any. -/
def WorkerPc.rounds (weight queue : Nat) (site : Site) : WorkerPc → Nat
  | .clearError | .pop | .readBarrier | .queueBefore | .countDelivered _ => weight + 1
  | .remainsQueue r | .remainsRetry r | .remainsStore r => r.rounds weight
  | .popMore q | .stallCheck q => weight + (decide (queue < q)).toNat
  | .takeRetry _ | .readGeneration _ | .checkConsent .. | .countRevoked _ | .serialize ..
  | .countStale .. | .countInvalid .. | .boundaryConsent .. | .boundaryGeneration .. | .insert ..
  | .countBoundary _ | .noteInsert .. | .holdForRetry _ | .countPersisted _ =>
    weight + (site.progress queue false).toNat
  | .deliverConsent d | .fetch d _ | .noteWrite d _ | .noteAck d _ | .countQuarantined d _ _
  | .noteFetch d _ _ => weight + (site.progress queue d).toNat
  | .deliverGeneration d _ batch | .recheckConsent d _ _ batch | .write d _ batch
  | .postConsent d _ batch | .postGeneration d _ batch | .acknowledge d batch =>
    weight + (site.progress queue (d || batch.isEmpty)).toNat
  | .purge p | .notePurge p _ | .resetOutstanding p _ =>
    weight + (site.progress queue p.delivered).toNat
  | _ => 0

/-- The steps after the last test of `work_remains_at_or_below`. -/
def Remains.steps : Remains → Nat
  | .residual _ => 1
  | .loop => 8

/-- The steps after a purge, and one. -/
def PurgeSite.steps (x : Sizes) : PurgeSite → Nat
  | .incoming => 11 * x.rows + 17
  | .delivery _ => 13

/-- The steps after a fetch: the end of `deliver_all`, or a turn with a batch that leaves the
store once it is acknowledged. -/
def Sizes.offered (x : Sizes) (events : List SerializedEvent) : Nat :=
  if events.isEmpty then 12 else 11 * (x.rows - events.length) + 23

/-- The steps up to the end of the round. At the head of the loop the positions after it are
counted too; a round of its own is paid for by `PlayerTrace.WorkerPc.rounds`. -/
def WorkerPc.steps (x : Sizes) : WorkerPc → Nat
  -- after the loop
  | .record _ => 1
  | .takeOutcome => 5
  | .noteFlushSink _ => 6
  | .flushSink => 7
  -- the head of the loop
  | .queueBefore => 8
  | .remainsStore r => r.steps + 1
  | .remainsRetry r => r.steps + 2
  | .remainsQueue r => r.steps + 3
  | .stallCheck _ | .readBarrier => 12
  -- `deliver_all`
  | .noteWrite .. | .noteAck .. => 13
  | .notePurge p _ | .resetOutstanding p _ => p.steps x
  | .purge p => p.steps x + 1
  | .fetch .. => 11 * x.rows + 15
  | .deliverConsent _ => 11 * x.rows + 16
  | .countDelivered _ => 11 * x.rows + 17
  | .acknowledge _ batch => 11 * (x.rows - batch.length) + 18
  | .postGeneration _ _ batch => 11 * (x.rows - batch.length) + 19
  | .postConsent _ _ batch => 11 * (x.rows - batch.length) + 20
  | .write _ _ batch => 11 * (x.rows - batch.length) + 21
  | .recheckConsent _ _ _ batch => 11 * (x.rows - batch.length) + 22
  | .deliverGeneration _ _ batch => 11 * (x.rows - batch.length) + 23
  | .noteFetch _ _ pending => x.offered pending.events + 1
  | .countQuarantined _ _ pending => x.offered pending.events + 2
  -- `process_incoming`: what is kept may come to the store
  | .countBoundary _ | .countPersisted _ | .holdForRetry _ => 11 * x.rows + 17
  | .noteInsert .. => 11 * x.rows + 18
  | .countRevoked _ => 11 * x.rows + 19
  | .insert _ keep => 11 * (x.rows + keep.length) + 19
  | .boundaryGeneration _ keep => 11 * (x.rows + keep.length) + 20
  | .boundaryConsent _ keep => 11 * (x.rows + keep.length) + 21
  | .serialize _ keep batch => 11 * (x.rows + keep.length) + 13 * batch.length + 22
  | .countStale _ keep batch | .countInvalid _ keep batch =>
    11 * (x.rows + keep.length) + 13 * batch.length + 23
  | .checkConsent _ batch => 11 * x.rows + 13 * batch.length + 23
  | .readGeneration batch => 11 * x.rows + 13 * batch.length + 24
  | .takeRetry drained => 11 * x.rows + 13 * (x.retry + drained.length) + 25
  | .pop | .popMore _ => 11 * x.rows + 13 * (x.retry + x.queue) + 26
  | .clearError => 11 * x.rows + 13 * (x.retry + x.queue) + 27
  | .start | .latch | .checkStop | .stopped | .terminate | .reportTerminal | .finish
  | .exited => 0

/-- The statement that opens a round of the drain loop. -/
def WorkerPc.opensRound : WorkerPc → Bool
  | .queueBefore => true
  | _ => false

def State.rounds (s : State) : Nat :=
  s.frame.pc.rounds s.weight s.pipeline.queue.length s.frame.site

def State.steps (s : State) : Nat := s.frame.pc.steps s.sizes

/-- What a round costs at most. -/
def State.span (s : State) : Nat := 13 * s.load + 27

/-- **The statements that are left** to a pass. -/
def State.potential (s : State) : Nat := s.rounds * s.span + s.steps

theorem State.rounds_le (s : State) : s.rounds ≤ s.weight + 1 := by
  have hb : ∀ b : Bool, s.weight + b.toNat ≤ s.weight + 1 :=
    fun b => Nat.add_le_add_left b.toNat_le _
  unfold rounds
  cases s.frame.pc with
  | remainsQueue r | remainsRetry r | remainsStore r =>
    cases r with
    | loop => exact Nat.le_refl _
    | residual => exact Nat.zero_le _
  | _ => first | exact hb _ | exact Nat.le_refl _ | exact Nat.zero_le _

theorem Sizes.offered_le (x : Sizes) (events : List SerializedEvent) :
    x.offered events ≤ 11 * x.rows + 23 := by
  unfold offered
  split <;> omega

theorem State.steps_le (s : State) : s.steps ≤ s.span := by
  have hrows : s.sizes.rows = s.pipeline.store.rows.length := rfl
  unfold steps span State.load Sizes.load State.hands
  cases s.frame.pc with
  | remainsQueue r | remainsRetry r | remainsStore r =>
    cases r <;> simp only [WorkerPc.steps, Remains.steps] <;> omega
  | purge p | notePurge p _ | resetOutstanding p _ =>
    cases p <;> simp only [WorkerPc.steps, PurgeSite.steps] <;> omega
  | noteFetch _ _ pending | countQuarantined _ _ pending =>
    have := s.sizes.offered_le pending.events
    simp only [WorkerPc.steps]
    omega
  | _ =>
    simp only [WorkerPc.steps, WorkerPc.hands, List.length_append, List.length_map]
    omega

/-! ### A statement of the worker -/

/-- A statement inside a round: it costs one of the steps that are left. -/
structure Lowers (s s' : State) : Prop where
  rounds : s'.rounds ≤ s.rounds
  load : s'.load ≤ s.load
  steps : s'.steps < s.steps

variable {env : Env} {i : Input} {s s' x : State}

theorem State.rounds_pos (h : s.frame.pc.opensRound = true) : 0 < s.rounds := by
  unfold rounds
  generalize s.frame.pc = pc at h
  cases pc with
  | queueBefore => exact Nat.succ_pos _
  | _ => cases h

theorem State.steps_pos (h : s.frame.pc.passing = true) : 0 < s.steps := by
  unfold steps
  generalize s.frame.pc = pc at h
  cases pc with
  | purge p | notePurge p _ | resetOutstanding p _ =>
    cases p <;> simp [WorkerPc.steps, PurgeSite.steps]
  | start | latch | record | checkStop | stopped | terminate | reportTerminal | finish | exited =>
    cases h
  | _ => simp [WorkerPc.steps]

namespace Lowers

variable {pc pc' : WorkerPc} {d : Bool}

theorem goto (hrounds : pc.rounds (x.sizes.weight pc.hands.length) x.sizes.queue x.frame.site ≤
      s.rounds)
    (hload : x.sizes.load pc.hands.length ≤ s.load) (hsteps : pc.steps x.sizes < s.steps) :
    Lowers s (x.goto pc) := ⟨hrounds, hload, hsteps⟩

/-- A statement that leaves the queue alone, and `r` events in the retry buffer and `n` in the
store. -/
theorem shift (r n : Nat) (hx : x.sizes = ⟨s.sizes.queue, r, n⟩)
    (hsite : x.frame.site = s.frame.site)
    (hweight : 2 * (r + pc'.hands.length) + n ≤
      2 * (s.sizes.retry + pc.hands.length) + s.sizes.rows)
    (hload : r + pc'.hands.length + n ≤ s.sizes.retry + pc.hands.length + s.sizes.rows)
    (hrounds : ∀ w w', w' ≤ w → pc'.rounds w' s.sizes.queue s.frame.site ≤
      pc.rounds w s.sizes.queue s.frame.site)
    (hsteps : pc'.steps ⟨s.sizes.queue, r, n⟩ < pc.steps s.sizes) :
    Lowers (s.goto pc) (x.goto pc') := by
  refine .goto ?_ ?_ (by rwa [hx])
  · rw [hx, hsite]
    refine hrounds _ _ ?_
    change 3 * s.sizes.queue + 2 * (r + pc'.hands.length) + n ≤
      3 * s.sizes.queue + 2 * (s.sizes.retry + pc.hands.length) + s.sizes.rows
    omega
  · rw [hx]
    change s.sizes.queue + r + pc'.hands.length + n ≤
      s.sizes.queue + s.sizes.retry + pc.hands.length + s.sizes.rows
    omega

/-- A statement that moves no event. -/
theorem on (hx : x.sizes = s.sizes) (hsite : x.frame.site = s.frame.site)
    (hhands : pc'.hands.length ≤ pc.hands.length)
    (hrounds : ∀ w w', w' ≤ w → pc'.rounds w' s.sizes.queue s.frame.site ≤
      pc.rounds w s.sizes.queue s.frame.site)
    (hsteps : pc'.steps s.sizes < pc.steps s.sizes) : Lowers (s.goto pc) (x.goto pc') :=
  .shift s.sizes.retry s.sizes.rows hx hsite (by omega) (by omega) hrounds hsteps

/-- The head of the loop. -/
theorem enterLoop (hrounds : x.sizes.weight 0 + 1 ≤ s.rounds) (hload : x.sizes.load 0 ≤ s.load)
    (hsteps : 11 < s.steps) : Lowers s (Worker.enterRemains x .loop) := by
  unfold Worker.enterRemains
  split
  · refine .goto (Nat.zero_le _) hload ?_
    simp only [WorkerPc.steps]
    omega
  · exact .goto hrounds hload hsteps

/-- The end of `deliver_all`. -/
theorem afterDelivery
    (hrounds : x.sizes.weight 0 + (x.frame.site.progress x.sizes.queue d).toNat ≤ s.rounds)
    (hload : x.sizes.load 0 ≤ s.load) (hsteps : 12 < s.steps) :
    Lowers s (Worker.afterDelivery x d) := by
  unfold Worker.afterDelivery
  split
  · rename_i hsite
    rw [hsite] at hrounds
    split
    · exact .goto hrounds hload hsteps
    · exact .goto (Nat.zero_le _) hload (Nat.zero_lt_of_lt hsteps)
  · rename_i q moved hsite
    rw [hsite, Site.progress] at hrounds
    by_cases hstall : (!moved && !d) = true
    · rw [if_pos hstall]
      -- nothing has moved: what is left to decide is the length of the queue
      obtain ⟨rfl, rfl⟩ : moved = false ∧ d = false := by simpa using hstall
      exact .goto hrounds hload hsteps
    · rw [if_neg hstall]
      have hmade : (moved || d || decide (x.sizes.queue < q)) = true := by
        cases moved <;> cases d <;> simp at hstall ⊢
      rw [hmade] at hrounds
      exact .enterLoop hrounds hload (by omega)

/-- The end of `process_incoming`. -/
theorem afterIncoming
    (hrounds : x.sizes.weight 0 + (x.frame.site.progress x.sizes.queue false).toNat ≤ s.rounds)
    (hload : x.sizes.load 0 ≤ s.load) (hsteps : 11 * x.sizes.rows + 16 < s.steps) :
    Lowers s (Worker.afterIncoming x) := .goto hrounds hload hsteps

theorem afterPurge {p : PurgeSite}
    (hrounds : x.sizes.weight 0 + (x.frame.site.progress x.sizes.queue p.delivered).toNat ≤
      s.rounds)
    (hload : x.sizes.load 0 ≤ s.load) (hsteps : p.steps x.sizes ≤ s.steps) :
    Lowers s (Worker.afterPurge x p) := by
  cases p with
  | incoming => exact .afterIncoming hrounds hload hsteps
  | delivery d => exact .afterDelivery hrounds hload hsteps

/-- The end of a fetch. -/
theorem afterFetch {seen : Nat} {events : List SerializedEvent}
    (hrounds : x.sizes.weight 0 + (x.frame.site.progress x.sizes.queue d).toNat ≤ s.rounds)
    (hload : x.sizes.load 0 ≤ s.load) (hsteps : x.sizes.offered events < s.steps) :
    Lowers s (Worker.afterFetch x d seen events) := by
  unfold Worker.afterFetch
  unfold Sizes.offered at hsteps
  by_cases hempty : events.isEmpty = true
  · rw [if_pos hempty] at hsteps ⊢
    exact .afterDelivery hrounds hload hsteps
  · rw [if_neg hempty] at hsteps ⊢
    refine .goto ?_ hload hsteps
    rw [Bool.not_eq_true] at hempty
    rw [WorkerPc.rounds, hempty, Bool.or_false]
    exact hrounds

theorem reportFetch {seen : Nat} {pending : FetchResult}
    (hrounds : x.sizes.weight 0 + (x.frame.site.progress x.sizes.queue d).toNat ≤ s.rounds)
    (hload : x.sizes.load 0 ≤ s.load) (hsteps : x.sizes.offered pending.events + 1 < s.steps) :
    Lowers s (Worker.reportFetch x d seen pending) := by
  unfold Worker.reportFetch
  split
  · exact .goto hrounds hload hsteps
  · exact .afterFetch hrounds hload (Nat.lt_of_succ_lt hsteps)

end Lowers

/-- Less weight, with the same progress. -/
theorem add_toNat_mono {b : Bool} (w w' : Nat) (h : w' ≤ w) : w' + b.toNat ≤ w + b.toNat :=
  Nat.add_le_add_right h _

namespace Worker

/-! ### `process_incoming` -/

theorem takeRetry_lowers {l : List QueuedEvent}
    (h : takeRetry (s.goto (.takeRetry l)) l = some s') : Lowers (s.goto (.takeRetry l)) s' := by
  unfold takeRetry at h
  split at h
  · obtain rfl := Option.some.inj h
    unfold afterIncoming
    split
    · refine .shift 0 s.sizes.rows rfl rfl ?_ ?_ add_toNat_mono ?_
      all_goals
        simp only [WorkerPc.hands, WorkerPc.steps, List.length_nil]
        omega
    · refine .shift 0 s.sizes.rows rfl rfl ?_ ?_ add_toNat_mono ?_
      all_goals
        simp only [WorkerPc.hands, WorkerPc.steps, List.length_append, State.sizes, State.goto]
        omega
  · cases h

theorem checkConsent_lowers {v : Nat} {l : List QueuedEvent} :
    Lowers (s.goto (.checkConsent v l)) (checkConsent (s.goto (.checkConsent v l)) v l) := by
  unfold checkConsent
  split
  · refine .on rfl rfl (Nat.zero_le _) add_toNat_mono ?_
    simp only [WorkerPc.steps]
    omega
  · exact .on rfl rfl (by simp [WorkerPc.hands]) add_toNat_mono (by simp [WorkerPc.steps])

theorem serialize_lowers {v : Nat} {k : List Kept} {l : List QueuedEvent} :
    Lowers (s.goto (.serialize v k l)) (serialize env (s.goto (.serialize v k l)) v k l) := by
  cases l with
  | nil =>
    simp only [serialize, afterIncoming]
    split
    · refine .on rfl rfl (Nat.zero_le _) add_toNat_mono ?_
      simp only [WorkerPc.steps]
      omega
    · exact .on rfl rfl (by simp [WorkerPc.hands]) add_toNat_mono (by simp [WorkerPc.steps])
  | cons e l =>
    simp only [serialize]
    split
    · refine .on rfl rfl (by simp [WorkerPc.hands]) add_toNat_mono ?_
      simp only [WorkerPc.steps, List.length_cons]
      omega
    · split
      · refine .on rfl rfl (by simp [WorkerPc.hands]) add_toNat_mono ?_
        simp only [WorkerPc.steps, List.length_cons]
        omega
      · refine .on rfl rfl (by simp [WorkerPc.hands]) add_toNat_mono ?_
        simp only [WorkerPc.steps, List.length_cons, List.length_append, List.length_nil]
        omega

/-- A batch that is refused at the boundary. -/
theorem refuseAtBoundary_lowers {pc : WorkerPc} {k : List Kept}
    (hrounds : ∀ w w', w' ≤ w → (WorkerPc.countBoundary k.length).rounds w' s.sizes.queue
      s.frame.site ≤ pc.rounds w s.sizes.queue s.frame.site)
    (hsteps : 11 * s.sizes.rows + 17 < pc.steps s.sizes) :
    Lowers (s.goto pc) (refuseAtBoundary (s.goto pc) k) :=
  .on rfl rfl (Nat.zero_le _) hrounds hsteps

theorem boundaryConsent_lowers {v : Nat} {k : List Kept} :
    Lowers (s.goto (.boundaryConsent v k))
      (boundaryConsent (s.goto (.boundaryConsent v k)) v k) := by
  unfold boundaryConsent
  split
  · refine refuseAtBoundary_lowers add_toNat_mono ?_
    simp only [WorkerPc.steps]
    omega
  · exact .on rfl rfl (Nat.le_refl _) add_toNat_mono (by simp [WorkerPc.steps])

theorem boundaryGeneration_lowers {v : Nat} {k : List Kept} :
    Lowers (s.goto (.boundaryGeneration v k))
      (boundaryGeneration (s.goto (.boundaryGeneration v k)) v k) := by
  unfold boundaryGeneration
  split
  · refine refuseAtBoundary_lowers add_toNat_mono ?_
    simp only [WorkerPc.steps]
    omega
  · exact .on rfl rfl (Nat.le_refl _) add_toNat_mono (by simp [WorkerPc.steps])

/-- An insertion adds at most what is kept. -/
theorem insert_lowers {v : Nat} {k : List Kept} :
    Lowers (s.goto (.insert v k)) (insert i (s.goto (.insert v k)) k) := by
  obtain ⟨st, db, hins⟩ : ∃ st db, PlayerTrace.insert i.faults (k.map Kept.record)
      (s.goto (.insert v k)).pipeline.store = (st, db) := ⟨_, _, rfl⟩
  simp only [insert, hins]
  rcases insert_cases hins with ⟨hok, hev, -⟩ | ⟨hok, rfl⟩
  · rw [if_pos hok]
    obtain ⟨new, hrows, hnew⟩ :=
      Events.insertAll_rows (s.goto (.insert v k)).pipeline.store.view.events (k.map Kept.record)
    have hlen : db.rows.length ≤ s.sizes.rows + k.length := by
      rw [Database.rows, hev, hrows, List.length_append]
      have := hnew.length_le
      simp only [List.length_map] at this
      exact Nat.add_le_add_left this _
    refine .shift s.sizes.retry db.rows.length rfl rfl ?_ ?_ add_toNat_mono ?_
    all_goals
      simp only [WorkerPc.hands, WorkerPc.steps, List.length_nil, List.length_map]
      omega
  · rw [if_neg (by simp [hok])]
    refine .on rfl rfl (Nat.le_refl _) add_toNat_mono ?_
    simp only [WorkerPc.steps]
    omega

theorem holdForRetry_lowers {l : List QueuedEvent}
    (h : holdForRetry (s.goto (.holdForRetry l)) l = some s') :
    Lowers (s.goto (.holdForRetry l)) s' := by
  unfold holdForRetry afterIncoming at h
  split at h
  · obtain rfl := Option.some.inj h
    exact .on rfl rfl (Nat.zero_le _) add_toNat_mono (by simp [WorkerPc.steps])
  · split at h
    · obtain rfl := Option.some.inj h
      have hlen : (if (s.goto (.holdForRetry l)).core.retry.isEmpty then l
          else l ++ (s.goto (.holdForRetry l)).core.retry).length ≤ s.sizes.retry + l.length := by
        split
        · omega
        · rw [List.length_append, Nat.add_comm]
          exact Nat.le_refl _
      refine .shift _ s.sizes.rows rfl rfl ?_ ?_ add_toNat_mono
        (by simp [WorkerPc.steps])
      all_goals
        simp only [setRetry, WorkerPc.hands, List.length_nil]
        omega
    · cases h

/-! ### `deliver_all` -/

theorem deliverConsent_lowers {d : Bool} :
    Lowers (s.goto (.deliverConsent d)) (deliverConsent (s.goto (.deliverConsent d)) d) := by
  unfold deliverConsent
  split
  · refine .on rfl rfl (Nat.le_refl _) add_toNat_mono ?_
    simp only [WorkerPc.steps, PurgeSite.steps]
    omega
  · exact .on rfl rfl (Nat.le_refl _) add_toNat_mono (by simp [WorkerPc.steps])

/-- A fetch reads no more than there is, and only takes rows out. -/
theorem fetch_lowers {d : Bool} {seen : Nat} :
    Lowers (s.goto (.fetch d seen)) (fetch env i (s.goto (.fetch d seen)) d seen) := by
  obtain ⟨res, db, hres⟩ : ∃ res db, fetchPending i.faults env.isValidJson env.config.batchSize
      (s.goto (.fetch d seen)).pipeline.store = (res, db) := ⟨_, _, rfl⟩
  obtain ⟨read, hpre, hev, hdb⟩ := fetchPending_cases hres
  have hread : res.events.length ≤ s.sizes.rows := by
    rw [hev, List.length_map]
    refine (List.length_filter_le _ _).trans (hpre.length_le.trans ?_)
    rw [List.length_take]
    exact (Nat.min_le_right _ _).trans (Events.ordered_perm _).length_eq.le
  have hrows : db.rows.length ≤ s.sizes.rows := by
    rcases hdb with ⟨rfl, -⟩ | ⟨hrest, -⟩
    · exact Nat.le_refl _
    · rw [Database.rows, hrest]
      exact List.length_filter_le _ _
  have hload : (Sizes.mk s.sizes.queue s.sizes.retry db.rows.length).load 0 ≤ s.sizes.load 0 :=
    Nat.add_le_add_left hrows _
  have hweight : (Sizes.mk s.sizes.queue s.sizes.retry db.rows.length).weight 0 ≤
      s.sizes.weight 0 := Nat.add_le_add_left hrows _
  have hsteps : (Sizes.mk s.sizes.queue s.sizes.retry db.rows.length).offered res.events + 2 <
      11 * s.sizes.rows + 15 := by
    unfold Sizes.offered
    split
    · omega
    · rename_i hne
      have hpos : 0 < res.events.length := by
        rw [List.isEmpty_iff] at hne
        exact List.length_pos_of_ne_nil hne
      dsimp only
      omega
  simp only [fetch, hres]
  split
  · exact .goto (add_toNat_mono _ _ hweight) hload hsteps
  · exact .reportFetch (add_toNat_mono _ _ hweight) hload (Nat.lt_of_succ_lt hsteps)

theorem countQuarantined_lowers {d : Bool} {seen : Nat} {pending : FetchResult} :
    Lowers (s.goto (.countQuarantined d seen pending))
      (countQuarantined (s.goto (.countQuarantined d seen pending)) d seen pending) :=
  .reportFetch (Nat.le_refl _) (Nat.le_refl _) (Nat.lt_succ_self _)

theorem noteFetch_lowers {d : Bool} {seen : Nat} {pending : FetchResult} :
    Lowers (s.goto (.noteFetch d seen pending))
      (noteFetch (s.goto (.noteFetch d seen pending)) d seen pending) :=
  .afterFetch (Nat.le_refl _) (Nat.le_refl _) (Nat.lt_succ_self _)

/-- A batch that is given up leaves no more rounds than one that is not. -/
theorem rounds_of_giveUp {site : Site} {queue : Nat} {d b : Bool} (w w' : Nat) (h : w' ≤ w) :
    w' + (site.progress queue d).toNat ≤ w + (site.progress queue (d || b)).toNat := by
  refine Nat.add_le_add h ?_
  cases site with
  | main => exact Nat.le_refl _
  | drain q moved => cases moved <;> cases d <;> cases b <;> simp [Site.progress, Bool.toNat_le]

theorem recheckConsent_lowers {d : Bool} {seen v : Nat} {b : List SerializedEvent} :
    Lowers (s.goto (.recheckConsent d seen v b))
      (recheckConsent (s.goto (.recheckConsent d seen v b)) d v b) := by
  unfold recheckConsent
  split
  · refine .on rfl rfl (Nat.le_refl _) rounds_of_giveUp ?_
    simp only [WorkerPc.steps, PurgeSite.steps]
    omega
  · exact .on rfl rfl (Nat.le_refl _) add_toNat_mono (by simp [WorkerPc.steps])

theorem write_lowers {d : Bool} {v : Nat} {b : List SerializedEvent} :
    Lowers (s.goto (.write d v b)) (write i (s.goto (.write d v b)) d v b) := by
  unfold write
  dsimp only
  split
  · refine .on rfl rfl (Nat.le_refl _) rounds_of_giveUp ?_
    simp only [WorkerPc.steps]
    omega
  · exact .on rfl rfl (Nat.le_refl _) add_toNat_mono (by simp [WorkerPc.steps])

theorem postConsent_lowers {d : Bool} {v : Nat} {b : List SerializedEvent} :
    Lowers (s.goto (.postConsent d v b)) (postConsent (s.goto (.postConsent d v b)) d v b) := by
  unfold postConsent
  split
  · refine .on rfl rfl (Nat.le_refl _) rounds_of_giveUp ?_
    simp only [WorkerPc.steps, PurgeSite.steps]
    omega
  · exact .on rfl rfl (Nat.le_refl _) add_toNat_mono (by simp [WorkerPc.steps])

theorem postGeneration_lowers {d : Bool} {v : Nat} {b : List SerializedEvent} :
    Lowers (s.goto (.postGeneration d v b))
      (postGeneration (s.goto (.postGeneration d v b)) d v b) := by
  unfold postGeneration
  split
  · refine .on rfl rfl (Nat.le_refl _) rounds_of_giveUp ?_
    simp only [WorkerPc.steps, PurgeSite.steps]
    omega
  · exact .on rfl rfl (Nat.le_refl _) add_toNat_mono (by simp [WorkerPc.steps])

/-- **An acknowledgement that succeeds** has taken the whole batch out of the store. -/
theorem acknowledge_lowers {d : Bool} {b : List SerializedEvent} :
    Lowers (s.goto (.acknowledge d b)) (acknowledge i (s.goto (.acknowledge d b)) d b) := by
  obtain ⟨st, n, db, hack⟩ : ∃ st n db, PlayerTrace.acknowledge i.faults
      (b.map SerializedEvent.eventId) (s.goto (.acknowledge d b)).pipeline.store = (st, n, db) :=
    ⟨_, _, _, rfl⟩
  simp only [acknowledge, hack]
  rcases acknowledge_cases hack with ⟨hok, rfl⟩ | ⟨-, -, -, hn, hiff⟩
  · rw [if_pos hok]
    refine .on rfl rfl (Nat.le_refl _) rounds_of_giveUp ?_
    simp only [WorkerPc.steps]
    omega
  · have hrows : n + db.rows.length = s.sizes.rows := hn
    rw [List.length_map] at hiff
    split
    · refine .shift s.sizes.retry db.rows.length rfl rfl ?_ ?_ rounds_of_giveUp ?_
      all_goals
        simp only [WorkerPc.hands, WorkerPc.steps]
        omega
    · rename_i hok
      have hlen : n = b.length := hiff.mp (by simpa using hok)
      subst hlen
      refine .goto ?_ ?_ ?_
      · -- an acknowledged batch is progress, and weighs one an event
        change 3 * s.sizes.queue + 2 * (s.sizes.retry + 0) + db.rows.length + 1 ≤
          3 * s.sizes.queue + 2 * (s.sizes.retry + 0) + s.sizes.rows +
            (s.frame.site.progress s.sizes.queue (d || b.isEmpty)).toNat
        cases b with
        | nil =>
          have hmade : s.frame.site.progress s.sizes.queue (d || true) = true := by
            cases s.frame.site <;> simp [Site.progress]
          rw [List.isEmpty_nil, hmade, Bool.toNat_true]
          omega
        | cons x b =>
          rw [List.length_cons] at hrows
          omega
      · change s.sizes.queue + s.sizes.retry + 0 + db.rows.length ≤
          s.sizes.queue + s.sizes.retry + 0 + s.sizes.rows
        omega
      · change 11 * db.rows.length + 17 < 11 * (s.sizes.rows - b.length) + 18
        omega

/-! ### `purge_store` -/

theorem purge_lowers {p : PurgeSite} :
    Lowers (s.goto (.purge p)) (purge i (s.goto (.purge p)) p) := by
  obtain ⟨st, n, db, hp⟩ : ∃ st n db, purgeAndClearRevocation i.faults
      (s.goto (.purge p)).pipeline.store = (st, n, db) := ⟨_, _, _, rfl⟩
  simp only [purge, hp]
  rcases purgeAndClearRevocation_cases hp with ⟨hok, hv, -⟩ | ⟨hok, rfl, -⟩
  · rw [if_neg (by simp [hok])]
    have hrows : db.rows.length = 0 := by
      rw [Database.rows, hv]
      rfl
    refine .shift s.sizes.retry db.rows.length rfl rfl ?_ ?_ add_toNat_mono ?_
    · exact Nat.add_le_add_left (hrows ▸ Nat.zero_le _) _
    · exact Nat.add_le_add_left (hrows ▸ Nat.zero_le _) _
    · rw [hrows]
      cases p <;> simp only [WorkerPc.steps, PurgeSite.steps] <;> omega
  · rw [if_pos hok]
    exact .on rfl rfl (Nat.le_refl _) add_toNat_mono (Nat.lt_succ_self _)

/-! ### `run` -/

theorem pop_lowers : Lowers (s.goto .pop) (pop env (s.goto .pop)) := by
  obtain ⟨drained, queue, hpop, hlen⟩ :=
    EventQueue.exists_popWait (s.goto .pop).pipeline.queue env.config.batchSize
  have hsplit : drained.length + queue.length = s.sizes.queue := hlen
  simp only [pop, hpop]
  refine .goto ?_ ?_ ?_
  · have hle := (s.frame.site.progress queue.length false).toNat_le
    change 3 * queue.length + 2 * (s.sizes.retry + drained.length) + s.sizes.rows +
        (s.frame.site.progress queue.length false).toNat ≤
      3 * s.sizes.queue + 2 * (s.sizes.retry + 0) + s.sizes.rows + 1
    omega
  · change queue.length + s.sizes.retry + drained.length + s.sizes.rows ≤
      s.sizes.queue + s.sizes.retry + 0 + s.sizes.rows
    omega
  · change 11 * s.sizes.rows + 13 * (s.sizes.retry + drained.length) + 25 <
      11 * s.sizes.rows + 13 * (s.sizes.retry + s.sizes.queue) + 26
    omega

/-- What is popped has moved, and weighs less in the worker's hands. -/
theorem popMore_lowers {q : Nat} :
    Lowers (s.goto (.popMore q)) (popMore env (s.goto (.popMore q)) q) := by
  obtain ⟨more, queue, hpop, hlen⟩ :=
    EventQueue.exists_popWait (s.goto (.popMore q)).pipeline.queue env.config.batchSize
  have hsplit : more.length + queue.length = s.sizes.queue := hlen
  simp only [popMore, hpop]
  refine ⟨?_, ?_, ?_⟩
  · change 3 * queue.length + 2 * (s.sizes.retry + more.length) + s.sizes.rows +
        (!more.isEmpty || false || decide (queue.length < q)).toNat ≤
      3 * s.sizes.queue + 2 * (s.sizes.retry + 0) + s.sizes.rows +
        (decide (s.sizes.queue < q)).toNat
    cases more with
    | nil =>
      rw [List.length_nil, Nat.zero_add] at hsplit
      rw [hsplit]
      exact Nat.le_refl _
    | cons e more =>
      have hle := (!(e :: more).isEmpty || false || decide (queue.length < q)).toNat_le
      rw [List.length_cons] at hsplit ⊢
      omega
  · change queue.length + s.sizes.retry + more.length + s.sizes.rows ≤
      s.sizes.queue + s.sizes.retry + 0 + s.sizes.rows
    omega
  · change 11 * s.sizes.rows + 13 * (s.sizes.retry + more.length) + 25 <
      11 * s.sizes.rows + 13 * (s.sizes.retry + s.sizes.queue) + 26
    omega

/-- A test of `work_remains_at_or_below`, at `n` steps from its end. -/
theorem remainsDone_lowers {r : Remains} {why : Option Status} {pc : WorkerPc} {n : Nat}
    (hhands : pc.hands = []) (hrounds : ∀ w queue site, pc.rounds w queue site = r.rounds w)
    (hsteps : ∀ x, pc.steps x = r.steps + (n + 1)) :
    Lowers (s.goto pc) (remainsDone (s.goto pc) r why) := by
  have key : ∀ pc', pc'.hands = [] → pc'.steps s.sizes ≤ r.steps →
      (∀ w w', w' ≤ w → pc'.rounds w' s.sizes.queue s.frame.site ≤ r.rounds w) →
      Lowers (s.goto pc) (s.goto pc') := by
    intro pc' hhands' hle hmono
    refine .on rfl rfl (by rw [hhands, hhands']) (fun w w' hw => ?_) ?_
    · rw [hrounds]
      exact hmono w w' hw
    · rw [hsteps]
      omega
  cases r with
  | loop =>
    cases why with
    | some w => exact key .queueBefore rfl (Nat.le_refl _) fun _ _ h => Nat.succ_le_succ h
    | none => exact key .flushSink rfl (Nat.le_succ _) fun _ _ _ => Nat.zero_le _
  | residual o =>
    cases why with
    | some w => exact key (.record _) rfl (Nat.le_refl _) fun _ _ _ => Nat.zero_le _
    | none => exact key (.record o) rfl (Nat.le_refl _) fun _ _ _ => Nat.zero_le _

theorem rounds_remains_mono {r : Remains} (w w' : Nat) (h : w' ≤ w) : r.rounds w' ≤ r.rounds w := by
  cases r with
  | loop => exact Nat.succ_le_succ h
  | residual => exact Nat.zero_le _

theorem remainsQueue_lowers {r : Remains} :
    Lowers (s.goto (.remainsQueue r)) (remainsQueue (s.goto (.remainsQueue r)) r) := by
  unfold remainsQueue
  split
  · exact remainsDone_lowers rfl (fun _ _ _ => rfl) fun _ => rfl
  · exact .on rfl rfl (Nat.le_refl _) rounds_remains_mono (Nat.lt_succ_self _)

theorem remainsRetry_lowers {r : Remains}
    (h : remainsRetry (s.goto (.remainsRetry r)) r = some s') :
    Lowers (s.goto (.remainsRetry r)) s' := by
  unfold remainsRetry at h
  split at h
  · obtain rfl := Option.some.inj h
    split
    · exact remainsDone_lowers rfl (fun _ _ _ => rfl) fun _ => rfl
    · exact .on rfl rfl (Nat.le_refl _) rounds_remains_mono (Nat.lt_succ_self _)
  · cases h

theorem remainsStore_lowers {r : Remains} :
    Lowers (s.goto (.remainsStore r)) (remainsStore i (s.goto (.remainsStore r)) r) := by
  unfold remainsStore
  split
  · exact remainsDone_lowers rfl (fun _ _ _ => rfl) fun _ => rfl
  · split
    · exact remainsDone_lowers rfl (fun _ _ _ => rfl) fun _ => rfl
    · exact remainsDone_lowers rfl (fun _ _ _ => rfl) fun _ => rfl

/-- The stall test goes on only when the queue is shorter than it was. -/
theorem stallCheck_lowers {q : Nat} :
    Lowers (s.goto (.stallCheck q)) (stallCheck (s.goto (.stallCheck q)) q) := by
  unfold stallCheck
  split
  · exact .on rfl rfl (Nat.le_refl _) (fun _ _ _ => Nat.zero_le _) (by simp [WorkerPc.steps])
  · rename_i hlt
    have hshorter : s.sizes.queue < q := Nat.lt_of_not_le hlt
    refine .enterLoop (Nat.le_of_eq ?_) (Nat.le_refl _) (Nat.lt_succ_self _)
    change s.sizes.weight 0 + 1 = s.sizes.weight 0 + (decide (s.sizes.queue < q)).toNat
    rw [decide_eq_true hshorter]
    rfl

theorem flushSink_lowers : Lowers (s.goto .flushSink) (flushSink i (s.goto .flushSink)) := by
  unfold flushSink
  dsimp only
  split
  · exact .on rfl rfl (Nat.le_refl _) (fun _ _ _ => Nat.zero_le _) (by simp [WorkerPc.steps])
  · exact .on rfl rfl (Nat.le_refl _) (fun _ _ _ => Nat.zero_le _) (by simp [WorkerPc.steps])

theorem takeOutcome_lowers : Lowers (s.goto .takeOutcome) (takeOutcome (s.goto .takeOutcome)) := by
  unfold takeOutcome enterRemains remainsDone
  split
  · exact .on rfl rfl (Nat.le_refl _) (fun _ _ _ => Nat.zero_le _)
      (by simp [WorkerPc.steps])
  · exact .on rfl rfl (Nat.le_refl _) (fun _ _ _ => Nat.zero_le _)
      (Nat.lt_succ_self _)

/-- An exception leaves the pass. -/
theorem unexpected_lowers {what : Option String} (hpass : s.frame.pc.passing = true) :
    Lowers s (unexpected s what) := by
  refine .goto (Nat.zero_le _) ?_ (State.steps_pos hpass)
  exact Nat.add_le_add_right (Nat.add_le_add_left (Nat.zero_le _) _) _

/-- **Every statement of a pass** but the one that opens a round. -/
theorem execute_lowers (hpass : s.frame.pc.passing = true) (hopens : s.frame.pc.opensRound = false)
    (h : execute env i s = some s') : Lowers s s' := by
  obtain ⟨pc, hs⟩ : ∃ pc, s.goto pc = s := ⟨s.frame.pc, rfl⟩
  rw [← hs] at h hpass hopens ⊢
  have hstep : ∀ {x}, some x = some s' → Lowers (s.goto pc) x → Lowers (s.goto pc) s' :=
    fun hx hl => Option.some.inj hx ▸ hl
  cases pc with
  | start | latch | record | checkStop | stopped | terminate | reportTerminal | finish | exited =>
    cases hpass
  | queueBefore => cases hopens
  | clearError =>
    exact hstep h (.on rfl rfl (Nat.le_refl _) (fun _ _ => Nat.succ_le_succ) (Nat.lt_succ_self _))
  | pop => exact hstep h pop_lowers
  | takeRetry l => exact takeRetry_lowers h
  | readGeneration l =>
    exact hstep h (.on rfl rfl (Nat.le_refl _) add_toNat_mono (Nat.lt_succ_self _))
  | checkConsent v l => exact hstep h checkConsent_lowers
  | countRevoked n =>
    exact hstep h (.on rfl rfl (Nat.le_refl _) add_toNat_mono (Nat.lt_succ_self _))
  | serialize v k l => exact hstep h serialize_lowers
  | countStale v k l | countInvalid v k l =>
    exact hstep h (.on rfl rfl (Nat.le_refl _) add_toNat_mono (Nat.lt_succ_self _))
  | boundaryConsent v k => exact hstep h boundaryConsent_lowers
  | boundaryGeneration v k => exact hstep h boundaryGeneration_lowers
  | insert v k => exact hstep h insert_lowers
  | noteInsert st l =>
    exact hstep h (.on rfl rfl (Nat.le_refl _) add_toNat_mono (Nat.lt_succ_self _))
  | holdForRetry l => exact holdForRetry_lowers h
  | countBoundary n | countPersisted n =>
    exact hstep h (.afterIncoming (Nat.le_refl _) (Nat.le_refl _) (Nat.lt_succ_self _))
  | deliverConsent d => exact hstep h deliverConsent_lowers
  | fetch d seen => exact hstep h fetch_lowers
  | countQuarantined d seen p => exact hstep h countQuarantined_lowers
  | noteFetch d seen p => exact hstep h noteFetch_lowers
  | deliverGeneration d seen b =>
    exact hstep h (.on rfl rfl (Nat.le_refl _) add_toNat_mono (Nat.lt_succ_self _))
  | recheckConsent d seen v b => exact hstep h recheckConsent_lowers
  | write d v b => exact hstep h write_lowers
  | postConsent d v b => exact hstep h postConsent_lowers
  | postGeneration d v b => exact hstep h postGeneration_lowers
  | acknowledge d b => exact hstep h acknowledge_lowers
  | noteWrite d st | noteAck d st =>
    exact hstep h (.afterDelivery (Nat.le_refl _) (Nat.le_refl _) (Nat.lt_succ_self _))
  | countDelivered n =>
    refine hstep h (.on rfl rfl (Nat.le_refl _) (fun w w' hw => ?_) (Nat.lt_succ_self _))
    exact Nat.add_le_add hw (Bool.toNat_le _)
  | purge p => exact hstep h purge_lowers
  | notePurge p st | resetOutstanding p n =>
    exact hstep h (.afterPurge (Nat.le_refl _) (Nat.le_refl _) (Nat.le_refl _))
  | readBarrier =>
    exact hstep h (.enterLoop (Nat.le_refl _) (Nat.le_refl _) (Nat.lt_succ_self _))
  | remainsQueue r => exact hstep h remainsQueue_lowers
  | remainsRetry r => exact remainsRetry_lowers h
  | remainsStore r => exact hstep h remainsStore_lowers
  | popMore q => exact hstep h popMore_lowers
  | stallCheck q => exact hstep h stallCheck_lowers
  | flushSink => exact hstep h flushSink_lowers
  | noteFlushSink st =>
    exact hstep h (.on rfl rfl (Nat.le_refl _) (fun _ _ _ => Nat.zero_le _) (Nat.lt_succ_self _))
  | takeOutcome => exact hstep h takeOutcome_lowers

/-- **Opening a round** uses up one of those that are left. -/
theorem execute_opens (hopens : s.frame.pc.opensRound = true) (h : execute env i s = some s') :
    s'.rounds + 1 ≤ s.rounds ∧ s'.load ≤ s.load := by
  obtain ⟨pc, hs⟩ : ∃ pc, s.goto pc = s := ⟨s.frame.pc, rfl⟩
  rw [← hs] at h hopens ⊢
  cases pc with
  | queueBefore =>
    obtain rfl := Option.some.inj h
    refine ⟨Nat.le_of_eq ?_, Nat.le_refl _⟩
    change s.sizes.weight 0 + (decide (s.sizes.queue < s.sizes.queue)).toNat + 1 =
      s.sizes.weight 0 + 1
    rw [decide_eq_false (Nat.lt_irrefl _)]
    rfl
  | _ => cases hopens

end Worker

/-! ### Another thread -/

/-- No container has grown. -/
structure Sizes.Within (x' x : Sizes) : Prop where
  queue : x'.queue ≤ x.queue
  retry : x'.retry ≤ x.retry
  rows : x'.rows ≤ x.rows

namespace Custody

variable {c c' : Custody}

/-- A move that leaves the worker where it is takes rows out of the store, or none. -/
theorem Step.rows_length_le (hs : Step env c c') (hstage : c'.stage = c.stage) :
    c'.rows.length ≤ c.rows.length := by
  rcases hs.rows_cases with hsub | ⟨v, k, hfrom, hto, -⟩
  · exact (List.subperm_of_subset (Events.rows_nodup _) hsub).length_le
  · rw [hfrom, hto] at hstage
    cases hstage

/-- One that admits nothing only takes events away. -/
theorem Step.line_length_le (hs : Step env c c') (hstage : c'.stage = c.stage)
    (haccepted : c'.history.accepted = c.history.accepted) :
    c'.queue.length ≤ c.queue.length ∧ c'.retry.length ≤ c.retry.length := by
  cases hs with
  | push => simp at haccepted
  | hold h =>
    rw [h] at hstage
    cases hstage
  | drain n => exact ⟨by simp, Nat.le_refl _⟩
  | takeNothing | takeRetry | discardRetry => exact ⟨Nat.le_refl _, Nat.zero_le _⟩
  | clear => exact ⟨Nat.zero_le _, Nat.le_refl _⟩
  | _ => exact ⟨Nat.le_refl _, Nat.le_refl _⟩

end Custody

/-- **A step of another thread** that admits nothing leaves no container larger. -/
theorem Sizes.within_of_step {l : Label} (h : step env s l = some s')
    (hframe : s'.frame = s.frame) (haccepted : s'.history.accepted = s.history.accepted) :
    s'.sizes.Within s.sizes := by
  rcases step_moves h with heq | hs
  · exact ⟨(congrArg (fun c => c.queue.length) heq).le, (congrArg (fun c => c.retry.length) heq).le,
      (congrArg (fun c => c.rows.length) heq).le⟩
  · have hstage : (custody s').stage = (custody s).stage := by
      change stageOf s'.frame.pc = stageOf s.frame.pc
      rw [hframe]
    obtain ⟨hqueue, hretry⟩ := hs.line_length_le hstage haccepted
    exact ⟨hqueue, hretry, hs.rows_length_le hstage⟩

/-- A shorter queue may be progress, but it weighs less. -/
theorem Site.progress_le {queue queue' w w' : Nat} (hq : queue' ≤ queue)
    (hw : w' + (queue - queue') ≤ w) (site : Site) (d : Bool) :
    w' + (site.progress queue' d).toNat ≤ w + (site.progress queue d).toNat := by
  rcases Nat.lt_or_eq_of_le hq with hlt | rfl
  · have := (site.progress queue' d).toNat_le
    omega
  · omega

theorem WorkerPc.rounds_le_of_shorter {queue queue' w w' : Nat} (hq : queue' ≤ queue)
    (hw : w' + (queue - queue') ≤ w) (site : Site) (pc : WorkerPc) :
    pc.rounds w' queue' site ≤ pc.rounds w queue site := by
  have hle : w' ≤ w := by omega
  cases pc with
  | popMore q | stallCheck q => exact Site.progress_le hq hw (.drain q false) false
  | remainsQueue r | remainsRetry r | remainsStore r => exact Worker.rounds_remains_mono w w' hle
  | clearError | pop | readBarrier | queueBefore | countDelivered => exact Nat.succ_le_succ hle
  | start | latch | record | checkStop | stopped | terminate | reportTerminal | finish | exited
  | flushSink | noteFlushSink | takeOutcome => exact Nat.le_refl _
  | _ => exact Site.progress_le hq hw site _

theorem WorkerPc.steps_le_of_within {x x' : Sizes} (h : x'.Within x) (pc : WorkerPc) :
    pc.steps x' ≤ pc.steps x := by
  obtain ⟨hqueue, hretry, hrows⟩ := h
  have hoffered : ∀ events, x'.offered events ≤ x.offered events := by
    intro events
    unfold Sizes.offered
    split <;> omega
  cases pc with
  | purge p | notePurge p _ | resetOutstanding p _ =>
    cases p <;> simp only [WorkerPc.steps, PurgeSite.steps] <;> omega
  | noteFetch _ _ pending | countQuarantined _ _ pending =>
    exact Nat.add_le_add_right (hoffered pending.events) _
  | _ => simp only [WorkerPc.steps]; omega

/-! ### The run -/

/-- **A step inside a pass that admits nothing.** -/
structure Unfed (env : Env) (s : State) (l : Label) : Prop where
  passing : s.frame.pc.passing = true
  accepted : ∀ s', step env s l = some s' → s'.history.accepted = s.history.accepted

/-- The statements of the worker. -/
def statements (s : State) : Label → List WorkerPc
  | .worker _ => [s.frame.pc]
  | _ => []

/-- **What a step of a pass leaves of it**: a statement inside a round, one that opens a round,
or a step of another thread. -/
inductive Advance (s s' : State) : Label → Prop
  | inside {i : Input} (hpc : s.frame.pc.opensRound = false) (h : Lowers s s') :
      Advance s s' (.worker i)
  | opens {i : Input} (hpc : s.frame.pc.opensRound = true) (hrounds : s'.rounds + 1 ≤ s.rounds)
      (hload : s'.load ≤ s.load) (hsteps : 0 < s.steps) : Advance s s' (.worker i)
  | aside {l : Label} (hl : statements s l = []) (hrounds : s'.rounds ≤ s.rounds)
      (hload : s'.load ≤ s.load) (hsteps : s'.steps ≤ s.steps) : Advance s s' l

theorem Worker.advance_of_step (hpass : s.frame.pc.passing = true)
    (h : Worker.step env i s = some s') : Advance s s' (.worker i) := by
  have hpos := State.steps_pos hpass
  rcases hopens : s.frame.pc.opensRound with _ | _
  · refine .inside hopens ?_
    rcases hraise : i.raise with _ | what
    · exact execute_lowers hpass hopens (execute_of_step hraise h)
    · rw [unexpected_of_step hraise h]
      exact unexpected_lowers hpass
  · rcases hraise : i.raise with _ | what
    · obtain ⟨hrounds, hload⟩ := execute_opens hopens (execute_of_step hraise h)
      exact .opens hopens hrounds hload hpos
    · rw [unexpected_of_step hraise h]
      exact .opens hopens (State.rounds_pos hopens) (unexpected_lowers hpass).load hpos

/-- **Every step of a pass** that admits nothing. -/
theorem advance_of_step {l : Label} (hok : Unfed env s l) (h : step env s l = some s') :
    Advance s s' l := by
  rcases aside_of_step h with ⟨i, rfl, hw⟩ | ⟨t, hl, ha⟩
  · exact Worker.advance_of_step hok.passing hw
  · have hwithin := Sizes.within_of_step h ha.frame (hok.accepted s' h)
    have hhands : s'.hands = s.hands := by rw [State.hands, State.hands, ha.frame]
    obtain ⟨hqueue, hretry, hrows⟩ := hwithin
    refine .aside ?_ ?_ ?_ ?_
    · cases l with
      | worker i => exact absurd rfl (hl i)
      | call | caller => rfl
    · rw [State.rounds, State.rounds, ha.frame]
      refine WorkerPc.rounds_le_of_shorter hqueue ?_ _ _
      rw [State.weight, State.weight, hhands, Sizes.weight, Sizes.weight]
      omega
    · rw [State.load, State.load, hhands, Sizes.load, Sizes.load]
      omega
    · rw [State.steps, State.steps, ha.frame]
      exact WorkerPc.steps_le_of_within ⟨hqueue, hretry, hrows⟩ _

/-- A step pays for the statement it executes. -/
theorem Advance.potential {l : Label} (h : Advance s s' l) :
    (statements s l).length + s'.potential ≤ s.potential := by
  have hspan : ∀ {n m : Nat}, n ≤ m → s'.load ≤ s.load → n * s'.span ≤ m * s.span := by
    intro n m hn hload
    exact Nat.mul_le_mul hn (Nat.add_le_add_right (Nat.mul_le_mul_left 13 hload) _)
  unfold State.potential
  cases h with
  | inside _ h =>
    have := hspan h.rounds h.load
    have := h.steps
    simp only [statements, List.length_singleton]
    omega
  | opens _ hrounds hload hsteps =>
    -- the round that is opened is paid for as a whole
    have hround := hspan hrounds hload
    have hle := s'.steps_le
    rw [Nat.succ_mul] at hround
    simp only [statements, List.length_singleton]
    omega
  | aside hl hrounds hload hsteps =>
    have := hspan hrounds hload
    rw [hl, List.length_nil]
    omega

/-- A step pays for the round it opens. -/
theorem Advance.rounds {l : Label} (h : Advance s s' l) :
    (statements s l).countP WorkerPc.opensRound + s'.rounds ≤ s.rounds := by
  cases h with
  | inside hpc h =>
    rw [statements, List.countP_singleton, hpc]
    simpa using h.rounds
  | opens hpc hrounds =>
    rw [statements, List.countP_singleton, hpc]
    simpa [Nat.add_comm] using hrounds
  | aside hl hrounds =>
    rw [hl]
    simpa using hrounds

/-- **The worker alone leaves a pass**: whatever the environment answers it, one answer after the
other, it does not wait, and it does not need more of them than the potential. -/
theorem leaves_alone (inputs : List Input) (hlen : s.potential ≤ inputs.length)
    (hfree : (s.callers 0).free = true) (hretry : s.retryFree = true) :
    ∃ used s', used <+: inputs ∧ (machine env).exec s (used.map .worker) = some s' ∧
      s'.frame.pc.passing = false := by
  induction inputs generalizing s with
  | nil =>
    refine ⟨[], s, List.prefix_rfl, rfl, eq_false_of_ne_true fun hpass => ?_⟩
    have := State.steps_pos hpass
    rw [State.potential, List.length_nil] at hlen
    omega
  | cons i inputs ih =>
    rcases hpass : s.frame.pc.passing with _ | _
    · exact ⟨[], s, List.nil_prefix, rfl, hpass⟩
    · obtain ⟨s₁, hs₁⟩ : ∃ s₁, Worker.step env i s = some s₁ :=
        Worker.step_of_passing i hpass hfree hretry
      have hpaid := (Worker.advance_of_step hpass hs₁).potential
      have hapart := (Worker.step_pass hs₁).1
      have hretry₁ : s₁.retryFree = true := by
        rw [State.retryFree, hapart.client]
        exact hretry
      obtain ⟨used, s', hused, hexec, hend⟩ := ih (s := s₁) (by
        simp only [statements, List.length_cons] at hpaid hlen
        omega) (by rw [hapart.callers]; exact hfree) hretry₁
      refine ⟨i :: used, s', (List.prefix_cons_inj i).mpr hused, ?_, hend⟩
      have hstep : (machine env).step s (.worker i) = some s₁ := hs₁
      rw [List.map_cons, Lts.Machine.exec, hstep]
      exact hexec

/-- **A flush pass ends, whatever fails.** From any state, with whatever is in the queue, in the
retry buffer and in the store; however the store operations, the counts and the sink answer from
call to call, whatever rows are quarantined and whatever other threads revoke and purge, as long
as no event is admitted: the drain loop opens no more rounds than the weight of the events and
one, and the worker executes no more statements than the potential – which bounds the turns of
every loop of the pass, those of `deliver_all` among them. Wherever such a run has come, nothing
but the pass itself is left to do: the worker alone leaves it. -/
theorem flush_pass_ends {s₀ : State} {w : List WorkerPc}
    (h : ((machine env).observed statements).RunIf (fun p l => Unfed env p.1 l) (s₀, []) (s, w)) :
    w.countP WorkerPc.opensRound ≤ s₀.weight + 1 ∧ w.length ≤ s₀.potential ∧
      ∀ inputs : List Input, s.potential ≤ inputs.length → (s.callers 0).free = true →
        s.retryFree = true → ∃ used s', used <+: inputs ∧
          (machine env).exec s (used.map .worker) = some s' ∧ s'.frame.pc.passing = false := by
  refine ⟨?_, ?_, leaves_alone⟩
  · refine le_trans ?_ s₀.rounds_le
    exact Lts.Machine.RunIf.potential_rule (Φ := State.rounds)
      (fun s l s' hok hs => (advance_of_step hok hs).rounds) h
  · have hall : w.countP (fun _ => true) ≤ s₀.potential :=
      Lts.Machine.RunIf.potential_rule (Φ := State.potential)
        (fun s l s' hok hs => by simpa using (advance_of_step hok hs).potential) h
    simpa using hall

/-- Such a step, as it is evaluated. -/
def unfed (env : Env) (p : State × List WorkerPc) (l : Label) : Bool :=
  p.1.frame.pc.passing &&
    (step env p.1 l).all fun s' => decide (s'.history.accepted = p.1.history.accepted)

theorem unfed_iff {p : State × List WorkerPc} {l : Label} :
    unfed env p l = true ↔ Unfed env p.1 l := by
  rw [unfed, Bool.and_eq_true, Option.all_eq_true]
  simp only [decide_eq_true_eq]
  exact ⟨fun h => ⟨h.1, h.2⟩, fun h => ⟨h.passing, h.accepted⟩⟩

/-- No insertion commits, and the sink takes nothing. -/
def refused : Input := { commitFails with sink := .returned ⟨.sinkError, "closed"⟩ }

/-- **A pass that achieves nothing** ends: its event goes from the queue to the retry buffer, the
drain loop tries it once more, and the stall test stops there. -/
theorem flush_pass_ends_refused : ∃ s₀ s w, (machine sample).Reach s₀ ∧
    s₀.pipeline.queue.length = 1 ∧
    ((machine sample).observed statements).RunIf (fun p l => Unfed sample p.1 l) (s₀, []) (s, w) ∧
    s.frame.pc.passing = false ∧ s.core.retry.length = 1 ∧ w.countP WorkerPc.opensRound = 1 ∧
    w.countP WorkerPc.opensRound ≤ s₀.weight + 1 ∧ w.length ≤ s₀.potential := by
  have hany : ((machine sample).exec sampleClient (Label.starts 1 "s" "e" ++ [.call 3 .flush] ++
      Label.steps 3 4 ++ Label.works 2)).any (fun s₀ =>
        decide (s₀.pipeline.queue.length = 1) &&
        ((machine sample).observed statements).meets (unfed sample) (s₀, [])
          (List.replicate 37 (.worker refused)) &&
        (((machine sample).observed statements).exec (s₀, [])
          (List.replicate 37 (.worker refused))).any fun p =>
            !p.1.frame.pc.passing && decide (p.1.core.retry.length = 1) &&
              decide (p.2.countP WorkerPc.opensRound = 1)) = true := by
    decide +kernel
  obtain ⟨s₀, hex, hp⟩ := Lts.Machine.exec_of_any hany
  simp only [Bool.and_eq_true, decide_eq_true_eq] at hp
  obtain ⟨⟨hqueue, hmeets⟩, hpass⟩ := hp
  obtain ⟨⟨s, w⟩, hrun, hend⟩ := Lts.Machine.exec_of_any hpass
  simp only [Bool.and_eq_true, decide_eq_true_eq, Bool.not_eq_true'] at hend
  obtain ⟨⟨hout, hretry⟩, hrounds⟩ := hend
  have hunfed := Lts.Machine.runIf_of_meets (fun l _ p hp => unfed_iff.mp hp) hrun hmeets
  obtain ⟨hbound, hcost, -⟩ := flush_pass_ends hunfed
  exact ⟨s₀, s, w, ⟨_, sampleClient_start, Lts.Machine.run_of_exec hex⟩, hqueue, hunfed, hout,
    hretry, hrounds, hbound, hcost⟩

end PlayerTrace
