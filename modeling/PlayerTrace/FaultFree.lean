import Mathlib.Order.Interval.Finset.Nat
import PlayerTrace.Draining
import PlayerTrace.Flush

/-!
# A flush pass without faults

A pass that has latched its tokens works in iterations: each pops a batch from the queue,
inserts it and calls `deliver_all`. Without faults and under consent, an iteration leaves
the retry buffer and the store empty, so what is left of the work up to the barrier can only
be at the front of the queue, and the next iteration pops it. The stall test is therefore
never made: its first conjunct, that nothing was popped, is false. The number of events up to
the barrier goes down from iteration to iteration, whatever other threads admit above it.

The proof carries where the pass is and how many of the worker's steps are left
(`PlayerTrace.Leg`), and what has become of every event so far (`PlayerTrace.Account`). Two
kinds of events are not delivered, and the pass still records `Ok`: an event of an older consent
generation, which can be in the retry buffer, is discarded; one that cannot be serialized is
dropped.
-/

namespace PlayerTrace

/-! ### The pass -/

/-- The positions of a pass, from the latched tokens up to the outcome. -/
def WorkerPc.passing : WorkerPc → Bool
  | .start | .latch | .record _ | .checkStop | .stopped | .terminate | .reportTerminal | .finish
  | .exited => false
  | _ => true

/-- A step inside a pass, with consent granted, no fault for the worker, and ordinals left. -/
structure Smooth (s : State) (l : Label) : Prop where
  passing : s.frame.pc.passing = true
  consent : s.pipeline.consent = .granted
  ordinal : s.client.ordinal < kNoOrdinal
  calm : ∀ i, l = .worker i → i.Calm

/-- The steps of the worker. -/
def ticks (_ : State) : Label → List Unit
  | .worker _ => [()]
  | _ => []

/-! ### What becomes of an event -/

/-- Everything on its way to the store. -/
def State.way (s : State) : List QueuedEvent := s.core.retry ++ s.hands ++ s.pipeline.queue

/-- An event as the sink gets it. -/
def QueuedEvent.sent (e : QueuedEvent) (payload : String) : SerializedEvent :=
  ⟨e.event.eventId, payload, e.ordinal⟩

/-- Acknowledged, and accepted by the sink. -/
def Received (s : State) (x : Item) (w : SerializedEvent) : Prop :=
  x ∈ s.history.acked ∧ w ∈ s.log.written

/-- **What has become of an event** that is no longer on its way. -/
inductive Fate (env : Env) (s : State) (e : QueuedEvent) : Prop
  | discarded (hgen : e.consentGeneration ≠ s.pipeline.consentGeneration)
      (h : e.item ∈ s.history.discarded)
  | dropped {why : Status} (hgen : e.consentGeneration = s.pipeline.consentGeneration)
      (hser : env.serialize e.event = .error why) (h : e.item ∈ s.history.dropped)
  | stored {payload : String} {r : Row} (hgen : e.consentGeneration = s.pipeline.consentGeneration)
      (hser : env.serialize e.event = .ok payload) (hr : r ∈ s.pipeline.store.rows)
      (hitem : r.item = e.item) (hsent : r.serialized = e.sent payload)
  | received {payload : String} (hgen : e.consentGeneration = s.pipeline.consentGeneration)
      (hser : env.serialize e.event = .ok payload) (h : Received s e.item (e.sent payload))

/-- What a step of a pass keeps. -/
structure Forward (s s' : State) : Prop where
  generation : s'.pipeline.consentGeneration = s.pipeline.consentGeneration
  discarded : s.history.discarded ⊆ s'.history.discarded
  dropped : s.history.dropped ⊆ s'.history.dropped
  acked : s.history.acked ⊆ s'.history.acked
  written : s.log.written ⊆ s'.log.written
  rows : ∀ r ∈ s.pipeline.store.rows, r ∈ s'.pipeline.store.rows ∨ Received s' r.item r.serialized

/-- **The account of a pass** that began in `s₀`. -/
structure Account (env : Env) (s₀ s : State) : Prop where
  generation : s.pipeline.consentGeneration = s₀.pipeline.consentGeneration
  pending : s.frame.flushPending = true
  errors : s.frame.pc = .clearError ∨ s.core.pendingError = {}
  usable : ∀ r ∈ s.pipeline.store.rows, r.usable env.isValidJson = true
  stored : ∀ r ∈ s₀.pipeline.store.rows,
    r ∈ s.pipeline.store.rows ∨ Received s r.item r.serialized
  events : ∃ new, s.history.accepted = s₀.history.accepted ++ new ∧
    ∀ e ∈ s₀.core.retry ++ s₀.pipeline.queue ++ new.map Admitted.qe, e ∈ s.way ∨ Fate env s e

variable {env : Env} {i : Input} {s s' s₀ : State} {w : List Unit}

theorem Forward.received (hf : Forward s s') {x : Item} {y : SerializedEvent}
    (h : Received s x y) : Received s' x y := ⟨hf.acked h.1, hf.written h.2⟩

theorem Fate.forward (hf : Forward s s') {e : QueuedEvent} (h : Fate env s e) : Fate env s' e := by
  cases h with
  | discarded hgen h => exact .discarded (by rwa [hf.generation]) (hf.discarded h)
  | dropped hgen hser h => exact .dropped (by rwa [hf.generation]) hser (hf.dropped h)
  | stored hgen hser hr hitem hsent =>
    rcases hf.rows _ hr with hr | hrec
    · exact .stored (by rwa [hf.generation]) hser hr hitem hsent
    · exact .received (by rwa [hf.generation]) hser (by rwa [← hitem, ← hsent])
  | received hgen hser h => exact .received (by rwa [hf.generation]) hser (hf.received h)

/-- A step that admits nothing. -/
theorem Account.forward (h : Account env s₀ s) (hf : Forward s s')
    (haccepted : s'.history.accepted = s.history.accepted)
    (hpending : s'.frame.flushPending = s.frame.flushPending) (herr : s'.core.pendingError = {})
    (husable : ∀ r ∈ s'.pipeline.store.rows, r.usable env.isValidJson = true)
    (hway : ∀ e ∈ s.way, e ∈ s'.way ∨ Fate env s' e) : Account env s₀ s' where
  generation := hf.generation.trans h.generation
  pending := hpending.trans h.pending
  errors := Or.inr herr
  usable := husable
  stored r hr := by
    rcases h.stored r hr with hr | hrec
    · exact hf.rows r hr
    · exact Or.inr (hf.received hrec)
  events := by
    obtain ⟨new, hnew, hall⟩ := h.events
    refine ⟨new, haccepted.trans hnew, fun e he => ?_⟩
    rcases hall e he with he | hfate
    · exact hway e he
    · exact Or.inr (hfate.forward hf)

/-- A step that decides nothing. -/
structure Silent (s s' : State) : Prop where
  generation : s'.pipeline.consentGeneration = s.pipeline.consentGeneration
  store : s'.pipeline.store = s.pipeline.store
  history : s'.history = s.history
  written : s'.log.written = s.log.written
  pending : s'.frame.flushPending = s.frame.flushPending
  errors : s'.core.pendingError = s.core.pendingError

theorem Account.silent (h : Account env s₀ s) (hpc : s.frame.pc ≠ .clearError) (hs : Silent s s')
    (hway : ∀ e ∈ s.way, e ∈ s'.way) : Account env s₀ s' := by
  refine h.forward ⟨hs.generation, ?_, ?_, ?_, ?_, fun r hr => Or.inl ?_⟩ ?_ hs.pending
    (hs.errors.trans (h.errors.resolve_left hpc)) ?_ fun e he => Or.inl (hway e he)
  · rw [hs.history]; exact List.Subset.refl _
  · rw [hs.history]; exact List.Subset.refl _
  · rw [hs.history]; exact List.Subset.refl _
  · rw [hs.written]; exact List.Subset.refl _
  · rwa [hs.store]
  · rw [hs.history]
  · rw [hs.store]; exact h.usable

/-- A step that only moves on. -/
theorem Account.goto {pc : WorkerPc} (h : Account env s₀ s) (hpc : s.frame.pc ≠ .clearError)
    (hhands : pc.hands = s.hands) : Account env s₀ (s.goto pc) := by
  refine h.silent hpc ⟨rfl, rfl, rfl, rfl, rfl, rfl⟩ fun e he => ?_
  rw [State.way, ← hhands] at he
  exact he

/-- The same from a given statement, with the same events in hand. -/
theorem Account.onward {pc pc' : WorkerPc} (h : Account env s₀ s) (hpc : s.frame.pc = pc)
    (hne : pc ≠ .clearError) (hhands : pc'.hands = pc.hands) : Account env s₀ (s.goto pc') := by
  refine h.goto (by rwa [hpc]) ?_
  rw [State.hands, hpc]
  exact hhands

/-! ### The steps that are left -/

/-- The events in the queue up to the barrier of the pass. -/
def overdue (s : State) : Nat :=
  s.pipeline.queue.countP fun e => decide (e.ordinal ≤ s.frame.barrier)

/-- What one iteration of the drain loop costs at most. -/
def Env.round (env : Env) : Nat := 11 * env.config.batchSize + 13

/-- What the first iteration costs at most. -/
def opening (env : Env) (s₀ : State) : Nat :=
  11 * (s₀.core.retry.length + env.config.batchSize) + 9 * s₀.pipeline.store.rows.length + 13

/-- What a pass with the barrier `b` costs at most. -/
def passCost (env : Env) (s₀ : State) (b : Nat) : Nat := opening env s₀ + 8 + b * env.round

/-- Inside an iteration, with at most `n` steps to its end. -/
def Inner (env : Env) (s₀ s : State) (w : List Unit) (n : Nat) : Prop :=
  (s.frame.site = .main ∧ w.length + n + 1 ≤ opening env s₀) ∨
    ((∃ q, s.frame.site = .drain q true) ∧
      w.length + n + 8 + overdue s * env.round ≤ passCost env s₀ s.frame.barrier)

/-- Between two iterations, with at most `n` steps beside those of the iterations to come. -/
def Outer (env : Env) (s₀ s : State) (w : List Unit) (n : Nat) : Prop :=
  w.length + n + overdue s * env.round ≤ passCost env s₀ s.frame.barrier

theorem overdue_eq (hq : s'.pipeline.queue = s.pipeline.queue)
    (hb : s'.frame.barrier = s.frame.barrier) : overdue s' = overdue s := by
  rw [overdue, overdue, hq, hb]

theorem Inner.step {n m : Nat} (h : Inner env s₀ s w n) (hsite : s'.frame.site = s.frame.site)
    (hb : s'.frame.barrier = s.frame.barrier) (hq : s'.pipeline.queue = s.pipeline.queue)
    (hle : m + 1 ≤ n) : Inner env s₀ s' (w ++ [()]) m := by
  have hlen : (w ++ [()]).length = w.length + 1 := by simp
  rcases h with ⟨hmain, hcost⟩ | ⟨hdrain, hcost⟩
  · exact Or.inl ⟨hsite.trans hmain, by omega⟩
  · refine Or.inr ⟨by rwa [hsite], ?_⟩
    rw [overdue_eq hq hb, hb]
    omega

theorem Outer.step {n m : Nat} (h : Outer env s₀ s w n) (hb : s'.frame.barrier = s.frame.barrier)
    (hq : s'.pipeline.queue = s.pipeline.queue) (hle : m + 1 ≤ n) :
    Outer env s₀ s' (w ++ [()]) m := by
  have hlen : (w ++ [()]).length = w.length + 1 := by simp
  rw [Outer] at h ⊢
  rw [overdue_eq hq hb, hb]
  omega

theorem Outer.le {n m : Nat} (h : Outer env s₀ s w n) (hle : m ≤ n) : Outer env s₀ s w m := by
  rw [Outer] at h ⊢
  omega

/-! ### Where the pass is -/

/-- The kept events are of the current generation, with their payloads. -/
def Apt (env : Env) (s : State) (keep : List Kept) : Prop :=
  ∀ k ∈ keep, k.qe.consentGeneration = s.pipeline.consentGeneration ∧
    env.serialize k.qe.event = .ok k.payload

/-- The batch is what stands first in the store. -/
structure Foremost (env : Env) (s : State) (events : List SerializedEvent) : Prop where
  ne : events ≠ []
  eq : events = (s.pending.take env.batch).map Row.serialized

/-- Nothing waits for a retry or in the store. -/
structure Tidy (s : State) : Prop where
  retry : s.core.retry = []
  rows : s.pipeline.store.rows = []

/-- Nothing up to the barrier is in the queue. -/
def Clear (s : State) : Prop := s.frame.barrier < frontOrdinal s.pipeline.queue

section Legs

variable (env : Env) (s₀ s : State) (w : List Unit)

/-- **Where a pass is**, and what is left of it. -/
inductive Leg : Prop
  -- the iteration of the main loop, up to its pop
  | opens {n : Nat} (hpc : (s.frame.pc = .clearError ∧ n = 13) ∨ (s.frame.pc = .pop ∧ n = 12))
      (hsite : s.frame.site = .main)
      (hcost : w.length + 11 * (s.core.retry.length + env.config.batchSize) +
        9 * s.pipeline.store.rows.length + n ≤ opening env s₀)
  -- `process_incoming`
  | takes {l : List QueuedEvent} (hpc : s.frame.pc = .takeRetry l)
      (hi : Inner env s₀ s w
        (11 * (s.core.retry.length + l.length) + 9 * s.pipeline.store.rows.length + 10))
  | reads {batch : List QueuedEvent} {n : Nat}
      (hpc : (s.frame.pc = .readGeneration batch ∧ n = 9) ∨
        (s.frame.pc = .checkConsent s.pipeline.consentGeneration batch ∧ n = 8))
      (hretry : s.core.retry = [])
      (hi : Inner env s₀ s w (11 * batch.length + 9 * s.pipeline.store.rows.length + n))
  | sorts {keep : List Kept} {batch : List QueuedEvent} {n : Nat}
      (hpc : (s.frame.pc = .serialize s.pipeline.consentGeneration keep batch ∧ n = 7) ∨
        (s.frame.pc = .countStale s.pipeline.consentGeneration keep batch ∧ n = 8) ∨
        (s.frame.pc = .countInvalid s.pipeline.consentGeneration keep batch ∧ n = 8))
      (hretry : s.core.retry = []) (hkeep : Apt env s keep)
      (hi : Inner env s₀ s w
        (11 * batch.length + 9 * keep.length + 9 * s.pipeline.store.rows.length + n))
  | inserts {keep : List Kept} {n : Nat}
      (hpc : (s.frame.pc = .boundaryConsent s.pipeline.consentGeneration keep ∧ n = 6) ∨
        (s.frame.pc = .boundaryGeneration s.pipeline.consentGeneration keep ∧ n = 5) ∨
        (s.frame.pc = .insert s.pipeline.consentGeneration keep ∧ n = 4))
      (hretry : s.core.retry = []) (hkeep : Apt env s keep)
      (hi : Inner env s₀ s w (9 * keep.length + 9 * s.pipeline.store.rows.length + n))
  -- `deliver_all`
  | fetches {n : Nat}
      (hpc : (∃ k, s.frame.pc = .countPersisted k ∧ n = 3) ∨
        (∃ k, s.frame.pc = .countDelivered k ∧ n = 3) ∨
        (∃ d, s.frame.pc = .deliverConsent d ∧ n = 2) ∨
        ∃ d seen, s.frame.pc = .fetch d seen ∧ n = 1)
      (hretry : s.core.retry = []) (hi : Inner env s₀ s w (9 * s.pipeline.store.rows.length + n))
  | offers {events : List SerializedEvent} {n : Nat}
      (hpc : (∃ d seen, s.frame.pc = .deliverGeneration d seen events ∧ n = 0) ∨
        (∃ d seen, s.frame.pc = .recheckConsent d seen s.pipeline.consentGeneration events ∧
          n = 1) ∨
        ∃ d, s.frame.pc = .write d s.pipeline.consentGeneration events ∧ n = 2)
      (hretry : s.core.retry = []) (hev : Foremost env s events)
      (hi : Inner env s₀ s w (9 * s.pipeline.store.rows.length - n))
  | delivers {events : List SerializedEvent} {n : Nat}
      (hpc : (∃ d, s.frame.pc = .postConsent d s.pipeline.consentGeneration events ∧ n = 3) ∨
        (∃ d, s.frame.pc = .postGeneration d s.pipeline.consentGeneration events ∧ n = 4) ∨
        ∃ d, s.frame.pc = .acknowledge d events ∧ n = 5)
      (hretry : s.core.retry = []) (hev : Foremost env s events)
      (hsent : events ⊆ s.log.written)
      (hi : Inner env s₀ s w (9 * s.pipeline.store.rows.length - n))
  -- between the iterations
  | turns (hpc : s.frame.pc = .readBarrier) (ht : Tidy s) (hcost : w.length + 1 ≤ opening env s₀)
  | looks {n : Nat}
      (hpc : (s.frame.pc = .remainsQueue .loop ∧ n = 8) ∨
        (s.frame.pc = .remainsRetry .loop ∧ Clear s ∧ n = 7) ∨
        (s.frame.pc = .remainsStore .loop ∧ Clear s ∧ n = 6))
      (ht : Tidy s) (ho : Outer env s₀ s w n)
  | goesOn {n : Nat}
      (hpc : (s.frame.pc = .queueBefore ∧ n = 7) ∨ ∃ q, s.frame.pc = .popMore q ∧ n = 6)
      (hfront : ∃ e q, s.pipeline.queue = e :: q ∧ e.ordinal ≤ s.frame.barrier)
      (ht : Tidy s) (ho : Outer env s₀ s w n)
  -- after the last one
  | closes {n : Nat}
      (hpc : (s.frame.pc = .flushSink ∧ n = 5) ∨ (s.frame.pc = .takeOutcome ∧ n = 4) ∨
        (s.frame.pc = .remainsQueue (.residual {}) ∧ n = 3) ∨
        (s.frame.pc = .remainsRetry (.residual {}) ∧ n = 2) ∨
        (s.frame.pc = .remainsStore (.residual {}) ∧ n = 1) ∨
        (s.frame.pc = .record {} ∧ n = 0))
      (hclear : Clear s) (ht : Tidy s) (ho : Outer env s₀ s w n)

end Legs

/-! ### The steps of others -/

/-- What is being pushed is above the barrier of the pass. -/
theorem barrier_lt_of_reserved (hr : (machine env).Reach s) {e : QueuedEvent}
    (he : (custody s).entry = .reserved e) : s.frame.barrier < e.ordinal := by
  have hmem : e ∈ (custody s).entry.events := by
    rw [he]
    exact List.mem_singleton_self e
  exact Nat.lt_of_le_of_lt (latched_of_reach hr).barrier ((barriers_of_reach hr).below.2 e hmem)

section Others

variable (hr : (machine env).Reach s) (hc : Consented s s')
include hr hc

theorem overdue_consented : overdue s' = overdue s := by
  have hb : s'.frame.barrier = s.frame.barrier := by rw [hc.frame]
  rcases hc.left.queue with ⟨hq, -⟩ | ⟨e, origin, he, hq, -⟩
  · exact overdue_eq hq hb
  · have habove := barrier_lt_of_reserved hr he
    have hq : s'.pipeline.queue = s.pipeline.queue ++ [e] := hq
    rw [overdue, overdue, hq, hb, List.countP_append, List.countP_singleton,
      decide_eq_false (Nat.not_le_of_lt habove)]
    rfl

theorem Inner.consented {n : Nat} (h : Inner env s₀ s w n) : Inner env s₀ s' w n := by
  rwa [Inner, hc.frame, overdue_consented hr hc]

theorem Outer.consented {n : Nat} (h : Outer env s₀ s w n) : Outer env s₀ s' w n := by
  rwa [Outer, hc.frame, overdue_consented hr hc]

theorem Clear.consented (h : Clear s) : Clear s' := by
  rw [Clear, hc.frame]
  rcases hc.left.queue with ⟨hq, -⟩ | ⟨e, origin, he, hq, -⟩
  · rwa [show s'.pipeline.queue = s.pipeline.queue from hq]
  · rw [show s'.pipeline.queue = s.pipeline.queue ++ [e] from hq]
    cases hs : s.pipeline.queue with
    | nil => exact barrier_lt_of_reserved hr he
    | cons x q =>
      rw [Clear, hs] at h
      exact h

omit hr in
theorem Account.consented (h : Account env s₀ s) : Account env s₀ s' := by
  have hstore : s'.pipeline.store = s.pipeline.store := hc.left.store
  have hway : ∀ e ∈ s.way, e ∈ s'.way := fun e he => by
    have hhands : s'.hands = s.hands := by rw [State.hands, hc.frame, State.hands]
    rw [State.way, show s'.core.retry = s.core.retry from hc.left.retry, hhands]
    rcases hc.left.queue with ⟨hq, -⟩ | ⟨x, origin, -, hq, -⟩
    · rwa [show s'.pipeline.queue = s.pipeline.queue from hq]
    · rw [show s'.pipeline.queue = s.pipeline.queue ++ [x] from hq, ← List.append_assoc]
      exact List.mem_append_left _ he
  have hf : Forward s s' := by
    refine ⟨hc.left.generation, ?_, ?_, ?_, ?_, fun r hr => Or.inl (by rwa [hstore])⟩
    · rw [show s'.history.discarded = s.history.discarded from hc.left.discarded]
      exact List.Subset.refl _
    · rw [show s'.history.dropped = s.history.dropped from hc.left.dropped]
      exact List.Subset.refl _
    · rw [show s'.history.acked = s.history.acked from hc.left.acked]
      exact List.Subset.refl _
    · rw [hc.written]
      exact List.Subset.refl _
  obtain ⟨new, hnew, hall⟩ := h.events
  have hold : ∀ e ∈ s₀.core.retry ++ s₀.pipeline.queue ++ new.map Admitted.qe,
      e ∈ s'.way ∨ Fate env s' e := fun e he => (hall e he).imp (hway e) (Fate.forward hf)
  refine ⟨hf.generation.trans h.generation, by rw [hc.frame]; exact h.pending, ?_, ?_, ?_, ?_⟩
  · rw [hc.frame]
    refine h.errors.imp id fun herr => ?_
    rcases hc.errors with heq | heq
    · exact heq.trans herr
    · exact heq
  · rw [hstore]
    exact h.usable
  · intro r hr
    rcases h.stored r hr with hr | hrec
    · exact hf.rows r hr
    · exact Or.inr (hf.received hrec)
  · rcases hc.left.queue with ⟨-, hacc⟩ | ⟨e, origin, -, hq, hacc⟩
    · exact ⟨new, (show s'.history.accepted = _ from hacc).trans hnew, hold⟩
    · -- the event that is admitted is in the queue
      refine ⟨new ++ [⟨e, origin⟩], ?_, fun x hx => ?_⟩
      · rw [show s'.history.accepted = _ from hacc, show (custody s).history.accepted = _ from hnew,
          List.append_assoc]
      · rw [List.map_append, ← List.append_assoc] at hx
        rcases List.mem_append.mp hx with hx | hx
        · exact hold x hx
        · have hxe : x = e := List.mem_singleton.mp hx
          refine Or.inl ?_
          rw [State.way, show s'.pipeline.queue = s.pipeline.queue ++ [e] from hq, hxe]
          simp

/-- **Others do not move the pass.** -/
theorem Leg.consented (h : Leg env s₀ s w) : Leg env s₀ s' w := by
  have hpc : s'.frame.pc = s.frame.pc := by rw [hc.frame]
  have hstore : s'.pipeline.store = s.pipeline.store := hc.left.store
  have hgen : s'.pipeline.consentGeneration = s.pipeline.consentGeneration := hc.left.generation
  have hretry : s'.core.retry = s.core.retry := hc.left.retry
  have hpending : s'.pending = s.pending := congrArg (fun db => db.view.events.ordered) hstore
  have hinner : ∀ {n}, Inner env s₀ s w n → Inner env s₀ s' w n := Inner.consented hr hc
  have houter : ∀ {n}, Outer env s₀ s w n → Outer env s₀ s' w n := Outer.consented hr hc
  have hapt : ∀ {keep}, Apt env s keep → Apt env s' keep := fun h => by rwa [Apt, hgen]
  have hforemost : ∀ {events}, Foremost env s events → Foremost env s' events :=
    fun h => ⟨h.ne, by rw [hpending]; exact h.eq⟩
  have htidy : Tidy s → Tidy s' := fun h => ⟨hretry.trans h.retry, by rw [hstore]; exact h.rows⟩
  have hclear : Clear s → Clear s' := Clear.consented hr hc
  cases h with
  | opens h hsite hcost => exact .opens (by rwa [hpc]) (by rwa [hc.frame]) (by rwa [hretry, hstore])
  | takes h hi => exact .takes (hpc.trans h) (by rw [hretry, hstore]; exact hinner hi)
  | reads h hr' hi =>
    exact .reads (by rwa [hpc, hgen]) (hretry.trans hr') (by rw [hstore]; exact hinner hi)
  | sorts h hr' hk hi =>
    exact .sorts (by rwa [hpc, hgen]) (hretry.trans hr') (hapt hk) (by rw [hstore]; exact hinner hi)
  | inserts h hr' hk hi =>
    exact .inserts (by rwa [hpc, hgen]) (hretry.trans hr') (hapt hk)
      (by rw [hstore]; exact hinner hi)
  | fetches h hr' hi =>
    exact .fetches (by rwa [hpc]) (hretry.trans hr') (by rw [hstore]; exact hinner hi)
  | offers h hr' hev hi =>
    exact .offers (by rwa [hpc, hgen]) (hretry.trans hr') (hforemost hev)
      (by rw [hstore]; exact hinner hi)
  | delivers h hr' hev hsent hi =>
    exact .delivers (by rwa [hpc, hgen]) (hretry.trans hr') (hforemost hev) (by rwa [hc.written])
      (by rw [hstore]; exact hinner hi)
  | turns h ht hcost => exact .turns (hpc.trans h) (htidy ht) hcost
  | looks h ht ho =>
    refine .looks ?_ (htidy ht) (houter ho)
    rw [hpc]
    exact h.imp id
      (Or.imp (And.imp_right (And.imp_left hclear)) (And.imp_right (And.imp_left hclear)))
  | goesOn h hfront ht ho =>
    refine .goesOn (by rwa [hpc]) ?_ (htidy ht) (houter ho)
    obtain ⟨e, q, hq, hle⟩ := hfront
    rw [hc.frame]
    rcases hc.left.queue with ⟨heq, -⟩ | ⟨x, origin, -, heq, -⟩
    · exact ⟨e, q, (show s'.pipeline.queue = _ from heq).trans hq, hle⟩
    · refine ⟨e, q ++ [x], ?_, hle⟩
      rw [show s'.pipeline.queue = s.pipeline.queue ++ [x] from heq, hq]
      rfl
  | closes h hcl ht ho => exact .closes (by rwa [hpc]) (hclear hcl) (htidy ht) (houter ho)

end Others

/-! ### `process_incoming` -/

section Steps

variable (ha : Account env s₀ s) (hex : Worker.execute env i s = some s')
include ha hex

theorem Leg.step_opens {n : Nat}
    (hpc : (s.frame.pc = .clearError ∧ n = 13) ∨ (s.frame.pc = .pop ∧ n = 12))
    (hsite : s.frame.site = .main)
    (hcost : w.length + 11 * (s.core.retry.length + env.config.batchSize) +
      9 * s.pipeline.store.rows.length + n ≤ opening env s₀) :
    Account env s₀ s' ∧ Leg env s₀ s' (w ++ [()]) := by
  have hlen : (w ++ [()]).length = w.length + 1 := by simp
  unfold Worker.execute at hex
  rcases hpc with ⟨hpc, rfl⟩ | ⟨hpc, rfl⟩
  · simp only [hpc, Worker.clearError, Option.some.injEq] at hex
    subst hex
    refine ⟨ha.forward ⟨rfl, List.Subset.refl _, List.Subset.refl _, List.Subset.refl _,
      List.Subset.refl _, fun r hr => Or.inl hr⟩ rfl rfl rfl ha.usable fun e he => Or.inl ?_,
      .opens (Or.inr ⟨rfl, rfl⟩) hsite ?_⟩
    · rw [State.way, State.hands, hpc] at he
      exact he
    · change (w ++ [()]).length + 11 * (s.core.retry.length + env.config.batchSize) +
        9 * s.pipeline.store.rows.length + 12 ≤ opening env s₀
      omega
  · simp only [hpc, Worker.pop, EventQueue.popWait, Option.some.injEq] at hex
    subst hex
    refine ⟨ha.silent (by simp [hpc]) ⟨rfl, rfl, rfl, rfl, rfl, rfl⟩ fun e he => ?_,
      .takes rfl (Or.inl ⟨hsite, ?_⟩)⟩
    · rw [State.way, State.hands, hpc, List.append_assoc] at he
      change e ∈ s.core.retry ++ s.pipeline.queue.take _ ++ s.pipeline.queue.drop _
      rw [List.append_assoc, List.take_append_drop]
      exact he
    · have htake : (s.pipeline.queue.take env.config.batchSize).length ≤ env.config.batchSize :=
        List.length_take_le _ _
      change (w ++ [()]).length + (11 * (s.core.retry.length +
        (s.pipeline.queue.take env.config.batchSize).length) +
        9 * s.pipeline.store.rows.length + 10) + 1 ≤ opening env s₀
      omega

theorem Leg.step_takes {l : List QueuedEvent} (hpc : s.frame.pc = .takeRetry l)
    (hi : Inner env s₀ s w
      (11 * (s.core.retry.length + l.length) + 9 * s.pipeline.store.rows.length + 10)) :
    Account env s₀ s' ∧ Leg env s₀ s' (w ++ [()]) := by
  unfold Worker.execute at hex
  simp only [hpc, Worker.takeRetry] at hex
  split at hex
  · obtain rfl := Option.some.inj hex
    have hway : s.way = (s.core.retry ++ l) ++ s.pipeline.queue := by
      rw [State.way, State.hands, hpc]
      rfl
    split
    · -- nothing was taken
      rename_i hnil
      refine ⟨ha.silent (by simp [hpc]) ⟨rfl, rfl, rfl, rfl, rfl, rfl⟩ fun e he => ?_,
        .fetches (n := 2) (Or.inr (Or.inr (Or.inl ⟨false, rfl, rfl⟩))) rfl
          (hi.step rfl rfl rfl ?_)⟩
      · rw [hway, List.isEmpty_iff.mp hnil] at he
        exact he
      · change 9 * s.pipeline.store.rows.length + 2 + 1 ≤ _
        omega
    · refine ⟨ha.silent (by simp [hpc]) ⟨rfl, rfl, rfl, rfl, rfl, rfl⟩ fun e he => ?_,
        .reads (n := 9) (Or.inl ⟨rfl, rfl⟩) rfl (hi.step rfl rfl rfl ?_)⟩
      · rw [hway] at he
        exact he
      · change 11 * (s.core.retry ++ l).length + 9 * s.pipeline.store.rows.length + 9 + 1 ≤ _
        rw [List.length_append]
  · cases hex

theorem Leg.step_reads (hc : s.pipeline.consent = .granted) {batch : List QueuedEvent} {n : Nat}
    (hpc : (s.frame.pc = .readGeneration batch ∧ n = 9) ∨
      (s.frame.pc = .checkConsent s.pipeline.consentGeneration batch ∧ n = 8))
    (hretry : s.core.retry = [])
    (hi : Inner env s₀ s w (11 * batch.length + 9 * s.pipeline.store.rows.length + n)) :
    Account env s₀ s' ∧ Leg env s₀ s' (w ++ [()]) := by
  unfold Worker.execute at hex
  rcases hpc with ⟨hpc, rfl⟩ | ⟨hpc, rfl⟩
  · simp only [hpc, Worker.readGeneration, Option.some.injEq] at hex
    subst hex
    exact ⟨ha.onward hpc (by simp) rfl,
      .reads (n := 8) (Or.inr ⟨rfl, rfl⟩) hretry (hi.step rfl rfl rfl (Nat.le_refl _))⟩
  · simp only [hpc, Worker.checkConsent, hc, ne_eq, not_true_eq_false, if_false,
      Option.some.injEq] at hex
    subst hex
    exact ⟨ha.onward hpc (by simp) rfl,
      .sorts (n := 7) (Or.inl ⟨rfl, rfl⟩) hretry (fun _ hk => by cases hk)
        (hi.step rfl rfl rfl (Nat.le_refl _))⟩

theorem Leg.step_sorts {keep : List Kept} {batch : List QueuedEvent} {n : Nat}
    (hpc : (s.frame.pc = .serialize s.pipeline.consentGeneration keep batch ∧ n = 7) ∨
      (s.frame.pc = .countStale s.pipeline.consentGeneration keep batch ∧ n = 8) ∨
      (s.frame.pc = .countInvalid s.pipeline.consentGeneration keep batch ∧ n = 8))
    (hretry : s.core.retry = []) (hkeep : Apt env s keep)
    (hi : Inner env s₀ s w
      (11 * batch.length + 9 * keep.length + 9 * s.pipeline.store.rows.length + n)) :
    Account env s₀ s' ∧ Leg env s₀ s' (w ++ [()]) := by
  unfold Worker.execute at hex
  rcases hpc with ⟨hpc, rfl⟩ | ⟨hpc, rfl⟩ | ⟨hpc, rfl⟩
  · have hne : s.frame.pc ≠ .clearError := by simp [hpc]
    have hway : s.way = s.core.retry ++ (keep.map Kept.qe ++ batch) ++ s.pipeline.queue := by
      rw [State.way, State.hands, hpc]
      rfl
    simp only [hpc, Option.some.injEq] at hex
    subst hex
    cases batch with
    | nil =>
      rw [List.append_nil] at hway
      rw [Worker.serialize]
      split
      · rename_i hnil
        obtain rfl := List.isEmpty_iff.mp hnil
        refine ⟨ha.silent hne ⟨rfl, rfl, rfl, rfl, rfl, rfl⟩ fun e he => ?_,
          .fetches (n := 2) (Or.inr (Or.inr (Or.inl ⟨false, rfl, rfl⟩))) hretry
            (hi.step rfl rfl rfl ?_)⟩
        · rw [hway] at he
          exact he
        · change 9 * s.pipeline.store.rows.length + 2 + 1 ≤ _
          omega
      · refine ⟨ha.silent hne ⟨rfl, rfl, rfl, rfl, rfl, rfl⟩ fun e he => ?_,
          .inserts (n := 6) (Or.inl ⟨rfl, rfl⟩) hretry hkeep (hi.step rfl rfl rfl ?_)⟩
        · rw [hway] at he
          exact he
        · change 9 * keep.length + 9 * s.pipeline.store.rows.length + 6 + 1 ≤ _
          omega
    | cons qe batch =>
      rw [List.length_cons] at hi
      -- an event that leaves the hands here has its fate
      have hleft : ∀ x : State, x.core.retry = s.core.retry →
          x.hands = keep.map Kept.qe ++ batch → x.pipeline.queue = s.pipeline.queue →
          Fate env x qe → ∀ e ∈ s.way, e ∈ x.way ∨ Fate env x e := by
        intro x hxr hxh hxq hfate e he
        rw [State.way, hxr, hxh, hxq]
        rw [hway] at he
        simp only [List.mem_append, List.mem_cons] at he ⊢
        rcases he with (he | he | rfl | he) | he
        · exact Or.inl (Or.inl (Or.inl he))
        · exact Or.inl (Or.inl (Or.inr (Or.inl he)))
        · exact Or.inr hfate
        · exact Or.inl (Or.inl (Or.inr (Or.inr he)))
        · exact Or.inl (Or.inr he)
      have herr : s.core.pendingError = {} := ha.errors.resolve_left hne
      rw [Worker.serialize]
      split
      · rename_i hstale
        refine ⟨ha.forward ⟨rfl, List.subset_append_left _ _, List.Subset.refl _,
          List.Subset.refl _, List.Subset.refl _, fun r hr => Or.inl hr⟩ rfl rfl herr ha.usable
          (hleft _ rfl rfl rfl (.discarded hstale ?_)),
          .sorts (n := 8) (Or.inr (Or.inl ⟨rfl, rfl⟩)) hretry hkeep (hi.step rfl rfl rfl ?_)⟩
        · exact List.mem_append_right _ (List.mem_singleton_self _)
        · change 11 * batch.length + 9 * keep.length + 9 * s.pipeline.store.rows.length + 8 + 1 ≤ _
          omega
      · rename_i hfresh
        have hfresh : qe.consentGeneration = s.pipeline.consentGeneration := not_not.mp hfresh
        split
        · rename_i why hser
          refine ⟨ha.forward ⟨rfl, List.Subset.refl _, List.subset_append_left _ _,
            List.Subset.refl _, List.Subset.refl _, fun r hr => Or.inl hr⟩ rfl rfl herr ha.usable
            (hleft _ rfl rfl rfl (.dropped hfresh hser ?_)),
            .sorts (n := 8) (Or.inr (Or.inr ⟨rfl, rfl⟩)) hretry hkeep (hi.step rfl rfl rfl ?_)⟩
          · exact List.mem_append_right _ (List.mem_singleton_self _)
          · change
              11 * batch.length + 9 * keep.length + 9 * s.pipeline.store.rows.length + 8 + 1 ≤ _
            omega
        · rename_i payload hser
          refine ⟨ha.silent hne ⟨rfl, rfl, rfl, rfl, rfl, rfl⟩ fun e he => ?_,
            .sorts (n := 7) (Or.inl ⟨rfl, rfl⟩) hretry ?_ (hi.step rfl rfl rfl ?_)⟩
          · rw [hway] at he
            change e ∈ s.core.retry ++ ((keep ++ [(⟨qe, payload⟩ : Kept)]).map Kept.qe ++ batch) ++
              s.pipeline.queue
            simpa using he
          · intro k hk
            rcases List.mem_append.mp hk with hk | hk
            · exact hkeep k hk
            · obtain rfl := List.mem_singleton.mp hk
              exact ⟨hfresh, hser⟩
          · change 11 * batch.length + 9 * (keep ++ [(⟨qe, payload⟩ : Kept)]).length +
              9 * s.pipeline.store.rows.length + 7 + 1 ≤ _
            rw [List.length_append, List.length_singleton]
            omega
  · simp only [hpc, Worker.countStale, Option.some.injEq] at hex
    subst hex
    refine ⟨ha.silent (by simp [hpc]) ⟨rfl, rfl, rfl, rfl, rfl, rfl⟩ fun e he => ?_,
      .sorts (n := 7) (Or.inl ⟨rfl, rfl⟩) hretry hkeep (hi.step rfl rfl rfl (Nat.le_refl _))⟩
    rw [State.way, State.hands, hpc] at he
    exact he
  · simp only [hpc, Worker.countInvalid, Option.some.injEq] at hex
    subst hex
    refine ⟨ha.silent (by simp [hpc]) ⟨rfl, rfl, rfl, rfl, rfl, rfl⟩ fun e he => ?_,
      .sorts (n := 7) (Or.inl ⟨rfl, rfl⟩) hretry hkeep (hi.step rfl rfl rfl (Nat.le_refl _))⟩
    rw [State.way, State.hands, hpc] at he
    exact he

theorem Leg.step_inserts
    (hjson : ∀ e payload, env.serialize e = .ok payload → env.isValidJson payload = true)
    (hr : (machine env).Reach s) (hc : s.pipeline.consent = .granted) (hin : i.Calm)
    {keep : List Kept} {n : Nat}
    (hpc : (s.frame.pc = .boundaryConsent s.pipeline.consentGeneration keep ∧ n = 6) ∨
      (s.frame.pc = .boundaryGeneration s.pipeline.consentGeneration keep ∧ n = 5) ∨
      (s.frame.pc = .insert s.pipeline.consentGeneration keep ∧ n = 4))
    (hretry : s.core.retry = []) (hkeep : Apt env s keep)
    (hi : Inner env s₀ s w (9 * keep.length + 9 * s.pipeline.store.rows.length + n)) :
    Account env s₀ s' ∧ Leg env s₀ s' (w ++ [()]) := by
  unfold Worker.execute at hex
  rcases hpc with ⟨hpc, rfl⟩ | ⟨hpc, rfl⟩ | ⟨hpc, rfl⟩
  · simp only [hpc, Worker.boundaryConsent, hc, ne_eq, not_true_eq_false, if_false,
      Option.some.injEq] at hex
    subst hex
    exact ⟨ha.onward hpc (by simp) rfl,
      .inserts (n := 5) (Or.inr (Or.inl ⟨rfl, rfl⟩)) hretry hkeep
        (hi.step rfl rfl rfl (Nat.le_refl _))⟩
  · simp only [hpc, Worker.boundaryGeneration, ne_eq, not_true_eq_false, if_false,
      Option.some.injEq] at hex
    subst hex
    exact ⟨ha.onward hpc (by simp) rfl,
      .inserts (n := 4) (Or.inr (Or.inr ⟨rfl, rfl⟩)) hretry hkeep
        (hi.step rfl rfl rfl (Nat.le_refl _))⟩
  · have hr' := custody_reachable hr
    obtain ⟨st, db, hins⟩ : ∃ st db, PlayerTrace.insert Faults.none (keep.map Kept.record)
        s.pipeline.store = (st, db) := ⟨_, _, rfl⟩
    obtain ⟨rfl, hev, -⟩ := insert_eq_calm (saved_of_reach hr) hins
    have hstage : (custody s).stage = .committing s.pipeline.consentGeneration keep := by
      change stageOf s.frame.pc = _
      rw [hpc]
      rfl
    obtain ⟨new, hrows, hnew⟩ := Custody.inserted_of_committing
      (Custody.conserved_of_reachable hr') (Custody.named_of_reachable hr') hstage
    have hdb : db.rows = s.pipeline.store.rows ++ new := by
      rw [Database.rows, hev]
      exact hrows
    have hlen : new.length = keep.length := by
      have h := congrArg List.length hnew.items
      simpa using h
    simp only [hpc, Worker.insert, hin.faults, hins, Status.ok_default, if_true,
      Option.some.injEq] at hex
    subst hex
    refine ⟨ha.forward ⟨rfl, List.Subset.refl _, List.Subset.refl _, List.Subset.refl _,
      List.Subset.refl _, fun r hr => Or.inl ?_⟩ rfl rfl (ha.errors.resolve_left (by simp [hpc]))
      (fun x hx => ?_) fun e he => ?_,
      .fetches (n := 3) (Or.inl ⟨_, rfl, rfl⟩) hretry (hi.step rfl rfl rfl ?_)⟩
    · change r ∈ db.rows
      rw [hdb]
      exact List.mem_append_left _ hr
    · change x ∈ db.rows at hx
      rw [hdb] at hx
      rcases List.mem_append.mp hx with hx | hx
      · exact ha.usable x hx
      · obtain ⟨r, hr, t, rfl⟩ := hnew.sound x hx
        obtain ⟨k, hk, rfl⟩ := List.mem_map.mp hr
        have hid : k.qe.event.eventId ≠ "" :=
          (sqlLength_pos.mp ((Custody.named_of_reachable hr').named k.qe
            (Custody.mem_line_of_hands (Custody.mem_hands_of_committing hstage hk)))).1
        simp [Row.usable, Events.toRow, Kept.record, hid, hjson _ _ (hkeep k hk).2]
    · rw [State.way, State.hands, hpc, hretry] at he
      rcases List.mem_append.mp he with he | he
      · obtain ⟨k, hk, rfl⟩ := List.mem_map.mp he
        obtain ⟨x, hx, t, rfl⟩ := hnew.complete _ (List.mem_map_of_mem hk)
        refine Or.inr (.stored (hkeep k hk).1 (hkeep k hk).2 (r := t.toRow k.record) ?_ rfl rfl)
        change _ ∈ db.rows
        rw [hdb]
        exact List.mem_append_right _ hx
      · exact Or.inl (List.mem_append_right _ he)
    · change 9 * db.rows.length + 3 + 1 ≤ _
      rw [hdb, List.length_append, hlen]
      omega

end Steps

/-! ### `deliver_all` -/

theorem length_pending (s : State) : s.pending.length = s.pipeline.store.rows.length :=
  s.pipeline.store.view.events.ordered_perm.length_eq

/-- A batch comes from the store. -/
theorem Foremost.pos {events : List SerializedEvent} (h : Foremost env s events) :
    0 < s.pipeline.store.rows.length := by
  rw [← length_pending, List.length_pos_iff]
  intro hnil
  have heq := h.eq
  rw [hnil, List.take_nil] at heq
  exact h.ne heq

/-- Ordinals begin at one. -/
theorem frontOrdinal_pos (hr : (machine env).Reach s) : 0 < frontOrdinal s.pipeline.queue := by
  cases hq : s.pipeline.queue with
  | nil => exact Nat.lt_of_lt_of_le Nat.zero_lt_one (by decide)
  | cons e q =>
    refine ((Custody.ordered_of_reachable (custody_reachable hr)).bound e ?_).1
    have hmem : e ∈ (custody s).queue := by
      change e ∈ s.pipeline.queue
      rw [hq]
      exact List.mem_cons_self
    exact List.mem_append_left _ (List.mem_append_right _ hmem)

/-- The drain loop is entered, with nothing left but what is in the queue. -/
theorem Leg.enterLoop (ha : Account env s₀ s) (hpc : s.frame.pc ≠ .clearError)
    (hhands : s.hands = []) (hpos : 0 < frontOrdinal s.pipeline.queue) (ht : Tidy s)
    (ho : Outer env s₀ s w 8) :
    Account env s₀ (Worker.enterRemains s .loop) ∧ Leg env s₀ (Worker.enterRemains s .loop) w := by
  unfold Worker.enterRemains
  split
  · rename_i hzero
    exact ⟨ha.goto hpc hhands.symm, .closes (n := 5) (Or.inl ⟨rfl, rfl⟩)
      (Nat.lt_of_le_of_lt (Nat.le_of_eq hzero) hpos) ⟨ht.retry, ht.rows⟩ (ho.le (by omega))⟩
  · exact ⟨ha.goto hpc hhands.symm, .looks (n := 8) (Or.inl ⟨rfl, rfl⟩) ⟨ht.retry, ht.rows⟩ ho⟩

/-- An iteration ends with nothing left but what is in the queue. -/
theorem Leg.afterDelivery (d : Bool) (ha : Account env s₀ s) (hpc : s.frame.pc ≠ .clearError)
    (hhands : s.hands = []) (hpos : 0 < frontOrdinal s.pipeline.queue) (ht : Tidy s)
    (hi : Inner env s₀ s w 0) :
    Account env s₀ (Worker.afterDelivery s d) ∧ Leg env s₀ (Worker.afterDelivery s d) w := by
  rcases hi with ⟨hsite, hcost⟩ | ⟨⟨q, hsite⟩, hcost⟩
  · rw [Worker.afterDelivery, hsite]
    simp only [ha.pending, if_true]
    exact ⟨ha.goto hpc hhands.symm, .turns rfl ⟨ht.retry, ht.rows⟩ hcost⟩
  · rw [Worker.afterDelivery, hsite]
    exact Leg.enterLoop ha hpc hhands hpos ht hcost

section Delivery

variable (ha : Account env s₀ s) (hex : Worker.execute env i s = some s')
  (hr : (machine env).Reach s) (hc : s.pipeline.consent = .granted) (hin : i.Calm)
include ha hex hr hc hin

theorem Leg.step_fetches {n : Nat}
    (hpc : (∃ k, s.frame.pc = .countPersisted k ∧ n = 3) ∨
      (∃ k, s.frame.pc = .countDelivered k ∧ n = 3) ∨
      (∃ d, s.frame.pc = .deliverConsent d ∧ n = 2) ∨
      ∃ d seen, s.frame.pc = .fetch d seen ∧ n = 1)
    (hretry : s.core.retry = []) (hi : Inner env s₀ s w (9 * s.pipeline.store.rows.length + n)) :
    Account env s₀ s' ∧ Leg env s₀ s' (w ++ [()]) := by
  unfold Worker.execute at hex
  rcases hpc with ⟨k, hpc, rfl⟩ | ⟨k, hpc, rfl⟩ | ⟨d, hpc, rfl⟩ | ⟨d, seen, hpc, rfl⟩
  · simp only [hpc, Worker.countPersisted, Option.some.injEq] at hex
    subst hex
    refine ⟨ha.silent (by simp [hpc]) ⟨rfl, rfl, rfl, rfl, rfl, rfl⟩ fun e he => ?_,
      .fetches (n := 2) (Or.inr (Or.inr (Or.inl ⟨_, rfl, rfl⟩))) hretry
        (hi.step rfl rfl rfl (Nat.le_refl _))⟩
    rw [State.way, State.hands, hpc] at he
    exact he
  · simp only [hpc, Worker.countDelivered, Option.some.injEq] at hex
    subst hex
    refine ⟨ha.silent (by simp [hpc]) ⟨rfl, rfl, rfl, rfl, rfl, rfl⟩ fun e he => ?_,
      .fetches (n := 2) (Or.inr (Or.inr (Or.inl ⟨_, rfl, rfl⟩))) hretry
        (hi.step rfl rfl rfl (Nat.le_refl _))⟩
    rw [State.way, State.hands, hpc] at he
    exact he
  · simp only [hpc, Worker.deliverConsent, hc, ne_eq, not_true_eq_false, if_false,
      Option.some.injEq] at hex
    subst hex
    exact ⟨ha.onward hpc (by simp) rfl,
      .fetches (n := 1) (Or.inr (Or.inr (Or.inr ⟨_, _, rfl, rfl⟩))) hretry
        (hi.step rfl rfl rfl (Nat.le_refl _))⟩
  · have hne : s.frame.pc ≠ .clearError := by simp [hpc]
    have hhands : s.hands = [] := by rw [State.hands, hpc]; rfl
    obtain ⟨res, db, hres⟩ : ∃ res db, fetchPending Faults.none env.isValidJson
        env.config.batchSize s.pipeline.store = (res, db) := ⟨_, _, rfl⟩
    obtain ⟨hev, hq, hst, hdb, -⟩ :=
      fetchPending_calm (saved_of_reach hr) hres
    have hwindow : s.pipeline.store.window env.config.batchSize = s.pending.take env.batch := rfl
    -- every row of the window is usable
    have hall : ∀ r ∈ s.pending.take env.batch, r.usable env.isValidJson = true := fun r hr =>
      ha.usable r (Events.mem_ordered.mp (List.mem_of_mem_take hr))
    have hgood : (s.pending.take env.batch).filter (Row.usable env.isValidJson) =
        s.pending.take env.batch := List.filter_eq_self.mpr hall
    have hbad : (s.pending.take env.batch).filter (fun r => !r.usable env.isValidJson) = [] :=
      List.filter_eq_nil_iff.mpr fun r hr => by simp [hall r hr]
    rw [hwindow, hgood] at hev
    rw [hwindow, hbad] at hq hdb
    rw [Events.withoutRows_nil] at hdb
    have hquiet : ¬res.quarantined > 0 := by rw [hq]; exact Nat.lt_irrefl 0
    have hok : res.status.ok = true := hst.mpr hq
    simp only [hpc, Worker.fetch, hin.faults, hres, hquiet, if_false, Worker.reportFetch, hok,
      Bool.true_eq_false, Option.some.injEq] at hex
    subst hex
    -- the state after the fetch, before the worker moves on
    let x := Worker.note (Worker.setStore s db) fun h =>
      { h with dropped := h.dropped ++ s.pipeline.store.gone db }
    have hrows : x.pipeline.store.rows = s.pipeline.store.rows := congrArg Events.rows hdb
    have hpending : x.pending = s.pending := congrArg Events.ordered hdb
    have hax : Account env s₀ x := by
      refine ha.forward ⟨rfl, List.Subset.refl _, List.subset_append_left _ _, List.Subset.refl _,
        List.Subset.refl _, fun r hr => Or.inl (by rwa [hrows])⟩ rfl rfl
        (ha.errors.resolve_left hne) (by rw [hrows]; exact ha.usable) fun e he => Or.inl he
    change Account env s₀ (Worker.afterFetch x d seen res.events) ∧
      Leg env s₀ (Worker.afterFetch x d seen res.events) _
    unfold Worker.afterFetch
    split
    · -- the window is empty, and so is the store
      rename_i hnil
      have hempty : s.pending = [] := by
        rw [List.isEmpty_iff.mp hnil] at hev
        have htake := List.map_eq_nil_iff.mp hev.symm
        have hbatch := batch_pos hr
        cases hp : s.pending with
        | nil => rfl
        | cons r rows =>
          rw [hp] at htake
          obtain ⟨b, hb⟩ : ∃ b, env.batch = b + 1 := ⟨env.batch - 1, by omega⟩
          rw [hb] at htake
          cases htake
      have hpos : 0 < frontOrdinal x.pipeline.queue := frontOrdinal_pos (s := s) hr
      exact Leg.afterDelivery d hax hne hhands hpos ⟨hretry, hrows.trans (rows_of_pending hempty)⟩
        (hi.step rfl rfl rfl (by omega))
    · rename_i hfull
      refine ⟨hax.goto hne hhands.symm, .offers (n := 0) (Or.inl ⟨_, _, rfl, rfl⟩) hretry
        ⟨fun hnil => hfull (by rw [hnil]; rfl), ?_⟩ (hi.step rfl rfl rfl ?_)⟩
      · change res.events = (x.pending.take env.batch).map Row.serialized
        rw [hpending]
        exact hev
      · change 9 * x.pipeline.store.rows.length - 0 + 1 ≤ _
        rw [hrows]
        omega

omit hr in
theorem Leg.step_offers {events : List SerializedEvent} {n : Nat}
    (hpc : (∃ d seen, s.frame.pc = .deliverGeneration d seen events ∧ n = 0) ∨
      (∃ d seen, s.frame.pc = .recheckConsent d seen s.pipeline.consentGeneration events ∧
        n = 1) ∨
      ∃ d, s.frame.pc = .write d s.pipeline.consentGeneration events ∧ n = 2)
    (hretry : s.core.retry = []) (hev : Foremost env s events)
    (hi : Inner env s₀ s w (9 * s.pipeline.store.rows.length - n)) :
    Account env s₀ s' ∧ Leg env s₀ s' (w ++ [()]) := by
  have hpos := hev.pos
  unfold Worker.execute at hex
  rcases hpc with ⟨d, seen, hpc, rfl⟩ | ⟨d, seen, hpc, rfl⟩ | ⟨d, hpc, rfl⟩
  · simp only [hpc, Worker.deliverGeneration, Option.some.injEq] at hex
    subst hex
    refine ⟨ha.onward hpc (by simp) rfl,
      .offers (n := 1) (Or.inr (Or.inl ⟨_, _, rfl, rfl⟩)) hretry ⟨hev.ne, hev.eq⟩
        (hi.step rfl rfl rfl ?_)⟩
    change 9 * s.pipeline.store.rows.length - 1 + 1 ≤ _
    omega
  · simp only [hpc, Worker.recheckConsent, hc, ne_eq, not_true_eq_false, if_false,
      Option.some.injEq] at hex
    subst hex
    refine ⟨ha.onward hpc (by simp) rfl,
      .offers (n := 2) (Or.inr (Or.inr ⟨_, rfl, rfl⟩)) hretry ⟨hev.ne, hev.eq⟩
        (hi.step rfl rfl rfl ?_)⟩
    change 9 * s.pipeline.store.rows.length - 2 + 1 ≤ _
    omega
  · simp only [hpc, Worker.write, hin.sink, Bool.true_eq_false, if_false, Option.some.injEq] at hex
    subst hex
    refine ⟨ha.forward ⟨rfl, List.Subset.refl _, List.Subset.refl _, List.Subset.refl _,
      List.subset_append_left _ _, fun r hr => Or.inl hr⟩ rfl rfl
      (ha.errors.resolve_left (by simp [hpc])) ha.usable fun e he => Or.inl ?_,
      .delivers (n := 3) (Or.inl ⟨_, rfl, rfl⟩) hretry ⟨hev.ne, hev.eq⟩
        (List.subset_append_right _ _) (hi.step rfl rfl rfl ?_)⟩
    · rw [State.way, State.hands, hpc] at he
      exact he
    · change 9 * s.pipeline.store.rows.length - 3 + 1 ≤ _
      omega

theorem Leg.step_delivers {events : List SerializedEvent} {n : Nat}
    (hpc : (∃ d, s.frame.pc = .postConsent d s.pipeline.consentGeneration events ∧ n = 3) ∨
      (∃ d, s.frame.pc = .postGeneration d s.pipeline.consentGeneration events ∧ n = 4) ∨
      ∃ d, s.frame.pc = .acknowledge d events ∧ n = 5)
    (hretry : s.core.retry = []) (hev : Foremost env s events) (hsent : events ⊆ s.log.written)
    (hi : Inner env s₀ s w (9 * s.pipeline.store.rows.length - n)) :
    Account env s₀ s' ∧ Leg env s₀ s' (w ++ [()]) := by
  have hpos := hev.pos
  unfold Worker.execute at hex
  rcases hpc with ⟨d, hpc, rfl⟩ | ⟨d, hpc, rfl⟩ | ⟨d, hpc, rfl⟩
  · simp only [hpc, Worker.postConsent, hc, ne_eq, not_true_eq_false, if_false,
      Option.some.injEq] at hex
    subst hex
    refine ⟨ha.onward hpc (by simp) rfl,
      .delivers (n := 4) (Or.inr (Or.inl ⟨_, rfl, rfl⟩)) hretry ⟨hev.ne, hev.eq⟩ hsent
        (hi.step rfl rfl rfl ?_)⟩
    change 9 * s.pipeline.store.rows.length - 4 + 1 ≤ _
    omega
  · simp only [hpc, Worker.postGeneration, ne_eq, not_true_eq_false, if_false,
      Option.some.injEq] at hex
    subst hex
    refine ⟨ha.onward hpc (by simp) rfl,
      .delivers (n := 5) (Or.inr (Or.inr ⟨_, rfl, rfl⟩)) hretry ⟨hev.ne, hev.eq⟩ hsent
        (hi.step rfl rfl rfl ?_)⟩
    change 9 * s.pipeline.store.rows.length - 5 + 1 ≤ _
    omega
  · set taken := s.pending.take env.batch with htaken
    have hsub : taken.Sublist s.pipeline.store.view.events.ordered := List.take_sublist _ _
    have hnd := s.pipeline.store.view.events.ordered_nodup.sublist hsub
    have hmem : ∀ r ∈ taken, r ∈ s.pipeline.store.rows := fun r hr =>
      Events.mem_ordered.mp (hsub.subset hr)
    have husable : ∀ r ∈ taken, r.usable env.isValidJson = true := fun r hr =>
      ha.usable r (hmem r hr)
    obtain ⟨st, m, db, hack⟩ : ∃ st m db, PlayerTrace.acknowledge Faults.none
        (events.map SerializedEvent.eventId) s.pipeline.store = (st, m, db) := ⟨_, _, _, rfl⟩
    have hres := hack
    rw [hev.eq] at hres
    obtain ⟨rfl, hdb, -⟩ := acknowledge_calm (saved_of_reach hr) hnd hmem husable hres
    have hgone : (s.pipeline.store.gone db).Perm (taken.map Row.item) :=
      Database.gone_withoutRows hnd hmem hdb
    have hrows : ∀ r, r ∈ db.rows ↔ r ∈ s.pipeline.store.rows ∧ r ∉ taken := fun r => by
      rw [Database.rows, hdb]
      exact Events.mem_withoutRows
    simp only [hpc, Worker.acknowledge, hin.faults, hack, Status.ok_default, Bool.true_eq_false,
      if_false, Option.some.injEq] at hex
    subst hex
    refine ⟨ha.forward ⟨rfl, List.Subset.refl _, List.Subset.refl _, List.subset_append_left _ _,
      List.Subset.refl _, fun r hr => ?_⟩ rfl rfl (ha.errors.resolve_left (by simp [hpc]))
      (fun r hr => ha.usable r ((hrows r).mp hr).1) fun e he => Or.inl ?_,
      .fetches (n := 3) (Or.inr (Or.inl ⟨_, rfl, rfl⟩)) hretry (hi.step rfl rfl rfl ?_)⟩
    · by_cases htake : r ∈ taken
      · refine Or.inr ⟨?_, hsent ?_⟩
        · exact List.mem_append_right _ (hgone.mem_iff.mpr (List.mem_map_of_mem htake))
        · rw [hev.eq]
          exact List.mem_map_of_mem htake
      · exact Or.inl ((hrows r).mpr ⟨hr, htake⟩)
    · rw [State.way, State.hands, hpc] at he
      exact he
    · have hlen := Events.length_withoutRows hnd hmem
      have hne : taken ≠ [] := fun hnil => hev.ne (by rw [hev.eq, ← htaken, hnil]; rfl)
      have hone := List.length_pos_iff.mpr hne
      rw [← hdb] at hlen
      change
        9 * db.view.events.rows.length + 3 + 1 ≤ 9 * s.pipeline.store.view.events.rows.length - 5
      omega

end Delivery

/-! ### Between the iterations -/

/-- There are not more events up to a barrier than ordinals. -/
theorem countP_ordinal_le {l : List QueuedEvent}
    (hsorted : l.Pairwise fun x y => x.ordinal < y.ordinal) (hpos : ∀ e ∈ l, 0 < e.ordinal)
    (b : Nat) : (l.countP fun e => decide (e.ordinal ≤ b)) ≤ b := by
  have hnd : ((l.filter fun e => decide (e.ordinal ≤ b)).map QueuedEvent.ordinal).Nodup :=
    List.Pairwise.map _ (fun _ _ h => Nat.ne_of_lt h) (hsorted.sublist List.filter_sublist)
  have hsub : ((l.filter fun e => decide (e.ordinal ≤ b)).map QueuedEvent.ordinal).toFinset ⊆
      Finset.Icc 1 b := fun n hn => by
    obtain ⟨e, he, rfl⟩ := List.mem_map.mp (List.mem_toFinset.mp hn)
    obtain ⟨hel, hle⟩ := List.mem_filter.mp he
    exact Finset.mem_Icc.mpr ⟨hpos e hel, of_decide_eq_true hle⟩
  have hcard := Finset.card_le_card hsub
  rw [List.toFinset_card_of_nodup hnd, Nat.card_Icc, List.length_map] at hcard
  rw [List.countP_eq_length_filter]
  omega

theorem overdue_le (hr : (machine env).Reach s) (b : Nat) :
    (s.pipeline.queue.countP fun e => decide (e.ordinal ≤ b)) ≤ b := by
  refine countP_ordinal_le (queue_sorted hr) (fun e he => ?_) b
  refine ((Custody.ordered_of_reachable (custody_reachable hr)).bound e ?_).1
  exact List.mem_append_left _ (List.mem_append_right _ he)

/-- A barrier is an ordinal. -/
theorem barrier_lt (hr : (machine env).Reach s) (hord : s.client.ordinal < kNoOrdinal) :
    s.frame.barrier < kNoOrdinal :=
  Nat.lt_of_le_of_lt
    (Nat.le_trans (latched_of_reach hr).barrier (barriers_of_reach hr).below.1) hord

theorem countUpTo_calm {db : Database} (h : db.rows = []) (b : Nat) :
    countUpTo Faults.none b db = .ok 0 := by
  change Except.ok (db.rows.countP _) = _
  rw [h]
  rfl

theorem safeFlushSink_ok {a : SinkAnswer} (h : (Worker.safeWrite a).ok = true) :
    (Worker.safeFlushSink a).ok = true := by
  cases a with
  | returned st => exact h
  | threw what => cases what <;> cases h

section Loop

variable (ha : Account env s₀ s) (hex : Worker.execute env i s = some s')
  (hr : (machine env).Reach s) (hord : s.client.ordinal < kNoOrdinal) (hin : i.Calm) (ht : Tidy s)
include ha hex hr hord hin ht

omit hord hin in
theorem Leg.step_turns (hpc : s.frame.pc = .readBarrier) (hcost : w.length + 1 ≤ opening env s₀) :
    Account env s₀ s' ∧ Leg env s₀ s' (w ++ [()]) := by
  unfold Worker.execute at hex
  rw [hpc] at hex
  obtain rfl := Option.some.inj hex
  let x := { s with frame := { s.frame with barrier := s.core.flushBarrier } }
  have hne : s.frame.pc ≠ .clearError := by simp [hpc]
  have hax : Account env s₀ x := ha.silent hne ⟨rfl, rfl, rfl, rfl, rfl, rfl⟩ fun e he => he
  have hhands : x.hands = [] := by
    change s.frame.pc.hands = []
    rw [hpc]
    rfl
  have hpos : 0 < frontOrdinal x.pipeline.queue := frontOrdinal_pos (s := s) hr
  refine Leg.enterLoop hax hne hhands hpos ⟨ht.retry, ht.rows⟩ ?_
  have hle : overdue x ≤ x.frame.barrier := overdue_le hr s.core.flushBarrier
  have hmul : overdue x * env.round ≤ x.frame.barrier * env.round := Nat.mul_le_mul_right _ hle
  have hlen : (w ++ [()]).length = w.length + 1 := by simp
  change (w ++ [()]).length + 8 + overdue x * env.round ≤
    opening env s₀ + 8 + x.frame.barrier * env.round
  omega

theorem Leg.step_looks {n : Nat}
    (hpc : (s.frame.pc = .remainsQueue .loop ∧ n = 8) ∨
      (s.frame.pc = .remainsRetry .loop ∧ Clear s ∧ n = 7) ∨
      (s.frame.pc = .remainsStore .loop ∧ Clear s ∧ n = 6))
    (ho : Outer env s₀ s w n) : Account env s₀ s' ∧ Leg env s₀ s' (w ++ [()]) := by
  have hbarrier := barrier_lt hr hord
  have htidy : ∀ pc, Tidy (s.goto pc) := fun pc => ⟨ht.retry, ht.rows⟩
  unfold Worker.execute at hex
  rcases hpc with ⟨hpc, rfl⟩ | ⟨hpc, hclear, rfl⟩ | ⟨hpc, hclear, rfl⟩
  · simp only [hpc, Worker.remainsQueue, Worker.remainsDone, Option.some.injEq] at hex
    subst hex
    split
    · -- there is work at the front of the queue
      rename_i hfront
      refine ⟨ha.onward hpc (by simp) rfl,
        .goesOn (n := 7) (Or.inl ⟨rfl, rfl⟩) ?_ (htidy _) (ho.step rfl rfl (Nat.le_refl _))⟩
      cases hq : s.pipeline.queue with
      | nil =>
        rw [hq] at hfront
        exact absurd hfront (Nat.not_le_of_lt hbarrier)
      | cons e q =>
        rw [hq] at hfront
        exact ⟨e, q, hq, hfront⟩
    · rename_i hfront
      exact ⟨ha.onward hpc (by simp) rfl,
        .looks (n := 7) (Or.inr (Or.inl ⟨rfl, Nat.lt_of_not_le hfront, rfl⟩)) (htidy _)
          (ho.step rfl rfl (Nat.le_refl _))⟩
  · have hretry : ¬frontOrdinal s.core.retry ≤ s.frame.barrier := by
      rw [ht.retry]
      exact Nat.not_le_of_lt hbarrier
    simp only [hpc, Worker.remainsRetry, if_neg hretry] at hex
    split at hex
    · obtain rfl := Option.some.inj hex
      exact ⟨ha.onward hpc (by simp) rfl,
        .looks (n := 6) (Or.inr (Or.inr ⟨rfl, hclear, rfl⟩)) (htidy _)
          (ho.step rfl rfl (Nat.le_refl _))⟩
    · cases hex
  · simp only [hpc, Worker.remainsStore, hin.faults, countUpTo_calm ht.rows, Nat.lt_irrefl,
      gt_iff_lt, if_false, Worker.remainsDone, Option.some.injEq] at hex
    subst hex
    exact ⟨ha.onward hpc (by simp) rfl,
      .closes (n := 5) (Or.inl ⟨rfl, rfl⟩) hclear (htidy _) (ho.step rfl rfl (Nat.le_refl _))⟩

omit hord hin in
theorem Leg.step_goesOn {n : Nat}
    (hpc : (s.frame.pc = .queueBefore ∧ n = 7) ∨ ∃ q, s.frame.pc = .popMore q ∧ n = 6)
    (hfront : ∃ e q, s.pipeline.queue = e :: q ∧ e.ordinal ≤ s.frame.barrier)
    (ho : Outer env s₀ s w n) : Account env s₀ s' ∧ Leg env s₀ s' (w ++ [()]) := by
  unfold Worker.execute at hex
  rcases hpc with ⟨hpc, rfl⟩ | ⟨q, hpc, rfl⟩
  · simp only [hpc, Worker.queueBefore, Option.some.injEq] at hex
    subst hex
    exact ⟨ha.onward hpc (by simp) rfl,
      .goesOn (n := 6) (Or.inr ⟨_, rfl, rfl⟩) hfront ⟨ht.retry, ht.rows⟩
        (ho.step rfl rfl (Nat.le_refl _))⟩
  · obtain ⟨e, rest, hq, hle⟩ := hfront
    obtain ⟨b, hb⟩ : ∃ b, env.config.batchSize = b + 1 := by
      have hpos := batch_pos hr
      rw [Env.batch, Nat.lt_min] at hpos
      exact ⟨env.config.batchSize - 1, by omega⟩
    simp only [hpc, Worker.popMore, EventQueue.popWait, Option.some.injEq] at hex
    subst hex
    refine ⟨ha.silent (by simp [hpc]) ⟨rfl, rfl, rfl, rfl, rfl, rfl⟩ fun x hx => ?_,
      .takes rfl (Or.inr ⟨⟨q, ?_⟩, ?_⟩)⟩
    · rw [State.way, State.hands, hpc, List.append_assoc] at hx
      change x ∈ s.core.retry ++ s.pipeline.queue.take _ ++ s.pipeline.queue.drop _
      rw [List.append_assoc, List.take_append_drop]
      exact hx
    · -- something was popped: the front of the queue
      change Site.drain q (!(s.pipeline.queue.take env.config.batchSize).isEmpty) = _
      rw [hq, hb]
      rfl
    · have hcount : (s.pipeline.queue.drop env.config.batchSize).countP
          (fun x => decide (x.ordinal ≤ s.frame.barrier)) + 1 ≤ overdue s := by
        have hdrop : ((e :: rest).drop (b + 1)).Sublist rest := List.drop_sublist b rest
        rw [overdue, hq, hb, List.countP_cons, decide_eq_true hle, if_pos rfl]
        exact Nat.add_le_add_right hdrop.countP_le 1
      have htake : (s.pipeline.queue.take env.config.batchSize).length ≤ env.config.batchSize :=
        List.length_take_le _ _
      have hmul := Nat.mul_le_mul_right env.round hcount
      rw [Nat.succ_mul] at hmul
      have hround : env.round = 11 * env.config.batchSize + 13 := rfl
      have hlen : (w ++ [()]).length = w.length + 1 := by simp
      change (w ++ [()]).length + (11 * (s.core.retry.length +
        (s.pipeline.queue.take env.config.batchSize).length) +
        9 * s.pipeline.store.rows.length + 10) + 8 +
        (s.pipeline.queue.drop env.config.batchSize).countP
          (fun x => decide (x.ordinal ≤ s.frame.barrier)) * env.round ≤
        passCost env s₀ s.frame.barrier
      rw [ht.retry, ht.rows]
      rw [Outer] at ho
      simp only [List.length_nil]
      omega

theorem Leg.step_closes {n : Nat} (hpass : s.frame.pc.passing = true)
    (hpc : (s.frame.pc = .flushSink ∧ n = 5) ∨ (s.frame.pc = .takeOutcome ∧ n = 4) ∨
      (s.frame.pc = .remainsQueue (.residual {}) ∧ n = 3) ∨
      (s.frame.pc = .remainsRetry (.residual {}) ∧ n = 2) ∨
      (s.frame.pc = .remainsStore (.residual {}) ∧ n = 1) ∨
      (s.frame.pc = .record {} ∧ n = 0))
    (hclear : Clear s) (ho : Outer env s₀ s w n) :
    Account env s₀ s' ∧ Leg env s₀ s' (w ++ [()]) := by
  have htidy : ∀ pc, Tidy (s.goto pc) := fun pc => ⟨ht.retry, ht.rows⟩
  unfold Worker.execute at hex
  rcases hpc with ⟨hpc, rfl⟩ | ⟨hpc, rfl⟩ | ⟨hpc, rfl⟩ | ⟨hpc, rfl⟩ | ⟨hpc, rfl⟩ | ⟨hpc, rfl⟩
  · simp only [hpc, Worker.flushSink, safeFlushSink_ok hin.sink, Bool.true_eq_false, if_false,
      Option.some.injEq] at hex
    subst hex
    exact ⟨ha.onward hpc (by simp) rfl,
      .closes (n := 4) (Or.inr (Or.inl ⟨rfl, rfl⟩)) hclear (htidy _)
        (ho.step rfl rfl (Nat.le_refl _))⟩
  · have hne : s.frame.pc ≠ .clearError := by simp [hpc]
    have herr := ha.errors.resolve_left hne
    have hhands : s.hands = [] := by rw [State.hands, hpc]; rfl
    simp only [hpc, Worker.takeOutcome, herr, Option.some.injEq] at hex
    subst hex
    let x := { s with core := { s.core with pendingError := {} } }
    have hax : Account env s₀ x :=
      ha.silent hne ⟨rfl, rfl, rfl, rfl, rfl, herr.symm⟩ fun e he => he
    change Account env s₀ (Worker.enterRemains x (.residual {})) ∧
      Leg env s₀ (Worker.enterRemains x (.residual {})) _
    unfold Worker.enterRemains
    split
    · exact ⟨hax.goto hne hhands.symm,
        .closes (n := 0) (Or.inr (Or.inr (Or.inr (Or.inr (Or.inr ⟨rfl, rfl⟩))))) hclear
          ⟨ht.retry, ht.rows⟩ (ho.step rfl rfl (by omega))⟩
    · exact ⟨hax.goto hne hhands.symm,
        .closes (n := 3) (Or.inr (Or.inr (Or.inl ⟨rfl, rfl⟩))) hclear ⟨ht.retry, ht.rows⟩
          (ho.step rfl rfl (Nat.le_refl _))⟩
  · simp only [hpc, Worker.remainsQueue, if_neg (Nat.not_le_of_lt hclear), Option.some.injEq] at hex
    subst hex
    exact ⟨ha.onward hpc (by simp) rfl,
      .closes (n := 2) (Or.inr (Or.inr (Or.inr (Or.inl ⟨rfl, rfl⟩)))) hclear (htidy _)
        (ho.step rfl rfl (Nat.le_refl _))⟩
  · have hretry : ¬frontOrdinal s.core.retry ≤ s.frame.barrier := by
      rw [ht.retry]
      exact Nat.not_le_of_lt (barrier_lt hr hord)
    simp only [hpc, Worker.remainsRetry, if_neg hretry] at hex
    split at hex
    · obtain rfl := Option.some.inj hex
      exact ⟨ha.onward hpc (by simp) rfl,
        .closes (n := 1) (Or.inr (Or.inr (Or.inr (Or.inr (Or.inl ⟨rfl, rfl⟩))))) hclear (htidy _)
          (ho.step rfl rfl (Nat.le_refl _))⟩
    · cases hex
  · simp only [hpc, Worker.remainsStore, hin.faults, countUpTo_calm ht.rows, Nat.lt_irrefl,
      gt_iff_lt, if_false, Worker.remainsDone, Option.some.injEq] at hex
    subst hex
    exact ⟨ha.onward hpc (by simp) rfl,
      .closes (n := 0) (Or.inr (Or.inr (Or.inr (Or.inr (Or.inr ⟨rfl, rfl⟩))))) hclear (htidy _)
        (ho.step rfl rfl (Nat.le_refl _))⟩
  · rw [hpc] at hpass
    cases hpass

end Loop

/-! ### The whole pass -/

/-- **A step of the worker.** -/
theorem Leg.worker
    (hjson : ∀ e payload, env.serialize e = .ok payload → env.isValidJson payload = true)
    (hr : (machine env).Reach s) (hsm : Smooth s (.worker i)) (ha : Account env s₀ s)
    (h : Leg env s₀ s w) (hs : Worker.step env i s = some s') :
    Account env s₀ s' ∧ Leg env s₀ s' (w ++ [()]) := by
  have hin := hsm.calm i rfl
  have hex := Worker.execute_of_step hin.raise hs
  cases h with
  | opens hpc hsite hcost => exact Leg.step_opens ha hex hpc hsite hcost
  | takes hpc hi => exact Leg.step_takes ha hex hpc hi
  | reads hpc hretry hi => exact Leg.step_reads ha hex hsm.consent hpc hretry hi
  | sorts hpc hretry hkeep hi => exact Leg.step_sorts ha hex hpc hretry hkeep hi
  | inserts hpc hretry hkeep hi =>
    exact Leg.step_inserts ha hex hjson hr hsm.consent hin hpc hretry hkeep hi
  | fetches hpc hretry hi => exact Leg.step_fetches ha hex hr hsm.consent hin hpc hretry hi
  | offers hpc hretry hev hi => exact Leg.step_offers ha hex hsm.consent hin hpc hretry hev hi
  | delivers hpc hretry hev hsent hi =>
    exact Leg.step_delivers ha hex hr hsm.consent hin hpc hretry hev hsent hi
  | turns hpc ht hcost => exact Leg.step_turns ha hex hr ht hpc hcost
  | looks hpc ht ho => exact Leg.step_looks ha hex hr hsm.ordinal hin ht hpc ho
  | goesOn hpc hfront ht ho => exact Leg.step_goesOn ha hex hr ht hpc hfront ho
  | closes hpc hclear ht ho =>
    exact Leg.step_closes ha hex hr hsm.ordinal hin ht hsm.passing hpc hclear ho

/-- **A run of a pass**: the account is kept, and the steps are counted. -/
theorem leg_of_run
    (hjson : ∀ e payload, env.serialize e = .ok payload → env.isValidJson payload = true)
    (hr : (machine env).Reach s₀) (ha : Account env s₀ s₀) (hleg : Leg env s₀ s₀ [])
    (h : ((machine env).observed ticks).RunIf (fun p l => Smooth p.1 l) (s₀, []) (s, w)) :
    (machine env).Reach s ∧ Account env s₀ s ∧ Leg env s₀ s w := by
  refine hr.observed_runIf_rule
    (P := fun s w => (machine env).Reach s ∧ Account env s₀ s ∧ Leg env s₀ s w)
    (fun s w l s' hr hi hok hs => ⟨hr.step hs, ?_⟩) h ⟨hr, ha, hleg⟩
  obtain ⟨-, ha, hleg⟩ := hi
  rcases consented_of_step hr hok.consent hs with ⟨i, rfl, hw⟩ | ⟨hl, hcons⟩
  · exact Leg.worker hjson hr hok ha hleg hw
  · have hnone : ticks s l = [] := by
      cases l with
      | worker i => exact absurd rfl (hl i)
      | call | caller => rfl
    rw [hnone, List.append_nil]
    exact ⟨ha.consented hcons, hleg.consented hr hcons⟩

/-- The steps taken so far. -/
theorem Leg.cost (h : Leg env s₀ s w) : w.length ≤ passCost env s₀ s.frame.barrier := by
  have hinner : ∀ {n}, Inner env s₀ s w n → w.length ≤ passCost env s₀ s.frame.barrier := by
    rintro n (⟨-, hcost⟩ | ⟨-, hcost⟩)
    · rw [passCost]
      omega
    · omega
  have houter : ∀ {n}, Outer env s₀ s w n → w.length ≤ passCost env s₀ s.frame.barrier :=
    fun ho => by
      rw [Outer] at ho
      omega
  cases h with
  | opens _ _ hcost | turns _ _ hcost =>
    rw [passCost]
    omega
  | takes _ hi | reads _ _ hi | sorts _ _ _ hi | inserts _ _ _ hi | fetches _ _ hi
  | offers _ _ _ hi | delivers _ _ _ _ hi => exact hinner hi
  | looks _ _ ho | goesOn _ _ _ ho | closes _ _ _ ho => exact houter ho

/-- **The stall test is never made.** -/
theorem Leg.not_stalled (h : Leg env s₀ s w) (q : Nat) : s.frame.pc ≠ .stallCheck q := by
  intro hq
  cases h with
  | opens hpc | reads hpc | goesOn hpc => simp [hq] at hpc
  | takes hpc | turns hpc => simp [hq] at hpc
  | sorts hpc | inserts hpc | looks hpc | offers hpc | delivers hpc => simp [hq] at hpc
  | fetches hpc => simp [hq] at hpc
  | closes hpc => simp [hq] at hpc

/-- A pass that has ended has found everything clear. -/
theorem Leg.ended (h : Leg env s₀ s w) (hend : s.frame.pc.passing = false) :
    s.frame.pc = .record {} ∧ Clear s ∧ Tidy s := by
  cases h with
  | closes hpc hclear ht =>
    refine ⟨?_, hclear, ht⟩
    rcases hpc with ⟨hpc, -⟩ | ⟨hpc, -⟩ | ⟨hpc, -⟩ | ⟨hpc, -⟩ | ⟨hpc, -⟩ | ⟨hpc, -⟩
    · simp [hpc, WorkerPc.passing] at hend
    · simp [hpc, WorkerPc.passing] at hend
    · simp [hpc, WorkerPc.passing] at hend
    · simp [hpc, WorkerPc.passing] at hend
    · simp [hpc, WorkerPc.passing] at hend
    · exact hpc
  | takes hpc | turns hpc => simp [hpc, WorkerPc.passing] at hend
  | opens hpc | reads hpc =>
    rcases hpc with ⟨hpc, -⟩ | ⟨hpc, -⟩ <;> simp [hpc, WorkerPc.passing] at hend
  | goesOn hpc => rcases hpc with ⟨hpc, -⟩ | ⟨_, hpc, -⟩ <;> simp [hpc, WorkerPc.passing] at hend
  | sorts hpc | inserts hpc | looks hpc =>
    rcases hpc with ⟨hpc, -⟩ | ⟨hpc, -⟩ | ⟨hpc, -⟩ <;> simp [hpc, WorkerPc.passing] at hend
  | offers hpc =>
    rcases hpc with ⟨_, _, hpc, -⟩ | ⟨_, _, hpc, -⟩ | ⟨_, hpc, -⟩ <;>
      simp [hpc, WorkerPc.passing] at hend
  | delivers hpc =>
    rcases hpc with ⟨_, hpc, -⟩ | ⟨_, hpc, -⟩ | ⟨_, hpc, -⟩ <;> simp [hpc, WorkerPc.passing] at hend
  | fetches hpc =>
    rcases hpc with ⟨_, hpc, -⟩ | ⟨_, hpc, -⟩ | ⟨_, hpc, -⟩ | ⟨_, _, hpc, -⟩ <;>
      simp [hpc, WorkerPc.passing] at hend

/-- Under consent nobody holds the retry mutex. -/
theorem retryFree_of_consent (hr : (machine env).Reach s) (hc : s.pipeline.consent = .granted) :
    s.retryFree = true := by
  unfold State.retryFree
  split
  · rfl
  · rename_i t st pc hsec
    cases pc with
    | countDiscarded n =>
      have hrev : (custody s).revocation = some (st, .countDiscarded n) := by
        change revocationOf s.client.consentSection = _
        rw [hsec]
        rfl
      have hg := Custody.gated_of_reachable (custody_reachable hr)
      exact absurd hc ((hg.holder _ _ hrev).2.2.1 (Or.inl rfl))
    | _ => rfl

/-- Inside a pass the worker waits for nothing but a call made from its own thread and the retry
mutex, whatever the environment answers. -/
theorem Worker.step_of_passing (i : Input) (hpass : s.frame.pc.passing = true)
    (hfree : (s.callers 0).free = true) (hretry : s.retryFree = true) :
    ∃ s', step env i s = some s' := by
  rw [step, if_neg (by simp [hfree])]
  cases i.raise with
  | some what =>
    have hloop : s.frame.pc.inLoop = true := by
      generalize s.frame.pc = pc at hpass
      cases pc <;> first | rfl | cases hpass
    exact ⟨_, if_pos hloop⟩
  | none =>
    dsimp only
    unfold execute
    cases hpc : s.frame.pc with
    | takeRetry l => exact ⟨_, by dsimp only [takeRetry]; rw [if_pos hretry]⟩
    | remainsRetry r => exact ⟨_, by dsimp only [remainsRetry]; rw [if_pos hretry]⟩
    | holdForRetry keep =>
      dsimp only [holdForRetry]
      rw [if_pos hretry]
      split <;> exact ⟨_, rfl⟩
    | exited => simp [hpc, WorkerPc.passing] at hpass
    | _ => exact ⟨_, rfl⟩

/-- Under consent it waits for nothing but such a call. -/
theorem passing_enabled (hr : (machine env).Reach s) (hpass : s.frame.pc.passing = true)
    (hc : s.pipeline.consent = .granted) (hfree : (s.callers 0).free = true) :
    ∃ s', step env s (.worker {}) = some s' :=
  Worker.step_of_passing {} hpass hfree (retryFree_of_consent hr hc)

/-- How a pass in the state `s`, begun in `s₀`, has concluded on an event: it was delivered, or
it was not of this generation, or it cannot be serialized. -/
structure Concluded (env : Env) (s₀ s : State) (e : QueuedEvent) : Prop where
  received : e.consentGeneration = s₀.pipeline.consentGeneration →
    ∀ payload, env.serialize e.event = .ok payload → Received s e.item (e.sent payload)
  discarded : e.consentGeneration ≠ s₀.pipeline.consentGeneration → e.item ∈ s.history.discarded
  dropped : e.consentGeneration = s₀.pipeline.consentGeneration →
    ∀ why, env.serialize e.event = .error why → e.item ∈ s.history.dropped

/-- **Everything up to the barrier is done**: the rows that were stored are delivered, and what
was waiting at the start of the pass, or was accepted since, is concluded on. -/
structure Exhausted (env : Env) (s₀ s : State) : Prop where
  covers : ∀ p ∈ s.log.issued, p.1 ≤ s.frame.want → p.2 ≤ s.frame.barrier
  queue : Above s.frame.barrier s.pipeline.queue
  retry : s.core.retry = []
  rows : s.pipeline.store.rows = []
  stored : ∀ r ∈ s₀.pipeline.store.rows, Received s r.item r.serialized
  events : ∃ new, s.history.accepted = s₀.history.accepted ++ new ∧
    ∀ e ∈ s₀.core.retry ++ s₀.pipeline.queue ++ new.map Admitted.qe,
      e.ordinal ≤ s.frame.barrier → Concluded env s₀ s e

theorem Fate.concluded {e : QueuedEvent} (h : Fate env s e) (hrows : s.pipeline.store.rows = [])
    (hgen : s.pipeline.consentGeneration = s₀.pipeline.consentGeneration) :
    Concluded env s₀ s e := by
  cases h with
  | discarded hold h =>
    rw [hgen] at hold
    exact ⟨fun heq => absurd heq hold, fun _ => h, fun heq => absurd heq hold⟩
  | dropped heq hser h =>
    rw [hgen] at heq
    exact ⟨fun _ p hp => (nomatch hser.symm.trans hp), fun hold => absurd heq hold, fun _ _ _ => h⟩
  | stored _ _ hr =>
    rw [hrows] at hr
    exact absurd hr nofun
  | received heq hser h =>
    rw [hgen] at heq
    refine ⟨fun _ p hp => ?_, fun hold => absurd heq hold,
      fun _ _ hp => (nomatch hser.symm.trans hp)⟩
    obtain rfl := Except.ok.inj (hser.symm.trans hp)
    exact h

theorem Leg.exhausted (hr : (machine env).Reach s) (ha : Account env s₀ s) (h : Leg env s₀ s w)
    (hend : s.frame.pc.passing = false) : Exhausted env s₀ s := by
  obtain ⟨hpc, hclear, ht⟩ := h.ended hend
  have hhands : s.hands = [] := by rw [State.hands, hpc]; rfl
  have habove : Above s.frame.barrier s.pipeline.queue := above_of_front (queue_sorted hr) hclear
  refine ⟨?_, habove, ht.retry, ht.rows, fun r hr => ?_, ?_⟩
  · exact (latched_of_reach hr).armed (Or.inr (by rw [hpc]; rfl))
  · rcases ha.stored r hr with hr | hrec
    · rw [ht.rows] at hr
      cases hr
    · exact hrec
  · obtain ⟨new, hnew, hall⟩ := ha.events
    refine ⟨new, hnew, fun e he hle => ?_⟩
    rcases hall e he with hway | hfate
    · rw [State.way, ht.retry, hhands] at hway
      exact absurd hle (Nat.not_le_of_lt (habove e hway))
    · exact hfate.concluded ht.rows ha.generation

/-- **A flush pass without faults succeeds.** From any state in which the worker latches tokens,
with whatever is in the queue, in the retry buffer and in the store, as long as the rows are
usable; if consent stays granted and no store operation, no call of the sink and nothing else in
the worker's loop fails, whatever other threads do: the pass takes a bounded number of steps of the
worker and waits for nothing; the stall test is never made; and the pass ends by recording
`Ok`, with everything up to its barrier delivered – but for the events of an older consent
generation, which are discarded, and those that cannot be serialized, which are dropped. -/
theorem fault_free_pass {s₁ : State} {i₀ : Input}
    (hjson : ∀ e payload, env.serialize e = .ok payload → env.isValidJson payload = true)
    (hr : (machine env).Reach s₀) (hpc : s₀.frame.pc = .latch)
    (htokens : s₀.frame.handledFlush < s₀.core.flushSeq)
    (husable : ∀ r ∈ s₀.pipeline.store.rows, r.usable env.isValidJson = true)
    (hcalm : i₀.Calm) (hlatch : step env s₀ (.worker i₀) = some s₁)
    (h : ((machine env).observed ticks).RunIf (fun p l => Smooth p.1 l) (s₁, []) (s, w)) :
    (w.length ≤ passCost env s₀ s.frame.barrier ∧
      (s.frame.pc.passing = true → s.pipeline.consent = .granted → (s.callers 0).free = true →
        ∃ s', step env s (.worker {}) = some s')) ∧
    (∀ q, s.frame.pc ≠ .stallCheck q) ∧
    (s.frame.pc.passing = false → s.frame.pc = .record {} ∧ Exhausted env s₀ s) := by
  have hr₁ : (machine env).Reach s₁ :=
    hr.step (show (machine env).step s₀ (.worker i₀) = some s₁ from hlatch)
  have hex := Worker.execute_of_step hcalm.raise hlatch
  unfold Worker.execute at hex
  rw [hpc] at hex
  obtain rfl := Option.some.inj hex
  have hpc₁ : (Worker.latch s₀).frame.pc = .clearError := if_pos (decide_eq_true htokens)
  have hhands : (Worker.latch s₀).hands = [] := by rw [State.hands, hpc₁]; rfl
  have ha : Account env (Worker.latch s₀) (Worker.latch s₀) := by
    refine ⟨rfl, decide_eq_true htokens, Or.inl hpc₁, husable, fun r hr => Or.inl hr,
      [], (List.append_nil _).symm, fun e he => Or.inl ?_⟩
    rw [State.way, hhands]
    simpa using he
  have hleg : Leg env (Worker.latch s₀) (Worker.latch s₀) [] := by
    refine .opens (n := 13) (Or.inl ⟨hpc₁, rfl⟩) rfl ?_
    rw [opening, List.length_nil]
    omega
  obtain ⟨hr', ha, hleg⟩ := leg_of_run hjson hr₁ ha hleg h
  refine ⟨⟨hleg.cost, passing_enabled hr'⟩, hleg.not_stalled, fun hend => ⟨(hleg.ended hend).1, ?_⟩⟩
  obtain ⟨hcovers, hqueue, hretry, hrows, hstored, hevents⟩ := hleg.exhausted hr' ha hend
  refine ⟨hcovers, hqueue, hretry, hrows, hstored, ?_⟩
  obtain ⟨new, hnew, hall⟩ := hevents
  exact ⟨new, hnew, fun e he hle => ⟨(hall e he hle).1, (hall e he hle).2, (hall e he hle).3⟩⟩

/-! ### Two small passes -/

/-- A step of a pass, as it is evaluated. -/
def smoothly (p : State × List Unit) (_ : Label) : Bool :=
  p.1.frame.pc.passing && decide (p.1.pipeline.consent = .granted) &&
    decide (p.1.client.ordinal < kNoOrdinal)

/-- A pass by evaluation: the labels `ls` lead to its latch, and `m` steps of the worker to a
state with the property `p`. -/
theorem pass_of_works {c : State} (hstart : (machine env).start c) (ls : List Label) (m : Nat)
    (p : State → State → Bool)
    (h : ((machine env).exec c ls).any (fun s₀ =>
      (match s₀.frame.pc with
        | .latch => true
        | _ => false) &&
      decide (s₀.frame.handledFlush < s₀.core.flushSeq) &&
      (step env s₀ (.worker {})).any fun s₁ =>
        ((machine env).observed ticks).meets smoothly (s₁, []) (Label.works m) &&
        (((machine env).observed ticks).exec (s₁, []) (Label.works m)).any fun q =>
          p s₀ q.1) = true) :
    ∃ s₀ s₁ s w, (machine env).Reach s₀ ∧ s₀.frame.pc = .latch ∧
      s₀.frame.handledFlush < s₀.core.flushSeq ∧ step env s₀ (.worker {}) = some s₁ ∧
      ((machine env).observed ticks).RunIf (fun p l => Smooth p.1 l) (s₁, []) (s, w) ∧
      p s₀ s = true := by
  obtain ⟨s₀, hex, hp⟩ := Lts.Machine.exec_of_any h
  simp only [Bool.and_eq_true, decide_eq_true_eq] at hp
  obtain ⟨⟨hpc, htokens⟩, hany⟩ := hp
  rcases hs : step env s₀ (.worker {}) with _ | s₁
  · simp [hs] at hany
  · simp only [hs, Option.any_some, Bool.and_eq_true] at hany
    obtain ⟨⟨s, w⟩, hrun, hend⟩ := Lts.Machine.exec_of_any hany.2
    refine ⟨s₀, s₁, s, w, ⟨c, hstart, Lts.Machine.run_of_exec hex⟩, ?_, htokens, hs, ?_, hend⟩
    · split at hpc
      · assumption
      · cases hpc
    · refine Lts.Machine.runIf_of_meets (fun l hl q hq => ?_) hrun hany.1
      simp only [smoothly, Bool.and_eq_true, decide_eq_true_eq] at hq
      refine ⟨hq.1.1, hq.1.2, hq.2, fun i heq => ?_⟩
      obtain rfl : i = {} := Label.worker.inj (heq.symm.trans (List.eq_of_mem_replicate hl))
      exact ⟨rfl, rfl, rfl⟩

/-- A pass over one event, which it delivers. -/
theorem fault_free_pass_sample : ∃ s₀ s, (machine sample).Reach s₀ ∧ s₀.frame.pc = .latch ∧
    s₀.pipeline.queue.length = 1 ∧ s.frame.pc = .record {} ∧ Exhausted sample s₀ s := by
  obtain ⟨s₀, s₁, s, w, hr, hpc, htokens, hlatch, hrun, hp⟩ := pass_of_works sampleClient_start
    (Label.starts 1 "s" "e" ++ [.call 3 .flush] ++ Label.steps 3 4 ++ Label.works 1) 31
    (fun s₀ s => decide (s₀.pipeline.queue.length = 1) && decide (s₀.pipeline.store.rows = []) &&
      !s.frame.pc.passing) (by decide)
  simp only [Bool.and_eq_true, decide_eq_true_eq, Bool.not_eq_true'] at hp
  have husable : ∀ r ∈ s₀.pipeline.store.rows, r.usable sample.isValidJson = true := by
    rw [hp.1.2]
    exact nofun
  obtain ⟨-, -, hend⟩ := fault_free_pass (fun _ _ _ => rfl) hr hpc htokens husable ⟨rfl, rfl, rfl⟩
    hlatch hrun
  exact ⟨s₀, s, hr, hpc, hp.1.1, hend hp.2⟩

/-- An insertion that fails at its commit. -/
def commitFails : Input where
  faults := fun p => if p = .exec .commit then some "disk full" else none

/-- **An event of an older generation is not delivered.** The insertion of an event fails; before
the worker puts it into the retry buffer, consent is revoked and granted again. The next pass
finds it there, records `Ok`, and neither the sink nor an acknowledgment has seen it. -/
theorem stale_not_delivered : ∃ s₀ s₁ s w, (machine sample).Reach s₀ ∧ s₀.frame.pc = .latch ∧
    s₀.frame.handledFlush < s₀.core.flushSeq ∧ s₀.pipeline.store.rows = [] ∧
    step sample s₀ (.worker {}) = some s₁ ∧
    ((machine sample).observed ticks).RunIf (fun p l => Smooth p.1 l) (s₁, []) (s, w) ∧
    s.frame.pc = .record {} ∧ ∃ e ∈ s₀.core.retry, e.ordinal ≤ s.frame.barrier ∧
      e.item ∉ s.history.acked ∧ s.log.written = [] := by
  obtain ⟨s₀, s₁, s, w, hr, hpc, htokens, hlatch, hrun, hp⟩ := pass_of_works sampleClient_start
    (Label.starts 1 "s" "e" ++ Label.works 10 ++ [.worker commitFails] ++ Label.works 1 ++
      Label.consents 2 .denied 10 ++ Label.consents 2 .granted 2 ++ Label.works 4 ++
      [.call 3 .flush] ++ Label.steps 3 4) 19
    (fun s₀ s => decide (s₀.pipeline.store.rows = []) &&
      (match s.frame.pc with
        | .record o => decide (o = {})
        | _ => false) &&
      s₀.core.retry.any fun e => decide (e.ordinal ≤ s.frame.barrier) &&
        decide (e.item ∉ s.history.acked) && decide (s.log.written = [])) (by decide)
  simp only [Bool.and_eq_true, decide_eq_true_eq, List.any_eq_true] at hp
  obtain ⟨⟨hrows, hrecord⟩, e, he, ⟨hle, hacked⟩, hwritten⟩ := hp
  refine ⟨s₀, s₁, s, w, hr, hpc, htokens, hrows, hlatch, hrun, ?_, e, he, hle, hacked, hwritten⟩
  split at hrecord
  · rename_i o hrec
    rw [hrec, of_decide_eq_true hrecord]
  · cases hrecord

end PlayerTrace
