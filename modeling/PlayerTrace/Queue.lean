import PlayerTrace.Basic

/-!
# The in-memory queue

`src/event_queue.cpp`: a bounded queue with the policy RejectNewest, front first. Each
operation is one critical section of the queue's mutex. The condition variable and the
`kicked_` flag only decide *when* `pop_wait` returns, never what it moves, so the pop is
enabled at any time.
-/

namespace PlayerTrace

/-- The marker `front_ordinal` and `retry_front_ordinal` return for "empty":
`std::numeric_limits<std::uint64_t>::max()`. -/
def kNoOrdinal : Nat := 2 ^ 64 - 1

/-- The ordinal of the first event, or `kNoOrdinal`: `EventQueue::front_ordinal`, and
`WorkerCore::retry_front_ordinal` on the retry buffer. -/
def frontOrdinal : List QueuedEvent → Nat
  | [] => kNoOrdinal
  | e :: _ => e.ordinal

namespace EventQueue

/-- `EventQueue::full`. -/
def full (capacity : Nat) (q : List QueuedEvent) : Bool := decide (capacity ≤ q.length)

/-- `EventQueue::has_room_for`. -/
def hasRoomFor (capacity : Nat) (q : List QueuedEvent) (count : Nat) : Bool :=
  let used := if q.length < capacity then q.length else capacity
  decide (count ≤ capacity - used)

/-- `EventQueue::try_push`: the new queue, or nothing when the event is rejected. -/
def tryPush (capacity : Nat) (q : List QueuedEvent) (e : QueuedEvent) :
    Option (List QueuedEvent) :=
  if capacity ≤ q.length then none else some (q ++ [e])

/-- `EventQueue::pop_wait` once it has stopped waiting: what it moves out, and what it
leaves. -/
def popWait (q : List QueuedEvent) (max : Nat) : List QueuedEvent × List QueuedEvent :=
  (q.take max, q.drop max)

/-- What is popped and what is left make up the queue. -/
theorem exists_popWait (q : List QueuedEvent) (max : Nat) :
    ∃ popped rest, popWait q max = (popped, rest) ∧ popped.length + rest.length = q.length := by
  refine ⟨_, _, rfl, ?_⟩
  rw [← List.length_append, List.take_append_drop]

theorem tryPush_eq_some {capacity : Nat} {q q' : List QueuedEvent} {e : QueuedEvent} :
    tryPush capacity q e = some q' ↔ q.length < capacity ∧ q' = q ++ [e] := by
  unfold tryPush
  split
  · simp; omega
  · simp; constructor
    · rintro rfl; exact ⟨by omega, rfl⟩
    · rintro ⟨-, rfl⟩; rfl

end EventQueue

/-- An event at or below the barrier is in front, if there is any: what the flush loop
reads off the front alone, for a list in admission order. -/
theorem frontOrdinal_le_of_mem {q : List QueuedEvent} {b : Nat}
    (hsorted : q.Pairwise fun x y => x.ordinal < y.ordinal) {e : QueuedEvent} (he : e ∈ q)
    (hb : e.ordinal ≤ b) : frontOrdinal q ≤ b := by
  cases q with
  | nil => simp at he
  | cons x q =>
    rcases List.mem_cons.mp he with rfl | he
    · exact hb
    · exact Nat.le_trans (Nat.le_of_lt (List.rel_of_pairwise_cons hsorted he)) hb

end PlayerTrace
