import Mathlib.Data.Finset.Basic

/-!
# Condition variables

The bookkeeping of a condition variable: which waiters are in its wait set, and which notifiers
have left the mutex with a notification still to be made. A waiter goes to sleep in the same
critical section in which it has found its predicate false; a notifier changes the protected
state in its section and notifies after it. Wake-ups without a notification, spurious ones or by
a time-out, may come at any time.

The pattern is sound if every change that can make a predicate true is followed by a
notification: then no waiter sleeps over a true predicate, unless the notification is on its way
(`Monitor.Alert`). One rule for each thing that can happen says that this is kept.
-/

/-- The waiters asleep at a condition variable, and the notifications owed to it. -/
structure Monitor (ω ν : Type*) where
  asleep : Finset ω
  owing : Finset ν

namespace Monitor

variable {ω ν : Type*}

/-- Nobody waits, and nothing is owed. -/
def quiet : Monitor ω ν := ⟨∅, ∅⟩

/-- A waiter goes to sleep. -/
def doze [DecidableEq ω] (m : Monitor ω ν) (w : ω) : Monitor ω ν :=
  { m with asleep := insert w m.asleep }

/-- A waiter wakes up by itself. -/
def rouse [DecidableEq ω] (m : Monitor ω ν) (w : ω) : Monitor ω ν :=
  { m with asleep := m.asleep.erase w }

/-- A notifier leaves the mutex with a notification to make. -/
def owe [DecidableEq ν] (m : Monitor ω ν) (n : ν) : Monitor ω ν :=
  { m with owing := insert n m.owing }

/-- The notification is made, to all. -/
def notify [DecidableEq ν] (m : Monitor ω ν) (n : ν) : Monitor ω ν := ⟨∅, m.owing.erase n⟩

/-- **Nobody sleeps over a true predicate**, unless a notification is owed. -/
def Alert (ready : ω → Prop) (m : Monitor ω ν) : Prop :=
  ∀ w ∈ m.asleep, ready w → m.owing.Nonempty

variable {ready ready' : ω → Prop} {m : Monitor ω ν}

theorem alert_quiet : Alert ready (quiet : Monitor ω ν) := by
  intro w hw
  exact absurd hw (Finset.notMem_empty w)

theorem Alert.doze [DecidableEq ω] {w : ω} (h : Alert ready m) (hw : ¬ready w) :
    Alert ready (m.doze w) := by
  intro v hv hready
  rcases Finset.mem_insert.mp hv with rfl | hv
  · exact absurd hready hw
  · exact h v hv hready

theorem Alert.rouse [DecidableEq ω] {w : ω} (h : Alert ready m) : Alert ready (m.rouse w) :=
  fun v hv => h v (Finset.mem_of_mem_erase hv)

theorem alert_notify [DecidableEq ν] {n : ν} : Alert ready (m.notify n) := by
  intro w hw
  exact absurd hw (Finset.notMem_empty w)

/-- Whatever is changed in the section, if a notification follows. -/
theorem alert_owe [DecidableEq ν] {n : ν} : Alert ready (m.owe n) :=
  fun _ _ _ => Finset.insert_nonempty n m.owing

/-- A change that makes no predicate true. -/
theorem Alert.mono (h : Alert ready m)
    (hsub : ∀ w ∈ m.asleep, ready' w → ready w) : Alert ready' m :=
  fun w hw hready => h w hw (hsub w hw hready)

/-- With every notification made, whoever sleeps has reason to. -/
theorem Alert.not_ready (h : Alert ready m) (hnone : m.owing = ∅) {w : ω} (hw : w ∈ m.asleep) :
    ¬ready w := by
  intro hready
  exact (h w hw hready).ne_empty hnone

end Monitor
