import Mathlib.Data.Finset.Basic
import PlayerTrace.Lib.Claims
import PlayerTrace.Lib.Machine

/-!
# Exclusive ownership of paths

The process-wide registry of the paths that a client's store or a `FileSink` has claimed, and
the `PathClaim` objects that hold its entries. A claim is acquired, released, moved and
destroyed; its destructor and every new `acquire` release what it held.

The registry always lists the keys of the held claims, and no key is held twice
(`PlayerTrace.Process.Sound`). What the registry is *for* is more: that no two live components
use the same file. A path that is exactly `:memory:` is let through without a claim before the
kind of use is looked at. For a database that is right, since such a database is private to
its connection; a `FileSink`, however, opens a file of that name. So the components are kept
apart as long as no acquire pairs a `FileSink` on `:memory:` with another user of the same file
(`PlayerTrace.Process.Meets`), and no longer.
-/

namespace PlayerTrace

open Function Claims Lts

/-- `PathKind`. -/
inductive PathKind
  | storage
  | output
  deriving DecidableEq, Repr

/-- `kind_name`. -/
def PathKind.name : PathKind → String
  | .storage => "storage_path"
  | .output => "FileSink path"

/-- `is_in_memory`: the only spelling that is opened in memory. -/
def isInMemory (path : String) : Bool := path = ":memory:"

/-- The file system, as far as paths go: the file each path names, and the key `normalize`
computes for it. Paths of one file have one key. -/
structure Paths (F : Type) where
  file : String → F
  normalize : String → String
  normalize_eq : ∀ {p q}, file p = file q → normalize p = normalize q

/-! ### Claims -/

structure PathClaim where
  key : String := ""
  held : Bool := false
  deriving DecidableEq, Repr

namespace PathClaim

/-- `PathClaim::release`, with the registry it is run on. -/
def release (c : PathClaim) (registry : Finset String) : PathClaim × Finset String :=
  if c.held then ({ key := "", held := false }, registry.erase c.key) else (c, registry)

def acquireError (kind : PathKind) (path : String) : String :=
  "another live PlayerTrace component in this process is already using this path as a " ++
    "storage_path or a FileSink output; it cannot also be used as this " ++ kind.name ++
    " ('" ++ path ++ "'). Storage and output paths must be exclusively owned; use a distinct " ++
    "path per Client."

/-- `PathClaim::acquire`: the error text if the path is refused, the claim and the registry. -/
def acquire (normalize : String → String) (c : PathClaim) (path : String) (kind : PathKind)
    (registry : Finset String) : Option String × PathClaim × Finset String :=
  let released := c.release registry
  if isInMemory path then (none, released)
  else
    let key := normalize path
    if key ∈ released.2 then (some (acquireError kind path), released)
    else (none, { key, held := true }, insert key released.2)

/-- Move assignment from another object: this claim, the other and the registry. -/
def moveAssign (this other : PathClaim) (registry : Finset String) :
    PathClaim × PathClaim × Finset String :=
  ({ key := other.key, held := other.held }, { key := "", held := false },
    (this.release registry).2)

/-- The key the claim holds. -/
def heldKey (c : PathClaim) : Option String := if c.held then some c.key else none

theorem release_of_heldKey {c : PathClaim} {k : String} (h : c.heldKey = some k)
    (registry : Finset String) : c.release registry = ({}, registry.erase k) := by
  unfold heldKey at h
  split at h
  case isTrue hheld =>
    obtain rfl : c.key = k := by simpa using h
    simp [release, hheld]
  case isFalse => cases h

theorem release_of_not_heldKey {c : PathClaim} (h : c.heldKey = none)
    (registry : Finset String) : c.release registry = (c, registry) := by
  unfold heldKey at h
  split at h
  case isTrue => cases h
  case isFalse hheld => simp [release, hheld]

theorem heldKey_release (c : PathClaim) (registry : Finset String) :
    (c.release registry).1.heldKey = none := by
  rcases h : c.heldKey with _ | k
  · rw [release_of_not_heldKey h]
    exact h
  · rw [release_of_heldKey h]
    rfl

end PathClaim

/-! ### The components of a process -/

/-- What a component has a path for. -/
structure Use where
  kind : PathKind
  path : String
  deriving DecidableEq, Repr

/-- The file a use is of: a storage path names a file unless it is exactly `:memory:`, the path
of a `FileSink` always does. -/
def Paths.names {F : Type} (P : Paths F) (u : Use) : Option F :=
  match u.kind with
  | .storage => if u.path = ":memory:" then none else some (P.file u.path)
  | .output => some (P.file u.path)

/-- A live component: its claim and, if its last acquire succeeded, what it uses. -/
structure Component where
  claim : PathClaim := {}
  use : Option Use := none

/-- The registry and the live components. -/
structure Process where
  registry : Finset String
  live : Nat → Option Component

namespace Process

variable {F : Type} {P : Paths F} {s s' : Process} {i j : Nat} {c d : Component}

def empty : Process := { registry := ∅, live := fun _ => none }

/-- The operations on claims. -/
inductive Op
  | construct (i : Nat)
  | acquire (i : Nat) (use : Use)
  | release (i : Nat)
  /-- Component `i` is constructed from component `j`. -/
  | moveConstruct (i j : Nat)
  /-- Component `j` is assigned to component `i`. -/
  | moveAssign (i j : Nat)
  | destroy (i : Nat)

def put (s : Process) (i : Nat) (c : Option Component) (registry : Finset String) : Process :=
  { registry, live := update s.live i c }

def release (s : Process) (i : Nat) (c : Component) : Process :=
  let r := c.claim.release s.registry
  s.put i (some { claim := r.1, use := none }) r.2

def acquire (P : Paths F) (s : Process) (i : Nat) (c : Component) (u : Use) : Process :=
  let r := c.claim.acquire P.normalize u.path u.kind s.registry
  s.put i (some { claim := r.2.1, use := if r.1.isNone then some u else none }) r.2.2

/-- Assigning a component to itself does nothing. -/
def moveAssign (s : Process) (i j : Nat) (c d : Component) : Process :=
  if i = j then s
  else
    let r := c.claim.moveAssign d.claim s.registry
    (s.put i (some { claim := r.1, use := d.use }) r.2.2).put j
      (some { claim := r.2.1, use := none }) r.2.2

def step (P : Paths F) (s : Process) : Op → Option Process
  | .construct i => if (s.live i).isSome then none else some (s.put i (some {}) s.registry)
  | .acquire i u => (s.live i).map fun c => s.acquire P i c u
  | .release i => (s.live i).map fun c => s.release i c
  | .moveConstruct i j =>
    if (s.live i).isSome then none
    else (s.live j).map fun d => (s.put i (some {}) s.registry).moveAssign i j {} d
  | .moveAssign i j =>
    (s.live i).bind fun c => (s.live j).map fun d => s.moveAssign i j c d
  | .destroy i => (s.live i).map fun c => (s.release i c).put i none (s.release i c).registry

/-- A process and its path registry. -/
def machine (P : Paths F) : Machine Process Op where
  start s := s = empty
  step := step P

/-- The keys the live components hold. -/
def keys (s : Process) (i : Nat) : Option String := (s.live i).bind fun c => c.claim.heldKey

/-- What the live components use. -/
def uses (s : Process) (i : Nat) : Option Use := (s.live i).bind fun c => c.use

/-- The files the live components use. -/
def files (P : Paths F) (s : Process) (i : Nat) : Option F := (s.uses i).bind P.names

/-- **Exclusive ownership.** The registry lists the keys that are held, no key is held twice,
and no file is used twice. -/
structure Exclusive (P : Paths F) (s : Process) : Prop where
  lists : Lists s.registry s.keys
  keys : Single s.keys
  files : Single (s.files P)

/-! ### What the operations do to the tables -/

theorem keys_put (s : Process) (i : Nat) (c : Option Component) (r : Finset String) :
    (s.put i c r).keys = update s.keys i (c.bind fun c => c.claim.heldKey) := by
  funext a
  by_cases ha : a = i
  · subst ha
    simp [keys, put]
  · simp [keys, put, update_of_ne ha]

theorem uses_put (s : Process) (i : Nat) (c : Option Component) (r : Finset String) :
    (s.put i c r).uses = update s.uses i (c.bind fun c => c.use) := by
  funext a
  by_cases ha : a = i
  · subst ha
    simp [uses, put]
  · simp [uses, put, update_of_ne ha]

theorem files_of_uses {o : Option Use} (h : s'.uses = update s.uses i o) :
    s'.files P = update (s.files P) i (o.bind P.names) := by
  funext a
  by_cases ha : a = i
  · subst ha
    simp [files, h]
  · simp [files, h, update_of_ne ha]

theorem live_put_of_ne (hji : j ≠ i) (o : Option Component) (r : Finset String) :
    (s.put i o r).live j = s.live j :=
  update_of_ne hji ..

theorem put_put (s : Process) (i : Nat) (c c' : Option Component) (r r' : Finset String) :
    (s.put i c r).put i c' r' = s.put i c' r' := by
  simp [put]

theorem keys_of_live (h : s.live i = some c) : s.keys i = c.claim.heldKey := by
  simp [keys, h]

theorem uses_of_live (h : s.live i = some c) : s.uses i = c.use := by
  simp [uses, h]

theorem keys_release (s : Process) (i : Nat) (c : Component) :
    (s.release i c).keys = update s.keys i none := by
  rw [release, keys_put]
  simp [PathClaim.heldKey_release]

theorem uses_release (s : Process) (i : Nat) (c : Component) :
    (s.release i c).uses = update s.uses i none := by
  rw [release, uses_put]
  rfl

/-- What component `j` holds goes to component `i`. -/
def transfer (s : Process) (i j : Nat) (d : Component) : Process :=
  (s.put i (some d) s.registry).put j (some {}) s.registry

theorem keys_transfer (hj : s.live j = some d) :
    (s.transfer i j d).keys = update (update s.keys i (s.keys j)) j none := by
  rw [transfer, keys_put, keys_put, keys_of_live hj]
  rfl

theorem uses_transfer (hj : s.live j = some d) :
    (s.transfer i j d).uses = update (update s.uses i (s.uses j)) j none := by
  rw [transfer, uses_put, uses_put, uses_of_live hj]
  rfl

theorem files_transfer (hj : s.live j = some d) :
    (s.transfer i j d).files P = update (update (s.files P) i (s.files P j)) j none := by
  rw [transfer, files_of_uses (uses_put ..), files_of_uses (uses_put ..), files, uses_of_live hj]
  rfl

/-- A move assignment releases what the target held and then transfers the claim. -/
theorem moveAssign_eq (s : Process) (c d : Component) (hij : i ≠ j) :
    s.moveAssign i j c d = (s.release i c).transfer i j d := by
  rw [moveAssign, if_neg hij, transfer, release, put_put]
  rfl

/-- The component is granted the use `u` under the claim `claim`. -/
def grant (s : Process) (i : Nat) (claim : PathClaim) (u : Use) (r : Finset String) : Process :=
  s.put i (some { claim, use := some u }) r

/-- An acquire releases, and then grants the use of a `:memory:` path without a claim, refuses
a path whose key is registered, or registers it. -/
theorem acquire_cases (P : Paths F) (s : Process) (i : Nat) (c : Component) (u : Use) :
    (u.path = ":memory:" ∧ s.acquire P i c u = (s.release i c).grant i
        (c.claim.release s.registry).1 u (s.release i c).registry) ∨
      (u.path ≠ ":memory:" ∧ P.normalize u.path ∈ (s.release i c).registry ∧
        s.acquire P i c u = s.release i c) ∨
      (u.path ≠ ":memory:" ∧ P.normalize u.path ∉ (s.release i c).registry ∧
        s.acquire P i c u = (s.release i c).grant i ⟨P.normalize u.path, true⟩ u
          (insert (P.normalize u.path) (s.release i c).registry)) := by
  unfold acquire PathClaim.acquire
  by_cases hm : u.path = ":memory:"
  · exact .inl ⟨hm, by simp [hm, isInMemory, grant, release, put_put]; rfl⟩
  by_cases hk : P.normalize u.path ∈ (s.release i c).registry
  · have hk' : P.normalize u.path ∈ (c.claim.release s.registry).2 := hk
    exact .inr (.inl ⟨hm, hk, by simp [hm, hk', isInMemory, release]⟩)
  · have hk' : P.normalize u.path ∉ (c.claim.release s.registry).2 := hk
    exact .inr (.inr ⟨hm, hk, by simp [hm, hk', isInMemory, grant, release, put_put]; rfl⟩)

/-! ### The registry -/

/-- The registry lists the held keys, none is held twice, and whoever uses a path other than
`:memory:` holds its key. -/
structure Sound (P : Paths F) (s : Process) : Prop where
  lists : Lists s.registry s.keys
  single : Single s.keys
  claimed : ∀ i u, s.uses i = some u → u.path ≠ ":memory:" → s.keys i = some (P.normalize u.path)

theorem Sound.empty : Sound P empty where
  lists := lists_none
  single := single_none
  claimed i u h := by cases h

/-- A component that holds nothing may be made, or disappear. -/
theorem Sound.put (h : Sound P s) (hi : s.keys i = none) (hc : c.claim.heldKey = none)
    (hu : c.use = none) (o : Bool) :
    Sound P (s.put i (if o then some c else none) s.registry) := by
  have hkeys : (s.put i (if o then some c else none) s.registry).keys = s.keys := by
    rw [keys_put, update_eq_self_iff, hi]
    cases o <;> simp [hc]
  have huses : (s.put i (if o then some c else none) s.registry).uses = update s.uses i none := by
    rw [uses_put]
    cases o <;> simp [hu]
  refine ⟨?_, hkeys ▸ h.single, fun a u hau hm => ?_⟩
  · rw [hkeys]
    exact h.lists
  · rw [huses] at hau
    rw [hkeys]
    exact h.claimed a u (of_update_none hau).2 hm

theorem Sound.release (h : Sound P s) (hi : s.live i = some c) : Sound P (s.release i c) where
  lists := by
    rw [keys_release]
    rcases hk : c.claim.heldKey with _ | k
    · have hreg : (s.release i c).registry = s.registry := by
        rw [Process.release, PathClaim.release_of_not_heldKey hk]
        rfl
      rw [hreg, update_eq_self_iff.mpr ((keys_of_live hi).trans hk).symm]
      exact h.lists
    · have hreg : (s.release i c).registry = s.registry.erase k := by
        rw [Process.release, PathClaim.release_of_heldKey hk]
        rfl
      rw [hreg]
      exact h.lists.drop h.single ((keys_of_live hi).trans hk)
  single := by
    rw [keys_release]
    exact h.single.drop i
  claimed a u hau hm := by
    rw [uses_release] at hau
    obtain ⟨hai, hau⟩ := of_update_none hau
    rw [keys_release, update_of_ne hai]
    exact h.claimed a u hau hm

theorem Sound.transfer (h : Sound P s) (hij : i ≠ j) (hi : s.keys i = none)
    (hj : s.live j = some d) : Sound P (s.transfer i j d) where
  lists := by
    rw [keys_transfer hj]
    exact h.lists.move hij hi
  single := by
    rw [keys_transfer hj]
    exact h.single.move hij
  claimed a u hau hm := by
    rw [uses_transfer hj] at hau
    obtain ⟨haj, hau⟩ := of_update_none hau
    rw [keys_transfer hj, update_of_ne haj]
    by_cases hai : a = i
    · subst hai
      rw [update_self] at hau ⊢
      exact h.claimed j u hau hm
    · rw [update_of_ne hai] at hau ⊢
      exact h.claimed a u hau hm

theorem Sound.moveAssign (h : Sound P s) (hi : s.live i = some c) (hj : s.live j = some d) :
    Sound P (s.moveAssign i j c d) := by
  by_cases hij : i = j
  · rw [Process.moveAssign, if_pos hij]
    exact h
  · have hlive : (s.release i c).live j = some d := (live_put_of_ne (Ne.symm hij) ..).trans hj
    rw [moveAssign_eq s c d hij]
    refine (h.release hi).transfer hij ?_ hlive
    rw [keys_release, update_self]

theorem Sound.acquire (h : Sound P s) (hi : s.live i = some c) (u : Use) :
    Sound P (s.acquire P i c u) := by
  have hr := h.release hi
  have hnone : (s.release i c).keys i = none := by rw [keys_release, update_self]
  obtain ⟨hmem, heq⟩ | ⟨-, -, heq⟩ | ⟨-, hfree, heq⟩ := acquire_cases P s i c u
  · -- nothing is claimed: the tables of keys agree
    have hkeys : (s.acquire P i c u).keys = (s.release i c).keys := by
      rw [heq, grant, keys_put, update_eq_self_iff, hnone]
      exact PathClaim.heldKey_release ..
    refine ⟨?_, hkeys ▸ hr.single, fun a v hav hm => ?_⟩
    · rw [hkeys, heq]
      exact hr.lists
    · rw [hkeys]
      rw [heq, grant, uses_put] at hav
      by_cases hai : a = i
      · subst hai
        obtain rfl : u = v := by simpa using hav
        exact absurd hmem hm
      · rw [update_of_ne hai] at hav
        exact hr.claimed a v hav hm
  · rw [heq]
    exact hr
  · have hkeys : (s.acquire P i c u).keys =
        update (s.release i c).keys i (some (P.normalize u.path)) := by
      rw [heq, grant, keys_put]
      rfl
    refine ⟨?_, ?_, fun a v hav hm => ?_⟩
    · rw [hkeys, heq]
      exact hr.lists.take hnone
    · rw [hkeys]
      exact hr.single.take fun a _ ha => hfree ((hr.lists _).mpr ⟨a, ha⟩)
    · rw [hkeys]
      rw [heq, grant, uses_put] at hav
      by_cases hai : a = i
      · subst hai
        obtain rfl : u = v := by simpa using hav
        exact update_self ..
      · rw [update_of_ne hai] at hav ⊢
        exact hr.claimed a v hav hm

theorem keys_of_not_live (h : s.live i = none) : s.keys i = none := by
  simp [keys, h]

/-- **One operation keeps the registry sound.** -/
theorem Sound.step {op : Op} (h : Sound P s) (hs : step P s op = some s') : Sound P s' := by
  cases op with
  | construct i =>
    simp only [Process.step, Option.ite_none_left_eq_some, Option.not_isSome_iff_eq_none,
      Option.some.injEq] at hs
    obtain ⟨hi, rfl⟩ := hs
    exact h.put (keys_of_not_live hi) rfl rfl true
  | acquire i u =>
    obtain ⟨c, hi, rfl⟩ := Option.map_eq_some_iff.mp hs
    exact h.acquire hi u
  | release i =>
    obtain ⟨c, hi, rfl⟩ := Option.map_eq_some_iff.mp hs
    exact h.release hi
  | moveConstruct i j =>
    simp only [Process.step, Option.ite_none_left_eq_some, Option.not_isSome_iff_eq_none,
      Option.map_eq_some_iff] at hs
    obtain ⟨hi, d, hj, rfl⟩ := hs
    have hji : j ≠ i := by
      rintro rfl
      rw [hi] at hj
      cases hj
    exact (h.put (keys_of_not_live hi) rfl rfl true).moveAssign (update_self ..)
      ((live_put_of_ne hji ..).trans hj)
  | moveAssign i j =>
    obtain ⟨c, hi, hs⟩ := Option.bind_eq_some_iff.mp hs
    obtain ⟨d, hj, rfl⟩ := Option.map_eq_some_iff.mp hs
    exact h.moveAssign hi hj
  | destroy i =>
    obtain ⟨c, hi, rfl⟩ := Option.map_eq_some_iff.mp hs
    have hnone : (s.release i c).keys i = none := by rw [keys_release, update_self]
    exact (h.release hi).put (c := {}) hnone rfl rfl false

theorem sound_of_reach (h : (machine P).Reach s) : Sound P s := by
  refine h.rule (fun s hs => ?_) fun s op s' _ hi hs => hi.step hs
  cases hs
  exact .empty

/-! ### The files -/

/-- The use of a `:memory:` path by a `FileSink`, which names a file and claims nothing. -/
def Use.Unclaimed (u : Use) : Prop := u.kind = .output ∧ u.path = ":memory:"

/-- Another live component uses the file that the use `u` is of, and one of the two uses is
unclaimed. -/
def Collides (P : Paths F) (s : Process) (i : Nat) (u : Use) : Prop :=
  ∃ j v f, j ≠ i ∧ s.uses j = some v ∧ (Use.Unclaimed u ∨ Use.Unclaimed v) ∧
    P.names u = some f ∧ P.names v = some f

/-- The condition on an operation under which the files stay apart: an acquire does not bring
a `FileSink` on `:memory:` and another component together on one file. -/
def Meets (P : Paths F) (s : Process) : Op → Prop
  | .acquire i u => ¬ Collides P s i u
  | _ => True

/-- The operation was an acquire, and it was refused. -/
def Refused (s' : Process) : Op → Prop
  | .acquire i _ => s'.uses i = none
  | _ => False

theorem names_eq_some {u : Use} {f : F} (h : P.names u = some f) :
    P.file u.path = f ∧ (u.path = ":memory:" → Use.Unclaimed u) := by
  unfold Paths.names at h
  split at h
  case h_1 hk =>
    split at h
    case isTrue => cases h
    case isFalse hm => exact ⟨Option.some.inj h, fun hm' => absurd hm' hm⟩
  case h_2 hk => exact ⟨Option.some.inj h, fun hm => ⟨hk, hm⟩⟩

theorem files_eq_some {f : F} (h : s.files P i = some f) :
    ∃ u, s.uses i = some u ∧ P.names u = some f :=
  Option.bind_eq_some_iff.mp h

theorem files_put_of_not_used (h : Single (s.files P)) (i : Nat) {o : Option Component}
    (ho : (o.bind fun c => c.use) = none) (r : Finset String) :
    Single ((s.put i o r).files P) := by
  rw [files_of_uses (uses_put ..), ho]
  exact h.drop i

theorem files_moveAssign (h : Single (s.files P)) (hj : s.live j = some d) :
    Single ((s.moveAssign i j c d).files P) := by
  by_cases hij : i = j
  · rw [moveAssign, if_pos hij]
    exact h
  · have hlive : (s.release i c).live j = some d := (live_put_of_ne (Ne.symm hij) ..).trans hj
    rw [moveAssign_eq s c d hij, files_transfer hlive]
    exact Single.move (files_put_of_not_used h i rfl _) hij

/-- A file that is used by another component, neither use being unclaimed, has its key in the
registry. -/
theorem Sound.normalize_mem (h : Sound P s) {u : Use} {f : F} (hu : P.names u = some f)
    (hj : s.files P j = some f) (hcol : ∀ v, s.uses j = some v → ¬ Use.Unclaimed v) :
    P.normalize u.path ∈ s.registry := by
  obtain ⟨v, hv, hvf⟩ := files_eq_some hj
  have hfile : P.file u.path = P.file v.path :=
    (names_eq_some hu).1.trans (names_eq_some hvf).1.symm
  have hm : v.path ≠ ":memory:" := fun hm => hcol v hv ((names_eq_some hvf).2 hm)
  rw [P.normalize_eq hfile]
  exact (h.lists _).mpr ⟨j, h.claimed j v hv hm⟩

theorem files_grant (s : Process) (i : Nat) (claim : PathClaim) (u : Use) (r : Finset String) :
    (s.grant i claim u r).files P = update (s.files P) i (P.names u) :=
  files_of_uses (uses_put ..)

theorem uses_grant (s : Process) (i : Nat) (claim : PathClaim) (u : Use) (r : Finset String) :
    (s.grant i claim u r).uses i = some u := by
  rw [grant, uses_put, update_self]
  rfl

/-- An acquire is refused, or the component uses its file from then on. -/
theorem acquire_uses (P : Paths F) (s : Process) (i : Nat) (c : Component) (u : Use) :
    ((s.acquire P i c u).uses i = none ∧ s.acquire P i c u = s.release i c) ∨
      ((s.acquire P i c u).uses i = some u ∧
        (s.acquire P i c u).files P = update ((s.release i c).files P) i (P.names u) ∧
        (u.path = ":memory:" ∨ P.normalize u.path ∉ (s.release i c).registry)) := by
  obtain ⟨hm, heq⟩ | ⟨-, -, heq⟩ | ⟨-, hfree, heq⟩ := acquire_cases P s i c u
  · exact .inr (heq ▸ ⟨uses_grant .., files_grant .., .inl hm⟩)
  · refine .inl ⟨?_, heq⟩
    rw [heq, uses_release, update_self]
  · exact .inr (heq ▸ ⟨uses_grant .., files_grant .., .inr hfree⟩)

/-- **An acquire keeps the files apart exactly when it collides with nobody or is refused.** -/
theorem files_acquire_iff (h : Sound P s) (hf : Single (s.files P)) (hi : s.live i = some c)
    (u : Use) : Single ((s.acquire P i c u).files P) ↔
      ¬ Collides P s i u ∨ (s.acquire P i c u).uses i = none := by
  have hrel : Single ((s.release i c).files P) := files_put_of_not_used hf i rfl _
  have hfiles : (s.release i c).files P = update (s.files P) i none :=
    files_of_uses (uses_release s i c)
  obtain ⟨hnone, heq⟩ | ⟨hsome, heq, hfree⟩ := acquire_uses P s i c u
  · rw [heq] at hnone ⊢
    exact iff_of_true hrel (.inr hnone)
  rw [heq, hsome, hfiles]
  simp only [reduceCtorEq, or_false]
  constructor
  · rintro hs ⟨j, v, f, hji, hv, -, huf, hvf⟩
    rw [huf] at hs
    refine not_single_take hji ?_ hs
    rw [update_of_ne hji, files, hv]
    exact hvf
  · intro hcol
    rw [hfiles] at hrel
    rcases huf : P.names u with _ | f
    · exact hrel.drop i
    -- the file is another component's: then its key is registered, unless a use is unclaimed
    refine hrel.take fun j hji hj => ?_
    have hsj : s.files P j = some f := (of_update_none hj).2
    obtain ⟨v, hv, hvf⟩ := files_eq_some hsj
    have hu : ¬ Use.Unclaimed u := fun hu => hcol ⟨j, v, f, hji, hv, .inl hu, huf, hvf⟩
    rcases hfree with hm | hfree
    · exact hu ((names_eq_some huf).2 hm)
    · rw [← hfiles] at hj
      refine hfree ((h.release hi).normalize_mem huf hj fun w hw hcw => ?_)
      rw [uses_release] at hw
      obtain ⟨-, hw⟩ := of_update_none hw
      obtain rfl : w = v := Option.some.inj (hw.symm.trans hv)
      exact hcol ⟨j, w, f, hji, hv, .inr hcw, huf, hvf⟩

/-- **One operation keeps the files apart exactly when it meets the condition or is refused.** -/
theorem files_step_iff {op : Op} (h : Sound P s) (hf : Single (s.files P))
    (hs : step P s op = some s') :
    Single (s'.files P) ↔ Meets P s op ∨ Refused s' op := by
  cases op with
  | acquire i u =>
    obtain ⟨c, hi, rfl⟩ := Option.map_eq_some_iff.mp hs
    exact files_acquire_iff h hf hi u
  | construct i =>
    simp only [step, Option.ite_none_left_eq_some, Option.some.injEq] at hs
    obtain ⟨-, rfl⟩ := hs
    exact iff_of_true (files_put_of_not_used hf i rfl _) (.inl trivial)
  | release i =>
    obtain ⟨c, hi, rfl⟩ := Option.map_eq_some_iff.mp hs
    exact iff_of_true (files_put_of_not_used hf i rfl _) (.inl trivial)
  | moveConstruct i j =>
    simp only [step, Option.ite_none_left_eq_some, Option.not_isSome_iff_eq_none,
      Option.map_eq_some_iff] at hs
    obtain ⟨hi, d, hj, rfl⟩ := hs
    have hji : j ≠ i := by
      rintro rfl
      rw [hi] at hj
      cases hj
    refine iff_of_true (files_moveAssign (files_put_of_not_used hf i rfl _) ?_) (.inl trivial)
    exact (live_put_of_ne hji ..).trans hj
  | moveAssign i j =>
    obtain ⟨c, hi, hs⟩ := Option.bind_eq_some_iff.mp hs
    obtain ⟨d, hj, rfl⟩ := Option.map_eq_some_iff.mp hs
    exact iff_of_true (files_moveAssign hf hj) (.inl trivial)
  | destroy i =>
    obtain ⟨c, hi, rfl⟩ := Option.map_eq_some_iff.mp hs
    exact iff_of_true (files_put_of_not_used (files_put_of_not_used hf i rfl _) i rfl _)
      (.inl trivial)

theorem files_of_reachIf (h : (machine P).ReachIf (Meets P) s) : Single (s.files P) := by
  refine h.rule (P := fun s => Single (s.files P)) (fun s hs => ?_)
    fun s op s' hr hi hok hs => ?_
  · cases hs
    exact single_none
  · exact (files_step_iff (sound_of_reach hr) hi hs).mpr (.inl hok)

/-- **Exclusive path ownership.** Whatever is done to the claims, the registry lists the keys
that are held and none is held twice. In a run whose acquires never bring a `FileSink` on
`:memory:` and another component together on one file, no two live components use one file
either; and the next operation keeps it so exactly when it meets that condition, or is a
refused acquire. -/
theorem exclusive_iff (P : Paths F) :
    (∀ s, (machine P).Reach s → Lists s.registry s.keys ∧ Single s.keys) ∧
      ∀ s, (machine P).ReachIf (Meets P) s → Exclusive P s ∧
        ∀ op s', (machine P).step s op = some s' →
          (Exclusive P s' ↔ Meets P s op ∨ Refused s' op) := by
  refine ⟨fun s hs => ?_, fun s hs => ?_⟩
  · exact ⟨(sound_of_reach hs).lists, (sound_of_reach hs).single⟩
  · have hsound := sound_of_reach hs.reach
    have hfiles := files_of_reachIf hs
    refine ⟨⟨hsound.lists, hsound.single, hfiles⟩, fun op s' hstep => ?_⟩
    have hsound' : Sound P s' := hsound.step hstep
    rw [← files_step_iff hsound hfiles hstep]
    exact ⟨fun h => h.files, fun h => ⟨hsound'.lists, hsound'.single, h⟩⟩

/-- A file system where `./a.db` and `a.db` are one file. -/
def dotted : Paths String where
  file p := if p = "./a.db" then "a.db" else p
  normalize p := if p = "./a.db" then "a.db" else p
  normalize_eq h := h

/-- A store on `a.db` and a single `FileSink` on `:memory:` are apart. -/
theorem exclusive_store_and_sink : ∃ s, (machine dotted).ReachIf (Meets dotted) s ∧
    s.uses 0 = some ⟨.storage, "a.db"⟩ ∧ s.uses 1 = some ⟨.output, ":memory:"⟩ ∧
      Exclusive dotted s := by
  let s₁ := empty.put 0 (some {}) ∅
  let s₂ := s₁.acquire dotted 0 {} ⟨.storage, "a.db"⟩
  let s₃ := s₂.put 1 (some {}) s₂.registry
  have hstore : Meets dotted s₁ (.acquire 0 ⟨.storage, "a.db"⟩) := by
    rintro ⟨j, v, f, hj, hv, -⟩
    rw [uses_put, update_of_ne hj] at hv
    cases hv
  have hsink : Meets dotted s₃ (.acquire 1 ⟨.output, ":memory:"⟩) := by
    rintro ⟨j, v, f, hj, hv, -, hu, hf⟩
    rw [uses_put, update_of_ne hj] at hv
    by_cases h0 : j = 0
    · subst h0
      obtain rfl : (⟨.storage, "a.db"⟩ : Use) = v := Option.some.inj hv
      exact absurd (hu.trans hf.symm) (by decide)
    · rw [show s₂ = s₁.acquire dotted 0 {} ⟨.storage, "a.db"⟩ from rfl, acquire, uses_put,
        update_of_ne h0, uses_put, update_of_ne h0] at hv
      cases hv
  have hreach : (machine dotted).ReachIf (Meets dotted)
      (s₃.acquire dotted 1 {} ⟨.output, ":memory:"⟩) := by
    refine ⟨empty, rfl, ?_⟩
    have h₁ : (machine dotted).RunIf (Meets dotted) empty s₁ :=
      (Machine.RunIf.refl empty).tail (l := .construct 0) trivial rfl
    have h₂ : (machine dotted).RunIf (Meets dotted) empty s₂ := h₁.tail hstore rfl
    have h₃ : (machine dotted).RunIf (Meets dotted) empty s₃ :=
      h₂.tail (l := .construct 1) trivial rfl
    exact h₃.tail hsink rfl
  exact ⟨_, hreach, rfl, rfl, ((exclusive_iff dotted).2 _ hreach).1⟩

/-- Two sinks on `:memory:` are both let through, and write to one file. -/
theorem sinks_share_memory_path :
    ∃ s, (machine dotted).Reach s ∧ ¬ Exclusive dotted s := by
  have hex : (machine dotted).exec empty
      [.construct 0, .acquire 0 ⟨.output, ":memory:"⟩, .construct 1,
        .acquire 1 ⟨.output, ":memory:"⟩] = some _ := rfl
  refine ⟨_, ⟨empty, rfl, Machine.run_of_exec hex⟩, fun h => ?_⟩
  exact absurd (h.files 0 1 ":memory:" rfl rfl) (by decide)

end Process

end PlayerTrace
