import PlayerTrace.Custody.Spent
import PlayerTrace.Refine.Client

/-!
# Lifetimes over one database

A process opens the database, runs its client, and ends – or is killed between any two
steps; then another process opens what the committed transactions left on disk. What a
process had in memory is lost with it, and what `uuid4` has given out stays in use.

`PlayerTrace.world` puts the lifetimes one after the other: `create` may fail at any of its
store operations, each lifetime comes with its own configuration, and inside a lifetime the
steps are those of `PlayerTrace.machine`. The end of a process is always a kill: an orderly
`shutdown` only adds that the kill finds the client idle.
-/

namespace PlayerTrace

/-- A database and the process that has it open. -/
structure World where
  /-- What the committed transactions have left. -/
  disk : Tables
  /-- The running client and its environment. -/
  client : Option (Env × State) := none
  /-- The identifiers given out in the lifetimes that have ended. -/
  earlier : List String := []
  /-- The events accepted in the lifetimes that have ended, in the order of admission. -/
  admitted : List Item := []
  /-- How many times `create` has returned a client. -/
  lifetime : Nat := 0

namespace World

/-- What happens to a database. -/
inductive Act
  | opens (env : Env) (φ : Fin 4 → Faults)
  | runs (l : Label)
  | kill

/-- A database that no process has open. -/
def unopened (disk : Tables) : World where
  disk := disk
  earlier := disk.events.rows.filterMap Row.eventId

/-- Everything accepted so far, in the order of admission. -/
def log (w : World) : List Item :=
  w.admitted ++ match w.client with
    | none => []
    | some (_, s) => s.history.accepted.map fun a => a.qe.item

/-- One act. -/
def step (w : World) : Act → Option World
  | .opens env φ =>
    match w.client with
    | some _ => none
    | none =>
      some (match create env φ (.idle w.disk) with
        | .error _ => { w with disk := (openedStore env φ (.idle w.disk)).committed }
        | .ok s =>
          { w with
            disk := s.pipeline.store.committed
            client := some (env, s.remember w.earlier)
            lifetime := w.lifetime + 1 })
  | .runs l =>
    match w.client with
    | none => none
    | some (env, s) =>
      (PlayerTrace.step env s l).map fun s' =>
        { w with disk := s'.pipeline.store.committed, client := some (env, s') }
  | .kill =>
    match w.client with
    | none => none
    | some (_, s) =>
      some { w with client := none, earlier := s.history.used, admitted := w.log }

end World

/-- The lifetimes over one database, whatever it holds at first. -/
def world : Lts.Machine World World.Act where
  start w := ∃ disk, w = World.unopened disk
  step := World.step

variable {env : Env} {s : State} {w w' : World}

/-! ### What an act does -/

/-- A failed `create` has purged everything or nothing. -/
theorem openedStore_cases (env : Env) (φ : Fin 4 → Faults) (db : Database) :
    openedStore env φ db = db ∨
      ((openedStore env φ db).view = ⟨.empty, false⟩ ∧
        (openedStore env φ db).saved = db.saved) := by
  unfold openedStore
  split
  · exact Or.inl rfl
  split
  · exact Or.inl rfl
  split
  · obtain ⟨st, n, db', hp⟩ : ∃ st n db', purgeAndClearRevocation (φ 1) db = (st, n, db') :=
      ⟨_, _, _, rfl⟩
    rw [hp]
    rcases purgeAndClearRevocation_cases hp with ⟨-, hv, hs, -⟩ | ⟨-, heq, -⟩
    · exact Or.inr ⟨hv, hs⟩
    · exact Or.inl heq
  · exact Or.inl rfl

namespace World

/-- What an act can do. -/
inductive Happens (w : World) : World → Prop
  /-- `create` returns a client. -/
  | opened {env : Env} {db : Database} {m : Nat} {s : State} (hw : w.client = none)
      (hstart : (machine env).start s)
      (hs : s = (initial env db db.rows.length m).remember w.earlier)
      (hview : db.view = w.disk ∨ db.view = ⟨.empty, false⟩) (hmark : db.marker = false) :
      Happens w { w with
        disk := db.view, client := some (env, s), lifetime := w.lifetime + 1 }
  /-- `create` fails. -/
  | refused {t : Tables} (hw : w.client = none) (ht : t = w.disk ∨ t = ⟨.empty, false⟩) :
      Happens w { w with disk := t, client := none }
  /-- The client takes a step. -/
  | ran {env : Env} {s s' : State} {l : Label} (hw : w.client = some (env, s))
      (hs : PlayerTrace.step env s l = some s') :
      Happens w { w with disk := s'.pipeline.store.committed, client := some (env, s') }
  /-- The process ends. -/
  | killed {env : Env} {s : State} (hw : w.client = some (env, s)) :
      Happens w { w with client := none, earlier := s.history.used, admitted := w.log }

theorem happens_of_step {a : Act} (h : w.step a = some w') : Happens w w' := by
  cases a with
  | opens env φ =>
    rcases hc : w.client with _ | x
    · simp only [step, hc, Option.some.injEq] at h
      subst h
      split
      · refine .refused hc ?_
        rcases openedStore_cases env φ (.idle w.disk) with heq | ⟨hv, hsaved⟩
        · exact Or.inl (by rw [heq]; rfl)
        · exact Or.inr (by rw [Txn.Conn.committed, hsaved]; exact hv)
      · rename_i s hs
        obtain ⟨db, m, rfl, -, -, hview, hmark, hsaved, -⟩ := create_eq_ok hs
        have hdisk : (initial env db db.rows.length m).pipeline.store.committed = db.view := by
          rw [Txn.Conn.committed, show (initial env db db.rows.length m).pipeline.store.saved = none
            from hsaved]
          rfl
        rw [hdisk]
        exact .opened hc ⟨φ, .idle w.disk, _, w.earlier, rfl, hs, rfl⟩ rfl
          (hview.imp (fun heq => by rw [heq]; rfl) fun hv => hv) hmark
    · simp [step, hc] at h
  | runs l =>
    rcases hc : w.client with _ | ⟨env, s⟩
    · simp [step, hc] at h
    · simp only [step, hc, Option.map_eq_some_iff] at h
      obtain ⟨s', hs, rfl⟩ := h
      exact .ran hc hs
  | kill =>
    rcases hc : w.client with _ | ⟨env, s⟩
    · simp [step, hc] at h
    · simp only [step, hc, Option.some.injEq] at h
      subst h
      exact .killed hc

theorem runs_eq {l : Label} (h : w.step (.runs l) = some w') :
    ∃ env s s', w.client = some (env, s) ∧ PlayerTrace.step env s l = some s' ∧
      w' = { w with disk := s'.pipeline.store.committed, client := some (env, s') } := by
  rcases hc : w.client with _ | ⟨env, s⟩
  · simp [step, hc] at h
  · simp only [step, hc, Option.map_eq_some_iff] at h
    obtain ⟨s', hs, rfl⟩ := h
    exact ⟨env, s, s', rfl, hs, rfl⟩

theorem kill_eq (h : w.step .kill = some w') :
    ∃ env s, w.client = some (env, s) ∧
      w' = { w with client := none, earlier := s.history.used, admitted := w.log } := by
  rcases hc : w.client with _ | ⟨env, s⟩
  · simp [step, hc] at h
  · simp only [step, hc, Option.some.injEq] at h
    exact ⟨env, s, rfl, h.symm⟩

/-! ### What holds between two acts -/

/-- The client a process runs is one of `PlayerTrace.machine` on what is on disk, and the
identifiers of earlier lifetimes are in use. -/
structure Runs (w : World) (env : Env) (s : State) : Prop where
  reach : (machine env).Reach s
  disk : s.pipeline.store.view = w.disk
  used : w.earlier ⊆ s.history.used

/-- **A world is sound**: so is its client, and without one everything stored has an
identifier that is in use. -/
structure Sound (w : World) : Prop where
  running : ∀ env s, w.client = some (env, s) → w.Runs env s
  closed : w.client = none → ∀ r ∈ w.disk.events.rows, ∀ id, r.eventId = some id → id ∈ w.earlier

theorem committed_eq (h : (machine env).Reach s) :
    s.pipeline.store.committed = s.pipeline.store.view := by
  rw [Txn.Conn.committed, show s.pipeline.store.saved = none from
    Custody.saved_of_reachable (custody_reachable h)]
  rfl

theorem used_subset_of_step {l : Label} {s' : State} (h : PlayerTrace.step env s l = some s') :
    s.history.used ⊆ s'.history.used := by
  rcases step_moves h with heq | hm
  · rw [show s'.history = s.history from congrArg Custody.history heq]
    exact List.Subset.refl _
  · exact hm.used_subset

theorem Sound.of_client (hc : w.client = some (env, s)) (h : w.Runs env s) : Sound w where
  running env' s' heq := by
    obtain ⟨rfl, rfl⟩ : env = env' ∧ s = s' := by simpa [hc] using heq
    exact h
  closed hn := by simp [hc] at hn

theorem Sound.of_none (hc : w.client = none)
    (h : ∀ r ∈ w.disk.events.rows, ∀ id, r.eventId = some id → id ∈ w.earlier) : Sound w where
  running env s heq := by simp [hc] at heq
  closed _ := h

theorem sound_step (hi : Sound w) (h : Happens w w') : Sound w' := by
  cases h with
  | opened hw hstart hs =>
    refine .of_client rfl ⟨.of_start hstart, ?_, ?_⟩
    · rw [hs]
      rfl
    · rw [hs]
      exact List.subset_append_right _ _
  | refused hw ht =>
    refine .of_none rfl fun r hr => ?_
    rcases ht with rfl | rfl
    · exact hi.closed hw r hr
    · exact absurd hr List.not_mem_nil
  | @ran env s s' l hw hs =>
    have hrun := hi.running env s hw
    have hr : (machine env).Reach s' := hrun.reach.step hs
    exact .of_client rfl ⟨hr, (committed_eq hr).symm,
      List.Subset.trans hrun.used (used_subset_of_step hs)⟩
  | @killed env s hw =>
    have hrun := hi.running env s hw
    refine .of_none rfl fun r hr id hid => ?_
    have hmem : r ∈ (custody s).rows := by
      rw [← hrun.disk] at hr
      exact hr
    exact (Custody.spent_of_row (custody_reachable hrun.reach) hmem hid).used

theorem sound_of_reach (h : world.Reach w) : Sound w := by
  refine h.rule (P := Sound) (fun w hs => ?_) (fun w a w' _ hi hs => ?_)
  · obtain ⟨disk, rfl⟩ := hs
    refine .of_none rfl fun r hr id hid => ?_
    exact List.mem_filterMap.mpr ⟨r, hr, hid⟩
  · exact sound_step hi (happens_of_step hs)

/-! ### The small client, opened more than once -/

namespace Act

/-- `create` returns the sample client. -/
def create : Act := .opens sample fun _ => Faults.none

/-- The client takes these steps. -/
def run (ls : List Label) : List Act := ls.map .runs

end Act

/-- The batch the running client is handing to the sink. -/
def writing (w : World) : List SerializedEvent :=
  match w.client with
  | some (_, s) =>
    match s.frame.pc with
    | .write _ _ b => b
    | _ => []
  | none => []

theorem writing_eq {b : List SerializedEvent} (h : w.writing = b) (hne : b ≠ []) :
    ∃ env s d v, w.client = some (env, s) ∧ s.frame.pc = .write d v b := by
  unfold writing at h
  split at h
  · split at h
    · rename_i env s hc _ d v _ hpc
      exact ⟨env, s, d, v, hc, h ▸ hpc⟩
    · exact absurd h.symm hne
  · exact absurd h.symm hne

end World

theorem world_start (disk : Tables) : world.start (World.unopened disk) := ⟨disk, rfl⟩

end PlayerTrace
