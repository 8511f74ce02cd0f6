import PlayerTrace.Control.Consented
import PlayerTrace.Custody.Undisturbed
import PlayerTrace.FileSink.Durable
import PlayerTrace.Flush
import PlayerTrace.Lifetimes.World

/-!
# The store and the output file together

The lifetimes of `PlayerTrace.world`, with a durable `FileSink` at the end of the pipeline:
where the worker calls the sink, the answer it gets is the one the sink computes
(`PlayerTrace.Outlet.answer`). A process may be killed between two steps and in the middle
of a call of the sink, and what it leaves of the file is decided by what had been synced
(`Stdio.File.survive`).

Two records are kept beside the state: the rows whose insertion has been committed, in any
lifetime, and the rows that were quarantined, with the lifetime's notion of a valid payload.
-/

namespace PlayerTrace

open Stdio Lines

/-- The bytes of a payload. -/
def SerializedEvent.text (x : SerializedEvent) : List UInt8 := x.json.toUTF8.data.toList

/-- The bytes of a stored payload. -/
def Row.text (r : Row) : List UInt8 := r.payload.toUTF8.data.toList

/-- A database and an output file, and the process that has them open. -/
structure Outlet where
  world : World
  /-- The sink of the process; without one, what the next sink will find. -/
  sink : FileSink
  /-- The rows that were ever committed. -/
  committed : List Row := []
  /-- The rows that were quarantined. -/
  quarantined : List (Env × Row) := []

namespace Outlet

/-- What happens to a database and an output file. -/
inductive Act
  | opens (env : Env) (φ : Fin 4 → Faults) (refused : Option String)
  | runs (l : Label) (a : Answers)
  /-- `request_cancel`. -/
  | cancels
  /-- The process is killed between two steps. -/
  | kill (k n : Nat)
  /-- The process is killed inside a call of the sink. -/
  | killInside (a : Answers) (k n : Nat)

/-- An output file over an empty database. -/
def unopened (path : String) (file : Option File) : Outlet where
  world := .unopened ⟨.empty, false⟩
  sink := .create path true none file

/-- The call of the sink that the worker is in. -/
def calling (o : Outlet) (a : Answers) : Option (Stdio.Process (Status × FileSink)) :=
  match o.world.client with
  | none => none
  | some (_, s) =>
    match s.frame.pc with
    | .write _ _ batch => some (o.sink.write a (batch.map SerializedEvent.text))
    | .flushSink => some (o.sink.flushNow a)
    | _ => none

/-- The sink after a step, which has to get the sink's own answer. -/
def answer (o : Outlet) (l : Label) (a : Answers) : Option FileSink :=
  match l with
  | .worker i =>
    match i.raise, o.calling a with
    | none, some (.ok (st, sink)) => if i.sink = .returned st then some sink else none
    | none, some (.error _) => none
    | _, _ => some o.sink
  | .call _ _ | .caller _ _ => some o.sink

/-- The rows of the database. -/
def rows (w : World) : List Row := w.disk.events.rows

/-- The rows a step adds. -/
def added (w w' : World) : List Row := (rows w').filter fun r => decide (r ∉ rows w)

/-- The rows a step removes. -/
def removed (w w' : World) : List Row := (rows w).filter fun r => decide (r ∉ rows w')

/-- The rows the worker removes when it fetches. -/
def quarantine (w w' : World) (l : Label) : List (Env × Row) :=
  match l, w.client with
  | .worker _, some (env, s) =>
    match s.frame.pc with
    | .fetch _ _ => (removed w w').map fun r => (env, r)
    | _ => []
  | _, _ => []

/-- One act. -/
def step (o : Outlet) : Act → Option Outlet
  | .opens env φ refused =>
    (o.world.step (.opens env φ)).map fun w =>
      match w.client with
      | none => { o with world := w }
      | some _ =>
        { o with world := w, sink := .create o.sink.path true refused o.sink.output.file }
  | .runs l a => do
    let sink ← o.answer l a
    let w ← o.world.step (.runs l)
    pure { world := w, sink := sink, committed := o.committed ++ added o.world w
           quarantined := o.quarantined ++ quarantine o.world w l }
  | .cancels => some { o with sink := o.sink.requestCancel }
  | .kill k n =>
    (o.world.step .kill).map fun w =>
      { o with
        world := w
        sink := .create o.sink.path true none (o.sink.output.file.map (·.survive k n)) }
  | .killInside a k n =>
    match o.calling a with
    | some (.error f) =>
      (o.world.step .kill).map fun w =>
        { o with world := w, sink := .create o.sink.path true none (some (f.survive k n)) }
    | _ => none

/-- Consent is granted, and `fopen` with `r+b` fails only where there is no file. -/
def Fair (o : Outlet) (act : Act) : Prop :=
  (∀ env s, o.world.client = some (env, s) → s.pipeline.consent = .granted) ∧
    match act with
    | .opens env _ _ => env.config.consent = .granted
    | .runs _ a | .killInside a _ _ => a.reopens = true
    | .cancels | .kill _ _ => True

/-- What is in the output file. -/
def content (o : Outlet) : List UInt8 := o.sink.content

end Outlet

/-- The lifetimes over one database and one output file, both empty at first. -/
def outlet : Lts.Machine Outlet Outlet.Act where
  start o := ∃ path file, (∀ f ∈ file, f.bytes = [] ∧ f.past = []) ∧ o = Outlet.unopened path file
  step := Outlet.step

variable {env : Env} {s s' : State} {o o' : Outlet} {w w' : World} {sec : List UInt8}

/-! ### Opening with consent -/

theorem openPurge_granted {φ : Faults} {db : Database} (hc : env.config.consent = .granted) :
    openPurge env φ false db = .ok db := by
  simp [openPurge, hc]

/-- With consent, and no purge owed, `create` takes the table as it is. -/
theorem create_granted {φ : Fin 4 → Faults} {db : Database} (h : create env φ db = .ok s)
    (hm : db.marker = false) (hc : env.config.consent = .granted) :
    ∃ n m, s = initial env db n m := by
  unfold create at h
  dsimp only at h
  split at h
  · cases h
  rcases howed : revocationPending (φ 0) db with e | owed
  · simp [howed, bind, Except.bind] at h
  obtain rfl := revocationPending_eq_ok howed
  rw [hm] at howed
  rcases hcount : PlayerTrace.count (φ 2) db with e | n
  · simp [howed, openPurge_granted hc, hcount, bind, Except.bind] at h
  rcases hmax : maxOrdinal (φ 3) db with e | m
  · simp [howed, openPurge_granted hc, hcount, hmax, bind, Except.bind] at h
  refine ⟨n, m, ?_⟩
  simpa [howed, openPurge_granted hc, hcount, hmax, bind, Except.bind, pure, Except.pure]
    using h.symm

theorem openedStore_granted {φ : Fin 4 → Faults} {db : Database} (hm : db.marker = false)
    (hc : env.config.consent = .granted) : openedStore env φ db = db := by
  unfold openedStore
  split
  · rfl
  split
  · rfl
  rename_i owed howed
  obtain rfl := revocationPending_eq_ok howed
  simp [hm, hc]

/-- Then nothing happens to the database, whether or not there is a client afterwards. -/
theorem World.opens_granted {φ : Fin 4 → Faults} (hm : w.disk.revocationPending = false)
    (hc : env.config.consent = .granted) (h : w.step (.opens env φ) = some w') :
    w.client = none ∧ w'.disk = w.disk ∧ (w'.client = none ∨
      ∃ s, w'.client = some (env, s) ∧ (machine env).start s ∧ s.log.written = []) := by
  rcases hw : w.client with _ | x
  · simp only [step, hw, Option.some.injEq] at h
    subst h
    refine ⟨rfl, ?_⟩
    split
    · have hstore : openedStore env φ (.idle w.disk) = .idle w.disk := openedStore_granted hm hc
      rw [hstore]
      exact ⟨rfl, Or.inl rfl⟩
    · rename_i s hs
      obtain ⟨n, m, heq⟩ := create_granted hs hm hc
      refine ⟨?_, Or.inr ⟨_, rfl, ⟨φ, .idle w.disk, s, w.earlier, rfl, hs, rfl⟩, ?_⟩⟩
      · rw [heq]
        rfl
      · rw [heq]
        rfl
  · simp [step, hw] at h

/-! ### What a step of the worker gets from the sink -/

theorem fetch_of_looking {pc : WorkerPc} {seen : Nat} (h : stageOf pc = .looking seen) :
    ∃ d, pc = .fetch d seen := by
  cases pc with
  | fetch d seen' => exact ⟨d, by rw [Stage.looking.inj h]⟩
  | countQuarantined | noteFetch =>
    rcases Stage.offered_cases _ _ with ⟨-, ho⟩ | ⟨-, ho⟩ <;> exact absurd (ho.symm.trans h) nofun
  | _ => exact absurd h nofun

namespace Outlet

/-- The worker's own calls of the sink, by where it is. -/
theorem calling_cases {a : Answers} {x : Stdio.Process (Status × FileSink)}
    (hc : o.world.client = some (env, s)) (h : o.calling a = some x) :
    (∃ d v batch, s.frame.pc = .write d v batch ∧
        x = o.sink.write a (batch.map SerializedEvent.text)) ∨
      (s.frame.pc = .flushSink ∧ x = o.sink.flushNow a) := by
  simp only [calling, hc] at h
  split at h
  · rename_i d v batch hpc
    exact Or.inl ⟨d, v, batch, hpc, (Option.some.inj h).symm⟩
  · rename_i hpc
    exact Or.inr ⟨hpc, (Option.some.inj h).symm⟩
  · cases h

/-- Where the worker is about to write, it calls the sink. -/
theorem calling_write {a : Answers} {d : Bool} {v : Nat} {batch : List SerializedEvent}
    (hc : o.world.client = some (env, s)) (hpc : s.frame.pc = .write d v batch) :
    o.calling a = some (o.sink.write a (batch.map SerializedEvent.text)) := by
  simp only [calling, hc, hpc]

/-- A step leaves the sink alone, or gets from it what it has answered to a call. -/
theorem answer_cases {i : Input} {a : Answers} {sink : FileSink}
    (h : o.answer (.worker i) a = some sink) :
    (sink = o.sink ∧ (i.raise = none → o.calling a = none)) ∨
      ∃ st, i.raise = none ∧ o.calling a = some (.ok (st, sink)) ∧ i.sink = .returned st := by
  unfold answer at h
  dsimp only at h
  split at h
  · rename_i st sink' hraise hcall
    split at h
    · rename_i hi
      obtain rfl := Option.some.inj h
      exact Or.inr ⟨st, hraise, hcall, hi⟩
    · cases h
  · cases h
  · rename_i hok herr
    obtain rfl := Option.some.inj h
    refine Or.inl ⟨rfl, fun hraise => ?_⟩
    rcases hcall : o.calling a with _ | (f | ⟨st, sink⟩)
    · rfl
    · exact (herr f hraise hcall).elim
    · exact (hok st sink hraise hcall).elim

/-! ### What holds between two acts -/

/-- A client at work: nobody has a reason to purge, what it is handing to the sink was
committed, and what the sink has accepted is kept. -/
structure Serves (committed : List Row) (sec : List UInt8) (s : State) : Prop where
  undisturbed : Custody.Undisturbed (custody s)
  batch : ∀ x ∈ (custody s).stage.batch, x.text ∈ committed.map Row.text
  written : ∀ x ∈ s.log.written, IsLine newline x.text sec

/-- Where a committed row may be. -/
def Accounted (o : Outlet) (sec : List UInt8) (r : Row) : Prop :=
  r ∈ rows o.world ∨ IsLine newline r.text sec ∨
    ∃ env, (env, r) ∈ o.quarantined ∧ r.usable env.isValidJson = false

/-- **Nothing that was committed is lost**, `sec` being the part of the file that every crash
keeps. -/
structure Keeps (sec : List UInt8) (o : Outlet) : Prop where
  sound : World.Sound o.world
  marker : o.world.disk.revocationPending = false
  filed : FileSink.Filed (o.committed.map Row.text) sec o.sink
  closed : o.world.client = none →
    ∃ file, o.sink.output = .closed file ∧ o.sink.failure.ok = true
  stored : ∀ r ∈ rows o.world, r ∈ o.committed
  accounted : ∀ r ∈ o.committed, Accounted o sec r
  running : ∀ env s, o.world.client = some (env, s) → Serves o.committed sec s

/-- No payload that was committed has a newline. -/
def Plain (o : Outlet) : Prop := ∀ r ∈ o.committed, newline ∉ r.text

instance : Decidable (Plain o) := inferInstanceAs (Decidable (∀ r ∈ o.committed, newline ∉ r.text))

theorem Plain.texts (h : Plain o) : ∀ p ∈ o.committed.map Row.text, newline ∉ p := by
  intro p hp
  obtain ⟨r, hr, rfl⟩ := List.mem_map.mp hp
  exact h r hr

section Runs

variable {l : Label} {a : Answers} {sink : FileSink} (hk : Keeps sec o)
  (hc : o.world.client = some (env, s)) (hgrant : s.pipeline.consent = .granted)
  (hs : PlayerTrace.step env s l = some s')

include hk hc hs

/-- **The sink and a step**: what is kept stays so, and so is what the step got accepted. -/
theorem Keeps.sink_step (hfree : Plain o) (ha : a.reopens = true)
    (hans : o.answer l a = some sink) :
    ∃ sec', FileSink.Filed (o.committed.map Row.text) sec' sink ∧ sec <+: sec' ∧
      ∀ x ∈ s'.log.written, IsLine newline x.text sec' := by
  have hserves := hk.running env s hc
  have hsame : s'.log.written = s.log.written → sink = o.sink →
      ∃ sec', FileSink.Filed (o.committed.map Row.text) sec' sink ∧ sec <+: sec' ∧
        ∀ x ∈ s'.log.written, IsLine newline x.text sec' := by
    rintro hw rfl
    exact ⟨sec, hk.filed, List.prefix_refl _, by rw [hw]; exact hserves.written⟩
  rcases turn_of_step (hk.sound.running env s hc).reach hs with ⟨i, rfl, hw⟩ | ⟨t, hl, hside, -⟩
  · rcases answer_cases hans with ⟨rfl, hcall⟩ | ⟨st, hraise, hcall, hi⟩
    · refine hsame ?_ rfl
      refine (Worker.written_cases hw).resolve_right ?_
      rintro ⟨d, v, batch, hpc, hraise, -⟩
      exact absurd ((calling_write hc hpc).symm.trans (hcall hraise)) nofun
    · rcases calling_cases hc hcall with ⟨d, v, batch, hpc, hwrite⟩ | ⟨hpc, hflush⟩
      · have hbatch : ∀ p ∈ batch.map SerializedEvent.text, p ∈ o.committed.map Row.text := by
          intro p hp
          obtain ⟨x, hx, rfl⟩ := List.mem_map.mp hp
          refine hserves.batch x ?_
          rw [show (custody s).stage = stageOf s.frame.pc from rfl, hpc]
          exact hx
        obtain ⟨sec', hfiled, hpre, hlines⟩ :=
          hk.filed.write hfree.texts ha hbatch hwrite.symm
        refine ⟨sec', hfiled, hpre, fun x hx => ?_⟩
        rcases Worker.written_cases hw with heq | ⟨d', v', batch', hpc', -, hok, heq⟩
        · rw [heq] at hx
          exact (hserves.written x hx).of_isPrefix hpre
        · obtain ⟨-, -, rfl⟩ := WorkerPc.write.inj (hpc.symm.trans hpc')
          rw [heq] at hx
          rcases List.mem_append.mp hx with hx | hx
          · exact (hserves.written x hx).of_isPrefix hpre
          · rw [hi] at hok
            exact hlines hok _ (List.mem_map_of_mem hx)
      · refine ⟨sec, hk.filed.flush hflush.symm, List.prefix_refl _, ?_⟩
        have heq : s'.log.written = s.log.written := by
          refine (Worker.written_cases hw).resolve_right ?_
          rintro ⟨d, v, batch, hpc', -⟩
          exact absurd (hpc.symm.trans hpc') nofun
        rw [heq]
        exact hserves.written
  · refine hsame hside.written ?_
    cases l with
    | worker i => exact absurd rfl (hl i)
    | call | caller => exact (Option.some.inj hans).symm

include hgrant

/-- **A row and a step**: it stays, or the sink has accepted it, or it is quarantined. -/
theorem Keeps.row_step {w : World} (hw : rows w = (custody s').rows) {r : Row}
    (hr : r ∈ rows o.world) :
    r ∈ rows w ∨ IsLine newline r.text sec ∨
      ((env, r) ∈ quarantine o.world w l ∧ r.usable env.isValidJson = false) := by
  have hserves := hk.running env s hc
  have hruns := hk.sound.running env s hc
  have hmem : r ∈ (custody s).rows := by
    rw [rows, ← hruns.disk] at hr
    exact hr
  by_cases hr' : r ∈ rows w
  · exact Or.inl hr'
  have hgone : r ∉ (custody s').rows := hw ▸ hr'
  refine Or.inr ?_
  -- a caller does not touch the store while consent is granted
  obtain ⟨i, rfl, hstep⟩ := (consented_of_step hruns.reach hgrant hs).resolve_right
    fun ⟨_, hside⟩ => hgone (by rw [Custody.rows, hside.left.store]; exact hmem)
  have hmove : Custody.Step env (custody s) (custody s') :=
    (step_moves hs).resolve_left fun heq => hgone (heq ▸ hmem)
  rcases hserves.undisturbed.row_left (custody_reachable hruns.reach) hgrant hmove hmem hgone with
    ⟨⟨seen, hst⟩, hbad⟩ | ⟨b, hst, hb⟩
  · refine Or.inr ⟨?_, hbad⟩
    obtain ⟨d, hpc⟩ := fetch_of_looking hst
    have hq : quarantine o.world w (.worker i) = (removed o.world w).map fun r => (env, r) := by
      simp only [quarantine, hc, hpc]
    rw [hq]
    exact List.mem_map_of_mem (List.mem_filter.mpr ⟨hr, by simpa using hr'⟩)
  · have hsent : r.serialized ∈ s.log.written :=
      (written_of_reach hruns.reach).sent _ (stageOf_acknowledging hst ▸ hb)
    exact Or.inl (hserves.written _ hsent)

end Runs

theorem texts_subset (h : o.committed ⊆ o'.committed) :
    o.committed.map Row.text ⊆ o'.committed.map Row.text := by
  intro p hp
  obtain ⟨r, hr, rfl⟩ := List.mem_map.mp hp
  exact List.mem_map_of_mem (h hr)

/-- The client after a step. -/
theorem Serves.step {l : Label} {committed committed' : List Row} {sec' : List UInt8}
    (hi : Serves committed sec s) (hr : (machine env).Reach s)
    (hgrant : s.pipeline.consent = .granted) (hs : PlayerTrace.step env s l = some s')
    (hsub : committed ⊆ committed') (hrows : ∀ r ∈ (custody s).rows, r ∈ committed)
    (hwritten : ∀ x ∈ s'.log.written, IsLine newline x.text sec') :
    Serves committed' sec' s' := by
  have hold : ∀ x ∈ (custody s).stage.batch, x.text ∈ committed'.map Row.text := by
    intro x hx
    obtain ⟨r, hr, heq⟩ := List.mem_map.mp (hi.batch x hx)
    exact heq ▸ List.mem_map_of_mem (hsub hr)
  refine ⟨?_, ?_, hwritten⟩
  · exact custody_step hr hs hi.undisturbed fun _ hr' hm =>
      Custody.undisturbed_step hi.undisturbed (Custody.gated_of_reachable hr') hgrant hm
  · refine custody_step (P := fun c => ∀ x ∈ c.stage.batch, x.text ∈ committed'.map Row.text)
      hr hs hold fun c' _ hm x hx => ?_
    rcases hm.batch_cases with hnil | ⟨hb, -⟩ | ⟨read, hread, hb, -⟩
    · simp [hnil] at hx
    · exact hold x (hb ▸ hx)
    · obtain ⟨r, hr, -, -, rfl⟩ := Custody.mem_batch_of_read hread (hb ▸ hx)
      exact List.mem_map_of_mem (hsub (hrows r hr))

/-- **A step of the client.** -/
theorem Keeps.runs {l : Label} {a : Answers} (hk : Keeps sec o) (hfree : Plain o)
    (hfair : Fair o (.runs l a)) (h : o.step (.runs l a) = some o') : ∃ sec', Keeps sec' o' := by
  obtain ⟨hgrant, ha⟩ := hfair
  simp only [step, bind, Option.bind_eq_some_iff, pure, Option.some.injEq] at h
  obtain ⟨sink, hans, w, hw, rfl⟩ := h
  obtain ⟨env, s, s', hc, hs, rfl⟩ := World.runs_eq hw
  obtain ⟨sec', hfiled, hpre, hwritten⟩ := hk.sink_step hc hs hfree ha hans
  have hserves := hk.running env s hc
  have hruns := hk.sound.running env s hc
  have hgranted := hgrant env s hc
  have hcommitted := World.committed_eq (hruns.reach.step hs)
  set w : World := { o.world with
    disk := s'.pipeline.store.committed, client := some (env, s') } with hweq
  have hrows : rows w = (custody s').rows := by
    rw [rows, hweq, hcommitted]
    rfl
  have hsub : o.committed ⊆ o.committed ++ added o.world w := List.subset_append_left _ _
  have hold : ∀ r ∈ rows o.world, r ∈ o.committed := hk.stored
  have hserves' : Serves (o.committed ++ added o.world w) sec' s' := by
    refine hserves.step hruns.reach hgranted hs hsub (fun r hr => hold r ?_) hwritten
    rw [rows, ← hruns.disk]
    exact hr
  refine ⟨sec', ?_, ?_, hfiled.mono (texts_subset hsub), nofun, ?_, ?_, ?_⟩
  · exact World.sound_step hk.sound (World.happens_of_step hw)
  · rw [hweq, hcommitted]
    exact hserves'.undisturbed.marker
  · intro r hr
    by_cases hmem : r ∈ rows o.world
    · exact hsub (hold r hmem)
    · exact List.mem_append_right _ (List.mem_filter.mpr ⟨hr, by simpa using hmem⟩)
  · intro r hr
    rcases List.mem_append.mp hr with hr | hr
    · rcases hk.accounted r hr with hmem | hline | ⟨env', hq, hbad⟩
      · rcases hk.row_step hc hgranted hs hrows hmem with h | h | ⟨hq, hbad⟩
        · exact Or.inl h
        · exact Or.inr (Or.inl (h.of_isPrefix hpre))
        · exact Or.inr (Or.inr ⟨env, List.mem_append_right _ hq, hbad⟩)
      · exact Or.inr (Or.inl (hline.of_isPrefix hpre))
      · exact Or.inr (Or.inr ⟨env', List.mem_append_left _ hq, hbad⟩)
    · exact Or.inl (List.mem_filter.mp hr).1
  · intro env' s'' heq
    obtain ⟨rfl, rfl⟩ : env = env' ∧ s' = s'' := by simpa [hweq] using heq
    exact hserves'

/-- **A kill**, whatever it leaves of the file. -/
theorem Keeps.killed {w : World} {file : Option File} {t : List UInt8} {k n : Nat}
    (hk : Keeps sec o) (hw : o.world.step .kill = some w)
    (ht : FileSink.Spelt (o.committed.map Row.text) t) (hb : FileSink.Backed sec t file) :
    Keeps sec { o with
      world := w, sink := .create o.sink.path true none (file.map (·.survive k n)) } := by
  obtain ⟨env, s, hc, rfl⟩ := World.kill_eq hw
  obtain ⟨c, hspelt, hfound⟩ := hb.survive (k := k) (n := n) ht
  have hfiled : FileSink.Filed (o.committed.map Row.text) sec
      (.create o.sink.path true none (file.map (·.survive k n))) :=
    .create hk.filed.ended hspelt hfound
  exact
    { sound := World.sound_step hk.sound (World.happens_of_step hw)
      marker := hk.marker
      filed := hfiled
      closed := fun _ => ⟨_, rfl, rfl⟩
      stored := hk.stored
      accounted := hk.accounted
      running := fun _ _ heq => (Option.some_ne_none _ heq.symm).elim }

/-- **An opening.** -/
theorem Keeps.opens {env : Env} {φ : Fin 4 → Faults} {refused : Option String} (hk : Keeps sec o)
    (hfair : Fair o (.opens env φ refused)) (h : o.step (.opens env φ refused) = some o') :
    Keeps sec o' := by
  simp only [step, Option.map_eq_some_iff] at h
  obtain ⟨w, hw, rfl⟩ := h
  obtain ⟨hnone, hdisk, hclient⟩ := World.opens_granted hk.marker hfair.2 hw
  have hsound := World.sound_step hk.sound (World.happens_of_step hw)
  have hrows : rows w = rows o.world := by rw [rows, hdisk, rows]
  have haccounted : ∀ r ∈ o.committed, Accounted { o with world := w } sec r := by
    intro r hr
    rcases hk.accounted r hr with hmem | hrest
    · exact Or.inl (hrows ▸ hmem)
    · exact Or.inr hrest
  rcases hclient with hc | ⟨s, hc, hstart, hlog⟩
  · rw [hc]
    exact
      { sound := hsound
        marker := hdisk ▸ hk.marker
        filed := hk.filed
        closed := fun _ => hk.closed hnone
        stored := fun r hr => hk.stored r (hrows ▸ hr)
        accounted := haccounted
        running := fun env s heq => by simp [hc] at heq }
  · rw [hc]
    obtain ⟨file, hout, hok⟩ := hk.closed hnone
    obtain ⟨t, ht, -, hholds⟩ := hk.filed.file
    have hfound : FileSink.Found sec t o.sink.output.file := by
      have hh := (hholds hok).2
      rw [hout] at hh ⊢
      exact hh
    have hcustody := start_custody hstart
    exact
      { sound := hsound
        marker := hdisk ▸ hk.marker
        filed := .create hk.filed.ended ht hfound
        closed := fun hn => by simp [hc] at hn
        stored := fun r hr => hk.stored r (hrows ▸ hr)
        accounted := haccounted
        running := fun env' s' heq => by
          obtain ⟨rfl, rfl⟩ : env = env' ∧ s = s' := by simpa [hc] using heq
          refine ⟨Custody.undisturbed_start hcustody, ?_, ?_⟩
          · rw [hcustody.stage]
            exact nofun
          · rw [hlog]
            exact nofun }

/-- **Every act.** -/
theorem Keeps.step {act : Act} (hk : Keeps sec o) (hfree : Plain o) (hfair : Fair o act)
    (h : o.step act = some o') : ∃ sec', Keeps sec' o' := by
  cases act with
  | opens env φ refused => exact ⟨sec, hk.opens hfair h⟩
  | runs l a => exact hk.runs hfree hfair h
  | cancels =>
    obtain rfl := Option.some.inj h
    exact ⟨sec, { hk with filed := hk.filed.requestCancel }⟩
  | kill k n =>
    obtain ⟨w, hw, rfl⟩ := Option.map_eq_some_iff.mp h
    obtain ⟨t, ht, hb, -⟩ := hk.filed.file
    exact ⟨sec, hk.killed hw ht hb⟩
  | killInside a k n =>
    simp only [Outlet.step] at h
    split at h
    · rename_i f hcall
      obtain ⟨w, hw, rfl⟩ := Option.map_eq_some_iff.mp h
      obtain ⟨env, s, hc, -⟩ := World.kill_eq hw
      obtain ⟨t, ht, hb⟩ : ∃ t, FileSink.Spelt (o.committed.map Row.text) t ∧
          FileSink.Backed sec t (some f) := by
        rcases calling_cases hc hcall with ⟨d, v, batch, hpc, hwrite⟩ | ⟨-, hflush⟩
        · refine hk.filed.write_killed hfree.texts hfair.2 (fun p hp => ?_) hwrite.symm
          obtain ⟨x, hx, rfl⟩ := List.mem_map.mp hp
          refine (hk.running env s hc).batch x ?_
          rw [show (custody s).stage = stageOf s.frame.pc from rfl, hpc]
          exact hx
        · exact hk.filed.flush_killed hflush.symm
      exact ⟨sec, hk.killed hw ht hb⟩
    · cases h

/-- What was committed stays on record. -/
theorem committed_subset {act : Act} (h : o.step act = some o') : o.committed ⊆ o'.committed := by
  cases act with
  | opens env φ refused =>
    obtain ⟨w, -, rfl⟩ := Option.map_eq_some_iff.mp h
    split <;> exact List.Subset.refl _
  | runs l a =>
    simp only [step, bind, Option.bind_eq_some_iff, pure, Option.some.injEq] at h
    obtain ⟨sink, -, w, -, rfl⟩ := h
    exact List.subset_append_left _ _
  | cancels =>
    obtain rfl := Option.some.inj h
    exact List.Subset.refl _
  | kill k n =>
    obtain ⟨w, -, rfl⟩ := Option.map_eq_some_iff.mp h
    exact List.Subset.refl _
  | killInside a k n =>
    simp only [step] at h
    split at h
    · obtain ⟨w, -, rfl⟩ := Option.map_eq_some_iff.mp h
      exact List.Subset.refl _
    · cases h

theorem keeps_start (h : outlet.start o) : Keeps [] o := by
  obtain ⟨path, file, hempty, rfl⟩ := h
  have hfound : FileSink.Found [] [] file := by
    cases file with
    | none => exact ⟨rfl, rfl⟩
    | some f =>
      obtain ⟨hbytes, hpast⟩ := hempty f rfl
      refine ⟨hbytes, ?_⟩
      rw [← hbytes]
      exact File.within_of_past hpast (hbytes ▸ List.prefix_refl _) (by simp [hbytes])
  have hfiled : FileSink.Filed [] [] (.create path true none file) :=
    .create ended_nil ⟨[], nofun, List.prefix_refl _⟩ hfound
  exact
    { sound := World.sound_of_reach (.of_start (world_start _))
      marker := rfl
      filed := hfiled
      closed := fun _ => ⟨file, rfl, rfl⟩
      stored := nofun
      accounted := nofun
      running := fun _ _ heq => (Option.some_ne_none _ heq.symm).elim }

theorem keeps_of_reach (h : outlet.ReachIf Fair o) (hfree : Plain o) : ∃ sec, Keeps sec o := by
  refine h.rule (P := fun o => Plain o → ∃ sec, Keeps sec o) (fun o hs _ => ⟨[], keeps_start hs⟩)
    (fun o act o' _ hi hfair hs hfree => ?_) hfree
  have hfree₀ : Plain o := fun r hr => hfree r (committed_subset hs hr)
  obtain ⟨sec, hk⟩ := hi hfree₀
  exact hk.step hfree₀ hfair hs

/-- Whole texts are the payloads of committed rows. -/
theorem exists_rows {ps : List (List UInt8)} (h : ∀ p ∈ ps, p ∈ o.committed.map Row.text) :
    ∃ rs : List Row, (∀ r ∈ rs, r ∈ o.committed) ∧ rs.map Row.text = ps := by
  induction ps with
  | nil => exact ⟨[], nofun, rfl⟩
  | cons p ps ih =>
    obtain ⟨r, hr, rfl⟩ := List.mem_map.mp (h p List.mem_cons_self)
    obtain ⟨rs, hrs, rfl⟩ := ih fun p hp => h p (List.mem_cons_of_mem _ hp)
    exact ⟨r :: rs, List.forall_mem_cons.mpr ⟨hr, hrs⟩, rfl⟩

/-- **The store and the output file together never lose a committed event**: it is a row of
the store or a complete line of the file, unless its row was quarantined as unusable; and
whenever the file is opened successfully, every line in it is the payload of a committed
event. -/
theorem committed_stored_or_delivered (h : outlet.ReachIf Fair o) (hfree : Plain o) :
    (∀ r ∈ o.committed, r ∈ o.world.disk.events.rows ∨ IsLine newline r.text o.content ∨
      ∃ env, (env, r) ∈ o.quarantined ∧ r.usable env.isValidJson = false) ∧
    ∀ (a : Answers) st sink, a.reopens = true → o.sink.ensureOpen a = .ok (st, sink) →
      st.ok = true → ∃ rs : List Row, (∀ r ∈ rs, r ∈ o.committed) ∧
        sink.content = text newline (rs.map Row.text) := by
  obtain ⟨sec, hk⟩ := keeps_of_reach h hfree
  refine ⟨fun r hr => ?_, fun a st sink ha hopen hst => ?_⟩
  · rcases hk.accounted r hr with hmem | hline | hq
    · exact Or.inl hmem
    · exact Or.inr (Or.inl (hk.filed.isLine hline))
    · exact Or.inr (Or.inr hq)
  · obtain ⟨ps, hps, hcontent⟩ := hk.filed.ensureOpen hfree.texts ha hopen hst
    obtain ⟨rs, hrs, rfl⟩ := exists_rows hps
    exact ⟨rs, hrs, hcontent⟩

/-! ### One event, delivered before the process is killed -/

/-- Whether an act is fair. -/
def fair (o : Outlet) (act : Act) : Bool :=
  (match o.world.client with
    | none => true
    | some (_, s) => decide (s.pipeline.consent = .granted)) &&
  match act with
  | .opens env _ _ => decide (env.config.consent = .granted)
  | .runs _ a | .killInside a _ _ => a.reopens
  | .cancels | .kill _ _ => true

theorem fair_of_fair {act : Act} (h : fair o act = true) : Fair o act := by
  obtain ⟨hc, hact⟩ := Bool.and_eq_true_iff.mp h
  refine ⟨fun env s heq => ?_, ?_⟩
  · rw [heq] at hc
    exact of_decide_eq_true hc
  · cases act with
    | opens => exact of_decide_eq_true hact
    | runs | killInside => exact hact
    | cancels | kill => trivial

/-- One event is delivered and acknowledged, the process is killed, and another one opens the
same database and the same file. -/
def sampleActs : List Act :=
  [.opens sample (fun _ => Faults.none) none] ++
    (Label.starts 1 "s" "e" ++ Label.works 20).map (.runs · {}) ++
    [.kill 0 0, .opens sample (fun _ => Faults.none) none]

theorem committed_stored_or_delivered_sample :
    ∃ o, outlet.ReachIf Fair o ∧ Plain o ∧ o.world.disk.events.rows = [] ∧
      ∃ r ∈ o.committed, IsLine newline r.text o.content := by
  have hany : (outlet.exec (unopened "out" none) sampleActs).any (fun o =>
      decide (Plain o) && o.world.disk.events.rows.isEmpty && o.quarantined.isEmpty &&
        !o.committed.isEmpty) = true := by
    decide
  obtain ⟨o, hex, hp⟩ := Lts.Machine.exec_of_any hany
  simp only [Bool.and_eq_true, decide_eq_true_eq, List.isEmpty_iff, Bool.not_eq_true',
    List.isEmpty_eq_false_iff] at hp
  obtain ⟨⟨⟨hfree, hrows⟩, hq⟩, hne⟩ := hp
  have hreach : outlet.ReachIf Fair o :=
    ⟨unopened "out" none, ⟨"out", none, nofun, rfl⟩,
      Lts.Machine.runIf_of_meets (fun _ _ _ h => fair_of_fair h) hex (by decide)⟩
  obtain ⟨r, hr⟩ := List.exists_mem_of_ne_nil _ hne
  refine ⟨o, hreach, hfree, hrows, r, hr, ?_⟩
  rcases (committed_stored_or_delivered hreach hfree).1 r hr with hmem | hline | ⟨env, hmem, -⟩
  · exact absurd (hrows ▸ hmem) List.not_mem_nil
  · exact hline
  · exact absurd (hq ▸ hmem) List.not_mem_nil

end Outlet

end PlayerTrace
