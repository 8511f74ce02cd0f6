import PlayerTrace.Control.Admissions
import PlayerTrace.Lifetimes.Marker
import PlayerTrace.Revocation

/-!
# What the sink gets more than once

Delivery is at least once: the worker hands a batch to the sink first and removes it from the
store afterwards. This module says what makes the difference to once. The reports of a run
(`PlayerTrace.World.reports`) are the batches the sink has accepted, the acknowledgments that
have failed, and the ends of processes; some of them *excuse* a second delivery of an event,
namely

* an acknowledgment of it that failed;
* the end of a process between the sink and the store, or after an exception has ended the
  worker, or with the purge of a revocation still owed.

The sink accepts an event at most once more than there are excuses for it
(`PlayerTrace.duplicates_excused`). So a revocation, however it falls, a process killed anywhere
else, a sink that fails and a store that fails to insert or to read duplicate nothing.

The argument follows one identifier. Once the sink has it, it is with the worker between the
sink and the store, or it is *served* (`PlayerTrace.Custody.Served`): what is stored of it is
below the fence of a revocation, so that the worker will not find it at its next look.
-/

namespace PlayerTrace

/-! ### Served -/

/-- Points where no delivery is under way. -/
def Stage.resting : Stage → Bool
  | .looking _ | .fetched .. | .sending .. | .acknowledging _ => false
  | _ => true

theorem Stage.batch_of_resting {st : Stage} (h : st.resting = true) : st.batch = [] := by
  cases st with
  | fetched | sending | acknowledging => cases h
  | _ => rfl

namespace Custody

variable {env : Env} {c c' : Custody} {id : String}

/-- What a batch carries is spent. -/
theorem spent_of_batch (h : Reachable env c) : ∀ x ∈ c.stage.batch, Spent x.eventId c := by
  refine Lts.Reachable.rule (P := fun c => ∀ x ∈ c.stage.batch, Spent x.eventId c)
    (fun c hs x hx => ?_) (fun c c' hr hi hs x hx => ?_) h
  · rw [hs.stage] at hx
    exact absurd hx List.not_mem_nil
  · have ho := ordered_of_reachable hr
    rcases hs.batch_cases with hnil | ⟨hb, -⟩ | ⟨read, hread, hb, -⟩
    · rw [hnil] at hx
      exact absurd hx List.not_mem_nil
    · exact spent_step (hi x (hb ▸ hx)) ho hs
    · obtain ⟨r, hmem, -, hu, rfl⟩ := mem_batch_of_read hread (hb ▸ hx)
      exact spent_step (spent_of_row hr hmem (Row.eventId_of_usable hu)) ho hs

/-- **The store has nothing left to deliver of this identifier**: it is gone for good, or what
is stored of it is below the fence and no delivery is under way. -/
def Served (id : String) (c : Custody) : Prop :=
  Absent id c ∨ Spent id c ∧ c.stage.resting = true ∧
    ∀ r ∈ c.rows, r.eventId = some id → r.ordinal < c.history.fence

theorem Served.not_mem (h : Served id c) : id ∉ c.stage.batch.map SerializedEvent.eventId := by
  rintro hmem
  obtain ⟨x, hx, hid⟩ := List.mem_map.mp hmem
  rcases h with h | ⟨-, hrest, -⟩
  · exact h.batch x hx hid
  · rw [Stage.batch_of_resting hrest] at hx
    exact absurd hx List.not_mem_nil

/-- With no purge owed, nothing is stored of what is served. -/
theorem Served.notStored (h : Served id c) (hr : Reachable env c) (hset : c.unsettled = false) :
    NotStored id c.store.view := by
  rcases h with h | ⟨-, -, hbelow⟩
  · exact h.stored
  · intro r hmem hid
    exact absurd ((cleared_of_settled hr hset).rows r hmem) (Nat.not_le.mpr (hbelow r hmem hid))

theorem Served.used (h : Served id c) : id ∈ c.history.used := by
  rcases h with h | ⟨h, -⟩
  · exact h.used
  · exact h.used

/-- A delivery begins with a look at the consent. -/
theorem Step.resting_cases (hs : Step env c c') (h : c.stage.resting = true) :
    c'.stage.resting = true ∨
      c.consent = .granted ∧ c'.rows = c.rows ∧ c'.stage.batch = [] := by
  cases hs with
  | look _ hc => exact Or.inr ⟨hc, rfl, rfl⟩
  | fetch hst | readAgain hst | send hst | sent hst =>
    rw [hst] at h
    exact absurd h nofun
  | drain | takeNothing | takeRetry | read | refuse | stale | drop | keep | keptNothing | guard
  | refuseKept | pass | commit | insertFailed | hold | notSent | notAcknowledged
  | acknowledge | refuseDelivery | outdated | purge | notPurged | reset | raise => exact Or.inl rfl
  | _ => exact Or.inl h

/-- **What is served stays so**: nothing of it is inserted again, and at the next look, with
consent, the fence is clear. -/
theorem served_step (hi : Served id c) (hr : Reachable env c) (hs : Step env c c') :
    Served id c' := by
  rcases hi with hi | ⟨hsp, hrest, hbelow⟩
  · exact Or.inl (absent_step hi hr hs)
  have hsp' := spent_step hsp (ordered_of_reachable hr) hs
  rcases hs.resting_cases hrest with hrest' | ⟨hc, hrows, hb⟩
  · refine Or.inr ⟨hsp', hrest', fun r hmem hid => ?_⟩
    rcases hs.mem_rows hmem with hmem | ⟨v, k, hst, -, x, hx, hitem⟩
    · exact Nat.lt_of_lt_of_le (hbelow r hmem hid) (hs.fence_le hr)
    · -- an insertion stores what was on its way, and that is not spent
      have heq : some x.qe.event.eventId = some id := (congrArg Item.id hitem).symm.trans hid
      have hline := mem_line_of_hands (mem_hands_of_committing hst hx)
      exact absurd (Option.some.inj heq) (hsp.line x.qe hline)
  · refine Or.inl ⟨hsp', fun r hmem hid => ?_, fun x hx => ?_⟩
    · have hmem : r ∈ c.rows := hrows ▸ hmem
      exact absurd ((cleared_of_granted hr hc).rows r hmem) (Nat.not_le.mpr (hbelow r hmem hid))
    · rw [hb] at hx
      exact absurd hx List.not_mem_nil

end Custody

/-! ### Reports -/

/-- What a run has to say about deliveries. -/
inductive Report
  /-- The sink has accepted a batch with these identifiers. -/
  | accepted (ids : List String)
  /-- The acknowledgment of such a batch has failed. -/
  | unacknowledged (ids : List String)
  /-- A process has ended with these identifiers between the sink and the store; `undone` if an
  exception had ended its worker or a purge was owed. -/
  | ended (ids : List String) (undone : Bool)

namespace Report

/-- How often the sink has accepted an identifier. -/
def accepts (id : String) : Report → Nat
  | .accepted ids => ids.count id
  | _ => 0

/-- How many further deliveries of it are excused. -/
def excuses (id : String) : Report → Nat
  | .accepted _ => 0
  | .unacknowledged ids => ids.count id
  | .ended ids undone => ids.count id + undone.toNat

/-- How often the sink has accepted an identifier in a run. -/
def taken (id : String) (log : List Report) : Nat := (log.map (accepts id)).sum

/-- How many further deliveries of it the run excuses. -/
def excused (id : String) (log : List Report) : Nat := (log.map (excuses id)).sum

@[simp] theorem taken_append (id : String) (log log' : List Report) :
    taken id (log ++ log') = taken id log + taken id log' := by
  simp [taken]

@[simp] theorem excused_append (id : String) (log log' : List Report) :
    excused id (log ++ log') = excused id log + excused id log' := by
  simp [excused]

end Report

/-- The identifiers of a batch. -/
def identifiers (b : List SerializedEvent) : List String := b.map SerializedEvent.eventId

/-- What a step of the worker has to report. -/
def Worker.reports (s : State) (i : Input) : List Report :=
  match i.raise, s.frame.pc with
  | none, .write _ _ b => if (safeWrite i.sink).ok then [.accepted (identifiers b)] else []
  | none, .acknowledge _ b =>
    if (PlayerTrace.acknowledge i.faults (identifiers b) s.pipeline.store).1.ok then []
    else [.unacknowledged (identifiers b)]
  | _, _ => []

/-- What a step of a client has to report. -/
def State.reports (s : State) : Label → List Report
  | .worker i => Worker.reports s i
  | _ => []

/-- What an act has to report. -/
def World.reports (w : World) : World.Act → List Report
  | .opens .. => []
  | .runs l => (w.client.map fun c => c.2.reports l).getD []
  | .kill => (w.client.map fun c =>
      [Report.ended (identifiers c.2.frame.pc.sent)
        (!c.2.core.terminalStatus.ok || (custody c.2).unsettled)]).getD []

variable {env : Env} {i : Input} {l : Label} {s s' : State} {id : String}

/-! ### One lifetime -/

/-- **The sink has it, and nothing excuses another delivery**: it is between the sink and the
store, or the worker is gone, or it is served. -/
def Handed (id : String) (s : State) : Prop :=
  id ∈ identifiers s.frame.pc.sent ∨ s.core.terminalStatus.ok = false ∨
    Custody.Served id (custody s)

theorem served_of_step (hr : (machine env).Reach s) (h : step env s l = some s')
    (hi : Custody.Served id (custody s)) : Custody.Served id (custody s') := by
  rcases step_moves h with heq | hm
  · rwa [heq]
  · exact Custody.served_step hi (custody_reachable hr) hm

/-- Where the worker has business with a batch, and elsewhere. -/
theorem WorkerPc.handing_cases (pc : WorkerPc) :
    (∃ d v b, pc = .write d v b) ∨ (∃ d v b, pc = .postConsent d v b) ∨
      (∃ d v b, pc = .postGeneration d v b) ∨ (∃ d b, pc = .acknowledge d b) ∨
      (pc.sent = [] ∧ ∀ s i, s.frame.pc = pc → Worker.reports s i = []) := by
  cases pc with
  | write d v b => exact Or.inl ⟨d, v, b, rfl⟩
  | postConsent d v b => exact Or.inr (Or.inl ⟨d, v, b, rfl⟩)
  | postGeneration d v b => exact Or.inr (Or.inr (Or.inl ⟨d, v, b, rfl⟩))
  | acknowledge d b => exact Or.inr (Or.inr (Or.inr (Or.inl ⟨d, b, rfl⟩)))
  | _ =>
    refine Or.inr (Or.inr (Or.inr (Or.inr ⟨rfl, fun s i hpc => ?_⟩)))
    simp only [Worker.reports, hpc]
    split <;> first | rfl | contradiction

/-- **What a step does to an identifier the sink has accepted, or has not**: it is accepted at
most once, and only if it was not before; and it stays accepted unless there is an excuse. -/
structure Hands (id : String) (s s' : State) (log : List Report) : Prop where
  taken : Report.taken id log = 0 ∨ Report.taken id log = 1 ∧ ¬Handed id s ∧ Handed id s'
  kept : Handed id s → Handed id s' ∨ 0 < Report.excused id log

/-- A step with nothing to report. -/
theorem Hands.of_nil (h : Handed id s → Handed id s') : Hands id s s' [] :=
  ⟨Or.inl rfl, fun hi => Or.inl (h hi)⟩

/-- Away from the sink and the store, what was handed over is settled. -/
theorem handed_of_sent_nil (hr : (machine env).Reach s) (h : step env s l = some s')
    (hsent : s.frame.pc.sent = []) (hi : Handed id s) : Handed id s' := by
  rcases hi with hmem | hdead | hserved
  · rw [hsent] at hmem
    exact absurd hmem List.not_mem_nil
  · exact Or.inr (Or.inl (terminal_of_step h hdead))
  · exact Or.inr (Or.inr (served_of_step hr h hserved))

theorem spent_of_step (hr : (machine env).Reach s) (h : step env s l = some s')
    (hi : Custody.Spent id (custody s)) : Custody.Spent id (custody s') := by
  rcases step_moves h with heq | hm
  · rwa [heq]
  · exact Custody.spent_step hi (Custody.ordered_of_reachable (custody_reachable hr)) hm

theorem spent_of_mem_batch (hr : (machine env).Reach s)
    (hmem : id ∈ identifiers (custody s).stage.batch) : Custody.Spent id (custody s) := by
  obtain ⟨x, hx, rfl⟩ := List.mem_map.mp hmem
  exact Custody.spent_of_batch (custody_reachable hr) x hx

/-- **A delivery given up for a purge is served**: the purge was decided because of a
revocation, and that has fenced off everything stored. -/
theorem served_of_purging (hr : (machine env).Reach s) (h : step env s l = some s')
    (hmem : id ∈ identifiers (custody s).stage.batch) (hpurge : (custody s').stage = .purging) :
    Custody.Served id (custody s') := by
  refine Or.inr ⟨spent_of_step hr h (spent_of_mem_batch hr hmem), by rw [hpurge]; rfl, ?_⟩
  intro r hr' _
  exact (Custody.fenced_of_reachable (custody_reachable (hr.step h))).purging hpurge r hr'

namespace Worker

/-- The sink is called. -/
theorem hands_of_write {d : Bool} {v : Nat} {b : List SerializedEvent}
    (hr : (machine env).Reach s) (h : PlayerTrace.step env s (.worker i) = some s')
    (hraise : i.raise = none) (hpc : s.frame.pc = .write d v b) :
    Hands id s s' (reports s i) := by
  have hkept : Handed id s → Handed id s' := handed_of_sent_nil hr h (by rw [hpc]; rfl)
  have hex : some (write i s d v b) = some s' := by
    have := execute_of_step hraise h
    rwa [execute, hpc] at this
  have hbatch : (custody s).stage.batch = b := congrArg (fun pc => (stageOf pc).batch) hpc
  simp only [reports, hraise, hpc]
  split
  · rename_i hok
    have hsent : s'.frame.pc.sent = b := by
      rw [← Option.some.inj hex, write, if_neg (by simp [hok])]
      rfl
    refine ⟨?_, fun hi => Or.inl (hkept hi)⟩
    by_cases hmem : id ∈ identifiers b
    · refine Or.inr ⟨?_, ?_, Or.inl (hsent.symm ▸ hmem)⟩
      · have hnodup := (Custody.batched_of_reachable (custody_reachable hr)).ids
        rw [hbatch] at hnodup
        have hone : (identifiers b).count id = 1 := List.count_eq_one_of_mem hnodup hmem
        simpa [Report.taken, Report.accepts] using hone
      · rintro (hin | hdead | hserved)
        · rw [hpc] at hin
          exact absurd hin List.not_mem_nil
        · have hend := ending_of_terminal hr hdead
          rw [hpc] at hend
          cases hend
        · exact hserved.not_mem (hbatch.symm ▸ hmem)
    · have hzero : (identifiers b).count id = 0 := List.count_eq_zero_of_not_mem hmem
      exact Or.inl (by simpa [Report.taken, Report.accepts] using hzero)
  · exact .of_nil hkept

/-- The two checks after the sink has returned. -/
theorem hands_of_check {v : Nat} {b : List SerializedEvent} (hr : (machine env).Reach s)
    (h : PlayerTrace.step env s (.worker i) = some s') (hstage : (custody s).stage = .sending v b)
    (hsent : s.frame.pc.sent = b)
    (hcases : (custody s').stage = .purging ∨ s'.frame.pc.sent = b) : Hands id s s' [] := by
  refine .of_nil fun hi => ?_
  rcases hi with hmem | hdead | hserved
  · rcases hcases with hpurge | hsame
    · refine Or.inr (Or.inr (served_of_purging hr h ?_ hpurge))
      rw [hstage]
      exact hsent ▸ hmem
    · exact Or.inl (by rw [hsame, ← hsent]; exact hmem)
  · exact Or.inr (Or.inl (terminal_of_step h hdead))
  · exact Or.inr (Or.inr (served_of_step hr h hserved))

/-- The acknowledgment. -/
theorem hands_of_acknowledge {d : Bool} {b : List SerializedEvent} (hr : (machine env).Reach s)
    (h : PlayerTrace.step env s (.worker i) = some s') (hraise : i.raise = none)
    (hpc : s.frame.pc = .acknowledge d b) : Hands id s s' (reports s i) := by
  have hex : some (acknowledge i s d b) = some s' := by
    have := execute_of_step hraise h
    rwa [execute, hpc] at this
  obtain ⟨st, n, db, hack⟩ : ∃ st n db,
      PlayerTrace.acknowledge i.faults (identifiers b) s.pipeline.store = (st, n, db) :=
    ⟨_, _, _, rfl⟩
  have hreports : reports s i = if st.ok then [] else [.unacknowledged (identifiers b)] := by
    simp only [reports, hraise, hpc, hack]
  rw [hreports]
  refine ⟨Or.inl (by split <;> rfl), ?_⟩
  rintro (hmem | hdead | hserved)
  · have hmem : id ∈ identifiers b := by rwa [hpc] at hmem
    split
    · -- the rows of the batch are gone
      rename_i hok
      obtain ⟨hev, -⟩ := (acknowledge_cases hack).resolve_left (by simp [hok])
      have hs' : s' = (note (setStore s db) fun h => { h with
          acked := h.acked ++ s.pipeline.store.gone db }).goto (.countDelivered b.length) := by
        rw [← Option.some.inj hex, acknowledge]
        simp only [show PlayerTrace.acknowledge i.faults (b.map SerializedEvent.eventId)
          s.pipeline.store = (st, n, db) from hack, hok]
        rfl
      have hspent : Custody.Spent id (custody s) := spent_of_mem_batch hr (by
        rw [show (custody s).stage.batch = b from congrArg (fun pc => (stageOf pc).batch) hpc]
        exact hmem)
      refine Or.inl (Or.inr (Or.inr (Or.inl ⟨spent_of_step hr h hspent, ?_, ?_⟩)))
      · intro r hrow hid
        have hrow : r ∈ db.view.events.rows := by rwa [hs'] at hrow
        rw [hev, Events.mem_without] at hrow
        exact hrow.2 id hmem hid
      · rw [hs']
        exact fun x hx => absurd hx List.not_mem_nil
    · refine Or.inr ?_
      simpa [Report.excused, Report.excuses] using List.count_pos_iff.mpr hmem
  · exact Or.inl (Or.inr (Or.inl (terminal_of_step h hdead)))
  · exact Or.inl (Or.inr (Or.inr (served_of_step hr h hserved)))

/-- **A step of the worker hands over at most once.** -/
theorem hands_of_step (hr : (machine env).Reach s)
    (h : PlayerTrace.step env s (.worker i) = some s') : Hands id s s' (reports s i) := by
  rcases hraise : i.raise with _ | what
  · have hex := execute_of_step hraise h
    rcases s.frame.pc.handing_cases with ⟨d, v, b, hpc⟩ | ⟨d, v, b, hpc⟩ | ⟨d, v, b, hpc⟩ |
      ⟨d, b, hpc⟩ | ⟨hsent, hnil⟩
    · exact hands_of_write hr h hraise hpc
    · rw [execute, hpc] at hex
      rw [show reports s i = [] by simp only [reports, hraise, hpc]]
      refine hands_of_check hr h (congrArg stageOf hpc) (congrArg WorkerPc.sent hpc) ?_
      rw [← Option.some.inj hex, postConsent]
      split
      · exact Or.inl rfl
      · exact Or.inr rfl
    · rw [execute, hpc] at hex
      rw [show reports s i = [] by simp only [reports, hraise, hpc]]
      refine hands_of_check hr h (congrArg stageOf hpc) (congrArg WorkerPc.sent hpc) ?_
      rw [← Option.some.inj hex, postGeneration]
      split
      · exact Or.inl rfl
      · exact Or.inr rfl
    · exact hands_of_acknowledge hr h hraise hpc
    · rw [hnil s i rfl]
      exact .of_nil (handed_of_sent_nil hr h hsent)
  · -- an exception: the worker is gone
    rw [show reports s i = [] by simp only [reports, hraise]]
    refine .of_nil fun _ => Or.inr (Or.inl ?_)
    rw [unexpected_of_step hraise h]
    cases what <;> rfl

end Worker

/-- A step of a caller does not touch a delivery. -/
theorem hands_of_step (hr : (machine env).Reach s) (h : step env s l = some s') :
    Hands id s s' (s.reports l) := by
  rcases aside_of_step h with ⟨i, rfl, -⟩ | ⟨t, hl, ha⟩
  · exact Worker.hands_of_step hr h
  · have hnil : s.reports l = [] := by
      cases l with
      | worker i => exact absurd rfl (hl i)
      | _ => rfl
    rw [hnil]
    refine .of_nil ?_
    rintro (hmem | hdead | hserved)
    · exact Or.inl (by rw [ha.frame]; exact hmem)
    · exact Or.inr (Or.inl (terminal_of_step h hdead))
    · exact Or.inr (Or.inr (served_of_step hr h hserved))

/-! ### All lifetimes -/

namespace World

variable {w w' : World} {log : List Report}

/-- **The sink has it, and nothing excuses another delivery**, in this or a later lifetime. -/
structure Handed (id : String) (w : World) : Prop where
  closed : w.client = none → id ∈ w.earlier ∧ Custody.NotStored id w.disk
  running : ∀ env s, w.client = some (env, s) → PlayerTrace.Handed id s

theorem Handed.of_client (hc : w.client = some (env, s)) (h : PlayerTrace.Handed id s) :
    Handed id w where
  closed hn := by simp [hc] at hn
  running env' s' heq := by
    obtain ⟨rfl, rfl⟩ : env = env' ∧ s = s' := by simpa [hc] using heq
    exact h

theorem Handed.of_none (hc : w.client = none) (hused : id ∈ w.earlier)
    (h : Custody.NotStored id w.disk) : Handed id w where
  closed _ := ⟨hused, h⟩
  running env s heq := by simp [hc] at heq

/-- **The account of an identifier**: the sink has accepted it as often as is excused, or once
more, and then it has it. -/
def Account (id : String) (w : World) (log : List Report) : Prop :=
  Report.taken id log ≤ Report.excused id log ∨
    Report.taken id log = Report.excused id log + 1 ∧ Handed id w

/-- An act that reports nothing accepted. -/
theorem Account.of_none (hi : Account id w log) {new : List Report}
    (hnone : Report.taken id new = 0)
    (hkept : Handed id w → Handed id w' ∨ 0 < Report.excused id new) :
    Account id w' (log ++ new) := by
  rw [Account, Report.taken_append, Report.excused_append, hnone]
  rcases hi with hle | ⟨heq, hh⟩
  · exact Or.inl (by omega)
  · rcases hkept hh with hh' | hpos
    · by_cases hz : Report.excused id new = 0
      · exact Or.inr ⟨by omega, hh'⟩
      · exact Or.inl (by omega)
    · exact Or.inl (by omega)

theorem account_step {a : Act} (hi : Account id w log) (hsound : Sound w)
    (h : w.step a = some w') : Account id w' (log ++ w.reports a) := by
  cases a with
  | opens env φ =>
    refine hi.of_none rfl fun hh => Or.inl ?_
    cases happens_of_step h with
    | @opened env db m s hw hstart hs hview hmark =>
      obtain ⟨hused, hnot⟩ := hh.closed hw
      have hnot : Custody.NotStored id db.view := by
        rcases hview with hv | hv
        · exact hv ▸ hnot
        · exact hv ▸ Custody.notStored_empty
      refine .of_client rfl (Or.inr (Or.inr (Or.inl ?_)))
      rw [hs]
      exact absent_initial hused hnot
    | refused hw ht =>
      obtain ⟨hused, hnot⟩ := hh.closed hw
      refine .of_none rfl hused ?_
      rcases ht with rfl | rfl
      · exact hnot
      · exact Custody.notStored_empty
    | ran hw | killed hw => simp [step, hw] at h
  | runs l =>
    obtain ⟨env, s, s', hc, hs, rfl⟩ := runs_eq h
    have hhands : Hands id s s' (s.reports l) := hands_of_step (hsound.running env s hc).reach hs
    rw [show w.reports (.runs l) = s.reports l by simp [reports, hc]]
    rcases hhands.taken with hnone | ⟨hone, hnot, hh'⟩
    · refine hi.of_none hnone fun hh => ?_
      exact (hhands.kept (hh.running env s hc)).imp_left (.of_client rfl)
    · rw [Account, Report.taken_append, Report.excused_append, hone]
      rcases hi with hle | ⟨-, hh⟩
      · by_cases hz : Report.taken id log + 1 ≤
            Report.excused id log + Report.excused id (s.reports l)
        · exact Or.inl hz
        · exact Or.inr ⟨by omega, .of_client rfl hh'⟩
      · exact absurd (hh.running env s hc) hnot
  | kill =>
    obtain ⟨env, s, hc, rfl⟩ := kill_eq h
    have hrun := hsound.running env s hc
    rw [show w.reports .kill = [.ended (identifiers s.frame.pc.sent)
      (!s.core.terminalStatus.ok || (custody s).unsettled)] by simp [reports, hc]]
    refine hi.of_none rfl fun hh => ?_
    have hexc : Report.excused id [.ended (identifiers s.frame.pc.sent)
        (!s.core.terminalStatus.ok || (custody s).unsettled)] =
      (identifiers s.frame.pc.sent).count id +
        (!s.core.terminalStatus.ok || (custody s).unsettled).toNat := by
      simp [Report.excused, Report.excuses]
    rw [hexc]
    rcases hh.running env s hc with hmem | hdead | hserved
    · exact Or.inr (by have := List.count_pos_iff.mpr hmem; omega)
    · exact Or.inr (by simp [hdead])
    · rcases hset : (custody s).unsettled with _ | _
      · refine Or.inl (.of_none rfl hserved.used ?_)
        rw [← hrun.disk]
        exact hserved.notStored (custody_reachable hrun.reach) hset
      · exact Or.inr (by simp)

theorem account_of_reach (id : String) (h : (world.observed reports).Reach (w, log)) :
    Account id w log := by
  refine h.observed_rule (P := fun w log => Account id w log) (fun w _ => Or.inl (Nat.le_refl _)) ?_
  intro w log a w' hw hi hs
  exact account_step hi (sound_of_reach hw) hs

end World

/-- **Every duplicate has its excuse.** Over any number of lifetimes of one database, with any
faults of the store and of the sink, any interleaving and any kills: the sink accepts an event at
most once, and once more for each acknowledgment of it that failed and for each process that
ended between the sink and the store, after its worker had died of an exception, or with the
purge of a revocation owed. -/
theorem duplicates_excused {w : World} {log : List Report}
    (h : (world.observed World.reports).Reach (w, log)) (id : String) :
    Report.taken id log ≤ Report.excused id log + 1 := by
  rcases World.account_of_reach id h with hle | ⟨heq, -⟩
  · omega
  · omega

/-- The transaction of the acknowledgment does not commit. -/
def unacknowledged : Input :=
  { faults := fun p => if p = .exec .commit then some "disk full" else none }

/-- An event the sink gets three times: the first acknowledgment does not commit, and the first
process is killed before the second one. -/
theorem duplicates_excused_thrice : ∃ w log, (world.observed World.reports).Reach (w, log) ∧
    w.lifetime = 2 ∧ w.disk.events.rows = [] ∧ Report.taken "e" log = 3 ∧
    3 ≤ Report.excused "e" log + 1 := by
  obtain ⟨⟨w, log⟩, hr, hp⟩ := Lts.Machine.reach_of_exec
    (M := world.observed World.reports) (s := (World.unopened ⟨.empty, false⟩, []))
    ⟨world_start _, rfl⟩
    ([World.Act.create] ++ World.Act.run (Label.starts 1 "s" "e" ++ Label.works 19 ++
      [.worker unacknowledged] ++ Label.works 10) ++ [.kill, World.Act.create] ++
      World.Act.run (Label.works 12))
    (fun p => decide (p.1.lifetime = 2) && decide (p.1.disk.events.rows = []) &&
      decide (Report.taken "e" p.2 = 3)) (by decide +kernel)
  simp only [Bool.and_eq_true, decide_eq_true_eq] at hp
  obtain ⟨⟨hlife, hrows⟩, htaken⟩ := hp
  exact ⟨w, log, hr, hlife, hrows, htaken, htaken ▸ duplicates_excused hr "e"⟩

end PlayerTrace
