import PlayerTrace.Control.Consented
import PlayerTrace.Custody.Sequence
import PlayerTrace.Store.Calm

/-!
# What `deliver_all` delivers

Without faults and under consent, the loop of `deliver_all` works through the table in
windows of `batch_size` rows, in ordinal order. A window with a usable row in it is
quarantined of the others, written and acknowledged, and the loop goes on. But the loop
ends when a fetch returns no event, and a fetch returns none also when its window holds
unusable rows only: these are quarantined, and what stands behind them stays in the store.

So the table is drained exactly when every window but the last has a usable row
(`PlayerTrace.Covered`, `PlayerTrace.deliver_all_drains_iff`). The proof carries the number of
windows that are done (`PlayerTrace.Phase`); everything else – what was written, what was
quarantined, how much capacity was given back – is read off the rows in front of it
(`PlayerTrace.Tally`).
-/

namespace PlayerTrace

/-! ### A call of `deliver_all` without faults -/

/-- The positions of `deliver_all`. -/
def WorkerPc.delivering : WorkerPc → Bool
  | .deliverConsent _ | .fetch .. | .countQuarantined .. | .noteFetch .. | .deliverGeneration ..
  | .recheckConsent .. | .write .. | .noteWrite .. | .postConsent .. | .postGeneration ..
  | .acknowledge .. | .noteAck .. | .countDelivered _ => true
  | .purge (.delivery _) | .notePurge (.delivery _) _ | .resetOutstanding (.delivery _) _ => true
  | _ => false

/-- The environment answers without a fault: no store operation fails, the sink accepts, and
nothing is thrown. -/
structure Input.Calm (i : Input) : Prop where
  faults : i.faults = Faults.none
  sink : (Worker.safeWrite i.sink).ok = true
  raise : i.raise = none

/-- A step inside `deliver_all`, with consent granted and no fault for the worker. -/
def Undisturbed (s : State) (l : Label) : Prop :=
  s.frame.pc.delivering = true ∧ s.pipeline.consent = .granted ∧ ∀ i, l = .worker i → i.Calm

/-- What each step of the worker passes to `release_outstanding`. -/
def released (s : State) (l : Label) : List Nat :=
  match l with
  | .worker _ => [(dueOf s.frame.pc).amount]
  | _ => []

/-! ### The windows -/

/-- The rows that can be delivered. -/
def Env.usable (env : Env) (rows : List Row) : List Row :=
  rows.filter (Row.usable env.isValidJson)

/-- The rows that cannot. -/
def Env.unusable (env : Env) (rows : List Row) : List Row :=
  rows.filter fun r => !r.usable env.isValidJson

/-- The number of rows a fetch reads. -/
def Env.batch (env : Env) : Nat := min env.config.batchSize maxLimit

/-- The rows of the store, as they are read. -/
def State.pending (s : State) : List Row := s.pipeline.store.view.events.ordered

section Windows

variable (env : Env) (s₀ : State)

/-- The rows of window `k`. -/
def window (k : Nat) : List Row := (s₀.pending.drop (k * env.batch)).take env.batch

/-- The rows in front of window `k`. -/
def front (k : Nat) : List Row := s₀.pending.take (k * env.batch)

/-- The rows from window `k` on. -/
def behind (k : Nat) : List Row := s₀.pending.drop (k * env.batch)

/-- **Every window but the last has a usable row.** -/
def Covered : Prop := ∀ k, behind env s₀ (k + 1) ≠ [] → env.usable (window env s₀ k) ≠ []

theorem front_succ (k : Nat) : front env s₀ (k + 1) = front env s₀ k ++ window env s₀ k := by
  rw [front, Nat.succ_mul, List.take_add]
  rfl

theorem behind_eq (k : Nat) : behind env s₀ k = window env s₀ k ++ behind env s₀ (k + 1) := by
  rw [behind, behind, window, Nat.succ_mul, ← List.drop_drop, List.take_append_drop]

@[simp] theorem Env.usable_append (a b : List Row) :
    env.usable (a ++ b) = env.usable a ++ env.usable b := List.filter_append ..

@[simp] theorem Env.unusable_append (a b : List Row) :
    env.unusable (a ++ b) = env.unusable a ++ env.unusable b := List.filter_append ..

theorem length_usable_add (rows : List Row) :
    (env.unusable rows).length + (env.usable rows).length = rows.length := by
  have h := (List.filter_append_perm (Row.usable env.isValidJson) rows).length_eq
  rw [List.length_append] at h
  rw [Env.unusable, Env.usable, Nat.add_comm]
  exact h

end Windows

/-! ### What has been done -/

/-- What `deliver_all` has done since `s₀`: the rows `sent` are written, the rows `gone` are
quarantined, the rows `counted` are counted, and `freed` was given back, in at most `steps`
steps. -/
structure Tally (env : Env) (s₀ s : State) (w : List Nat) (sent gone counted : List Row)
    (freed steps : Nat) : Prop where
  written : s.log.written = s₀.log.written ++ (env.usable sent).map Row.serialized
  dropped : ∃ d, s.history.dropped = s₀.history.dropped ++ d ∧
    d.Perm ((env.unusable gone).map Row.item)
  droppedInvalid : s.pipeline.stats.droppedInvalid =
    s₀.pipeline.stats.droppedInvalid + (env.unusable counted).length
  freed : w.sum = freed
  steps : w.length ≤ steps

section Phases

variable (env : Env) (s₀ s : State) (w : List Nat) (k : Nat)

/-- Window `k` has been fetched, and `events` read from it: the unusable rows are gone. -/
structure Fetched (events : List SerializedEvent) : Prop where
  rows : s.pending = env.usable (window env s₀ k) ++ behind env s₀ (k + 1)
  events : events = (env.usable (window env s₀ k)).map Row.serialized

/-- The capacity given back once the unusable rows of window `k` are counted. -/
def freedBad : Nat := (front env s₀ k).length + (env.unusable (window env s₀ k)).length

/-- **Where `deliver_all` is**, `k` windows after `s₀`. -/
inductive Phase : Prop
  | checking {d : Bool} (hpc : s.frame.pc = .deliverConsent d)
      (hrows : s.pending = behind env s₀ k)
      (ht : Tally env s₀ s w (front env s₀ k) (front env s₀ k) (front env s₀ k)
        (front env s₀ k).length (11 * k))
  | fetching {d : Bool} {seen : Nat} (hpc : s.frame.pc = .fetch d seen)
      (hrows : s.pending = behind env s₀ k)
      (ht : Tally env s₀ s w (front env s₀ k) (front env s₀ k) (front env s₀ k)
        (front env s₀ k).length (11 * k + 1))
  | quarantining {d : Bool} {seen : Nat} {pending : FetchResult}
      (hpc : s.frame.pc = .countQuarantined d seen pending)
      (hf : Fetched env s₀ s k pending.events)
      (hq : pending.quarantined = (env.unusable (window env s₀ k)).length)
      (hst : pending.status.ok = false)
      (ht : Tally env s₀ s w (front env s₀ k) (front env s₀ (k + 1)) (front env s₀ k)
        (front env s₀ k).length (11 * k + 2))
  | reporting {d : Bool} {seen : Nat} {pending : FetchResult}
      (hpc : s.frame.pc = .noteFetch d seen pending) (hf : Fetched env s₀ s k pending.events)
      (ht : Tally env s₀ s w (front env s₀ k) (front env s₀ (k + 1)) (front env s₀ (k + 1))
        (freedBad env s₀ k) (11 * k + 3))
  | holding {events : List SerializedEvent} {n : Nat}
      (hpc : (∃ d seen, s.frame.pc = .deliverGeneration d seen events ∧ n = 4) ∨
        (∃ d seen, s.frame.pc = .recheckConsent d seen s.pipeline.consentGeneration events ∧
          n = 5) ∨
        ∃ d, s.frame.pc = .write d s.pipeline.consentGeneration events ∧ n = 6)
      (hne : events ≠ []) (hf : Fetched env s₀ s k events)
      (ht : Tally env s₀ s w (front env s₀ k) (front env s₀ (k + 1)) (front env s₀ (k + 1))
        (freedBad env s₀ k) (11 * k + n))
  | sent {events : List SerializedEvent} {n : Nat}
      (hpc : (∃ d, s.frame.pc = .postConsent d s.pipeline.consentGeneration events ∧ n = 7) ∨
        (∃ d, s.frame.pc = .postGeneration d s.pipeline.consentGeneration events ∧ n = 8) ∨
        ∃ d, s.frame.pc = .acknowledge d events ∧ n = 9)
      (hne : events ≠ []) (hf : Fetched env s₀ s k events)
      (ht : Tally env s₀ s w (front env s₀ (k + 1)) (front env s₀ (k + 1)) (front env s₀ (k + 1))
        (freedBad env s₀ k) (11 * k + n))
  | acknowledged {n : Nat} (hpc : s.frame.pc = .countDelivered n) (hn : n ≠ 0)
      (hlen : n = (env.usable (window env s₀ k)).length)
      (hrows : s.pending = behind env s₀ (k + 1))
      (ht : Tally env s₀ s w (front env s₀ (k + 1)) (front env s₀ (k + 1)) (front env s₀ (k + 1))
        (freedBad env s₀ k) (11 * k + 10))
  | returned (hpc : s.frame.pc.delivering = false) (hbad : env.usable (window env s₀ k) = [])
      (hrows : s.pending = behind env s₀ (k + 1))
      (ht : Tally env s₀ s w (front env s₀ (k + 1)) (front env s₀ (k + 1)) (front env s₀ (k + 1))
        (front env s₀ (k + 1)).length (11 * k + 4))

end Phases

variable {env : Env} {i : Input} {s s' s₀ : State} {w : List Nat} {k : Nat}

/-! ### The steps of others -/

theorem Tally.consented {sent gone counted : List Row} {freed steps : Nat} (hc : Consented s s')
    (h : Tally env s₀ s w sent gone counted freed steps) :
    Tally env s₀ s' w sent gone counted freed steps where
  written := hc.written.trans h.written
  dropped := by
    rw [show s'.history.dropped = s.history.dropped from hc.left.dropped]
    exact h.dropped
  droppedInvalid := hc.left.droppedInvalid.trans h.droppedInvalid
  freed := h.freed
  steps := h.steps

/-- **Others do not move `deliver_all`.** -/
theorem Phase.consented (hc : Consented s s') (h : Phase env s₀ s w k) : Phase env s₀ s' w k := by
  have hpending : s'.pending = s.pending :=
    congrArg (fun db => db.view.events.ordered) hc.left.store
  have hgen : s'.pipeline.consentGeneration = s.pipeline.consentGeneration := hc.left.generation
  have hfetched : ∀ {events}, Fetched env s₀ s k events → Fetched env s₀ s' k events :=
    fun h => ⟨hpending.trans h.rows, h.events⟩
  cases h with
  | checking hpc hrows ht =>
    exact .checking (by rwa [hc.frame]) (hpending.trans hrows) (ht.consented hc)
  | fetching hpc hrows ht =>
    exact .fetching (by rwa [hc.frame]) (hpending.trans hrows) (ht.consented hc)
  | quarantining hpc hf hq hst ht =>
    exact .quarantining (by rwa [hc.frame]) (hfetched hf) hq hst (ht.consented hc)
  | reporting hpc hf ht => exact .reporting (by rwa [hc.frame]) (hfetched hf) (ht.consented hc)
  | holding hpc hne hf ht =>
    exact .holding (by rwa [hc.frame, hgen]) hne (hfetched hf) (ht.consented hc)
  | sent hpc hne hf ht => exact .sent (by rwa [hc.frame, hgen]) hne (hfetched hf) (ht.consented hc)
  | acknowledged hpc hn hlen hrows ht =>
    exact .acknowledged (by rwa [hc.frame]) hn hlen (hpending.trans hrows) (ht.consented hc)
  | returned hpc hbad hrows ht =>
    exact .returned (by rwa [hc.frame]) hbad (hpending.trans hrows) (ht.consented hc)

/-! ### The steps of the worker -/

/-- A step that writes, drops and counts nothing. -/
theorem Tally.silent {sent gone counted : List Row} {freed steps steps' : Nat}
    (h : Tally env s₀ s w sent gone counted freed steps)
    (hwritten : s'.log.written = s.log.written) (hdropped : s'.history.dropped = s.history.dropped)
    (hcount : s'.pipeline.stats.droppedInvalid = s.pipeline.stats.droppedInvalid)
    (hsteps : steps + 1 ≤ steps') :
    Tally env s₀ s' (w ++ [0]) sent gone counted freed steps' where
  written := hwritten.trans h.written
  dropped := by
    rw [hdropped]
    exact h.dropped
  droppedInvalid := hcount.trans h.droppedInvalid
  freed := by simpa using h.freed
  steps := by
    have := h.steps
    simp only [List.length_append, List.length_singleton]
    omega

/-- `deliver_all` returns to somewhere else. -/
theorem afterDelivery_delivering (s : State) (d : Bool) :
    (Worker.afterDelivery s d).frame.pc.delivering = false := by
  unfold Worker.afterDelivery
  split
  · dsimp only [State.goto]
    split <;> rfl
  · split
    · rfl
    · unfold Worker.enterRemains
      split <;> rfl

theorem afterDelivery_same (s : State) (d : Bool) : ∃ pc, Worker.afterDelivery s d = s.goto pc := by
  unfold Worker.afterDelivery
  split
  · exact ⟨_, rfl⟩
  · split
    · exact ⟨_, rfl⟩
    · unfold Worker.enterRemains
      split
      · exact ⟨_, rfl⟩
      · exact ⟨_, rfl⟩

/-- What follows the report of a fetch. -/
theorem Phase.afterFetch {x : State} {events : List SerializedEvent} (d : Bool) (seen : Nat)
    (hf : Fetched env s₀ x k events)
    (ht : Tally env s₀ x w (front env s₀ k) (front env s₀ (k + 1)) (front env s₀ (k + 1))
      (freedBad env s₀ k) (11 * k + 4)) :
    Phase env s₀ (Worker.afterFetch x d seen events) w k := by
  unfold Worker.afterFetch
  split
  · -- nothing usable in the window: the call returns
    rename_i hnil
    have hbad : env.usable (window env s₀ k) = [] := by
      have hev := hf.events
      rw [List.isEmpty_iff.mp hnil] at hev
      exact List.map_eq_nil_iff.mp hev.symm
    have hpc := afterDelivery_delivering x d
    obtain ⟨pc, heq⟩ := afterDelivery_same x d
    rw [heq] at hpc ⊢
    refine .returned hpc hbad ?_ ⟨?_, ht.dropped, ht.droppedInvalid, ?_, ht.steps⟩
    · have hrows := hf.rows
      rw [hbad, List.nil_append] at hrows
      exact hrows
    · rw [front_succ, Env.usable_append, hbad, List.append_nil]
      exact ht.written
    · have hlen := length_usable_add env (window env s₀ k)
      rw [hbad, List.length_nil, Nat.add_zero] at hlen
      rw [ht.freed, freedBad, hlen, front_succ, List.length_append]
  · rename_i hne
    refine .holding (n := 4) (Or.inl ⟨d, seen, rfl, rfl⟩) ?_ ⟨hf.rows, hf.events⟩
      ⟨ht.written, ht.dropped, ht.droppedInvalid, ht.freed, ht.steps⟩
    exact fun hnil => hne (by simp [hnil])

/-- No transaction is open between two steps. -/
theorem saved_of_reach (hr : (machine env).Reach s) : s.pipeline.store.saved = none :=
  Custody.saved_of_reachable (custody_reachable hr)

/-- **The fetch** of window `k`. -/
theorem Phase.fetch {d : Bool} {seen : Nat} (hr : (machine env).Reach s) (hi : i.Calm)
    (hrows : s.pending = behind env s₀ k)
    (ht : Tally env s₀ s w (front env s₀ k) (front env s₀ k) (front env s₀ k)
      (front env s₀ k).length (11 * k + 1)) :
    Phase env s₀ (Worker.fetch env i s d seen) (w ++ [0]) k := by
  obtain ⟨res, db, hres⟩ : ∃ res db, fetchPending Faults.none env.isValidJson env.config.batchSize
      s.pipeline.store = (res, db) := ⟨_, _, rfl⟩
  obtain ⟨hev, hq, hst, hdb, -⟩ := fetchPending_calm (saved_of_reach hr) hres
  -- the window of the store is the next window of the run
  have hwindow : s.pipeline.store.window env.config.batchSize = window env s₀ k := by
    change s.pending.take env.batch = _
    rw [hrows]
    rfl
  rw [hwindow] at hev hq hdb
  have hsplit : s.pipeline.store.view.events.ordered = window env s₀ k ++ behind env s₀ (k + 1) :=
    (show s.pending = _ from hrows).trans (behind_eq env s₀ k)
  have hpending : db.view.events.ordered =
      env.usable (window env s₀ k) ++ behind env s₀ (k + 1) := by
    rw [hdb]
    exact Events.ordered_withoutRows_filter _ hsplit
  have hbadsub : (env.unusable (window env s₀ k)).Sublist s.pipeline.store.view.events.ordered := by
    rw [hsplit]
    exact List.filter_sublist.trans (List.sublist_append_left _ _)
  have hgone : (s.pipeline.store.gone db).Perm ((env.unusable (window env s₀ k)).map Row.item) :=
    Database.gone_withoutRows (s.pipeline.store.view.events.ordered_nodup.sublist hbadsub)
      (fun r hr => Events.mem_ordered.mp (hbadsub.subset hr)) hdb
  obtain ⟨dr, hdropped, hperm⟩ := ht.dropped
  -- what the fetch has done, whatever is next
  let x := Worker.note (Worker.setStore s db) fun h =>
    { h with dropped := h.dropped ++ s.pipeline.store.gone db }
  have hfx : Fetched env s₀ x k res.events := ⟨hpending, hev⟩
  have htx : Tally env s₀ x (w ++ [0]) (front env s₀ k) (front env s₀ (k + 1)) (front env s₀ k)
      (front env s₀ k).length (11 * k + 2) := by
    refine ⟨ht.written, ⟨dr ++ s.pipeline.store.gone db, ?_, ?_⟩, ht.droppedInvalid, ?_, ?_⟩
    · change s.history.dropped ++ _ = _
      rw [hdropped, List.append_assoc]
    · rw [front_succ, Env.unusable_append, List.map_append]
      exact hperm.append hgone
    · simpa using ht.freed
    · have := ht.steps
      simp only [List.length_append, List.length_singleton]
      omega
  unfold Worker.fetch
  simp only [hi.faults, hres]
  split
  · rename_i hpos
    refine .quarantining rfl ⟨hpending, hev⟩ hq ?_ ⟨htx.written, htx.dropped, htx.droppedInvalid,
      htx.freed, htx.steps⟩
    rw [← Bool.not_eq_true, hst]
    omega
  · rename_i hzero
    have hnil : env.unusable (window env s₀ k) = [] := by
      rw [← List.length_eq_zero_iff]
      exact hq.symm.trans (Nat.eq_zero_of_not_pos hzero)
    have hok : res.status.ok = true := hst.mpr (Nat.eq_zero_of_not_pos hzero)
    rw [Worker.reportFetch, if_neg (by simp [hok])]
    refine Phase.afterFetch d seen hfx ⟨htx.written, htx.dropped, ?_, ?_, ?_⟩
    · rw [front_succ, Env.unusable_append, hnil, List.append_nil]
      exact htx.droppedInvalid
    · rw [freedBad, hnil, List.length_nil, Nat.add_zero]
      exact htx.freed
    · exact htx.steps.trans (by omega)

/-- **The acknowledgment** of window `k`. -/
theorem Phase.acknowledge {d : Bool} {events : List SerializedEvent} (hr : (machine env).Reach s)
    (hi : i.Calm) (hne : events ≠ []) (hf : Fetched env s₀ s k events)
    (ht : Tally env s₀ s w (front env s₀ (k + 1)) (front env s₀ (k + 1)) (front env s₀ (k + 1))
      (freedBad env s₀ k) (11 * k + 9)) :
    Phase env s₀ (Worker.acknowledge i s d events) (w ++ [0]) k := by
  have hsub : (env.usable (window env s₀ k)).Sublist s.pipeline.store.view.events.ordered := by
    rw [show s.pipeline.store.view.events.ordered = _ from hf.rows]
    exact List.sublist_append_left _ _
  obtain ⟨st, n, db, hack⟩ : ∃ st n db, PlayerTrace.acknowledge Faults.none
      (events.map SerializedEvent.eventId) s.pipeline.store = (st, n, db) := ⟨_, _, _, rfl⟩
  have hres := hack
  rw [hf.events] at hres
  have husable : ∀ r ∈ env.usable (window env s₀ k), r.usable env.isValidJson = true :=
    fun r hr => (List.mem_filter.mp hr).2
  obtain ⟨rfl, hdb, -⟩ := acknowledge_calm (saved_of_reach hr)
    (s.pipeline.store.view.events.ordered_nodup.sublist hsub)
    (fun r hr => Events.mem_ordered.mp (hsub.subset hr)) husable hres
  have hpending : db.view.events.ordered = behind env s₀ (k + 1) := by
    rw [hdb]
    exact Events.ordered_withoutRows hf.rows
  unfold Worker.acknowledge
  simp only [hi.faults, hack]
  refine .acknowledged rfl ?_ ?_ hpending (ht.silent rfl rfl rfl (by omega))
  · simpa using hne
  · rw [hf.events, List.length_map]

/-- **A step of the worker**: the window is worked on, or the next one is begun. -/
theorem Phase.worker (hr : (machine env).Reach s) (hc : s.pipeline.consent = .granted)
    (hi : i.Calm) (hdel : s.frame.pc.delivering = true) (h : Phase env s₀ s w k)
    (hs : Worker.step env i s = some s') :
    Phase env s₀ s' (w ++ [(dueOf s.frame.pc).amount]) k ∨
      (Phase env s₀ s' (w ++ [(dueOf s.frame.pc).amount]) (k + 1) ∧
        env.usable (window env s₀ k) ≠ []) := by
  have hex := Worker.execute_of_step hi.raise hs
  unfold Worker.execute at hex
  cases h with
  | checking hpc hrows ht =>
    simp only [hpc, Worker.deliverConsent, hc, ne_eq, not_true_eq_false, if_false,
      Option.some.injEq] at hex
    subst hex
    rw [hpc]
    exact Or.inl (.fetching rfl hrows (ht.silent rfl rfl rfl (Nat.le_refl _)))
  | fetching hpc hrows ht =>
    simp only [hpc, Option.some.injEq] at hex
    subst hex
    rw [hpc]
    exact Or.inl (Phase.fetch hr hi hrows ht)
  | @quarantining d seen pending hpc hf hq hst ht =>
    simp only [hpc, Worker.countQuarantined, Worker.reportFetch, hst, if_true,
      Option.some.injEq] at hex
    subst hex
    rw [hpc]
    refine Or.inl (.reporting rfl ⟨hf.rows, hf.events⟩ ⟨ht.written, ht.dropped, ?_, ?_, ?_⟩)
    · rw [front_succ, Env.unusable_append, List.length_append, ← hq, ← Nat.add_assoc,
        ← ht.droppedInvalid]
      rfl
    · rw [List.sum_append, ht.freed, freedBad, ← hq]
      simp [dueOf, Due.amount]
    · have := ht.steps
      simp only [List.length_append, List.length_singleton]
      omega
  | @reporting d seen pending hpc hf ht =>
    simp only [hpc, Worker.noteFetch, Option.some.injEq] at hex
    subst hex
    rw [hpc]
    exact Or.inl (Phase.afterFetch d seen ⟨hf.rows, hf.events⟩
      (ht.silent rfl rfl rfl (Nat.le_refl _)))
  | @holding events n hpc hne hf ht =>
    refine Or.inl ?_
    rcases hpc with ⟨d, seen, hpc, rfl⟩ | ⟨d, seen, hpc, rfl⟩ | ⟨d, hpc, rfl⟩
    · simp only [hpc, Worker.deliverGeneration, Option.some.injEq] at hex
      subst hex
      rw [hpc]
      exact .holding (n := 5) (Or.inr (Or.inl ⟨d, seen, rfl, rfl⟩)) hne ⟨hf.rows, hf.events⟩
        (ht.silent rfl rfl rfl (Nat.le_refl _))
    · simp only [hpc, Worker.recheckConsent, hc, ne_eq, not_true_eq_false, if_false,
        Option.some.injEq] at hex
      subst hex
      rw [hpc]
      exact .holding (n := 6) (Or.inr (Or.inr ⟨d, rfl, rfl⟩)) hne ⟨hf.rows, hf.events⟩
        (ht.silent rfl rfl rfl (Nat.le_refl _))
    · simp only [hpc, Worker.write, hi.sink, Bool.true_eq_false, if_false, Option.some.injEq] at hex
      subst hex
      rw [hpc]
      refine .sent (n := 7) (Or.inl ⟨d, rfl, rfl⟩) hne ⟨hf.rows, hf.events⟩
        ⟨?_, ht.dropped, ht.droppedInvalid, ?_, ?_⟩
      · change s.log.written ++ events = _
        rw [ht.written, front_succ, Env.usable_append, List.map_append, hf.events,
          List.append_assoc]
      · simpa [dueOf, Due.amount] using ht.freed
      · have := ht.steps
        simp only [List.length_append, List.length_singleton]
        omega
  | @sent events n hpc hne hf ht =>
    refine Or.inl ?_
    rcases hpc with ⟨d, hpc, rfl⟩ | ⟨d, hpc, rfl⟩ | ⟨d, hpc, rfl⟩
    · simp only [hpc, Worker.postConsent, hc, ne_eq, not_true_eq_false, if_false,
        Option.some.injEq] at hex
      subst hex
      rw [hpc]
      exact .sent (n := 8) (Or.inr (Or.inl ⟨d, rfl, rfl⟩)) hne ⟨hf.rows, hf.events⟩
        (ht.silent rfl rfl rfl (Nat.le_refl _))
    · simp only [hpc, Worker.postGeneration, ne_eq, not_true_eq_false, if_false,
        Option.some.injEq] at hex
      subst hex
      rw [hpc]
      exact .sent (n := 9) (Or.inr (Or.inr ⟨d, rfl, rfl⟩)) hne ⟨hf.rows, hf.events⟩
        (ht.silent rfl rfl rfl (Nat.le_refl _))
    · simp only [hpc, Option.some.injEq] at hex
      subst hex
      rw [hpc]
      exact Phase.acknowledge hr hi hne hf ht
  | @acknowledged n hpc hn hlen hrows ht =>
    simp only [hpc, Worker.countDelivered, Option.some.injEq] at hex
    subst hex
    rw [hpc]
    refine Or.inr ⟨.checking rfl hrows ⟨ht.written, ht.dropped, ht.droppedInvalid, ?_, ?_⟩, ?_⟩
    · have hsum := length_usable_add env (window env s₀ k)
      rw [List.sum_append, ht.freed, freedBad, front_succ, List.length_append, ← hsum, ← hlen]
      simp [dueOf, Due.amount, Nat.add_assoc]
    · have := ht.steps
      simp only [List.length_append, List.length_singleton]
      omega
    · intro hnil
      rw [hnil] at hlen
      exact hn hlen
  | returned hpc => simp [hpc] at hdel

theorem afterFetch_outstanding (s : State) (d : Bool) (seen : Nat) (events : List SerializedEvent) :
    (Worker.afterFetch s d seen events).pipeline.outstanding = s.pipeline.outstanding := by
  unfold Worker.afterFetch
  split
  · obtain ⟨pc, heq⟩ := afterDelivery_same s d
    rw [heq]
    rfl
  · rfl

theorem reportFetch_outstanding (s : State) (d : Bool) (seen : Nat) (pending : FetchResult) :
    (Worker.reportFetch s d seen pending).pipeline.outstanding = s.pipeline.outstanding := by
  unfold Worker.reportFetch
  split
  · rfl
  · exact afterFetch_outstanding ..

theorem countOut_outstanding (s : State) (n : Nat) (stat : Stats → Stats) :
    (s.countOut n stat).pipeline.outstanding = s.pipeline.outstanding - n := by
  simp only [State.countOut, Pipeline.releaseOutstanding]
  split <;> omega

/-- **The capacity in use goes down by what a step releases.** -/
theorem Phase.outstanding (hc : s.pipeline.consent = .granted) (hi : i.Calm)
    (hdel : s.frame.pc.delivering = true) (h : Phase env s₀ s w k)
    (hs : Worker.step env i s = some s') :
    s'.pipeline.outstanding = s.pipeline.outstanding - (dueOf s.frame.pc).amount := by
  have hex := Worker.execute_of_step hi.raise hs
  unfold Worker.execute at hex
  cases h with
  | checking hpc =>
    simp only [hpc, Worker.deliverConsent, hc, ne_eq, not_true_eq_false, if_false,
      Option.some.injEq] at hex
    subst hex
    rw [hpc]
    rfl
  | fetching hpc =>
    simp only [hpc, Option.some.injEq] at hex
    subst hex
    rw [hpc, Worker.fetch]
    dsimp only
    split
    · rfl
    · exact reportFetch_outstanding ..
  | quarantining hpc =>
    simp only [hpc, Option.some.injEq] at hex
    subst hex
    rw [hpc, Worker.countQuarantined, reportFetch_outstanding]
    exact countOut_outstanding ..
  | reporting hpc =>
    simp only [hpc, Option.some.injEq] at hex
    subst hex
    rw [hpc, Worker.noteFetch, afterFetch_outstanding]
    rfl
  | holding hpc =>
    rcases hpc with ⟨d, seen, hpc, -⟩ | ⟨d, seen, hpc, -⟩ | ⟨d, hpc, -⟩
    · simp only [hpc, Option.some.injEq] at hex
      subst hex
      rw [hpc]
      rfl
    · simp only [hpc, Worker.recheckConsent, hc, ne_eq, not_true_eq_false, if_false,
        Option.some.injEq] at hex
      subst hex
      rw [hpc]
      rfl
    · simp only [hpc, Worker.write, hi.sink, Bool.true_eq_false, if_false, Option.some.injEq] at hex
      subst hex
      rw [hpc]
      rfl
  | sent hpc =>
    rcases hpc with ⟨d, hpc, -⟩ | ⟨d, hpc, -⟩ | ⟨d, hpc, -⟩
    · simp only [hpc, Worker.postConsent, hc, ne_eq, not_true_eq_false, if_false,
        Option.some.injEq] at hex
      subst hex
      rw [hpc]
      rfl
    · simp only [hpc, Worker.postGeneration, ne_eq, not_true_eq_false, if_false,
        Option.some.injEq] at hex
      subst hex
      rw [hpc]
      rfl
    · simp only [hpc, Worker.acknowledge, Option.some.injEq] at hex
      subst hex
      rw [hpc]
      split <;> rfl
  | @acknowledged n hpc =>
    simp only [hpc, Option.some.injEq] at hex
    subst hex
    rw [hpc]
    exact countOut_outstanding s n fun st => { st with delivered := st.delivered + n }
  | returned hpc => simp [hpc] at hdel

/-! ### The whole call -/

/-- Every window in front of `k` has a usable row. -/
def Passed (env : Env) (s₀ : State) (k : Nat) : Prop :=
  ∀ j < k, env.usable (window env s₀ j) ≠ []

theorem phase_of_run (hr : (machine env).Reach s₀) (hpc : s₀.frame.pc = .deliverConsent false)
    (h : ((machine env).observed released).RunIf (fun p l => Undisturbed p.1 l) (s₀, []) (s, w)) :
    ∃ k, Phase env s₀ s w k ∧ Passed env s₀ k := by
  refine hr.observed_runIf_rule (P := fun s w => ∃ k, Phase env s₀ s w k ∧ Passed env s₀ k)
    (fun s w l s' hr hi hok hs => ?_) h ⟨0, ?_, nofun⟩
  · obtain ⟨k, hph, hpassed⟩ := hi
    obtain ⟨hdel, hc, hcalm⟩ := hok
    rcases consented_of_step hr hc hs with ⟨i, rfl, hw⟩ | ⟨hl, hcons⟩
    · rcases hph.worker hr hc (hcalm i rfl) hdel hw with hph | ⟨hph, hne⟩
      · exact ⟨k, hph, hpassed⟩
      · refine ⟨k + 1, hph, fun j hj => ?_⟩
        rcases Nat.lt_succ_iff_lt_or_eq.mp hj with hj | rfl
        · exact hpassed j hj
        · exact hne
    · have hnone : released s l = [] := by
        cases l with
        | worker i => exact absurd rfl (hl i)
        | call | caller => rfl
      rw [hnone, List.append_nil]
      exact ⟨k, hph.consented hcons, hpassed⟩
  · refine .checking hpc ?_ ⟨?_, ⟨[], ?_⟩, ?_, ?_, ?_⟩ <;>
      simp [front, behind, Env.usable, Env.unusable]

/-- A valid configuration fetches at least one row. -/
theorem batchSize_of_valid {c : Config} (h : (validateConfig c).ok = true) : c.batchSize ≠ 0 := by
  intro hzero
  unfold validateConfig at h
  iterate 4
    split at h
    · cases h
  cases h

theorem batch_pos (hr : (machine env).Reach s) : 0 < env.batch := by
  have hsize : env.config.batchSize ≠ 0 := batchSize_of_valid (valid_of_reach hr)
  have hlimit : 0 < maxLimit := by decide
  rw [Env.batch, Nat.lt_min]
  exact ⟨Nat.pos_of_ne_zero hsize, hlimit⟩

/-- There are not more windows than rows. -/
theorem Passed.le (hbatch : 0 < env.batch) (h : Passed env s₀ k) : k ≤ s₀.pending.length := by
  rcases k with _ | k
  · exact Nat.zero_le _
  · have hne := h k (Nat.lt_succ_self k)
    have hwin : window env s₀ k ≠ [] := fun hnil => hne (by rw [hnil]; rfl)
    have hlt : k * env.batch < s₀.pending.length := by
      by_contra hge
      exact hwin (by rw [window, List.drop_eq_nil_of_le (Nat.le_of_not_lt hge), List.take_nil])
    exact Nat.lt_of_le_of_lt (Nat.le_mul_of_pos_right k hbatch) hlt

/-- **Everything that can be delivered is delivered**, and the rest is quarantined; the
capacity of each row is released once. -/
structure AllDelivered (env : Env) (s₀ s : State) (w : List Nat) : Prop where
  empty : s.pipeline.store.rows = []
  written : s.log.written = s₀.log.written ++ (env.usable s₀.pending).map Row.serialized
  quarantined : ∃ d, s.history.dropped = s₀.history.dropped ++ d ∧
    d.Perm ((env.unusable s₀.pending).map Row.item)
  counted : s.pipeline.stats.droppedInvalid =
    s₀.pipeline.stats.droppedInvalid + (env.unusable s₀.pending).length
  released : w.sum = s₀.pending.length

theorem rows_of_pending (h : s.pending = []) : s.pipeline.store.rows = [] :=
  (s.pipeline.store.view.events.ordered_perm.symm.trans (by rw [← State.pending, h])).eq_nil

/-- What was done when nothing is left behind. -/
theorem Tally.allDelivered {freed steps : Nat} (hempty : s.pending = [])
    (hbehind : behind env s₀ k = [])
    (ht : Tally env s₀ s w (front env s₀ k) (front env s₀ k) (front env s₀ k) freed steps)
    (hfreed : freed = (front env s₀ k).length) : AllDelivered env s₀ s w := by
  have hall : front env s₀ k = s₀.pending := by
    have h := List.take_append_drop (k * env.batch) s₀.pending
    rwa [show s₀.pending.drop (k * env.batch) = [] from hbehind, List.append_nil] at h
  rw [hall] at ht hfreed
  exact ⟨rows_of_pending hempty, ht.written, ht.dropped, ht.droppedInvalid, ht.freed.trans hfreed⟩

/-- Inside `deliver_all` the worker waits for nothing but a call made from its own thread. -/
theorem delivering_enabled (hdel : s.frame.pc.delivering = true)
    (hfree : (s.callers 0).free = true) :
    ∃ s', step env s (.worker {}) = some s' := by
  have hexec : ∃ s', Worker.execute env {} s = some s' := by
    unfold Worker.execute
    cases hpc : s.frame.pc <;> first | exact ⟨_, rfl⟩ | simp [hpc, WorkerPc.delivering] at hdel
  obtain ⟨s', hs⟩ := hexec
  refine ⟨s', ?_⟩
  change Worker.step env {} s = some s'
  rw [Worker.step, if_neg (by simp [hfree])]
  exact hs

/-- **What `deliver_all` drains.** Under consent and without faults, whatever other threads do:
the call takes a bounded number of steps and waits for nothing; each step gives back the
capacity it releases; and when it returns, everything is drained exactly if every window but
the last has a usable row. -/
theorem deliver_all_drains_iff (hr : (machine env).Reach s₀)
    (hpc : s₀.frame.pc = .deliverConsent false)
    (h : ((machine env).observed released).RunIf (fun p l => Undisturbed p.1 l) (s₀, []) (s, w)) :
    (w.length < 11 * (s₀.pending.length + 1) ∧
      (s.frame.pc.delivering = true → (s.callers 0).free = true →
        ∃ s', step env s (.worker {}) = some s')) ∧
    (∀ i s', Undisturbed s (.worker i) → step env s (.worker i) = some s' →
      s'.pipeline.outstanding = s.pipeline.outstanding - (released s (.worker i)).sum) ∧
    (s.frame.pc.delivering = false → (AllDelivered env s₀ s w ↔ Covered env s₀)) := by
  obtain ⟨k, hph, hpassed⟩ := phase_of_run hr hpc h
  have hle := hpassed.le (batch_pos hr)
  refine ⟨⟨?_, delivering_enabled⟩, fun i s' hok hs => ?_, fun hdone => ?_⟩
  · have hsteps : w.length ≤ 11 * k + 10 := by
      cases hph with
      | checking _ _ ht | fetching _ _ ht | quarantining _ _ _ _ ht | reporting _ _ ht
      | acknowledged _ _ _ _ ht | returned _ _ _ ht => exact ht.steps.trans (by omega)
      | @holding _ n hpc _ _ ht =>
        have hn : n ≤ 10 := by
          rcases hpc with ⟨_, _, _, rfl⟩ | ⟨_, _, _, rfl⟩ | ⟨_, _, rfl⟩ <;> omega
        exact ht.steps.trans (by omega)
      | @sent _ n hpc _ _ ht =>
        have hn : n ≤ 10 := by rcases hpc with ⟨_, _, rfl⟩ | ⟨_, _, rfl⟩ | ⟨_, _, rfl⟩ <;> omega
        exact ht.steps.trans (by omega)
    omega
  · obtain ⟨hdel, hc, hcalm⟩ := hok
    simpa [released] using hph.outstanding hc (hcalm i rfl) hdel hs
  · cases hph with
    | returned _ hbad hrows ht =>
      constructor
      · -- every window that was passed has a usable row, and no row is behind the last one
        intro hdrained j hj
        have hbehind : behind env s₀ (k + 1) = [] := by
          rw [← hrows]
          exact (s.pipeline.store.view.events.ordered_perm.trans
            (by rw [← Database.rows, hdrained.empty])).eq_nil
        have hjk : j < k := by
          by_contra hge
          refine hj (List.drop_eq_nil_of_le ?_)
          have hlen : s₀.pending.length ≤ (k + 1) * env.batch := List.drop_eq_nil_iff.mp hbehind
          exact hlen.trans (Nat.mul_le_mul_right _ (by omega))
        exact hpassed j hjk
      · intro hcov
        have hbehind : behind env s₀ (k + 1) = [] := by
          by_contra hne
          exact hcov k hne hbad
        exact ht.allDelivered (hrows.trans hbehind) hbehind rfl
    | checking hpc | fetching hpc | quarantining hpc | reporting hpc | acknowledged hpc =>
      simp [hpc, WorkerPc.delivering] at hdone
    | holding hpc =>
      rcases hpc with ⟨_, _, hpc, -⟩ | ⟨_, _, hpc, -⟩ | ⟨_, hpc, -⟩ <;>
        simp [hpc, WorkerPc.delivering] at hdone
    | sent hpc =>
      rcases hpc with ⟨_, hpc, -⟩ | ⟨_, hpc, -⟩ | ⟨_, hpc, -⟩ <;>
        simp [hpc, WorkerPc.delivering] at hdone

/-! ### Two small tables -/

/-- A row with a payload that does not parse in front of one that can be delivered. -/
def mixedTable : Events where
  rows := [⟨1, some "d", "s", 0, 1, 0, "eve"⟩, ⟨2, some "e", "s", 1, 2, 0, "event"⟩]
  rowid_nodup := by decide
  id_nodup := by decide

/-- The sample client, which takes only what it has serialized for valid. -/
def strict : Env := { sample with isValidJson := fun payload => payload = "event" }

/-- It over this table. -/
def mixedClient : State := initial strict (Database.ofRows mixedTable false) 2 2

theorem mixedClient_start : (machine strict).start mixedClient :=
  ⟨fun _ => Faults.none, Database.ofRows mixedTable false, mixedClient, [], rfl, rfl, rfl⟩

/-- The same client with a window of two rows. -/
def paired : Env := { strict with config := { strict.config with batchSize := 2 } }

/-- It over this table. -/
def pairedClient : State := initial paired (Database.ofRows mixedTable false) 2 2

theorem pairedClient_start : (machine paired).start pairedClient :=
  ⟨fun _ => Faults.none, Database.ofRows mixedTable false, pairedClient, [], rfl, rfl, rfl⟩

/-- A call of `deliver_all` that can be evaluated. -/
theorem undisturbed_of_works {n : Nat}
    (h : ((machine env).observed released).exec (s₀, []) (Label.works n) = some (s, w))
    (hok : ((machine env).observed released).meets (fun p _ =>
      p.1.frame.pc.delivering && decide (p.1.pipeline.consent = .granted)) (s₀, [])
      (Label.works n) = true) :
    ((machine env).observed released).RunIf (fun p l => Undisturbed p.1 l) (s₀, []) (s, w) := by
  refine Lts.Machine.runIf_of_meets (fun l hl p hp => ?_) h hok
  simp only [Bool.and_eq_true, decide_eq_true_eq] at hp
  refine ⟨hp.1, hp.2, fun i heq => ?_⟩
  obtain rfl : i = {} := by
    have hl := List.eq_of_mem_replicate hl
    exact Label.worker.inj (heq.symm.trans hl)
  exact ⟨rfl, rfl, rfl⟩

/-- The start of a call over this table, and its end, by evaluation. -/
theorem deliver_of_works {c : State} (hstart : (machine env).start c) (n m : Nat)
    (h : ((machine env).exec c (Label.works n)).any (fun s₀ =>
      (match s₀.frame.pc with
        | .deliverConsent false => true
        | _ => false) &&
      ((machine env).observed released).meets (fun p _ =>
        p.1.frame.pc.delivering && decide (p.1.pipeline.consent = .granted)) (s₀, [])
        (Label.works m) &&
      (((machine env).observed released).exec (s₀, []) (Label.works m)).any fun p =>
        !p.1.frame.pc.delivering) = true) :
    ∃ s₀ s w, (machine env).exec c (Label.works n) = some s₀ ∧
      ((machine env).observed released).exec (s₀, []) (Label.works m) = some (s, w) ∧
      (machine env).Reach s₀ ∧ s₀.frame.pc = .deliverConsent false ∧
      ((machine env).observed released).RunIf (fun p l => Undisturbed p.1 l) (s₀, []) (s, w) ∧
      s.frame.pc.delivering = false := by
  obtain ⟨s₀, hex, hp⟩ := Lts.Machine.exec_of_any h
  simp only [Bool.and_eq_true] at hp
  obtain ⟨⟨hpc, hmeets⟩, hany⟩ := hp
  obtain ⟨⟨s, w⟩, hrun, hend⟩ := Lts.Machine.exec_of_any hany
  refine ⟨s₀, s, w, hex, hrun, ⟨c, hstart, Lts.Machine.run_of_exec hex⟩, ?_,
    undisturbed_of_works hrun hmeets, by simpa using hend⟩
  split at hpc
  · assumption
  · cases hpc

theorem deliver_all_drains_sample : ∃ s₀ s w, (machine paired).Reach s₀ ∧
    s₀.frame.pc = .deliverConsent false ∧ s₀.pending.length = 2 ∧
    ((machine paired).observed released).RunIf (fun p l => Undisturbed p.1 l) (s₀, []) (s, w) ∧
    s.frame.pc.delivering = false ∧ AllDelivered paired s₀ s w := by
  obtain ⟨s₀, s, w, hex, -, hr, hpc, hrun, hend⟩ :=
    deliver_of_works pairedClient_start 4 13 (by decide)
  have hpending : s₀.pending = mixedTable.ordered := by
    have h : ((machine paired).exec pairedClient (Label.works 4)).map State.pending =
        some mixedTable.ordered := by decide
    rw [hex] at h
    exact Option.some.inj h
  refine ⟨s₀, s, w, hr, hpc, by rw [hpending]; decide, hrun, hend,
    ((deliver_all_drains_iff hr hpc hrun).2.2 hend).mpr ?_⟩
  -- the first window is the whole table
  intro k hk
  have hbatch : paired.batch = 2 := by decide
  refine absurd ?_ hk
  refine List.drop_eq_nil_of_le ?_
  rw [hpending, hbatch]
  have hlen : mixedTable.ordered.length = 2 := by decide
  omega

/-- **An unusable row hides the rest**: with `batch_size` one, a row that cannot be delivered
comes first, and `deliver_all` returns with a usable row still in the store. -/
theorem deliver_all_stops_short : ∃ s₀ s w, (machine strict).Reach s₀ ∧
    s₀.frame.pc = .deliverConsent false ∧
    ((machine strict).observed released).RunIf (fun p l => Undisturbed p.1 l) (s₀, []) (s, w) ∧
    s.frame.pc.delivering = false ∧ strict.usable s.pipeline.store.rows ≠ [] := by
  obtain ⟨s₀, s, w, hex, hrun', hr, hpc, hrun, hend⟩ :=
    deliver_of_works mixedClient_start 4 4 (by decide)
  refine ⟨s₀, s, w, hr, hpc, hrun, hend, ?_⟩
  have h : ((machine strict).exec mixedClient (Label.works 4)).any (fun s₀ =>
      (((machine strict).observed released).exec (s₀, []) (Label.works 4)).any fun p =>
        decide (strict.usable p.1.pipeline.store.rows ≠ [])) = true := by decide
  rw [hex, Option.any_some, hrun', Option.any_some] at h
  exact of_decide_eq_true h

end PlayerTrace
