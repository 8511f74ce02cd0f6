import PlayerTrace.Lifetimes.World

/-!
# The revocation marker survives crashes

A revocation commits a marker before it purges. Whatever then happens to the process, the
rows that were stored under the marker are lost to every later lifetime: `create` reads the
marker first, whatever the new configuration says about consent, and a client only comes
into being over a purged table.

The argument follows one identifier through the lifetimes (`PlayerTrace.World.Condemned`).
In the lifetime that set the marker it may still be in a batch on its way to the sink; from
the next `create` on it is nowhere, and it cannot come back.
-/

namespace PlayerTrace

namespace World

variable {env : Env} {s : State} {w w' : World} {id : String} {n : Nat}

/-- **A condemned identifier**, seen from lifetime `n`: in every lifetime it is stored at
most under the marker, and after lifetime `n` it is gone. -/
structure Condemned (id : String) (n : Nat) (w : World) : Prop where
  closed : w.client = none →
    id ∈ w.earlier ∧ (w.disk.revocationPending = true ∨ Custody.NotStored id w.disk)
  running : ∀ env s, w.client = some (env, s) → Custody.Condemned id (custody s)
  later : n < w.lifetime → ∀ env s, w.client = some (env, s) → Custody.Absent id (custody s)

/-- A client that starts knows nothing of what its table does not hold. -/
theorem absent_initial {db : Database} {m : Nat} {earlier : List String} (hused : id ∈ earlier)
    (hnot : Custody.NotStored id db.view) :
    Custody.Absent id (custody ((initial env db db.rows.length m).remember earlier)) where
  used := List.mem_append_right _ hused
  line _ he := absurd he List.not_mem_nil
  stored := hnot
  batch _ hx := absurd hx List.not_mem_nil

theorem Condemned.of_client (hc : w.client = some (env, s))
    (h : Custody.Condemned id (custody s))
    (hlater : n < w.lifetime → Custody.Absent id (custody s)) : Condemned id n w where
  closed hn := by simp [hc] at hn
  running env' s' heq := by
    obtain ⟨rfl, rfl⟩ : env = env' ∧ s = s' := by simpa [hc] using heq
    exact h
  later hlt env' s' heq := by
    obtain ⟨rfl, rfl⟩ : env = env' ∧ s = s' := by simpa [hc] using heq
    exact hlater hlt

theorem Condemned.of_none (hc : w.client = none) (hused : id ∈ w.earlier)
    (h : w.disk.revocationPending = true ∨ Custody.NotStored id w.disk) : Condemned id n w where
  closed _ := ⟨hused, h⟩
  running env s heq := by simp [hc] at heq
  later _ env s heq := by simp [hc] at heq

theorem condemned_step (hi : Condemned id n w) (hsound : Sound w) (h : Happens w w') :
    Condemned id n w' := by
  cases h with
  | @opened env db m s hw hstart hs hview hmark =>
    obtain ⟨hused, hdisk⟩ := hi.closed hw
    -- a table that still holds the identifier has the marker, and is not opened as it is
    have hnot : Custody.NotStored id db.view := by
      rcases hview with heq | heq
      · rw [heq]
        refine hdisk.resolve_left fun hm => ?_
        rw [Database.marker, heq, hm] at hmark
        cases hmark
      · rw [heq]
        exact Custody.notStored_empty
    have habs : Custody.Absent id (custody s) := hs ▸ absent_initial hused hnot
    exact .of_client rfl ⟨habs.toSpent, Or.inr habs.stored⟩ fun _ => habs
  | refused hw ht =>
    obtain ⟨hused, hdisk⟩ := hi.closed hw
    refine .of_none rfl hused ?_
    rcases ht with rfl | rfl
    · exact hdisk
    · exact Or.inr Custody.notStored_empty
  | @ran env s s' l hw hs =>
    have hreach := (hsound.running env s hw).reach
    have hcond := hi.running env s hw
    refine .of_client rfl ?_ fun hlt => ?_
    · exact custody_step hreach hs hcond fun _ hr hm => Custody.condemned_step hcond hr hm
    · have habs := hi.later hlt env s hw
      exact custody_step hreach hs habs fun _ hr hm => Custody.absent_step habs hr hm
  | @killed env s hw =>
    have hcond := hi.running env s hw
    refine .of_none rfl hcond.used ?_
    rw [← (hsound.running env s hw).disk]
    exact hcond.stored

/-- What is stored under the marker is condemned. -/
theorem condemned_of_marker (hsound : Sound w) (hm : w.disk.revocationPending = true) {r : Row}
    (hr : r ∈ w.disk.events.rows) (hid : r.eventId = some id) : Condemned id w.lifetime w := by
  rcases hc : w.client with _ | ⟨env, s⟩
  · exact .of_none hc (hsound.closed hc r hr id hid) (Or.inl hm)
  · have hrun := hsound.running env s hc
    rw [← hrun.disk] at hr hm
    have hspent := Custody.spent_of_row (custody_reachable hrun.reach) hr hid
    exact .of_client hc ⟨hspent, Or.inl hm⟩ fun hlt => absurd hlt (Nat.lt_irrefl _)

/-- An act keeps the marker and adds no row, or it purges. -/
theorem marker_kept (hsound : Sound w) (h : Happens w w') (hm : w.disk.revocationPending = true) :
    (w'.disk.revocationPending = true ∧ w'.disk.events.rows.Sublist w.disk.events.rows) ∨
      w'.disk = ⟨.empty, false⟩ := by
  cases h with
  | opened hw hstart hs hview hmark =>
    refine Or.inr (hview.resolve_left fun heq => ?_)
    rw [Database.marker, heq, hm] at hmark
    cases hmark
  | refused hw ht =>
    rcases ht with rfl | rfl
    · exact Or.inl ⟨hm, List.Sublist.refl _⟩
    · exact Or.inr rfl
  | @ran env s s' l hw hs =>
    have hrun := hsound.running env s hw
    have hreach : (machine env).Reach s' := hrun.reach.step hs
    rw [← hrun.disk] at hm ⊢
    rw [committed_eq hreach]
    refine custody_step (P := fun c => (c.store.marker = true ∧
      c.rows.Sublist s.pipeline.store.rows) ∨ c.store.view = ⟨.empty, false⟩) hrun.reach hs
      (Or.inl ⟨hm, List.Sublist.refl _⟩) fun c' hr hmove => ?_
    exact hmove.marker_kept hr hm
  | killed hw => exact Or.inl ⟨hm, List.Sublist.refl _⟩

end World

variable {w : World}

/-- **A committed revocation marker survives crashes.** Whatever processes open the database
after the marker has been committed, with whatever configuration and faults, and wherever
they are killed: no row that is stored with the marker is handed to the sink by a later
lifetime; and each single act keeps the marker and inserts nothing, or removes it together
with all rows. -/
theorem marker_survives (hw : world.Reach w) (hm : w.disk.revocationPending = true) :
    (∀ w', world.Run w w' → w.lifetime < w'.lifetime →
      ∀ env s d v b, w'.client = some (env, s) → s.frame.pc = .write d v b →
        ∀ x ∈ b, ∀ r ∈ w.disk.events.rows, r.eventId ≠ some x.eventId) ∧
    ∀ a w', world.step w a = some w' →
      (w'.disk.revocationPending = true ∧ w'.disk.events.rows.Sublist w.disk.events.rows) ∨
        w'.disk = ⟨.empty, false⟩ := by
  have hsound := World.sound_of_reach hw
  refine ⟨fun w' hrun hlt env s d v b hc hpc x hx r hr hid => ?_, fun a w' hstep => ?_⟩
  · have hcond : World.Condemned x.eventId w.lifetime w' :=
      hw.run_rule (P := World.Condemned x.eventId w.lifetime)
        (fun _ _ _ hreach hi hs => World.condemned_step hi (World.sound_of_reach hreach)
          (World.happens_of_step hs))
        hrun (World.condemned_of_marker hsound hm hr hid)
    refine (hcond.later hlt env s hc).batch x ?_ rfl
    rw [show (custody s).stage = .sending v b from congrArg stageOf hpc]
    exact hx
  · exact World.marker_kept hsound (World.happens_of_step hstep) hm

/-- An event is stored, consent is denied, and the process is killed between the marker and
the purge. The next lifetime opens with consent and writes only its own event. -/
theorem marker_survives_sample : ∃ w w' env s d v b, world.Reach w ∧
    w.disk.revocationPending = true ∧ w.disk.events.rows ≠ [] ∧ world.Run w w' ∧
    w'.client = some (env, s) ∧ s.frame.pc = .write d v b ∧ b ≠ [] ∧
    ∀ x ∈ b, ∀ r ∈ w.disk.events.rows, r.eventId ≠ some x.eventId := by
  obtain ⟨w, w', hw, hrun, hp⟩ := Lts.Machine.reach_run_of_exec (world_start ⟨.empty, false⟩)
    (World.Act.create :: World.Act.run (Label.starts 1 "s" "e" ++ Label.works 11 ++
      .call 2 (.setConsent .denied) :: Label.steps 2 8))
    ([.kill, World.Act.create] ++ World.Act.run (Label.starts 1 "t" "f" ++ Label.works 16))
    (fun w w' => w.disk.revocationPending && decide (w.disk.events.rows ≠ []) &&
      decide (w.lifetime < w'.lifetime) && decide (w'.writing ≠ [])) (by decide)
  simp only [Bool.and_eq_true, decide_eq_true_eq] at hp
  obtain ⟨⟨⟨hm, hrows⟩, hlt⟩, hb⟩ := hp
  obtain ⟨env, s, d, v, hc, hpc⟩ := World.writing_eq rfl hb
  exact ⟨w, w', env, s, d, v, w'.writing, hw, hm, hrows, hrun, hc, hpc, hb,
    (marker_survives hw hm).1 w' hrun hlt env s d v _ hc hpc⟩

end PlayerTrace
