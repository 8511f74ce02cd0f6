import PlayerTrace.Lifetimes.World

/-!
# Delivery follows admission order across restarts

Ordinals start anew in every lifetime, above the highest one that is stored. They agree
with the order of admission over *all* lifetimes as long as the database was written by
this program only, so the runs here begin with an empty one. What was accepted in all
lifetimes is one list, `PlayerTrace.World.log`, in which every event has its own identifier;
what a lifetime recovers is a sublist of what was accepted before it
(`PlayerTrace.World.Recorded`).
-/

namespace PlayerTrace

namespace Custody

variable {env : Env} {c c' : Custody} {earlier : List String} {admitted : List Item}

/-- A lifetime continues the earlier ones: what it recovered was admitted, its own events
have new identifiers, and a batch is in the order of all. -/
structure Continues (earlier : List String) (admitted : List Item) (c : Custody) : Prop where
  recovered : c.history.recovered.Sublist admitted
  fresh : ∀ id ∈ c.born, id ∉ earlier
  inOrder : InOrder c

theorem continues_step (hi : Continues earlier admitted c) (hused : earlier ⊆ c.history.used)
    (hsort : Sorted c) (hr : Reachable env c) (hs : Step env c c') :
    Continues earlier admitted c' := by
  obtain ⟨hrec, hborn⟩ := hs.born_cases
  refine ⟨hrec ▸ hi.recovered, fun id hid hmem => ?_, inOrder_step hi.inOrder hsort hr hs⟩
  rcases hborn with ⟨hsub, -⟩ | ⟨new, heq, hfresh, -⟩
  · exact hi.fresh id (hsub.subset hid) hmem
  · rw [heq, List.mem_append, List.mem_singleton] at hid
    rcases hid with hid | rfl
    · exact hi.fresh id hid hmem
    · exact hfresh (hused hmem)

end Custody

namespace World

variable {env : Env} {s : State} {w w' : World}

/-! ### The log of all lifetimes -/

theorem log_of_none (h : w.client = none) : w.log = w.admitted := by
  rw [log, h]
  exact List.append_nil _

theorem log_of_client (h : w.client = some (env, s)) :
    w.log = w.admitted ++ s.history.accepted.map fun a => a.qe.item := by
  rw [log, h]

/-- **What the lifetimes have recorded.** -/
structure Recorded (w : World) : Prop where
  nodup : (w.admitted.map Item.id).Nodup
  /-- What was accepted in earlier lifetimes has an identifier of theirs. -/
  spent : ∀ x ∈ w.admitted, ∃ id ∈ w.earlier, x.id = some id
  sorted : w.disk.events.rows.Pairwise fun a b => a.ordinal < b.ordinal
  closed : w.client = none → (w.disk.events.rows.map Row.item).Sublist w.admitted
  running : ∀ env s, w.client = some (env, s) →
    Custody.Continues w.earlier w.admitted (custody s)

theorem Recorded.known_sublist (hi : Recorded w) (hc : w.client = some (env, s)) :
    (custody s).known.Sublist w.log := by
  rw [log_of_client hc, Custody.known]
  exact (hi.running env s hc).recovered.append (List.Sublist.refl _)

/-- Accepted events carry the identifiers that were born for them. -/
theorem mem_accepted {x : Item} (hx : x ∈ s.history.accepted.map fun a => a.qe.item) :
    ∃ id ∈ (custody s).born, x.id = some id := by
  obtain ⟨a, ha, rfl⟩ := List.mem_map.mp hx
  exact ⟨a.qe.event.eventId, List.mem_append_left _ (List.mem_map_of_mem ha), rfl⟩

/-- **No two events of the log have the same identifier.** -/
theorem Recorded.log_nodup (hi : Recorded w) (hsound : Sound w) : (w.log.map Item.id).Nodup := by
  rcases hc : w.client with _ | ⟨env, s⟩
  · rw [log_of_none hc]
    exact hi.nodup
  · have hnamed := Custody.named_of_reachable (custody_reachable (hsound.running env s hc).reach)
    rw [log_of_client hc, List.map_append]
    refine List.Nodup.append hi.nodup ?_ fun o hold hnew => ?_
    · have hborn : (s.history.accepted.map fun a => a.qe.event.eventId).Nodup :=
        ((List.nodup_append.mp hnamed.nodup).2.1).sublist (List.sublist_append_left _ _)
      have heq : (s.history.accepted.map fun a => a.qe.item).map Item.id =
          (s.history.accepted.map fun a => a.qe.event.eventId).map some := by
        rw [List.map_map, List.map_map]
        rfl
      rw [heq]
      exact hborn.map (Option.some_injective _)
    · obtain ⟨x, hx, rfl⟩ := List.mem_map.mp hold
      obtain ⟨y, hy, hxy⟩ := List.mem_map.mp hnew
      obtain ⟨id, hid, hxid⟩ := hi.spent x hx
      obtain ⟨id', hid', hyid⟩ := mem_accepted hy
      have hsame : id' = id := Option.some.inj ((hyid.symm.trans hxy).trans hxid)
      exact (hi.running env s hc).fresh id' hid' (hsame ▸ hid)

theorem Recorded.of_client (hc : w.client = some (env, s)) (hnodup : (w.admitted.map Item.id).Nodup)
    (hspent : ∀ x ∈ w.admitted, ∃ id ∈ w.earlier, x.id = some id)
    (hsort : w.disk.events.rows.Pairwise fun a b => a.ordinal < b.ordinal)
    (h : Custody.Continues w.earlier w.admitted (custody s)) : Recorded w where
  nodup := hnodup
  spent := hspent
  sorted := hsort
  closed hn := by simp [hc] at hn
  running env' s' heq := by
    obtain ⟨rfl, rfl⟩ : env = env' ∧ s = s' := by simpa [hc] using heq
    exact h

theorem Recorded.of_none (hc : w.client = none) (hnodup : (w.admitted.map Item.id).Nodup)
    (hspent : ∀ x ∈ w.admitted, ∃ id ∈ w.earlier, x.id = some id)
    (hsort : w.disk.events.rows.Pairwise fun a b => a.ordinal < b.ordinal)
    (h : (w.disk.events.rows.map Row.item).Sublist w.admitted) : Recorded w where
  nodup := hnodup
  spent := hspent
  sorted := hsort
  closed _ := h
  running env s heq := by simp [hc] at heq

theorem recorded_step (hi : Recorded w) (hsound : Sound w) (h : Happens w w') : Recorded w' := by
  cases h with
  | @opened env db m s hw hstart hs hview hmark =>
    have hrows : db.view.events.rows.Sublist w.disk.events.rows := by
      rcases hview with heq | heq <;> rw [heq]
      exact List.nil_sublist _
    refine .of_client rfl hi.nodup hi.spent (hi.sorted.sublist hrows) ⟨?_, ?_, ?_⟩
    · rw [hs]
      exact (hrows.map _).trans (hi.closed hw)
    · rw [hs]
      exact fun _ hid => absurd hid List.not_mem_nil
    · rw [hs]
      exact List.nil_sublist _
  | refused hw ht =>
    refine .of_none rfl hi.nodup hi.spent ?_ ?_
    · rcases ht with rfl | rfl
      · exact hi.sorted
      · exact List.Pairwise.nil
    · rcases ht with rfl | rfl
      · exact hi.closed hw
      · exact List.nil_sublist _
  | @ran env s s' l hw hs =>
    have hrun := hsound.running env s hw
    have hcont := hi.running env s hw
    have hsort : Custody.Sorted (custody s) := by
      have := hi.sorted
      rwa [← hrun.disk] at this
    refine .of_client rfl hi.nodup hi.spent ?_ ?_
    · rw [committed_eq (hrun.reach.step hs)]
      exact custody_step hrun.reach hs hsort fun _ hr hm => Custody.sorted_step hsort hr hm
    · exact custody_step hrun.reach hs hcont fun _ hr hm =>
        Custody.continues_step hcont hrun.used hsort hr hm
  | @killed env s hw =>
    have hrun := hsound.running env s hw
    have hr := custody_reachable hrun.reach
    refine .of_none rfl (hi.log_nodup hsound) (fun x hx => ?_) hi.sorted ?_
    · rw [log_of_client hw] at hx
      rcases List.mem_append.mp hx with hx | hx
      · obtain ⟨id, hid, heq⟩ := hi.spent x hx
        exact ⟨id, hrun.used hid, heq⟩
      · obtain ⟨id, hid, heq⟩ := mem_accepted hx
        exact ⟨id, (Custody.named_of_reachable hr).used id (List.mem_append_right _ hid), heq⟩
    · rw [← hrun.disk]
      have hpipe : ((custody s).rows.map Row.item).Sublist (custody s).pipe :=
        List.sublist_append_left _ _
      exact (hpipe.trans (Custody.sequenced_of_reachable hr)).trans (hi.known_sublist hw)

theorem recorded_of_run (h : world.Run (unopened ⟨.empty, false⟩) w) : Recorded w := by
  refine (Lts.Machine.Reach.of_start (world_start _)).run_rule (P := Recorded)
    (fun w a w' hr hi hs => recorded_step hi (sound_of_reach hr) (happens_of_step hs)) h ?_
  exact .of_none rfl List.nodup_nil (fun x hx => absurd hx List.not_mem_nil) List.Pairwise.nil
    (List.nil_sublist _)

end World

/-! ### The order at the sink -/

variable {w : World}

/-- **Delivery follows admission order**, over any number of lifetimes that began with an
empty database, whatever fails in them: the log of all admissions names every event once;
a batch handed to the sink is a sublist of it; and when an event is acknowledged, every
event that is still on its way and every usable row that stays comes after it in the log. -/
theorem delivery_in_order (h : world.Run (World.unopened ⟨.empty, false⟩) w) :
    (w.log.map Item.id).Nodup ∧
    (∀ env s d v b, w.client = some (env, s) → s.frame.pc = .write d v b →
      (b.map SerializedEvent.item).Sublist w.log) ∧
    ∀ env s l s' w', w.client = some (env, s) → step env s l = some s' →
      world.step w (.runs l) = some w' →
      ∀ x ∈ s'.history.acked, x ∉ s.history.acked →
        (∀ e ∈ s'.core.retry ++ s'.hands ++ s'.pipeline.queue, [x, e.item].Sublist w'.log) ∧
        ∀ r ∈ s'.pipeline.store.rows, r.usable env.isValidJson = true →
          [x, r.item].Sublist w'.log := by
  have hreach : world.Reach w := ⟨_, world_start _, h⟩
  have hsound := World.sound_of_reach hreach
  have hrec := World.recorded_of_run h
  refine ⟨hrec.log_nodup hsound, fun env s d v b hc hpc => ?_,
    fun env s l s' w' hc hs hw x hx hnew => ?_⟩
  · have hin : Custody.InOrder (custody s) := (hrec.running env s hc).inOrder
    rw [Custody.InOrder, show (custody s).stage = .sending v b from congrArg stageOf hpc] at hin
    exact hin.trans (hrec.known_sublist hc)
  · have hrun := hsound.running env s hc
    have hsort : Custody.Sorted (custody s) := by
      have := hrec.sorted
      rwa [← hrun.disk] at this
    obtain ⟨t, ht, rfl⟩ : ∃ t, step env s l = some t ∧ w' = _ := by
      simpa [world, World.step, hc, eq_comm] using hw
    obtain rfl : t = s' := Option.some.inj (ht.symm.trans hs)
    have hlater : (custody t).known.Sublist _ :=
      (World.recorded_of_run (h.tail hw)).known_sublist rfl
    rcases step_moves hs with heq | hm
    · rw [show t.history = s.history from congrArg Custody.history heq] at hx
      exact absurd hx hnew
    · obtain ⟨hline, hrows⟩ := hm.acked_before (custody_reachable hrun.reach) hsort hx hnew
      refine ⟨fun e he => (hline e ?_).trans hlater, fun r hr hu => (hrows r hr hu).trans hlater⟩
      rw [show (custody t).stage.hands = t.hands from stageOf_hands t.frame.pc]
      exact he

/-- An event is stored, the process is killed, and the next lifetime delivers it. -/
theorem delivery_in_order_sample : ∃ w env s d v b,
    world.Run (World.unopened ⟨.empty, false⟩) w ∧ w.lifetime = 2 ∧ w.client = some (env, s) ∧
    s.frame.pc = .write d v b ∧ b ≠ [] ∧ (b.map SerializedEvent.item).Sublist w.log := by
  obtain ⟨w, hrun, hp⟩ := Lts.Machine.exists_run_of_exec (M := world)
    (s := World.unopened ⟨.empty, false⟩)
    (World.Act.create :: World.Act.run (Label.starts 1 "s" "e" ++ Label.works 11) ++
      [.kill, World.Act.create] ++ World.Act.run (Label.works 8))
    (fun w => decide (w.lifetime = 2) && decide (w.writing ≠ [])) (by decide)
  simp only [Bool.and_eq_true, decide_eq_true_eq] at hp
  obtain ⟨env, s, d, v, hc, hpc⟩ := World.writing_eq rfl hp.2
  exact ⟨w, env, s, d, v, w.writing, hrun, hp.1, hc, hpc, hp.2,
    (delivery_in_order hrun).2.1 env s d v _ hc hpc⟩

end PlayerTrace
