import PlayerTrace.Custody.Cleared
import PlayerTrace.Custody.Sequence

/-!
# Identifiers that do not come back

An identifier is *spent* once it is in use and no event on its way carries it
(`PlayerTrace.Custody.Spent`): a new event gets a new identifier, so no insertion can ever
store it again. A row of the table has a spent identifier, because nothing is in two places.

The revocation marker condemns rows. While it is there no row is inserted, and it goes
only together with all of them (`PlayerTrace.Custody.Step.marker_kept`); an identifier that
is spent and stored under the marker is therefore never stored without it
(`PlayerTrace.Custody.Condemned`). Once it has left the table for good it cannot be in a
batch either (`PlayerTrace.Custody.Absent`).
-/

namespace PlayerTrace

namespace Custody

variable {env : Env} {c c' : Custody} {id : String}

/-! ### Spent identifiers -/

/-- No event on its way carries this identifier, and none will. -/
structure Spent (id : String) (c : Custody) : Prop where
  used : id ∈ c.history.used
  line : ∀ e ∈ c.line, e.event.eventId ≠ id

theorem Step.used_subset (hs : Step env c c') : c.history.used ⊆ c'.history.used := by
  obtain ⟨-, ⟨-, hused⟩ | ⟨id, -, -, hused⟩⟩ := hs.born_cases
  · exact hused
  · rw [hused]
    exact List.subset_cons_self _ _

theorem spent_step (hi : Spent id c) (ho : Ordered c) (hs : Step env c c') : Spent id c' := by
  refine ⟨hs.used_subset hi.used, fun e he heq => ?_⟩
  rcases hs.mem_line ho.retry he with he | ⟨-, -, -, -, hfresh⟩
  · exact hi.line e he heq
  · exact hfresh (heq ▸ hi.used)

/-- The names are those of what is known and of what is being admitted. -/
theorem names_eq (c : Custody) :
    c.names = c.known.filterMap Item.id ++ c.entry.events.map fun e => e.event.eventId := by
  rw [known, List.filterMap_append, List.filterMap_map, names, born,
    show (Item.id ∘ fun a : Admitted => a.qe.item) =
      some ∘ fun a : Admitted => a.qe.event.eventId from rfl, List.filterMap_eq_map,
    List.append_assoc]

/-- The identifiers of rows and of events on their way are all different. -/
theorem rows_line_nodup (h : Reachable env c) :
    (c.rows.filterMap Row.eventId ++ c.line.map fun e => e.event.eventId).Nodup := by
  refine (named_of_reachable h).nodup.sublist ?_
  rw [names_eq, line, List.map_append, ← List.append_assoc]
  refine List.Sublist.append ?_ (List.Sublist.refl _)
  have hsub := (sequenced_of_reachable h).filterMap Item.id
  rwa [pipe, List.filterMap_append, List.filterMap_map, List.filterMap_map,
    show (Item.id ∘ QueuedEvent.item) = some ∘ fun e : QueuedEvent => e.event.eventId from rfl,
    List.filterMap_eq_map] at hsub

/-- **What is stored is spent.** -/
theorem spent_of_row (h : Reachable env c) {r : Row} (hr : r ∈ c.rows)
    (hid : r.eventId = some id) : Spent id c := by
  have hmem : id ∈ c.rows.filterMap Row.eventId := List.mem_filterMap.mpr ⟨r, hr, hid⟩
  have hknown : id ∈ c.known.filterMap Item.id := by
    refine (((List.sublist_append_left _ _).trans (sequenced_of_reachable h)).filterMap
      Item.id).subset ?_
    rw [List.filterMap_map]
    exact hmem
  refine ⟨(named_of_reachable h).used id (c.known_ids_sublist.subset hknown), fun e he heq => ?_⟩
  exact (List.nodup_append.mp (rows_line_nodup h)).2.2 id hmem id
    (heq ▸ List.mem_map_of_mem he) rfl

/-! ### Under the marker -/

/-- **The marker outlives the rows it condemns**: no move inserts a row while it is there,
and it is only cleared together with all of them. -/
theorem Step.marker_kept (hs : Step env c c') (h : Reachable env c) (hm : c.store.marker = true) :
    (c'.store.marker = true ∧ c'.rows.Sublist c.rows) ∨ c'.store.view = ⟨.empty, false⟩ := by
  have hlocked : ¬c.stage.locked = true := fun hl => by
    simp [(marked_of_reachable h).locked hl] at hm
  have hrows : c'.rows.Sublist c.rows :=
    (hs.rows_sublist h).resolve_right fun ⟨v, k, new, hst, _⟩ => hlocked (by rw [hst]; rfl)
  cases hs with
  | commit hst => exact absurd (by rw [hst]; rfl) hlocked
  | acknowledge _ _ _ hmk => exact Or.inl ⟨hmk.trans hm, hrows⟩
  | mark _ _ _ hmk => exact Or.inl ⟨hmk, hrows⟩
  | fetch _ _ _ hdb =>
    rcases hdb with ⟨rfl, -⟩ | ⟨-, hmk, -⟩
    · exact Or.inl ⟨hm, hrows⟩
    · exact Or.inl ⟨hmk.trans hm, hrows⟩
  | purge _ _ hv | purgeAll _ _ hv => exact Or.inr hv
  | _ => exact Or.inl ⟨hm, hrows⟩

/-- No row carries this identifier. -/
def NotStored (id : String) (t : Tables) : Prop := ∀ r ∈ t.events.rows, r.eventId ≠ some id

theorem notStored_empty {b : Bool} : NotStored id ⟨.empty, b⟩ := fun _ hr => absurd hr nofun

/-- What is spent and not stored is not stored by a move. -/
theorem notStored_step (hi : NotStored id c.store.view) (hsp : Spent id c) (hs : Step env c c') :
    NotStored id c'.store.view := by
  intro r hr heq
  rcases hs.mem_rows hr with hr | ⟨v, k, hst, -, x, hx, hitem⟩
  · exact hi r hr heq
  · have hid : some x.qe.event.eventId = some id := (congrArg Item.id hitem).symm.trans heq
    exact hsp.line x.qe (mem_line_of_hands (mem_hands_of_committing hst hx)) (Option.some.inj hid)

/-- **A condemned identifier**: it is spent, and stored at most under the marker. -/
structure Condemned (id : String) (c : Custody) : Prop extends Spent id c where
  stored : c.store.marker = true ∨ NotStored id c.store.view

theorem condemned_step (hi : Condemned id c) (h : Reachable env c) (hs : Step env c c') :
    Condemned id c' := by
  refine ⟨spent_step hi.toSpent (ordered_of_reachable h) hs, ?_⟩
  rcases hi.stored with hm | hnot
  · rcases hs.marker_kept h hm with ⟨hm', -⟩ | hv
    · exact Or.inl hm'
    · exact Or.inr (hv ▸ notStored_empty)
  · exact Or.inr (notStored_step hnot hi.toSpent hs)

/-- **An absent identifier**: it is spent, not stored, and not in the worker's batch. -/
structure Absent (id : String) (c : Custody) : Prop extends Spent id c where
  stored : NotStored id c.store.view
  batch : ∀ x ∈ c.stage.batch, x.eventId ≠ id

theorem absent_step (hi : Absent id c) (h : Reachable env c) (hs : Step env c c') :
    Absent id c' := by
  refine ⟨spent_step hi.toSpent (ordered_of_reachable h) hs, notStored_step hi.stored hi.toSpent hs,
    fun x hx heq => ?_⟩
  rcases hs.batch_cases with hnil | ⟨hb, -⟩ | ⟨read, hread, hb, -⟩
  · simp [hnil] at hx
  · exact hi.batch x (hb ▸ hx) heq
  · obtain ⟨r, hr, -, hu, rfl⟩ := mem_batch_of_read hread (hb ▸ hx)
    exact hi.stored r hr ((Row.eventId_of_usable hu).trans (congrArg some heq))

end Custody

end PlayerTrace
