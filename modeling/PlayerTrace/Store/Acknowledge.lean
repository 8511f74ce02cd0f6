import PlayerTrace.Store.Calm

/-!
# When an acknowledgment is all or nothing

`SqliteStore::acknowledge` deletes the rows of a batch in one transaction and compares their
number with the size of the batch after the transaction has committed. The verdict is right:
it is `Ok` exactly when the identifiers are distinct, all of them are in the table, and the
transaction has committed. What a failing verdict says about the table is another matter: if
the count is off but not zero, then rows are gone for good.

So an acknowledgment is all or nothing, whatever fails, for two kinds of batches only: those
that are in the table as a whole, each identifier once, and those of which nothing is there
(`PlayerTrace.acknowledge_allOrNothing_iff`).
-/

namespace PlayerTrace

variable {db db' : Database} {ids : List String} {φ : Faults}

/-- **An acknowledgment is all or nothing.** -/
structure AllOrNothing (φ : Faults) (ids : List String) (db : Database) : Prop where
  /-- `Ok` says that the batch was in the table and that the transaction has committed. -/
  verdict : (acknowledge φ ids db).1.ok = true ↔
    ids.Nodup ∧ (∀ id ∈ ids, db.view.events.Has id) ∧ (deleteIds φ ids db).1.ok = true
  /-- Then exactly the rows of the batch are gone. -/
  all : (acknowledge φ ids db).1.ok = true → ∀ r, r ∈ (acknowledge φ ids db).2.2.rows ↔
    r ∈ db.rows ∧ ∀ id ∈ ids, r.eventId ≠ some id
  /-- Otherwise the table is as it was. -/
  nothing : (acknowledge φ ids db).1.ok = false →
    (acknowledge φ ids db).2.2.view.events = db.view.events

/-- What `acknowledge` returns, in terms of the identifiers that are in the table. -/
theorem acknowledge_spec (φ : Faults) (ids : List String) (db : Database) :
    ((deleteIds φ ids db).1.ok = false ∧ (acknowledge φ ids db).1.ok = false ∧
        (acknowledge φ ids db).2.2 = db) ∨
      ((deleteIds φ ids db).1.ok = true ∧
        (acknowledge φ ids db).2.2.view.events = db.view.events.without ids ∧
        ((acknowledge φ ids db).1.ok = true ↔
          ids.Nodup ∧ ∀ id ∈ ids, db.view.events.Has id)) := by
  obtain ⟨s, n, d, hdel⟩ : ∃ s n d, deleteIds φ ids db = (s, n, d) := ⟨_, _, _, rfl⟩
  simp only [acknowledge, hdel]
  rcases deleteIds_cases hdel with ⟨hs, rfl⟩ | ⟨hs, hev, -, -, hcount⟩
  · rw [if_pos hs]
    exact Or.inl ⟨hs, hs, rfl⟩
  · have hn : n = (db.view.events.taken ids).length := by
      have htaken := db.view.events.length_taken ids
      simp only [Database.rows, hev] at hcount
      omega
    rw [if_neg (by simp [hs]), ← Events.length_taken_eq_iff, ← hn]
    refine Or.inr ⟨hs, ?_⟩
    split
    · rename_i hne
      exact ⟨hev, by simp [Status.ok, Status.storage, hne]⟩
    · rename_i heq
      exact ⟨hev, by simpa using heq⟩

/-- The verdict and the effect of a success are always right. -/
theorem allOrNothing_iff : AllOrNothing φ ids db ↔ ((acknowledge φ ids db).1.ok = false →
    (acknowledge φ ids db).2.2.view.events = db.view.events) := by
  refine ⟨fun h => h.nothing, fun h => ⟨?_, fun hok r => ?_, h⟩⟩
  · rcases acknowledge_spec φ ids db with ⟨hdel, hack, -⟩ | ⟨hdel, -, hiff⟩
    · simp [hdel, hack]
    · rw [hiff, hdel]
      simp
  · rcases acknowledge_spec φ ids db with ⟨-, hack, -⟩ | ⟨-, hev, -⟩
    · exact absurd (hack.symm.trans hok) Bool.false_ne_true
    · simp only [Database.rows, hev, Events.mem_without]

/-- A table in which none of the identifiers is loses nothing. -/
theorem Events.without_eq_self {t : Events} (h : ∀ id ∈ ids, ¬t.Has id) : t.without ids = t := by
  refine Events.ext (List.filter_eq_self.mpr fun r hr => ?_)
  simp only [List.all_eq_true, decide_eq_true_eq]
  exact fun id hid heq => h id hid ⟨r, hr, heq⟩

/-- **Acknowledging is all or nothing, whatever fails**, exactly for the batches that are in
the table as a whole, each identifier once, or not at all. -/
theorem acknowledge_allOrNothing_iff (hdb : db.saved = none) :
    (∀ φ, AllOrNothing φ ids db) ↔
      (ids.Nodup ∧ ∀ id ∈ ids, db.view.events.Has id) ∨ ∀ id ∈ ids, ¬db.view.events.Has id := by
  constructor
  · intro h
    by_contra hcon
    obtain ⟨hbatch, hsome⟩ := not_or.mp hcon
    have hcommit : (deleteIds Faults.none ids db).1.ok = true := by
      rw [deleteIds_calm hdb ids]
      rfl
    obtain ⟨-, hev, hiff⟩ := (acknowledge_spec Faults.none ids db).resolve_left fun hno =>
      absurd (hno.1.symm.trans hcommit) Bool.false_ne_true
    -- the verdict is a failure, and a row of the batch is gone
    have hfail : (acknowledge Faults.none ids db).1.ok = false :=
      Bool.eq_false_iff.mpr fun hok => hbatch (hiff.mp hok)
    have hsame := (h Faults.none).nothing hfail
    rw [hev] at hsame
    simp only [not_forall, not_not] at hsome
    obtain ⟨id, hid, r, hr, heq⟩ := hsome
    rw [← hsame, Events.mem_without] at hr
    exact hr.2 id hid heq
  · intro h φ
    refine allOrNothing_iff.mpr fun hfail => ?_
    rcases acknowledge_spec φ ids db with ⟨-, -, heq⟩ | ⟨-, hev, hiff⟩
    · rw [heq]
    · rcases h with hbatch | hnone
      · exact absurd (hfail.symm.trans (hiff.mpr hbatch)) Bool.false_ne_true
      · rw [hev, Events.without_eq_self hnone]

/-! ### A batch of which a part is there -/

/-- A table with one row. -/
def Database.single : Database :=
  .ofRows ⟨[⟨1, some "present", "s", 0, 1, 0, "row"⟩], by decide, by decide⟩ false

theorem acknowledge_allOrNothing_present :
    ["present"].Nodup ∧ ∀ φ, AllOrNothing φ ["present"] Database.single := by
  refine ⟨by decide, (acknowledge_allOrNothing_iff rfl).mpr (Or.inl ⟨by decide, ?_⟩)⟩
  simp [Events.Has, Database.single, Database.ofRows]

/-- **A failing acknowledgment that deletes**: one identifier of two is not in the table. The
row of the other is gone, and the verdict is that the batch was not acknowledged. -/
theorem acknowledge_deletes_and_fails :
    (acknowledge Faults.none ["present", "absent"] Database.single).1.ok = false ∧
      (acknowledge Faults.none ["present", "absent"] Database.single).2.2.rows = [] ∧
      ¬AllOrNothing Faults.none ["present", "absent"] Database.single := by
  refine ⟨by decide, by decide, fun h => ?_⟩
  have hrows := congrArg Events.rows (h.nothing (by decide))
  exact absurd hrows (by decide)

end PlayerTrace
