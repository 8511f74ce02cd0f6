import Mathlib.Data.List.Basic
import Mathlib.Data.List.Nodup
import Mathlib.Logic.Equiv.List

/-!
# Maps that keep the order of insertion

A map is the list of its entries, and no key has two of them. Assigning to a key that is there
overwrites its value in place, and assigning to a new one appends. So building a map from
entries with distinct keys is writing them down one after the other
(`OrderedMap.entries_assignAll`), and every entry is found again under its key
(`OrderedMap.lookup_of_mem`).
-/

/-- A map from `κ` to `α`, in the order of insertion. -/
@[ext] structure OrderedMap (κ α : Type*) where
  entries : List (κ × α)
  nodup : (entries.map Prod.fst).Nodup

namespace OrderedMap

variable {κ α : Type*}

/-- The keys, in order. -/
def keys (m : OrderedMap κ α) : List κ := m.entries.map Prod.fst

/-- The map without entries. -/
def empty : OrderedMap κ α := ⟨[], List.nodup_nil⟩

@[simp] theorem entries_empty : (empty : OrderedMap κ α).entries = [] := rfl

variable [DecidableEq κ]

/-- The map of these entries, if no key has two of them. -/
def ofEntries (entries : List (κ × α)) : Option (OrderedMap κ α) :=
  if h : (entries.map Prod.fst).Nodup then some ⟨entries, h⟩ else none

theorem ofEntries_entries (m : OrderedMap κ α) : ofEntries m.entries = some m := dif_pos m.nodup

instance [Encodable κ] [Encodable α] : Encodable (OrderedMap κ α) :=
  .ofLeftInjection entries ofEntries ofEntries_entries

/-- Overwriting the entry of a key, or appending one. -/
def assignEntry (k : κ) (v : α) : List (κ × α) → List (κ × α)
  | [] => [(k, v)]
  | entry :: l => if entry.1 = k then (entry.1, v) :: l else entry :: assignEntry k v l

section Entries

variable {k : κ} {v : α} {l : List (κ × α)}

theorem assignEntry_of_notMem (h : k ∉ l.map Prod.fst) : assignEntry k v l = l ++ [(k, v)] := by
  induction l with
  | nil => rfl
  | cons entry l ih =>
    rw [List.map_cons, List.mem_cons, not_or] at h
    rw [assignEntry, if_neg (Ne.symm h.1), ih h.2]
    rfl

theorem keys_assignEntry_of_mem (h : k ∈ l.map Prod.fst) :
    (assignEntry k v l).map Prod.fst = l.map Prod.fst := by
  induction l with
  | nil => cases h
  | cons entry l ih =>
    rw [assignEntry]
    split
    · rfl
    · rename_i hne
      rw [List.map_cons, List.map_cons, ih ((List.mem_cons.mp h).resolve_left (Ne.symm hne))]

theorem nodup_assignEntry (h : (l.map Prod.fst).Nodup) :
    ((assignEntry k v l).map Prod.fst).Nodup := by
  by_cases hk : k ∈ l.map Prod.fst
  · rwa [keys_assignEntry_of_mem hk]
  · rw [assignEntry_of_notMem hk, List.map_append, List.map_singleton, ← List.concat_eq_append]
    exact h.concat hk

end Entries

variable {m : OrderedMap κ α} {k : κ} {v : α}

/-- Assigning to a key. -/
def assign (m : OrderedMap κ α) (k : κ) (v : α) : OrderedMap κ α :=
  ⟨assignEntry k v m.entries, nodup_assignEntry m.nodup⟩

/-- Assigning one entry after the other. -/
def assignAll (m : OrderedMap κ α) (l : List (κ × α)) : OrderedMap κ α :=
  l.foldl (fun m entry => m.assign entry.1 entry.2) m

/-- The value of a key. -/
def lookup (m : OrderedMap κ α) (k : κ) : Option α := m.entries.lookup k

/-- A new key is appended. -/
theorem entries_assign (h : k ∉ m.keys) : (m.assign k v).entries = m.entries ++ [(k, v)] :=
  assignEntry_of_notMem h

/-- **Distinct keys are written down in order**, and nothing is overwritten. -/
theorem entries_assignAll {l : List (κ × α)} (h : (m.keys ++ l.map Prod.fst).Nodup) :
    (m.assignAll l).entries = m.entries ++ l := by
  induction l generalizing m with
  | nil => simp [assignAll]
  | cons entry l ih =>
    have hnew : entry.1 ∉ m.keys := by
      rw [List.nodup_append'] at h
      exact fun hmem => h.2.2 hmem List.mem_cons_self
    have hentries := entries_assign (v := entry.2) hnew
    have hkeys : (m.assign entry.1 entry.2).keys = m.keys ++ [entry.1] := by
      rw [keys, hentries, List.map_append]
      rfl
    have hrest : ((m.assign entry.1 entry.2).keys ++ l.map Prod.fst).Nodup := by
      rwa [hkeys, List.append_assoc]
    have hstep : m.assignAll (entry :: l) = (m.assign entry.1 entry.2).assignAll l := rfl
    rw [hstep, ih hrest, hentries, List.append_assoc]
    rfl

/-- An entry is found under its key. -/
theorem lookup_of_mem (h : (k, v) ∈ m.entries) : m.lookup k = some v := by
  obtain ⟨l, hnodup⟩ := m
  unfold lookup
  dsimp only at h hnodup ⊢
  induction l with
  | nil => cases h
  | cons entry l ih =>
    rw [List.map_cons, List.nodup_cons] at hnodup
    rcases List.mem_cons.mp h with rfl | h
    · exact List.lookup_cons_self
    · have hne : k ≠ entry.1 := fun heq => hnodup.1 (List.mem_map.mpr ⟨(k, v), h, heq⟩)
      rw [List.lookup_cons, beq_false_of_ne hne]
      exact ih hnodup.2 h

/-- A key without an entry has no value. -/
theorem lookup_of_notMem (h : k ∉ m.keys) : m.lookup k = none := by
  rw [lookup, List.lookup_eq_none_iff]
  intro entry hmem
  have hne : k ≠ entry.1 := fun heq => h (List.mem_map.mpr ⟨entry, hmem, heq.symm⟩)
  exact bne_iff_ne.mpr hne

end OrderedMap
