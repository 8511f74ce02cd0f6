import PlayerTrace.Json.Escape

/-!
# Values of `nlohmann::basic_json`

A value is an atom, an array or an object, and an object keeps the order of its members, as
`ordered_json` does. Binary and discarded values do not occur here. Signed and unsigned integers
are one kind: the library compares them by value, and which of the two an integer is read back as
depends on its sign alone.

What is said about values is said by folding them (`PlayerTrace.Json.Value.fold`), and proved with
the induction over what they contain (`PlayerTrace.Json.Value.induction`).
-/

namespace PlayerTrace

namespace Json

/-- A value without values in it. -/
inductive Atom
  | null
  | boolean (value : Bool)
  | integer (value : Int)
  | number (value : Double)
  | string (value : Text)
  deriving DecidableEq, Repr

/-- A value. -/
inductive Value
  | atom (value : Atom)
  | array (elements : List Value)
  | object (members : List (Text × Value))

namespace Value

/-! ### Induction -/

/-- **Induction over what a value contains.** -/
@[elab_as_elim, induction_eliminator]
theorem induction {P : Value → Prop} (atom : ∀ a, P (.atom a))
    (array : ∀ elements, (∀ v ∈ elements, P v) → P (.array elements))
    (object : ∀ members, (∀ m ∈ members, P m.2) → P (.object members)) (v : Value) : P v :=
  @Value.rec P (fun elements => ∀ v ∈ elements, P v) (fun members => ∀ m ∈ members, P m.2)
    (fun m => P m.2) atom array object (List.forall_mem_nil _)
    (fun _ _ hv hvs => List.forall_mem_cons.mpr ⟨hv, hvs⟩) (List.forall_mem_nil _)
    (fun _ _ hm hms => List.forall_mem_cons.mpr ⟨hm, hms⟩) (fun _ _ hv => hv) v

/-! ### Folding -/

section Fold

variable {α : Type} (atom : Atom → α) (array : List α → α) (object : List (Text × α) → α)

mutual

/-- A value, with its parts put together. -/
def fold : Value → α
  | .atom a => atom a
  | .array elements => array (foldElements elements)
  | .object members => object (foldMembers members)

def foldElements : List Value → List α
  | [] => []
  | v :: elements => fold v :: foldElements elements

def foldMembers : List (Text × Value) → List (Text × α)
  | [] => []
  | (key, v) :: members => (key, fold v) :: foldMembers members

end

theorem foldElements_eq (elements : List Value) :
    foldElements atom array object elements = elements.map (fold atom array object) := by
  induction elements with
  | nil => rfl
  | cons v elements ih => rw [foldElements, ih, List.map_cons]

theorem foldMembers_eq (members : List (Text × Value)) :
    foldMembers atom array object members =
      members.map fun m => (m.1, fold atom array object m.2) := by
  induction members with
  | nil => rfl
  | cons m members ih => rw [foldMembers, ih, List.map_cons]

theorem fold_array (elements : List Value) :
    fold atom array object (.array elements) =
      array (elements.map (fold atom array object)) := by
  rw [fold, foldElements_eq]

theorem fold_object (members : List (Text × Value)) :
    fold atom array object (.object members) =
      object (members.map fun m => (m.1, fold atom array object m.2)) := by
  rw [fold, foldMembers_eq]

end Fold

/-! ### What is in a value -/

/-- The atoms of a value, and its keys as texts. -/
def atoms : Value → List Atom :=
  fold (fun a => [a]) List.flatten fun members => members.flatMap fun m => .string m.1 :: m.2

theorem atoms_array (elements : List Value) :
    (Value.array elements).atoms = elements.flatMap atoms := by
  rw [atoms, fold_array, List.flatMap_def]

theorem atoms_object (members : List (Text × Value)) :
    (Value.object members).atoms = members.flatMap fun m => .string m.1 :: m.2.atoms := by
  rw [atoms, fold_object, List.flatMap_map]

/-- No object in the value has a key twice. -/
def Distinct : Value → Prop :=
  fold (fun _ => True) (fun elements => ∀ p ∈ elements, p) fun members =>
    (members.map Prod.fst).Nodup ∧ ∀ m ∈ members, m.2

theorem distinct_array {elements : List Value} :
    (Value.array elements).Distinct ↔ ∀ v ∈ elements, v.Distinct := by
  rw [Distinct, fold_array, List.forall_mem_map]

theorem distinct_object {members : List (Text × Value)} :
    (Value.object members).Distinct ↔
      (members.map Prod.fst).Nodup ∧ ∀ m ∈ members, m.2.Distinct := by
  rw [Distinct, fold_object, List.forall_mem_map, List.map_map]
  rfl

end Value

end Json

end PlayerTrace
