/-
AgentMesh/Fields.lean

How `encoding/json` stores an object in a struct with fields of type `string` and
`map[string]any`.

A member is stored in the field that its key names, and members are stored one
after the other.  So the last string wins, `null` leaves a string as it is and
empties a map, and an object is added to the map that the field already has.

The members of a map are kept in order (`JsonObject`), so two maps are equal if and
only if they have the same members.
-/
import AgentMesh.Decoder
import AgentMesh.Marshal

namespace Json

open Url (Bytes)

variable {ν : Type}

/-- Numbers as `strconv` reads and `encoding/json` writes them: a number that is written is read
as the same number. -/
structure NumberFormat (ν : Type) where
  format : ν → List Char
  number : Bytes → Option ν
  isNumber : ∀ x, IsNumber (utf8 (format x))
  number_format : ∀ x, number (utf8 (format x)) = some x

/-- A `map[string]any`. -/
@[ext]
structure JsonObject (ν : Type) where
  members : Tree ν .members
  canonical : members.Canonical
  deriving DecidableEq

/-! ### Maps -/

/-- The members of one map, and those of another that have other keys. -/
def Tree.mergeInto : {f : Form} → Tree ν f → Tree ν .members → Tree ν .members
  | _, .member key v rest, new => (rest.mergeInto new).insert key v
  | _, _, new => new

theorem Tree.Canonical.mergeInto {f : Form} {t : Tree ν f} (h : t.Canonical)
    {new : Tree ν .members} (hnew : new.Canonical) : (t.mergeInto new).Canonical := by
  induction t with
  | member key v rest _ ih => exact (ih h.2.1).insert key h.1
  | _ => exact hnew

theorem Tree.depth_insert_le {f : Form} (t : Tree ν f) (key : String) (v : Tree ν .value) :
    (t.insert key v).depth ≤ max v.depth t.depth := by
  induction t with
  | ended => exact le_of_eq rfl
  | member k w rest _ ih =>
      rw [Tree.insert]
      split
      · exact le_max_right _ _
      · split
        · exact le_of_eq rfl
        · rw [Tree.depth, Tree.depth]
          omega
  | _ => exact le_max_right _ _

theorem Tree.depth_mergeInto_le {f : Form} (t : Tree ν f) (new : Tree ν .members) :
    (t.mergeInto new).depth ≤ max t.depth new.depth := by
  induction t with
  | member key v rest _ ih =>
      refine (Tree.depth_insert_le _ key v).trans ?_
      rw [Tree.depth]
      omega
  | _ => exact le_max_right _ _

theorem Tree.depth_read_le {number : Bytes → Option ν} {f : Form} {t : Tree Bytes f}
    {v : Tree ν f} (h : t.read number = some v) : v.depth ≤ t.depth := by
  induction t with
  | null | bool | string | done | ended =>
      obtain rfl := Option.some.inj h
      exact Nat.le_refl _
  | number t =>
      obtain ⟨x, -, rfl⟩ := Option.map_eq_some_iff.mp h
      exact Nat.le_refl _
  | array items ih =>
      obtain ⟨items', hitems, rfl⟩ := Option.map_eq_some_iff.mp h
      exact Nat.succ_le_succ (ih hitems)
  | object members ih =>
      obtain ⟨members', hmembers, rfl⟩ := Option.map_eq_some_iff.mp h
      exact Nat.succ_le_succ (ih hmembers)
  | item v rest ihv ihrest =>
      obtain ⟨v', hv, h⟩ := Option.bind_eq_some_iff.mp h
      obtain ⟨rest', hrest, rfl⟩ := Option.map_eq_some_iff.mp h
      exact max_le_max (ihv hv) (ihrest hrest)
  | member key v rest ihv ihrest =>
      obtain ⟨v', hv, h⟩ := Option.bind_eq_some_iff.mp h
      obtain ⟨rest', hrest, rfl⟩ := Option.map_eq_some_iff.mp h
      exact (Tree.depth_insert_le _ key v').trans (max_le_max (ihv hv) (ihrest hrest))

def JsonObject.empty : JsonObject ν := ⟨.ended, trivial⟩

def JsonObject.merge (old new : JsonObject ν) : JsonObject ν :=
  ⟨old.members.mergeInto new.members, old.canonical.mergeInto new.canonical⟩

/-- The map that a text of an object stands for. -/
def JsonObject.read (number : Bytes → Option ν) (members : Tree Bytes .members) :
    Option (JsonObject ν) :=
  match h : members.read number with
  | none => none
  | some new => some ⟨new, Tree.canonical_of_read h⟩

theorem JsonObject.read_eq {number : Bytes → Option ν} {members : Tree Bytes .members}
    {o : JsonObject ν} (h : members.read number = some o.members) :
    JsonObject.read number members = some o := by
  rw [JsonObject.read]
  split
  · rename_i hnone
    rw [h] at hnone
    cases hnone
  · rename_i new hnew
    rw [h] at hnew
    exact congrArg some (JsonObject.ext (Option.some.inj hnew).symm)

theorem JsonObject.read_some {number : Bytes → Option ν} {members : Tree Bytes .members}
    {o : JsonObject ν} (h : JsonObject.read number members = some o) :
    members.read number = some o.members := by
  rw [JsonObject.read] at h
  split at h
  · cases h
  · obtain rfl := Option.some.inj h
    assumption

/-! ### Fields -/

section Fields

variable (fields : List (String × Shape)) (name : String)

/-- The key names this field. -/
def names (key : String) : Bool := (findField fields key).map Prod.fst = some name

def Tree.stringOr : {f : Form} → Tree Bytes f → String → String
  | _, .string s, _ => s
  | _, _, value => value

/-- What a field of type `string` holds after the members are stored. -/
def Tree.stringField : {f : Form} → Tree Bytes f → String → String
  | _, .member key v rest, value =>
      rest.stringField (if names fields name key then v.stringOr value else value)
  | _, _, value => value

/-- A value is stored in a map; `none` for an error. -/
def Tree.storeMap (number : Bytes → Option ν) : {f : Form} → Tree Bytes f →
    Option (JsonObject ν) → Option (Option (JsonObject ν))
  | _, .null, _ => some none
  | _, .object members, value =>
      (JsonObject.read number members).map fun new => some ((value.getD .empty).merge new)
  | _, _, _ => none

/-- A map that was written is stored as it was. -/
theorem Tree.storeMap_mapNumbers (numbers : NumberFormat ν) (o : JsonObject ν) :
    ((Tree.object o.members).mapNumbers fun x => utf8 (numbers.format x)).storeMap numbers.number none
      = some (some o) := by
  have hread := Tree.read_mapNumbers numbers.number_format o.canonical
  rw [Tree.mapNumbers, Tree.storeMap, JsonObject.read_eq hread]
  rfl

/-- What a field of type `map[string]any` holds after the members are stored. -/
def Tree.mapField (number : Bytes → Option ν) : {f : Form} → Tree Bytes f →
    Option (JsonObject ν) → Option (Option (JsonObject ν))
  | _, .member key v rest, value =>
      if names fields name key then
        (v.storeMap number value).bind fun value => rest.mapField number value
      else rest.mapField number value
  | _, _, value => some value

variable {fields name}

/-- How deep a map is nested. -/
def mapDepth (value : Option (JsonObject ν)) : Nat := (value.getD .empty).members.depth

theorem Tree.mapDepth_storeMap_le {number : Bytes → Option ν} {v : Tree Bytes .value}
    {value value' : Option (JsonObject ν)} (h : v.storeMap number value = some value') :
    mapDepth value' ≤ max (mapDepth value) v.depth := by
  cases v with
  | null =>
      obtain rfl := Option.some.inj h
      exact Nat.zero_le _
  | object members =>
      obtain ⟨new, hnew, rfl⟩ := Option.map_eq_some_iff.mp h
      have hdepth := Tree.depth_read_le (JsonObject.read_some hnew)
      refine (Tree.depth_mergeInto_le _ _).trans (max_le_max (Nat.le_refl _) ?_)
      rw [Tree.depth]
      exact hdepth.trans (Nat.le_succ _)
  | bool | number | string | array => cases h

/-- A map that is stored is nested no deeper than what it is read from. -/
theorem Tree.mapDepth_mapField_le {number : Bytes → Option ν} {f : Form} {t : Tree Bytes f}
    {value value' : Option (JsonObject ν)} (h : t.mapField fields name number value = some value') :
    mapDepth value' ≤ max (mapDepth value) t.depth := by
  induction t generalizing value with
  | member key v rest _ ih =>
      rw [Tree.mapField] at h
      rw [Tree.depth]
      split at h
      · obtain ⟨stored, hstored, h⟩ := Option.bind_eq_some_iff.mp h
        have hle := Tree.mapDepth_storeMap_le hstored
        have hrest := ih h
        omega
      · have hrest := ih h
        omega
  | _ =>
      obtain rfl := Option.some.inj h
      exact le_max_left _ _

end Fields

end Json
