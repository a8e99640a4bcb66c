/-
AgentMesh/Decoder.lean

`json.Decoder` with `DisallowUnknownFields`.

`decode` reads one value from the front of its input and checks it against the Go
type that it is stored in.  `null` fits every type.  A member of an object that is
stored in a struct must be one of its fields, up to the case of letters.  What a
value is in the destination is of no concern here.

`decode_ok_iff` and `decode_eof_iff` say what it accepts in terms of the grammar.
-/
import AgentMesh.Json

namespace Json

open Url (Bytes)

/-! ### Destinations -/

/-- The Go types that values are read into, with the names of struct fields; pointers are
left out. -/
inductive Shape
  | any
  | string
  | bool
  | int
  | slice (element : Shape)
  | map (element : Shape)
  | struct (fields : List (String × Shape))

/-- The least letter of those that differ from it in case only.  The two runes above U+007F are
the only ones with a letter of ASCII among these. -/
def foldRune (c : Char) : Char :=
  if 'a' ≤ c ∧ c ≤ 'z' then Char.ofNat (c.toNat - 32)
  else if c.toNat = 0x17F then 'S'
  else if c.toNat = 0x212A then 'K'
  else c

def foldName (name : String) : List Char := name.toList.map foldRune

def Shape.takesBool : Shape → Bool
  | .any | .bool => true
  | _ => false

def Shape.takesString : Shape → Bool
  | .any | .string => true
  | _ => false

/-- The type of the elements of an array. -/
def Shape.item : Shape → Option Shape
  | .any => some .any
  | .slice element => some element
  | _ => none

def Shape.isObject : Shape → Bool
  | .any | .map _ | .struct _ => true
  | _ => false

/-- The field with this name, or else one with the same letters. -/
def findField {α : Type} (fields : List (String × α)) (key : String) : Option (String × α) :=
  (fields.find? fun field => field.1 = key).or
    (fields.find? fun field => foldName field.1 = foldName key)

/-- The type of a member. -/
def Shape.field : Shape → String → Option Shape
  | .any, _ => some .any
  | .map element, _ => some element
  | .struct fields, key => (findField fields key).map Prod.snd
  | _, _ => none

/-- The value of a numeral that `strconv.ParseInt` accepts. -/
def intOf (t : Bytes) : Option Int :=
  let sign := scanSign [minus] t
  if sign.2.all isDigit then
    let n : Int := sign.2.foldl (fun n c => n * 10 + (c.toNat - 0x30)) 0
    some (if sign.1 = [] then n else -n)
  else none

section Fits

variable (inRange : Bytes → Bool)

/-- The numerals that a type takes; `inRange` says which ones are in the range of `float64`. -/
def Shape.takesNumber : Shape → Bytes → Bool
  | .any, t => inRange t
  | .int, t => (intOf t).any fun n => -0x8000000000000000 ≤ n && n < 0x8000000000000000
  | _, _ => false

/-- The value can be stored in the type.  What follows a value in an array is stored in the type
of its elements, what follows in an object in the type of the object. -/
def Tree.fits : {f : Form} → Tree Bytes f → Shape → Bool
  | _, .null, _ => true
  | _, .bool _, shape => shape.takesBool
  | _, .number t, shape => shape.takesNumber inRange t
  | _, .string _, shape => shape.takesString
  | _, .array items, shape => shape.item.any fun element => items.fits element
  | _, .object members, shape => shape.isObject && members.fits shape
  | _, .done, _ => true
  | _, .item v rest, element => v.fits element && rest.fits element
  | _, .ended, _ => true
  | _, .member key v rest, shape =>
      ((shape.field key).any fun element => v.fits element) && rest.fits shape

end Fits

/-- Every member that is stored in a struct is one of its fields. -/
def Tree.Known : {f : Form} → Tree Bytes f → Shape → Prop
  | _, .array items, shape => ∀ element, shape.item = some element → items.Known element
  | _, .object members, shape => shape.isObject = true → members.Known shape
  | _, .item v rest, element => v.Known element ∧ rest.Known element
  | _, .member key v rest, shape =>
      (∃ element, shape.field key = some element ∧ v.Known element) ∧ rest.Known shape
  | _, _, _ => True

theorem Tree.fits_known {inRange : Bytes → Bool} {f : Form} {v : Tree Bytes f} {shape : Shape}
    (h : v.fits inRange shape = true) : v.Known shape := by
  induction v generalizing shape with
  | array items ih =>
      intro element helement
      rw [Tree.fits, helement, Option.any_some] at h
      exact ih h
  | object members ih =>
      intro _
      rw [Tree.fits, Bool.and_eq_true] at h
      exact ih h.2
  | item v rest ihv ihrest =>
      rw [Tree.fits, Bool.and_eq_true] at h
      exact ⟨ihv h.1, ihrest h.2⟩
  | member key v rest ihv ihrest =>
      rw [Tree.fits, Bool.and_eq_true] at h
      obtain ⟨element, helement, hv⟩ := (Option.any_eq_true _ _).mp h.1
      exact ⟨⟨element, helement, ihv hv⟩, ihrest h.2⟩
  | null | bool | number | string | done | ended => trivial

/-! ### Reading one value -/

/-- `io.EOF`, and every other error. -/
inductive DecodeError
  | eof
  | other
  deriving DecidableEq, Repr

/-- `Decode`: the value, and what is left of the input. -/
def decode (inRange : Bytes → Bool) (shape : Shape) (t : Bytes) :
    Except DecodeError (Tree Bytes .value × Bytes) :=
  if skipSpace t = [] then .error .eof
  else
    match parse (t.length + 1) maxNestingDepth .value (skipSpace t) with
    | none => .error .other
    | some (v, r) => if v.fits inRange shape then .ok (v, r) else .error .other

section Decode

variable {inRange : Bytes → Bool} {shape : Shape} {t r : Bytes} {v : Tree Bytes .value}

theorem skipSpace_eq_nil_iff : skipSpace t = [] ↔ IsBlank t := List.dropWhile_eq_nil_iff

theorem decode_eof_iff : decode inRange shape t = .error .eof ↔ IsBlank t := by
  rw [← skipSpace_eq_nil_iff, decode]
  split
  · simpa
  · rename_i hne
    simp only [hne, iff_false]
    split
    · exact fun h => absurd (Except.error.inj h) (by decide)
    · split
      · exact fun h => by cases h
      · exact fun h => absurd (Except.error.inj h) (by decide)

/-- A value is spelled at the front of the input. -/
theorem decode_sound (h : decode inRange shape t = .ok (v, r)) :
    ∃ b s, t = b ++ (s ++ r) ∧ IsBlank b ∧ Spells v s ∧ v.depth ≤ maxNestingDepth ∧
      v.fits inRange shape = true := by
  rw [decode] at h
  split at h
  · cases h
  · split at h
    · cases h
    · rename_i hparse
      split at h
      · rename_i hfits
        obtain ⟨rfl, rfl⟩ := Prod.mk.inj (Except.ok.inj h)
        obtain ⟨s, hs, hspells, hdepth⟩ := parse_sound _ hparse
        obtain ⟨b, hb, ht⟩ := exists_skipSpace t
        exact ⟨b, s, by rw [← hs, ← ht], hb, hspells, hdepth, hfits⟩
      · cases h

/-- A value that is spelled is read, if what follows does not go on with a number. -/
theorem decode_complete {b s : Bytes} (hb : IsBlank b) (hs : Spells v s)
    (hdepth : v.depth ≤ maxNestingDepth) (hfits : v.fits inRange shape = true)
    (hr : Stops isNumberByte r) : decode inRange shape (b ++ (s ++ r)) = .ok (v, r) := by
  obtain ⟨c, s', hc, -⟩ := hs.head
  have hparse : parse ((b ++ (s ++ r)).length + 1) maxNestingDepth .value (s ++ r) = some (v, r) := by
    refine parse_complete _ hs ?_ hdepth hr
    simp only [List.length_append]
    omega
  rw [decode, skipSpace_append hb hs.stops_space, if_neg (by rw [hc]; simp), hparse]
  simp only [hfits, if_true]

end Decode

/-- A text that is one value, with white space around it. -/
def IsSole (v : Tree Bytes .value) (t : Bytes) : Prop :=
  ∃ b s b', t = b ++ (s ++ b') ∧ IsBlank b ∧ Spells v s ∧ IsBlank b'

theorem IsBlank.stops {b : Bytes} (h : IsBlank b) : Stops isNumberByte b := by
  have hstops := stops_blank_append h isNumberByte_of_isSpace Stops.nil
  rwa [List.append_nil] at hstops

end Json
