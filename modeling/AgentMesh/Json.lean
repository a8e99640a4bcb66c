/-
AgentMesh/Json.lean

JSON texts as Go's `encoding/json` reads them.

`Spells v t` is the grammar: the text `t`, without white space around it, stands
for the tree `v`.  White space is free between the tokens inside.  `parse` reads
one value from the front of a text, nested at most `depth` deep.  It reads what
the grammar allows (`parse_sound`) and all that it allows (`parse_complete`), as
long as what follows does not go on with a number.
-/
import AgentMesh.JsonLexer

namespace Json

open Url (Bytes)

/-! ### Trees and their texts -/

/-- The three sorts of trees: a value, and what follows a value in an array or in an object. -/
inductive Form
  | value
  | items
  | members
  deriving DecidableEq, Repr

/-- Values with numbers of a type `ν`. -/
inductive Tree (ν : Type) : Form → Type
  | null : Tree ν .value
  | bool (b : Bool) : Tree ν .value
  | number (x : ν) : Tree ν .value
  | string (s : String) : Tree ν .value
  | array (items : Tree ν .items) : Tree ν .value
  | object (members : Tree ν .members) : Tree ν .value
  | done : Tree ν .items
  | item (v : Tree ν .value) (rest : Tree ν .items) : Tree ν .items
  | ended : Tree ν .members
  | member (key : String) (v : Tree ν .value) (rest : Tree ν .members) : Tree ν .members
  deriving DecidableEq

/-- How deep arrays and objects are nested. -/
def Tree.depth {ν : Type} {f : Form} : Tree ν f → Nat
  | .null | .bool _ | .number _ | .string _ | .done | .ended => 0
  | .array items => items.depth + 1
  | .object members => members.depth + 1
  | .item v rest => max v.depth rest.depth
  | .member _ v rest => max v.depth rest.depth

def nullText : Bytes := [0x6E, 0x75, 0x6C, 0x6C]

def boolText : Bool → Bytes
  | true => [0x74, 0x72, 0x75, 0x65]
  | false => [0x66, 0x61, 0x6C, 0x73, 0x65]

/-- A string with its quotation marks. -/
inductive SpellsString : String → Bytes → Prop
  | intro {ps : List Piece} (valid : ∀ x ∈ ps, x.isValid = true) :
      SpellsString (unquote ps) (quote :: (ps.flatMap Piece.text ++ [quote]))

/-- A key, the colon, and the white space around it. -/
inductive SpellsKey : String → Bytes → Prop
  | intro {key : String} {t b b' : Bytes} (text : SpellsString key t) (before : IsBlank b)
      (after : IsBlank b') : SpellsKey key (t ++ (b ++ colon :: b'))

/-- The grammar.  What follows a value begins with a comma or ends the array or object. -/
inductive Spells : {f : Form} → Tree Bytes f → Bytes → Prop
  | null : Spells .null nullText
  | bool (b : Bool) : Spells (.bool b) (boolText b)
  | number {t : Bytes} (number : IsNumber t) : Spells (.number t) t
  | string {s : String} {t : Bytes} (text : SpellsString s t) : Spells (.string s) t
  | emptyArray {b : Bytes} (blank : IsBlank b) :
      Spells (.array .done) (openBracket :: (b ++ [closeBracket]))
  | array {v : Tree Bytes .value} {rest : Tree Bytes .items} {b t r : Bytes} (blank : IsBlank b)
      (first : Spells v t) (others : Spells rest r) :
      Spells (.array (.item v rest)) (openBracket :: (b ++ (t ++ r)))
  | emptyObject {b : Bytes} (blank : IsBlank b) :
      Spells (.object .ended) (openBrace :: (b ++ [closeBrace]))
  | object {key : String} {v : Tree Bytes .value} {rest : Tree Bytes .members} {b k t r : Bytes}
      (blank : IsBlank b) (name : SpellsKey key k) (first : Spells v t) (others : Spells rest r) :
      Spells (.object (.member key v rest)) (openBrace :: (b ++ (k ++ (t ++ r))))
  | done {b : Bytes} (blank : IsBlank b) : Spells .done (b ++ [closeBracket])
  | item {v : Tree Bytes .value} {rest : Tree Bytes .items} {b b' t r : Bytes} (before : IsBlank b)
      (after : IsBlank b') (next : Spells v t) (others : Spells rest r) :
      Spells (.item v rest) (b ++ comma :: (b' ++ (t ++ r)))
  | ended {b : Bytes} (blank : IsBlank b) : Spells .ended (b ++ [closeBrace])
  | member {key : String} {v : Tree Bytes .value} {rest : Tree Bytes .members}
      {b b' k t r : Bytes} (before : IsBlank b) (after : IsBlank b') (name : SpellsKey key k)
      (next : Spells v t) (others : Spells rest r) :
      Spells (.member key v rest) (b ++ comma :: (b' ++ (k ++ (t ++ r))))

/-! ### The parser -/

/-- Reads a tree from the front of a text, nested at most so deep. -/
abbrev Parser := Nat → (f : Form) → Bytes → Option (Tree Bytes f × Bytes)

/-- What a value begins with. -/
inductive Start
  | string
  | array
  | object
  | null
  | bool (b : Bool)
  | number
  deriving DecidableEq, Repr

def startOf (c : UInt8) : Start :=
  if c = quote then .string
  else if c = openBracket then .array
  else if c = openBrace then .object
  else if c = 0x6E then .null
  else if c = 0x74 then .bool true
  else if c = 0x66 then .bool false
  else .number

def scanWord (word t : Bytes) : Option Bytes :=
  if word.isPrefixOf t then some (t.drop word.length) else none

def scanKey : Bytes → Option (String × Bytes)
  | [] => none
  | c :: t =>
      if c = quote then
        (scanString t).bind fun x =>
          if (skipSpace x.2).head? = some colon then
            some (unquote x.1, skipSpace (skipSpace x.2).tail)
          else none
      else none

section Parser

variable (p : Parser)

/-- A value and what follows it in an array. -/
def parseItem (depth : Nat) (t : Bytes) : Option (Tree Bytes .items × Bytes) :=
  (p depth .value t).bind fun v => (p depth .items v.2).map fun rest => (.item v.1 rest.1, rest.2)

/-- A member and what follows it in an object. -/
def parseMember (depth : Nat) (t : Bytes) : Option (Tree Bytes .members × Bytes) :=
  (scanKey t).bind fun key =>
    (p depth .value key.2).bind fun v =>
      (p depth .members v.2).map fun rest => (.member key.1 v.1 rest.1, rest.2)

/-- Behind an opening bracket or brace. -/
def parseNested {f : Form} (close : UInt8) (empty : Tree Bytes f)
    (first : Bytes → Option (Tree Bytes f × Bytes)) (t : Bytes) :
    Option (Tree Bytes f × Bytes) :=
  if (skipSpace t).head? = some close then some (empty, (skipSpace t).tail)
  else first (skipSpace t)

/-- Behind a value: the end, or a comma and more. -/
def parseMore {f : Form} (close : UInt8) (empty : Tree Bytes f)
    (next : Bytes → Option (Tree Bytes f × Bytes)) (t : Bytes) :
    Option (Tree Bytes f × Bytes) :=
  if (skipSpace t).head? = some close then some (empty, (skipSpace t).tail)
  else if (skipSpace t).head? = some comma then next (skipSpace (skipSpace t).tail)
  else none

def parseValue (depth : Nat) : Bytes → Option (Tree Bytes .value × Bytes)
  | [] => none
  | c :: t =>
      match startOf c with
      | .string => (scanString t).map fun x => (.string (unquote x.1), x.2)
      | .null => (scanWord nullText (c :: t)).map fun r => (.null, r)
      | .bool b => (scanWord (boolText b) (c :: t)).map fun r => (.bool b, r)
      | .number => (scanNumber (c :: t)).map fun x => (.number x.1, x.2)
      | .array =>
          if depth = 0 then none
          else
            (parseNested closeBracket .done (parseItem p (depth - 1)) t).map fun x =>
              (.array x.1, x.2)
      | .object =>
          if depth = 0 then none
          else
            (parseNested closeBrace .ended (parseMember p (depth - 1)) t).map fun x =>
              (.object x.1, x.2)

def parseStep : Parser
  | depth, .value, t => parseValue p depth t
  | depth, .items, t => parseMore closeBracket .done (parseItem p depth) t
  | depth, .members, t => parseMore closeBrace .ended (parseMember p depth) t

end Parser

def parse : Nat → Parser
  | 0 => fun _ _ _ => none
  | fuel + 1 => parseStep (parse fuel)

/-- How deep `encoding/json` goes. -/
def maxNestingDepth : Nat := 10000

/-- The tree of a text that is one value, with white space around it. -/
def parseText (t : Bytes) : Option (Tree Bytes .value) :=
  (parse (t.length + 1) maxNestingDepth .value (skipSpace t)).bind fun x =>
    if skipSpace x.2 = [] then some x.1 else none

/-! ### What is read is spelled -/

section Sound

variable {p : Parser} {depth : Nat} {f : Form} {t r : Bytes}

/-- The parser reads what the grammar allows. -/
def Parser.Sound (p : Parser) : Prop :=
  ∀ {depth : Nat} {f : Form} {t r : Bytes} {v : Tree Bytes f}, p depth f t = some (v, r) →
    ∃ s, t = s ++ r ∧ Spells v s ∧ v.depth ≤ depth

theorem scanWord_sound {word : Bytes} (h : scanWord word t = some r) : t = word ++ r := by
  rw [scanWord] at h
  split at h
  · rename_i hword
    obtain rfl := Option.some.inj h
    obtain ⟨s, rfl⟩ := List.isPrefixOf_iff_prefix.mp hword
    rw [List.drop_left]
  · cases h

/-- A token behind white space. -/
theorem exists_blank_of_head? {c : UInt8} (h : (skipSpace t).head? = some c) :
    ∃ b, IsBlank b ∧ t = b ++ c :: (skipSpace t).tail := by
  obtain ⟨b, hb, ht⟩ := exists_skipSpace t
  exact ⟨b, hb, by rw [List.cons_head?_tail h, ← ht]⟩

theorem scanKey_sound {key : String} (h : scanKey t = some (key, r)) :
    ∃ k, t = k ++ r ∧ SpellsKey key k := by
  cases t with
  | nil => cases h
  | cons c t =>
      rw [scanKey] at h
      split at h
      · subst c
        obtain ⟨⟨ps, r₁⟩, hps, hkey⟩ := Option.bind_eq_some_iff.mp h
        obtain ⟨rfl, hvalid⟩ := scanString_sound hps
        split at hkey
        · rename_i hcolon
          obtain ⟨rfl, rfl⟩ := Prod.mk.inj (Option.some.inj hkey)
          obtain ⟨b, hb, hr₁⟩ := exists_blank_of_head? hcolon
          obtain ⟨b', hb', hrest⟩ := exists_skipSpace (skipSpace r₁).tail
          refine ⟨_, ?_, .intro (.intro hvalid) hb hb'⟩
          simp only [List.cons_append, List.append_assoc, List.nil_append]
          rw [← hrest, ← hr₁]
        · cases hkey
      · cases h

theorem parseItem_sound (hp : p.Sound) {items : Tree Bytes .items}
    (h : parseItem p depth t = some (items, r)) :
    ∃ v rest s s', items = .item v rest ∧ t = s ++ (s' ++ r) ∧ Spells v s ∧ Spells rest s' ∧
      items.depth ≤ depth := by
  obtain ⟨⟨v, t₁⟩, hv, h⟩ := Option.bind_eq_some_iff.mp h
  obtain ⟨⟨rest, t₂⟩, hrest, h⟩ := Option.map_eq_some_iff.mp h
  obtain ⟨rfl, rfl⟩ := Prod.mk.inj h
  obtain ⟨s, rfl, hs, hdepth⟩ := hp hv
  obtain ⟨s', rfl, hs', hdepth'⟩ := hp hrest
  exact ⟨v, rest, s, s', rfl, rfl, hs, hs', max_le hdepth hdepth'⟩

theorem parseMember_sound (hp : p.Sound) {members : Tree Bytes .members}
    (h : parseMember p depth t = some (members, r)) :
    ∃ key v rest k s s', members = .member key v rest ∧ t = k ++ (s ++ (s' ++ r)) ∧
      SpellsKey key k ∧ Spells v s ∧ Spells rest s' ∧ members.depth ≤ depth := by
  obtain ⟨⟨key, t₀⟩, hkey, h⟩ := Option.bind_eq_some_iff.mp h
  obtain ⟨⟨v, t₁⟩, hv, h⟩ := Option.bind_eq_some_iff.mp h
  obtain ⟨⟨rest, t₂⟩, hrest, h⟩ := Option.map_eq_some_iff.mp h
  obtain ⟨rfl, rfl⟩ := Prod.mk.inj h
  obtain ⟨k, rfl, hk⟩ := scanKey_sound hkey
  obtain ⟨s, rfl, hs, hdepth⟩ := hp hv
  obtain ⟨s', rfl, hs', hdepth'⟩ := hp hrest
  exact ⟨key, v, rest, k, s, s', rfl, rfl, hk, hs, hs', max_le hdepth hdepth'⟩

theorem parseNested_cases {close : UInt8} {empty x : Tree Bytes f}
    {first : Bytes → Option (Tree Bytes f × Bytes)}
    (h : parseNested close empty first t = some (x, r)) :
    ∃ b, IsBlank b ∧ ((x = empty ∧ t = b ++ close :: r) ∨
      ∃ t', t = b ++ t' ∧ first t' = some (x, r)) := by
  rw [parseNested] at h
  split at h
  · rename_i hclose
    obtain ⟨rfl, rfl⟩ := Prod.mk.inj (Option.some.inj h)
    obtain ⟨b, hb, ht⟩ := exists_blank_of_head? hclose
    exact ⟨b, hb, .inl ⟨rfl, ht⟩⟩
  · obtain ⟨b, hb, ht⟩ := exists_skipSpace t
    exact ⟨b, hb, .inr ⟨_, ht, h⟩⟩

theorem parseMore_cases {close : UInt8} {empty x : Tree Bytes f}
    {next : Bytes → Option (Tree Bytes f × Bytes)}
    (h : parseMore close empty next t = some (x, r)) :
    ∃ b, IsBlank b ∧ ((x = empty ∧ t = b ++ close :: r) ∨
      ∃ b' t', IsBlank b' ∧ t = b ++ comma :: (b' ++ t') ∧ next t' = some (x, r)) := by
  rw [parseMore] at h
  split at h
  · rename_i hclose
    obtain ⟨rfl, rfl⟩ := Prod.mk.inj (Option.some.inj h)
    obtain ⟨b, hb, ht⟩ := exists_blank_of_head? hclose
    exact ⟨b, hb, .inl ⟨rfl, ht⟩⟩
  · split at h
    · rename_i hcomma
      obtain ⟨b, hb, ht⟩ := exists_blank_of_head? hcomma
      obtain ⟨b', hb', ht'⟩ := exists_skipSpace (skipSpace t).tail
      exact ⟨b, hb, .inr ⟨b', _, hb', by rw [← ht', ← ht], h⟩⟩
    · cases h

theorem startOf_inj {c : UInt8} : (startOf c = .string → c = quote) ∧
    (startOf c = .array → c = openBracket) ∧ (startOf c = .object → c = openBrace) := by
  rw [startOf]
  refine ⟨?_, ?_, ?_⟩ <;> split_ifs <;> simp_all

theorem parseValue_sound (hp : p.Sound) {v : Tree Bytes .value}
    (h : parseValue p depth t = some (v, r)) :
    ∃ s, t = s ++ r ∧ Spells v s ∧ v.depth ≤ depth := by
  cases t with
  | nil => cases h
  | cons c t =>
      rw [parseValue] at h
      split at h
      case h_1 hstart =>
        obtain ⟨⟨ps, r'⟩, hps, heq⟩ := Option.map_eq_some_iff.mp h
        obtain ⟨rfl, rfl⟩ := Prod.mk.inj heq
        obtain ⟨rfl, hvalid⟩ := scanString_sound hps
        obtain rfl := startOf_inj.1 hstart
        refine ⟨_, ?_, .string (.intro hvalid), Nat.zero_le _⟩
        simp
      case h_2 hstart =>
        obtain ⟨r', hr', heq⟩ := Option.map_eq_some_iff.mp h
        obtain ⟨rfl, rfl⟩ := Prod.mk.inj heq
        exact ⟨_, scanWord_sound hr', .null, Nat.zero_le _⟩
      case h_3 b hstart =>
        obtain ⟨r', hr', heq⟩ := Option.map_eq_some_iff.mp h
        obtain ⟨rfl, rfl⟩ := Prod.mk.inj heq
        exact ⟨_, scanWord_sound hr', .bool _, Nat.zero_le _⟩
      case h_4 hstart =>
        obtain ⟨⟨x, r'⟩, hx, heq⟩ := Option.map_eq_some_iff.mp h
        obtain ⟨rfl, rfl⟩ := Prod.mk.inj heq
        obtain ⟨ht, hnumber⟩ := scanNumber_sound hx
        exact ⟨_, ht, .number hnumber, Nat.zero_le _⟩
      case h_5 hstart =>
        obtain rfl := startOf_inj.2.1 hstart
        split at h
        · cases h
        · obtain ⟨⟨items, r'⟩, hitems, heq⟩ := Option.map_eq_some_iff.mp h
          obtain ⟨rfl, rfl⟩ := Prod.mk.inj heq
          obtain ⟨b, hb, ⟨rfl, rfl⟩ | ⟨t', rfl, ht'⟩⟩ := parseNested_cases hitems
          · refine ⟨_, ?_, .emptyArray hb, ?_⟩
            · simp
            · rw [Tree.depth, Tree.depth]
              omega
          · obtain ⟨w, rest, s, s', rfl, rfl, hs, hs', hdepth⟩ := parseItem_sound hp ht'
            refine ⟨_, ?_, .array hb hs hs', ?_⟩
            · simp
            · show (Tree.item w rest).depth + 1 ≤ depth
              omega
      case h_6 hstart =>
        obtain rfl := startOf_inj.2.2 hstart
        split at h
        · cases h
        · obtain ⟨⟨members, r'⟩, hmembers, heq⟩ := Option.map_eq_some_iff.mp h
          obtain ⟨rfl, rfl⟩ := Prod.mk.inj heq
          obtain ⟨b, hb, ⟨rfl, rfl⟩ | ⟨t', rfl, ht'⟩⟩ := parseNested_cases hmembers
          · refine ⟨_, ?_, .emptyObject hb, ?_⟩
            · simp
            · rw [Tree.depth, Tree.depth]
              omega
          · obtain ⟨key, w, rest, k, s, s', rfl, rfl, hk, hs, hs', hdepth⟩ :=
              parseMember_sound hp ht'
            refine ⟨_, ?_, .object hb hk hs hs', ?_⟩
            · simp
            · show (Tree.member key w rest).depth + 1 ≤ depth
              omega

theorem Parser.Sound.step (hp : p.Sound) : (parseStep p).Sound := by
  intro depth f t r v h
  cases f with
  | value => exact parseValue_sound hp h
  | items =>
      obtain ⟨b, hb, ⟨rfl, rfl⟩ | ⟨b', t', hb', rfl, ht'⟩⟩ := parseMore_cases h
      · exact ⟨_, by simp, .done hb, Nat.zero_le _⟩
      · obtain ⟨w, rest, s, s', rfl, rfl, hs, hs', hdepth⟩ := parseItem_sound hp ht'
        exact ⟨_, by simp, .item hb hb' hs hs', hdepth⟩
  | members =>
      obtain ⟨b, hb, ⟨rfl, rfl⟩ | ⟨b', t', hb', rfl, ht'⟩⟩ := parseMore_cases h
      · exact ⟨_, by simp, .ended hb, Nat.zero_le _⟩
      · obtain ⟨key, w, rest, k, s, s', rfl, rfl, hk, hs, hs', hdepth⟩ := parseMember_sound hp ht'
        exact ⟨_, by simp, .member hb hb' hk hs hs', hdepth⟩

theorem parse_sound (fuel : Nat) : (parse fuel).Sound := by
  induction fuel with
  | zero =>
      intro depth f t r v h
      cases h
  | succ fuel ih => exact ih.step

end Sound

/-! ### What is spelled is read -/

section Complete

variable {p : Parser} {depth : Nat} {f : Form} {b b' k s t r : Bytes}

theorem stops_blank_append {q : UInt8 → Bool} (hb : IsBlank b)
    (hq : ∀ c, isSpace c = true → q c = false) (ht : Stops q t) : Stops q (b ++ t) := by
  cases b with
  | nil => exact ht
  | cons c b => exact stops_cons.mpr (hq c (hb c List.mem_cons_self))

theorem isNumberByte_of_isSpace (c : UInt8) (h : isSpace c = true) : isNumberByte c = false := by
  simp only [isSpace, Bool.or_eq_true, decide_eq_true_eq] at h
  rcases h with ((rfl | rfl) | rfl) | rfl <;> decide

/-- What follows a value does not go on with a number. -/
theorem Spells.stops_items {rest : Tree Bytes .items} (h : Spells rest s) :
    Stops isNumberByte (s ++ r) := by
  cases h with
  | done hb =>
      rw [List.append_assoc]
      exact stops_blank_append hb isNumberByte_of_isSpace (stops_cons.mpr (by decide))
  | item hb =>
      rw [List.append_assoc]
      exact stops_blank_append hb isNumberByte_of_isSpace (stops_cons.mpr (by decide))

theorem Spells.stops_members {rest : Tree Bytes .members} (h : Spells rest s) :
    Stops isNumberByte (s ++ r) := by
  cases h with
  | ended hb =>
      rw [List.append_assoc]
      exact stops_blank_append hb isNumberByte_of_isSpace (stops_cons.mpr (by decide))
  | member hb =>
      rw [List.append_assoc]
      exact stops_blank_append hb isNumberByte_of_isSpace (stops_cons.mpr (by decide))

theorem IsNumber.head (h : IsNumber t) : ∃ c t', t = c :: t' ∧ (c = minus ∨ isDigit c = true) := by
  obtain ⟨sign, whole, fraction, exponent, rfl, rfl | rfl, hwhole, -⟩ := h
  · rcases hwhole with rfl | ⟨d, ds, rfl, -, hd, -⟩
    · exact ⟨zero, _, rfl, .inr (by decide)⟩
    · exact ⟨d, _, rfl, .inr hd⟩
  · exact ⟨minus, _, rfl, .inl rfl⟩

/-- A value does not begin with white space or with a closing bracket. -/
theorem Spells.head {v : Tree Bytes .value} (h : Spells v s) :
    ∃ c s', s = c :: s' ∧ isSpace c = false ∧ c ≠ closeBracket := by
  cases h with
  | null => exact ⟨_, _, rfl, by decide, by decide⟩
  | bool b => cases b <;> exact ⟨_, _, rfl, by decide, by decide⟩
  | number hnumber =>
      obtain ⟨c, s', rfl, hc⟩ := hnumber.head
      refine ⟨c, s', rfl, ?_, ?_⟩
      · rcases hspace : isSpace c with - | -
        · rfl
        · have hnot := isNumberByte_of_isSpace c hspace
          rcases hc with rfl | hc
          · exact absurd hspace (by decide)
          · simp [isNumberByte, hc] at hnot
      · rintro rfl
        rcases hc with hc | hc <;> exact absurd hc (by decide)
  | string htext =>
      cases htext
      exact ⟨_, _, rfl, by decide, by decide⟩
  | emptyArray => exact ⟨_, _, rfl, by decide, by decide⟩
  | array => exact ⟨_, _, rfl, by decide, by decide⟩
  | emptyObject => exact ⟨_, _, rfl, by decide, by decide⟩
  | object => exact ⟨_, _, rfl, by decide, by decide⟩

theorem Spells.stops_space {v : Tree Bytes .value} (h : Spells v s) : Stops isSpace (s ++ r) := by
  obtain ⟨c, s', rfl, hc, -⟩ := h.head
  exact stops_cons.mpr hc

theorem SpellsKey.head {key : String} (h : SpellsKey key k) : ∃ k', k = quote :: k' := by
  obtain ⟨⟨hvalid⟩, -, -⟩ := h
  exact ⟨_, rfl⟩

theorem SpellsKey.stops_space {key : String} (h : SpellsKey key k) : Stops isSpace (k ++ r) := by
  obtain ⟨k', rfl⟩ := h.head
  exact stops_cons.mpr (by decide)

theorem scanWord_complete (word r : Bytes) : scanWord word (word ++ r) = some r := by
  rw [scanWord, if_pos (List.isPrefixOf_iff_prefix.mpr (List.prefix_append word r)), List.drop_left]

theorem scanKey_complete {key : String} (h : SpellsKey key k) (hr : Stops isSpace r) :
    scanKey (k ++ r) = some (key, r) := by
  obtain ⟨⟨hvalid⟩, hb, hb'⟩ := h
  rename_i b b' ps
  have hscan : scanString (ps.flatMap Piece.text ++ (quote :: (b ++ colon :: (b' ++ r))))
      = some (ps, b ++ colon :: (b' ++ r)) := scanString_complete hvalid _
  simp only [List.cons_append, List.append_assoc, List.nil_append]
  rw [scanKey, if_pos rfl, hscan, Option.bind_some, skipSpace_append hb (stops_cons.mpr (by decide)),
    List.head?_cons, if_pos rfl, List.tail_cons, skipSpace_append hb' hr]

theorem parseNested_empty {close : UInt8} {empty : Tree Bytes f}
    {first : Bytes → Option (Tree Bytes f × Bytes)} (hb : IsBlank b)
    (hclose : isSpace close = false) :
    parseNested close empty first (b ++ close :: r) = some (empty, r) := by
  rw [parseNested, skipSpace_append hb (stops_cons.mpr hclose), List.head?_cons, if_pos rfl,
    List.tail_cons]

theorem parseNested_first {close : UInt8} {empty : Tree Bytes f}
    {first : Bytes → Option (Tree Bytes f × Bytes)} (hb : IsBlank b) (ht : Stops isSpace t)
    (hclose : t.head? ≠ some close) :
    parseNested close empty first (b ++ t) = first t := by
  rw [parseNested, skipSpace_append hb ht, if_neg hclose]

theorem parseMore_empty {close : UInt8} {empty : Tree Bytes f}
    {next : Bytes → Option (Tree Bytes f × Bytes)} (hb : IsBlank b)
    (hclose : isSpace close = false) :
    parseMore close empty next (b ++ close :: r) = some (empty, r) := by
  rw [parseMore, skipSpace_append hb (stops_cons.mpr hclose), List.head?_cons, if_pos rfl,
    List.tail_cons]

theorem parseMore_next {close : UInt8} {empty : Tree Bytes f}
    {next : Bytes → Option (Tree Bytes f × Bytes)} (hb : IsBlank b) (hb' : IsBlank b')
    (ht : Stops isSpace t) (hclose : comma ≠ close) :
    parseMore close empty next (b ++ comma :: (b' ++ t)) = next t := by
  rw [parseMore, skipSpace_append hb (stops_cons.mpr (by decide)), List.head?_cons,
    if_neg fun h => hclose (Option.some.inj h), if_pos rfl, List.tail_cons, skipSpace_append hb' ht]

/-- The parser reads every text of less than `n` bytes that the grammar allows. -/
def Parser.Complete (p : Parser) (n : Nat) : Prop :=
  ∀ {depth : Nat} {f : Form} {s r : Bytes} {v : Tree Bytes f}, Spells v s → s.length < n →
    v.depth ≤ depth → Stops isNumberByte r → p depth f (s ++ r) = some (v, r)

theorem parseItem_complete {n : Nat} (hp : p.Complete n) {v : Tree Bytes .value}
    {rest : Tree Bytes .items} (hv : Spells v s) (hrest : Spells rest t)
    (hlength : s.length + t.length < n) (hdepth : (Tree.item v rest).depth ≤ depth)
    (hr : Stops isNumberByte r) : parseItem p depth (s ++ (t ++ r)) = some (.item v rest, r) := by
  rw [Tree.depth] at hdepth
  rw [parseItem, hp hv (by omega) (by omega) hrest.stops_items, Option.bind_some,
    hp hrest (by omega) (by omega) hr, Option.map_some]

theorem parseMember_complete {n : Nat} (hp : p.Complete n) {key : String}
    {v : Tree Bytes .value} {rest : Tree Bytes .members} (hkey : SpellsKey key k) (hv : Spells v s)
    (hrest : Spells rest t) (hlength : s.length + t.length < n)
    (hdepth : (Tree.member key v rest).depth ≤ depth) (hr : Stops isNumberByte r) :
    parseMember p depth (k ++ (s ++ (t ++ r))) = some (.member key v rest, r) := by
  rw [Tree.depth] at hdepth
  rw [parseMember, scanKey_complete hkey hv.stops_space, Option.bind_some,
    hp hv (by omega) (by omega) hrest.stops_members, Option.bind_some,
    hp hrest (by omega) (by omega) hr, Option.map_some]

theorem startOf_number {c : UInt8} (h : c = minus ∨ isDigit c = true) : startOf c = .number := by
  rw [startOf]
  split_ifs with h₁ h₂ h₃ h₄ h₅ h₆
  all_goals first
    | rfl
    | subst c; rcases h with h | h <;> exact absurd h (by decide)

theorem Parser.Complete.step {n : Nat} (hp : p.Complete n) : (parseStep p).Complete (n + 1) := by
  intro depth f s r v h hlength hdepth hr
  cases h with
  | null =>
      show (scanWord nullText (nullText ++ r)).map _ = _
      rw [scanWord_complete]
      rfl
  | bool b =>
      have hvalue : parseStep p depth .value (boolText b ++ r)
          = (scanWord (boolText b) (boolText b ++ r)).map fun r => (.bool b, r) := by
        cases b <;> rfl
      rw [hvalue, scanWord_complete]
      rfl
  | number hnumber =>
      obtain ⟨c, s', hs, hc⟩ := hnumber.head
      have hscan := scanNumber_complete hnumber hr
      rw [hs, List.cons_append] at hscan ⊢
      show parseValue p depth (c :: (s' ++ r)) = _
      rw [parseValue, startOf_number hc]
      simp only [hscan, Option.map_some]
  | string htext =>
      obtain ⟨hvalid⟩ := htext
      rename_i ps
      show (scanString ((ps.flatMap Piece.text ++ [quote]) ++ r)).map _ = _
      rw [List.append_assoc, List.singleton_append, scanString_complete hvalid]
      rfl
  | emptyArray hb =>
      rename_i b
      show (if depth = 0 then none else (parseNested closeBracket .done (parseItem p (depth - 1))
        ((b ++ [closeBracket]) ++ r)).map _) = _
      rw [Tree.depth, Tree.depth] at hdepth
      rw [if_neg (by omega), List.append_assoc, List.singleton_append,
        parseNested_empty hb (by decide)]
      rfl
  | array hb hfirst hothers =>
      rename_i v rest b s t
      show (if depth = 0 then none else (parseNested closeBracket .done (parseItem p (depth - 1))
        ((b ++ (s ++ t)) ++ r)).map _) = _
      rw [Tree.depth] at hdepth
      simp only [List.length_cons, List.length_append] at hlength
      obtain ⟨c, s', hs, -, hc⟩ := hfirst.head
      have hclose : (s ++ (t ++ r)).head? ≠ some closeBracket := by
        rw [hs]
        exact fun h => hc (Option.some.inj h)
      rw [if_neg (by omega), List.append_assoc, List.append_assoc,
        parseNested_first hb hfirst.stops_space hclose,
        parseItem_complete hp hfirst hothers (by omega) (by omega) hr]
      rfl
  | emptyObject hb =>
      rename_i b
      show (if depth = 0 then none else (parseNested closeBrace .ended (parseMember p (depth - 1))
        ((b ++ [closeBrace]) ++ r)).map _) = _
      rw [Tree.depth, Tree.depth] at hdepth
      rw [if_neg (by omega), List.append_assoc, List.singleton_append,
        parseNested_empty hb (by decide)]
      rfl
  | object hb hname hfirst hothers =>
      rename_i key v rest b k s t
      show (if depth = 0 then none else (parseNested closeBrace .ended (parseMember p (depth - 1))
        ((b ++ (k ++ (s ++ t))) ++ r)).map _) = _
      rw [Tree.depth] at hdepth
      simp only [List.length_cons, List.length_append] at hlength
      obtain ⟨k', hk⟩ := hname.head
      have hclose : (k ++ (s ++ (t ++ r))).head? ≠ some closeBrace := by
        rw [hk]
        exact fun h => absurd (Option.some.inj h) (by decide)
      rw [if_neg (by omega), List.append_assoc, List.append_assoc, List.append_assoc,
        parseNested_first hb hname.stops_space hclose,
        parseMember_complete hp hname hfirst hothers (by omega) (by omega) hr]
      rfl
  | done hb =>
      rw [List.append_assoc]
      exact parseMore_empty hb (by decide)
  | item hb hb' hnext hothers =>
      rename_i v rest b b' s t
      simp only [List.length_append, List.length_cons] at hlength
      have hnext' := parseItem_complete hp hnext hothers (by omega) hdepth hr
      rw [show b ++ comma :: (b' ++ (s ++ t)) ++ r = b ++ comma :: (b' ++ (s ++ (t ++ r))) by simp]
      exact (parseMore_next hb hb' hnext.stops_space (by decide)).trans hnext'
  | ended hb =>
      rw [List.append_assoc]
      exact parseMore_empty hb (by decide)
  | member hb hb' hname hnext hothers =>
      rename_i key v rest b b' k s t
      simp only [List.length_append, List.length_cons] at hlength
      have hnext' := parseMember_complete hp hname hnext hothers (by omega) hdepth hr
      rw [show b ++ comma :: (b' ++ (k ++ (s ++ t))) ++ r
        = b ++ comma :: (b' ++ (k ++ (s ++ (t ++ r)))) by simp]
      exact (parseMore_next hb hb' hname.stops_space (by decide)).trans hnext'

/-- As much fuel as the text has bytes is enough. -/
theorem parse_complete (fuel : Nat) : (parse fuel).Complete fuel := by
  induction fuel with
  | zero => exact fun _ hlength => absurd hlength (Nat.not_lt_zero _)
  | succ fuel ih => exact ih.step

/-- A text has one reading. -/
theorem Spells.unique {v v' : Tree Bytes f} {s' r' : Bytes} (h : Spells v s) (h' : Spells v' s')
    (heq : s ++ r = s' ++ r') (hr : Stops isNumberByte r) (hr' : Stops isNumberByte r') :
    v = v' ∧ r = r' := by
  have hread := parse_complete (max s.length s'.length + 1) h (by omega) (le_max_left _ v'.depth) hr
  have hread' := parse_complete (max s.length s'.length + 1) h' (by omega) (le_max_right v.depth _) hr'
  rw [heq, hread'] at hread
  obtain ⟨hv, hrest⟩ := Prod.mk.inj (Option.some.inj hread)
  exact ⟨hv.symm, hrest.symm⟩

theorem isBlank_nil : IsBlank [] := fun _ h => absurd h List.not_mem_nil

theorem parseText_spells {v : Tree Bytes .value} (h : Spells v s)
    (hdepth : v.depth ≤ maxNestingDepth) : parseText s = some v := by
  have hparse := parse_complete (s.length + 1) h (Nat.lt_succ_self _) hdepth Stops.nil
  have hstart : skipSpace s = s := by
    have hskip := skipSpace_append isBlank_nil (h.stops_space (r := []))
    rwa [List.nil_append, List.append_nil] at hskip
  rw [List.append_nil] at hparse
  rw [parseText, hstart, hparse, Option.bind_some]
  exact if_pos rfl

end Complete

end Json
