/-
AgentMesh/Marshal.lean

`json.Marshal` on decoded values, and reading what it writes.

A decoded value is a `Tree` with numbers of a type `ν`.  An object is a Go map:
`Tree.read` keeps the last of several members with one key and puts the keys in
order, as `marshal` writes them.  So the trees that it returns are `Canonical`,
and equal as maps if and only if they are equal.

A value that is written can be parsed (`parseText_marshal`), and a canonical value
is what is read from it (`Tree.read_mapNumbers`), if this is so for numbers.
-/
import AgentMesh.Text
import AgentMesh.Json

namespace Json

open AgentMesh (jsonRune jsonString hexDigit unicodeEscape)
open Url (Bytes encode)

/-! ### Strings -/

/-- How `marshal` spells one character. -/
def runePieces (c : Char) : List Piece :=
  let n := c.toNat
  if c = AgentMesh.quote ∨ c = AgentMesh.backslash then [.short (UInt8.ofNat n)]
  else if n = 0x08 then [.short 0x62]
  else if n = 0x0C then [.short 0x66]
  else if n = 0x0A then [.short 0x6E]
  else if n = 0x0D then [.short 0x72]
  else if n = 0x09 then [.short 0x74]
  else if n < 0x20 ∨ c = '<' ∨ c = '>' ∨ c = '&' ∨ n = 0x2028 ∨ n = 0x2029 then
    [.unicode (UInt8.ofNat (hexDigit (n / 4096 % 16)).toNat) (UInt8.ofNat (hexDigit (n / 256 % 16)).toNat)
      (UInt8.ofNat (hexDigit (n / 16 % 16)).toNat) (UInt8.ofNat (hexDigit (n % 16)).toNat)]
  else (String.utf8EncodeChar c).map .raw

/-- What holds of the pieces of one character. -/
structure SpellsRune (c : Char) (text : List Char) (ps : List Piece) : Prop where
  text : text.flatMap String.utf8EncodeChar = ps.flatMap Piece.text
  valid : ∀ x ∈ ps, x.isValid = true
  bytes : ∀ rest, unescapeFrom none (ps ++ rest) = String.utf8EncodeChar c ++ unescapeFrom none rest

theorem unescapeFrom_raw (bytes : Bytes) (rest : List Piece) :
    unescapeFrom none (bytes.map .raw ++ rest) = bytes ++ unescapeFrom none rest := by
  induction bytes with
  | nil => rfl
  | cons c bytes ih =>
      rw [List.map_cons, List.cons_append, unescapeFrom, ih]
      rfl

theorem flatMap_raw (bytes : Bytes) : (bytes.map Piece.raw).flatMap Piece.text = bytes := by
  induction bytes with
  | nil => rfl
  | cons c bytes ih => rw [List.map_cons, List.flatMap_cons, ih]; rfl

theorem Piece.isValid_raw_of_toNat {b : UInt8} (hcontrol : 0x20 ≤ b.toNat)
    (hquote : b.toNat ≠ 0x22) (hslash : b.toNat ≠ 0x5C) : (Piece.raw b).isValid = true := by
  simp only [Piece.isValid, Bool.and_eq_true, decide_eq_true_eq]
  refine ⟨⟨UInt8.le_iff_toNat_le.mpr hcontrol, ?_⟩, ?_⟩
  · rintro rfl
    exact hquote rfl
  · rintro rfl
    exact hslash rfl

/-- A character that needs no escape has no byte that needs one. -/
theorem isValid_raw {c : Char} (hquote : c ≠ AgentMesh.quote) (hslash : c ≠ AgentMesh.backslash)
    (hcontrol : 0x20 ≤ c.toNat) {b : UInt8} (hb : b ∈ String.utf8EncodeChar c) :
    (Piece.raw b).isValid = true := by
  have hne : ∀ n, c ≠ Char.ofNat n → c.toNat ≠ n := by
    rintro n hc rfl
    exact hc (Char.ofNat_toNat c).symm
  have hmany : ∀ n, 0x80 ≤ n → n < 0x100 → (Piece.raw (UInt8.ofNat n)).isValid = true := by
    intro n hlow hhigh
    have htoNat : (UInt8.ofNat n).toNat = n := UInt8.toNat_ofNat_of_lt' hhigh
    exact Piece.isValid_raw_of_toNat (by omega) (by omega) (by omega)
  rw [String.utf8EncodeChar] at hb
  split at hb
  · have hascii : c.toNat < 0x100 := by
      show c.val.toNat < 0x100
      omega
    rw [List.mem_singleton.mp hb]
    have htoNat : (UInt8.ofNat c.toNat).toNat = c.toNat := UInt8.toNat_ofNat_of_lt' hascii
    refine Piece.isValid_raw_of_toNat ?_ ?_ ?_
    · exact htoNat ▸ hcontrol
    · exact htoNat ▸ hne _ hquote
    · exact htoNat ▸ hne _ hslash
  · -- all bytes of a longer character have their first bit set
    split at hb
    · simp only [List.mem_cons, List.not_mem_nil, or_false] at hb
      rcases hb with rfl | rfl <;> exact hmany _ (by omega) (by omega)
    · split at hb
      · simp only [List.mem_cons, List.not_mem_nil, or_false] at hb
        rcases hb with rfl | rfl | rfl <;> exact hmany _ (by omega) (by omega)
      · simp only [List.mem_cons, List.not_mem_nil, or_false] at hb
        rcases hb with rfl | rfl | rfl | rfl <;> exact hmany _ (by omega) (by omega)

theorem SpellsRune.raw {c : Char} (hquote : c ≠ AgentMesh.quote)
    (hslash : c ≠ AgentMesh.backslash) (hcontrol : 0x20 ≤ c.toNat) :
    SpellsRune c [c] ((String.utf8EncodeChar c).map .raw) := by
  refine ⟨?_, ?_, unescapeFrom_raw _⟩
  · rw [flatMap_raw, List.flatMap_cons, List.flatMap_nil, List.append_nil]
  · rw [List.forall_mem_map]
    exact fun b => isValid_raw hquote hslash hcontrol

/-- A character that is written with a backslash and one of ASCII. -/
theorem SpellsRune.short {c e : Char} (hvalid : (Piece.short (UInt8.ofNat e.toNat)).isValid = true)
    (hascii : String.utf8EncodeChar e = [UInt8.ofNat e.toNat])
    (hbyte : String.utf8EncodeChar c
      = [(shortEscape (UInt8.ofNat e.toNat)).getD (UInt8.ofNat e.toNat)]) :
    SpellsRune c [AgentMesh.backslash, e] [.short (UInt8.ofNat e.toNat)] := by
  refine ⟨?_, ?_, ?_⟩
  · rw [List.flatMap_cons, List.flatMap_cons, hascii]
    rfl
  · simpa using hvalid
  · intro rest
    rw [hbyte]
    rfl

theorem hexDigit_spec {k : Nat} (hk : k < 16) :
    String.utf8EncodeChar (hexDigit k) = [UInt8.ofNat (hexDigit k).toNat] ∧
      unhex (UInt8.ofNat (hexDigit k).toNat) = some k := by
  have hall : ∀ k < 16, String.utf8EncodeChar (hexDigit k) = [UInt8.ofNat (hexDigit k).toNat] ∧
      unhex (UInt8.ofNat (hexDigit k).toNat) = some k := by decide
  exact hall k hk

theorem SpellsRune.unicode {c : Char} (hc : c.toNat < 0xD800) :
    SpellsRune c (unicodeEscape c.toNat)
      [.unicode (UInt8.ofNat (hexDigit (c.toNat / 4096 % 16)).toNat)
        (UInt8.ofNat (hexDigit (c.toNat / 256 % 16)).toNat)
        (UInt8.ofNat (hexDigit (c.toNat / 16 % 16)).toNat)
        (UInt8.ofNat (hexDigit (c.toNat % 16)).toNat)] := by
  obtain ⟨h₁, h₁'⟩ := hexDigit_spec (Nat.mod_lt (c.toNat / 4096) (by decide : 0 < 16))
  obtain ⟨h₂, h₂'⟩ := hexDigit_spec (Nat.mod_lt (c.toNat / 256) (by decide : 0 < 16))
  obtain ⟨h₃, h₃'⟩ := hexDigit_spec (Nat.mod_lt (c.toNat / 16) (by decide : 0 < 16))
  obtain ⟨h₄, h₄'⟩ := hexDigit_spec (Nat.mod_lt c.toNat (by decide : 0 < 16))
  refine ⟨?_, ?_, ?_⟩
  · simp only [unicodeEscape, List.flatMap_cons, List.flatMap_nil, h₁, h₂, h₃, h₄, Piece.text]
    rfl
  · simp [Piece.isValid, h₁', h₂', h₃', h₄']
  · intro rest
    have hunit : codeUnit (UInt8.ofNat (hexDigit (c.toNat / 4096 % 16)).toNat)
        (UInt8.ofNat (hexDigit (c.toNat / 256 % 16)).toNat)
        (UInt8.ofNat (hexDigit (c.toNat / 16 % 16)).toNat)
        (UInt8.ofNat (hexDigit (c.toNat % 16)).toNat) = c.toNat := by
      simp only [codeUnit, List.foldl_cons, List.foldl_nil, h₁', h₂', h₃', h₄', Option.getD_some]
      omega
    have hhigh : isHighSurrogate c.toNat = false := by
      simp [isHighSurrogate]
      omega
    have hlow : isLowSurrogate c.toNat = false := by
      simp [isLowSurrogate]
      omega
    rw [List.singleton_append, unescapeFrom]
    simp only [hunit, hhigh, hlow, unitChar, Option.filter_none, flush, Bool.or_self,
      Bool.false_eq_true, if_false, Char.ofNat_toNat, List.nil_append]

theorem spellsRune (c : Char) : SpellsRune c (jsonRune c) (runePieces c) := by
  have hof : ∀ {n}, c.toNat = n → c = Char.ofNat n := fun h => h ▸ (Char.ofNat_toNat c).symm
  rw [jsonRune, runePieces]
  split
  · rename_i h
    rcases h with rfl | rfl
    · exact .short (by decide) (by decide) (by decide)
    · exact .short (by decide) (by decide) (by decide)
  split
  · obtain rfl := hof ‹_›
    exact SpellsRune.short (e := 'b') (by decide) (by decide) (by decide)
  split
  · obtain rfl := hof ‹_›
    exact SpellsRune.short (e := 'f') (by decide) (by decide) (by decide)
  split
  · obtain rfl := hof ‹_›
    exact SpellsRune.short (e := 'n') (by decide) (by decide) (by decide)
  split
  · obtain rfl := hof ‹_›
    exact SpellsRune.short (e := 'r') (by decide) (by decide) (by decide)
  split
  · obtain rfl := hof ‹_›
    exact SpellsRune.short (e := 't') (by decide) (by decide) (by decide)
  split
  · rename_i h
    refine .unicode ?_
    rcases h with h | rfl | rfl | rfl | h | h
    · omega
    · decide
    · decide
    · decide
    · omega
    · omega
  · rename_i hquote _ _ _ _ _ h
    rw [not_or] at hquote
    exact .raw hquote.1 hquote.2 (by omega)

theorem unescapeFrom_runePieces (cs : List Char) :
    unescapeFrom none (cs.flatMap runePieces) = cs.flatMap String.utf8EncodeChar := by
  induction cs with
  | nil => rfl
  | cons c cs ih => rw [List.flatMap_cons, (spellsRune c).bytes, ih, List.flatMap_cons]

/-- What is written for a string is read as this string. -/
theorem spellsString_jsonString (s : String) :
    SpellsString s ((jsonString s).flatMap String.utf8EncodeChar) := by
  have hvalid : ∀ x ∈ s.toList.flatMap runePieces, x.isValid = true := by
    intro x hx
    obtain ⟨c, -, hx⟩ := List.mem_flatMap.mp hx
    exact (spellsRune c).valid x hx
  have htext : (jsonString s).flatMap String.utf8EncodeChar
      = quote :: ((s.toList.flatMap runePieces).flatMap Piece.text ++ [quote]) := by
    rw [jsonString, List.cons_append, List.flatMap_cons, List.flatMap_append, List.flatMap_assoc,
      List.flatMap_assoc]
    simp only [(spellsRune _).text]
    rfl
  have hquoted : unquote (s.toList.flatMap runePieces) = s := by
    rw [unquote, unescapeFrom_runePieces]
    exact Url.decode_encode s
  have hspells := SpellsString.intro hvalid
  rwa [hquoted, ← htext] at hspells

/-! ### Decoded values -/

section Values

variable {ν μ : Type}

/-- The keys of an object. -/
def Tree.keys : {f : Form} → Tree ν f → List String
  | _, .member key _ rest => key :: rest.keys
  | _, _ => []

/-- The keys of every object are in order, and none is there twice. -/
def Tree.Canonical : {f : Form} → Tree ν f → Prop
  | _, .array items => items.Canonical
  | _, .object members => members.Canonical
  | _, .item v rest => v.Canonical ∧ rest.Canonical
  | _, .member key v rest => v.Canonical ∧ rest.Canonical ∧ ∀ k ∈ rest.keys, key < k
  | _, _ => True

/-- Adds a member to a map that is in order, unless its key is there. -/
def Tree.insert : {f : Form} → Tree ν f → String → Tree ν .value → Tree ν f
  | _, .ended, key, v => .member key v .ended
  | _, .member k w rest, key, v =>
      if key = k then .member k w rest
      else if key < k then .member key v (.member k w rest)
      else .member k w (rest.insert key v)
  | _, t, _, _ => t

/-- The decoded value; later members of an object come first to their key. -/
def Tree.read (number : Bytes → Option ν) : {f : Form} → Tree Bytes f → Option (Tree ν f)
  | _, .null => some .null
  | _, .bool b => some (.bool b)
  | _, .number t => (number t).map .number
  | _, .string s => some (.string s)
  | _, .array items => (items.read number).map .array
  | _, .object members => (members.read number).map .object
  | _, .done => some .done
  | _, .item v rest => (v.read number).bind fun v => (rest.read number).map fun rest => .item v rest
  | _, .ended => some .ended
  | _, .member key v rest =>
      (v.read number).bind fun v => (rest.read number).map fun rest => rest.insert key v

/-- The tree with its numbers written out. -/
def Tree.mapNumbers (g : ν → μ) : {f : Form} → Tree ν f → Tree μ f
  | _, .null => .null
  | _, .bool b => .bool b
  | _, .number x => .number (g x)
  | _, .string s => .string s
  | _, .array items => .array (items.mapNumbers g)
  | _, .object members => .object (members.mapNumbers g)
  | _, .done => .done
  | _, .item v rest => .item (v.mapNumbers g) (rest.mapNumbers g)
  | _, .ended => .ended
  | _, .member key v rest => .member key (v.mapNumbers g) (rest.mapNumbers g)

theorem Tree.mem_keys_insert {f : Form} {t : Tree ν f} {key k : String} {v : Tree ν .value}
    (h : k ∈ (t.insert key v).keys) : k = key ∨ k ∈ t.keys := by
  induction t with
  | ended => exact .inl (List.mem_singleton.mp h)
  | member k' w rest _ ih =>
      rw [Tree.insert] at h
      split at h
      · exact .inr h
      · split at h
        · exact List.mem_cons.mp h
        · rcases List.mem_cons.mp h with rfl | h
          · exact .inr List.mem_cons_self
          · exact (ih h).imp_right (List.mem_cons_of_mem _)
  | null | bool | number | string | array | object | done | item => exact .inr h

theorem Tree.Canonical.insert {f : Form} {t : Tree ν f} (h : t.Canonical) (key : String)
    {v : Tree ν .value} (hv : v.Canonical) : (t.insert key v).Canonical := by
  induction t with
  | ended => exact ⟨hv, trivial, fun _ h => absurd h List.not_mem_nil⟩
  | member k w rest _ ih =>
      obtain ⟨hw, hrest, hkeys⟩ := h
      rw [Tree.insert]
      split
      · exact ⟨hw, hrest, hkeys⟩
      · split
        · rename_i hlt
          refine ⟨hv, ⟨hw, hrest, hkeys⟩, ?_⟩
          intro k' hk'
          rcases List.mem_cons.mp hk' with rfl | hk'
          · exact hlt
          · exact hlt.trans (hkeys k' hk')
        · rename_i hne hnlt
          refine ⟨hw, ih hrest, ?_⟩
          intro k' hk'
          rcases Tree.mem_keys_insert hk' with rfl | hk'
          · exact lt_of_le_of_ne (not_lt.mp hnlt) (Ne.symm hne)
          · exact hkeys k' hk'
  | null | bool | number | string | array | object | done | item => exact h

/-- What is decoded is in order. -/
theorem Tree.canonical_of_read {number : Bytes → Option ν} {f : Form} {t : Tree Bytes f}
    {v : Tree ν f} (h : t.read number = some v) : v.Canonical := by
  induction t with
  | null | bool | string | done | ended =>
      obtain rfl := Option.some.inj h
      trivial
  | number t =>
      obtain ⟨x, -, rfl⟩ := Option.map_eq_some_iff.mp h
      trivial
  | array items ih =>
      obtain ⟨items', hitems, rfl⟩ := Option.map_eq_some_iff.mp h
      exact ih hitems
  | object members ih =>
      obtain ⟨members', hmembers, rfl⟩ := Option.map_eq_some_iff.mp h
      exact ih hmembers
  | item v rest ihv ihrest =>
      obtain ⟨v', hv, h⟩ := Option.bind_eq_some_iff.mp h
      obtain ⟨rest', hrest, rfl⟩ := Option.map_eq_some_iff.mp h
      exact ⟨ihv hv, ihrest hrest⟩
  | member key v rest ihv ihrest =>
      obtain ⟨v', hv, h⟩ := Option.bind_eq_some_iff.mp h
      obtain ⟨rest', hrest, rfl⟩ := Option.map_eq_some_iff.mp h
      exact (ihrest hrest).insert key (ihv hv)

/-- A member that comes before all others stays in front. -/
theorem Tree.insert_of_lt {members : Tree ν .members} {key : String} {v : Tree ν .value}
    (h : ∀ k ∈ members.keys, key < k) : members.insert key v = .member key v members := by
  cases members with
  | ended => rfl
  | member k w rest =>
      have hlt := h k List.mem_cons_self
      rw [Tree.insert, if_neg (ne_of_lt hlt), if_pos hlt]

/-- A value in order is read as it is. -/
theorem Tree.read_mapNumbers {number : Bytes → Option ν} {format : ν → Bytes}
    (hnumber : ∀ x, number (format x) = some x) {f : Form} {v : Tree ν f} (h : v.Canonical) :
    (v.mapNumbers format).read number = some v := by
  induction v with
  | null | bool | string | done | ended => rfl
  | number x => rw [Tree.mapNumbers, Tree.read, hnumber, Option.map_some]
  | array items ih => rw [Tree.mapNumbers, Tree.read, ih h, Option.map_some]
  | object members ih => rw [Tree.mapNumbers, Tree.read, ih h, Option.map_some]
  | item v rest ihv ihrest =>
      rw [Tree.mapNumbers, Tree.read, ihv h.1, Option.bind_some, ihrest h.2, Option.map_some]
  | member key v rest ihv ihrest =>
      rw [Tree.mapNumbers, Tree.read, ihv h.1, Option.bind_some, ihrest h.2.1, Option.map_some,
        Tree.insert_of_lt h.2.2]

theorem Tree.depth_mapNumbers (g : ν → μ) {f : Form} (v : Tree ν f) :
    (v.mapNumbers g).depth = v.depth := by
  induction v with
  | null | bool | number | string | done | ended => rfl
  | array items ih => rw [Tree.mapNumbers, Tree.depth, ih, Tree.depth]
  | object members ih => rw [Tree.mapNumbers, Tree.depth, ih, Tree.depth]
  | item v rest ihv ihrest => rw [Tree.mapNumbers, Tree.depth, ihv, ihrest, Tree.depth]
  | member key v rest ihv ihrest => rw [Tree.mapNumbers, Tree.depth, ihv, ihrest, Tree.depth]

end Values

/-! ### Writing values -/

section Marshal

variable {ν : Type} (format : ν → List Char)

/-- A comma, except before the first element. -/
def separator (first : Bool) : List Char := if first then [] else [',']

/-- `json.Marshal`, without white space.  What follows a value is written with the bracket or
brace that ends it. -/
def Tree.marshal : {f : Form} → Tree ν f → (first : Bool) → List Char
  | _, .null, _ => ['n', 'u', 'l', 'l']
  | _, .bool true, _ => ['t', 'r', 'u', 'e']
  | _, .bool false, _ => ['f', 'a', 'l', 's', 'e']
  | _, .number x, _ => format x
  | _, .string s, _ => jsonString s
  | _, .array items, _ => '[' :: items.marshal true
  | _, .object members, _ => Char.ofNat 0x7B :: members.marshal true
  | _, .done, _ => [']']
  | _, .item v rest, first => separator first ++ v.marshal true ++ rest.marshal false
  | _, .ended, _ => [Char.ofNat 0x7D]
  | _, .member key v rest, first =>
      separator first ++ jsonString key ++ ':' :: (v.marshal true ++ rest.marshal false)

/-- The bytes of a text. -/
abbrev utf8 (cs : List Char) : Bytes := cs.flatMap String.utf8EncodeChar

/-- What is written is a text of the tree; behind a bracket or brace, of the whole array or
object. -/
def Tree.Written : {f : Form} → Tree ν f → Prop
  | .value, v => ∀ first, Spells (v.mapNumbers fun x => utf8 (format x)) (utf8 (v.marshal format first))
  | .items, t =>
      Spells (t.mapNumbers fun x => utf8 (format x)) (utf8 (t.marshal format false)) ∧
        Spells (.array (t.mapNumbers fun x => utf8 (format x)))
          (openBracket :: utf8 (t.marshal format true))
  | .members, t =>
      Spells (t.mapNumbers fun x => utf8 (format x)) (utf8 (t.marshal format false)) ∧
        Spells (.object (t.mapNumbers fun x => utf8 (format x)))
          (openBrace :: utf8 (t.marshal format true))

variable {format}

theorem spellsKey_jsonString (key : String) :
    SpellsKey key (utf8 (jsonString key) ++ [colon]) :=
  .intro (spellsString_jsonString key) isBlank_nil isBlank_nil

/-- An element that is written behind a comma or as the first one. -/
theorem utf8_separated (first : Bool) (cs cs' : List Char) :
    utf8 (separator first ++ cs ++ cs') = (if first then [] else [comma]) ++ (utf8 cs ++ utf8 cs') := by
  rw [utf8, List.flatMap_append, List.flatMap_append, List.append_assoc]
  cases first <;> rfl

theorem Tree.written (hformat : ∀ x, IsNumber (utf8 (format x))) {f : Form} (v : Tree ν f) :
    v.Written format := by
  induction v with
  | null => exact fun _ => .null
  | bool b => cases b <;> exact fun _ => .bool _
  | number x => exact fun _ => .number (hformat x)
  | string s => exact fun _ => .string (spellsString_jsonString s)
  | array items ih => exact fun _ => ih.2
  | object members ih => exact fun _ => ih.2
  | done => exact ⟨.done isBlank_nil, .emptyArray isBlank_nil⟩
  | item v rest ihv ihrest =>
      refine ⟨?_, ?_⟩
      · rw [Tree.marshal, utf8_separated]
        exact .item isBlank_nil isBlank_nil (ihv true) ihrest.1
      · rw [Tree.marshal, utf8_separated]
        exact .array isBlank_nil (ihv true) ihrest.1
  | ended => exact ⟨.ended isBlank_nil, .emptyObject isBlank_nil⟩
  | member key v rest ihv ihrest =>
      have htext : ∀ first, utf8 ((Tree.member key v rest).marshal format first)
          = (if first then [] else [comma]) ++ ((utf8 (jsonString key) ++ [colon]) ++
            (utf8 (v.marshal format true) ++ utf8 (rest.marshal format false))) := by
        intro first
        rw [Tree.marshal, utf8_separated]
        simp only [List.flatMap_cons, List.flatMap_append, List.append_assoc]
        rfl
      refine ⟨?_, ?_⟩
      · rw [htext]
        exact .member isBlank_nil isBlank_nil (spellsKey_jsonString key) (ihv true) ihrest.1
      · rw [htext]
        exact .object isBlank_nil (spellsKey_jsonString key) (ihv true) ihrest.1

/-- What is written is read again. -/
theorem parseText_marshal (hformat : ∀ x, IsNumber (utf8 (format x))) {v : Tree ν .value}
    (hdepth : v.depth ≤ maxNestingDepth) :
    parseText (utf8 (v.marshal format true)) = some (v.mapNumbers fun x => utf8 (format x)) :=
  parseText_spells (v.written hformat true) (by rwa [Tree.depth_mapNumbers])

end Marshal

/-! ### Lists of strings -/

section Strings

variable {ν : Type}

def stringItems : List String → Tree ν .items
  | [] => .done
  | s :: rest => .item (.string s) (stringItems rest)

/-- What is stored in a new `string`; `null` leaves it empty. -/
def Tree.text : {f : Form} → Tree ν f → Option String
  | _, .null => some ""
  | _, .string s => some s
  | _, _ => none

/-- What is stored in a new `[]string`. -/
def Tree.texts : {f : Form} → Tree ν f → Option (List String)
  | _, .null => some []
  | _, .array items => items.texts
  | _, .done => some []
  | _, .item v rest => v.text.bind fun s => rest.texts.map fun values => s :: values
  | _, _ => none

/-- `json.Unmarshal` into a `[]string`. -/
def unmarshalStrings (t : Bytes) : Option (List String) := (parseText t).bind Tree.texts

theorem marshal_stringItems (format : ν → List Char) (s : String) (rest : List String) :
    (stringItems (s :: rest)).marshal format true
      = [','].intercalate ((s :: rest).map jsonString) ++ [']'] := by
  show [] ++ jsonString s ++ (stringItems rest).marshal format false = _
  rw [List.nil_append]
  induction rest generalizing s with
  | nil => rw [List.map_singleton, List.intercalate_singleton]; rfl
  | cons s' rest ih =>
      rw [List.map_cons, List.map_cons, List.intercalate_cons_cons, ← List.map_cons,
        List.append_assoc, List.append_assoc, ← ih]
      rfl

theorem texts_stringItems (values : List String) :
    (stringItems values : Tree ν .items).texts = some values := by
  induction values with
  | nil => rfl
  | cons s rest ih => rw [stringItems, Tree.texts, ih]; rfl

theorem depth_stringItems (values : List String) :
    (stringItems values : Tree ν .items).depth = 0 := by
  induction values with
  | nil => rfl
  | cons s rest ih => rw [stringItems, Tree.depth, ih]; rfl

theorem mapNumbers_stringItems {μ : Type} (g : ν → μ) (values : List String) :
    (stringItems values).mapNumbers g = stringItems values := by
  induction values with
  | nil => rfl
  | cons s rest ih => rw [stringItems, Tree.mapNumbers, ih]; rfl

/-- What is written for a list of strings is read as this list. -/
theorem unmarshalStrings_jsonStrings (values : List String) :
    unmarshalStrings (encode (AgentMesh.jsonStrings values)) = some values := by
  -- there are no numbers in it
  have htext : encode (AgentMesh.jsonStrings values)
      = utf8 ((Tree.array (stringItems values)).marshal (Empty.elim : Empty → List Char) true) := by
    rw [encode, AgentMesh.jsonStrings, String.toList_ofList, Tree.marshal]
    rcases values with - | ⟨s, rest⟩
    · rfl
    · rw [marshal_stringItems, List.cons_append]
  have hdepth : (Tree.array (stringItems values) : Tree Empty .value).depth ≤ maxNestingDepth := by
    rw [Tree.depth, depth_stringItems]
    decide
  rw [unmarshalStrings, htext, parseText_marshal (fun x => x.elim) hdepth, Option.bind_some,
    Tree.mapNumbers, mapNumbers_stringItems, Tree.texts, texts_stringItems]

end Strings

end Json
