/-
AgentMesh/Text.lean

The text functions of the Go standard library that the source calls:
`strings.TrimSpace`, `strings.ToLower`, `strings.Contains`, prefixes and
suffixes, `strconv.Quote` and `json.Marshal` on a `[]string`.

A Go string is a byte sequence; the strings of this development are Lean
strings, that is, valid UTF-8.  `len` is the length in bytes.
-/
import Mathlib.Data.List.DropRight
import Mathlib.Data.List.Infix

namespace AgentMesh

/-! ### White space -/

/-- `unicode.IsSpace`: the Unicode `White_Space` property. -/
def isSpace (c : Char) : Bool :=
  let n := c.toNat
  (0x09 ≤ n && n ≤ 0x0D) || n == 0x20 || n == 0x85 || n == 0xA0 || n == 0x1680
    || (0x2000 ≤ n && n ≤ 0x200A) || n == 0x2028 || n == 0x2029 || n == 0x202F
    || n == 0x205F || n == 0x3000

/-- The code points of white space. -/
def spaceRunes : List Nat :=
  [0x09, 0x0A, 0x0B, 0x0C, 0x0D, 0x20, 0x85, 0xA0, 0x1680, 0x2000, 0x2001, 0x2002, 0x2003, 0x2004,
    0x2005, 0x2006, 0x2007, 0x2008, 0x2009, 0x200A, 0x2028, 0x2029, 0x202F, 0x205F, 0x3000]

/-- What holds for each of them holds for white space. -/
theorem of_isSpace {p : Char → Bool} {c : Char}
    (hall : (spaceRunes.all fun n => p (Char.ofNat n)) = true) (h : isSpace c = true) :
    p c = true := by
  have hmem : c.toNat ∈ spaceRunes := by
    simp only [isSpace, Bool.or_eq_true, Bool.and_eq_true, decide_eq_true_eq, beq_iff_eq] at h
    simp only [spaceRunes, List.mem_cons, List.not_mem_nil, or_false]
    omega
  have hp := List.all_eq_true.mp hall c.toNat hmem
  rwa [Char.ofNat_toNat] at hp

/-- `strings.TrimSpace`. -/
def trimSpace (s : String) : String :=
  String.ofList (((s.toList.dropWhile isSpace).reverse.dropWhile isSpace).reverse)

theorem trimSpace_eq_rdropWhile (s : String) :
    trimSpace s = String.ofList ((s.toList.dropWhile isSpace).rdropWhile isSpace) := rfl

/-- A text without white space is not trimmed. -/
theorem trimSpace_of_forall {s : String} (h : ∀ c ∈ s.toList, isSpace c = false) :
    trimSpace s = s := by
  have hdrop : ∀ l : List Char, (∀ c ∈ l, isSpace c = false) → l.dropWhile isSpace = l := by
    intro l hl
    rcases l with - | ⟨c, rest⟩
    · rfl
    · rw [List.dropWhile_cons_of_neg]
      simp [hl c List.mem_cons_self]
  rw [trimSpace, hdrop _ h, hdrop _ (by simpa using h), List.reverse_reverse, String.ofList_toList]

theorem trimSpace_trimSpace (s : String) : trimSpace (trimSpace s) = trimSpace s := by
  rw [trimSpace_eq_rdropWhile s, trimSpace_eq_rdropWhile, String.toList_ofList]
  -- what the first pass leaves starts as the text without its leading white space does
  have hhead : ((s.toList.dropWhile isSpace).rdropWhile isSpace).dropWhile isSpace
      = (s.toList.dropWhile isSpace).rdropWhile isSpace := by
    rcases hr : (s.toList.dropWhile isSpace).rdropWhile isSpace with - | ⟨c, rest⟩
    · rfl
    · obtain ⟨tail, htail⟩ := List.rdropWhile_prefix isSpace (s.toList.dropWhile isSpace)
      have hc := List.head?_dropWhile_not isSpace s.toList
      rw [← htail, hr] at hc
      exact List.dropWhile_cons_of_neg (by simpa using hc)
  rw [hhead, List.rdropWhile_idempotent]

/-! ### Lower case -/

/-- The simple lower-case mappings above U+007F as `(first, last, stride, delta)`:
the code points `first, first + stride, ..., last` are each shifted by `delta`. -/
def lowerRanges : List (Nat × Nat × Nat × Int) := [
    (192, 214, 1, 32), (216, 222, 1, 32), (256, 302, 2, 1), (304, 304, 1, -199),
    (306, 310, 2, 1), (313, 327, 2, 1), (330, 374, 2, 1), (376, 376, 1, -121), (377, 381, 2, 1),
    (385, 385, 1, 210), (386, 388, 2, 1), (390, 390, 1, 206), (391, 391, 1, 1),
    (393, 394, 1, 205), (395, 395, 1, 1), (398, 398, 1, 79), (399, 399, 1, 202),
    (400, 400, 1, 203), (401, 401, 1, 1), (403, 403, 1, 205), (404, 404, 1, 207),
    (406, 406, 1, 211), (407, 407, 1, 209), (408, 408, 1, 1), (412, 412, 1, 211),
    (413, 413, 1, 213), (415, 415, 1, 214), (416, 420, 2, 1), (422, 422, 1, 218),
    (423, 423, 1, 1), (425, 425, 1, 218), (428, 428, 1, 1), (430, 430, 1, 218),
    (431, 431, 1, 1), (433, 434, 1, 217), (435, 437, 2, 1), (439, 439, 1, 219),
    (440, 440, 1, 1), (444, 444, 1, 1), (452, 452, 1, 2), (453, 453, 1, 1), (455, 455, 1, 2),
    (456, 456, 1, 1), (458, 458, 1, 2), (459, 475, 2, 1), (478, 494, 2, 1), (497, 497, 1, 2),
    (498, 500, 2, 1), (502, 502, 1, -97), (503, 503, 1, -56), (504, 542, 2, 1),
    (544, 544, 1, -130), (546, 562, 2, 1), (570, 570, 1, 10795), (571, 571, 1, 1),
    (573, 573, 1, -163), (574, 574, 1, 10792), (577, 577, 1, 1), (579, 579, 1, -195),
    (580, 580, 1, 69), (581, 581, 1, 71), (582, 590, 2, 1), (880, 882, 2, 1), (886, 886, 1, 1),
    (895, 895, 1, 116), (902, 902, 1, 38), (904, 906, 1, 37), (908, 908, 1, 64),
    (910, 911, 1, 63), (913, 929, 1, 32), (931, 939, 1, 32), (975, 975, 1, 8),
    (984, 1006, 2, 1), (1012, 1012, 1, -60), (1015, 1015, 1, 1), (1017, 1017, 1, -7),
    (1018, 1018, 1, 1), (1021, 1023, 1, -130), (1024, 1039, 1, 80), (1040, 1071, 1, 32),
    (1120, 1152, 2, 1), (1162, 1214, 2, 1), (1216, 1216, 1, 15), (1217, 1229, 2, 1),
    (1232, 1326, 2, 1), (1329, 1366, 1, 48), (4256, 4293, 1, 7264), (4295, 4295, 1, 7264),
    (4301, 4301, 1, 7264), (5024, 5103, 1, 38864), (5104, 5109, 1, 8), (7312, 7354, 1, -3008),
    (7357, 7359, 1, -3008), (7680, 7828, 2, 1), (7838, 7838, 1, -7615), (7840, 7934, 2, 1),
    (7944, 7951, 1, -8), (7960, 7965, 1, -8), (7976, 7983, 1, -8), (7992, 7999, 1, -8),
    (8008, 8013, 1, -8), (8025, 8031, 2, -8), (8040, 8047, 1, -8), (8072, 8079, 1, -8),
    (8088, 8095, 1, -8), (8104, 8111, 1, -8), (8120, 8121, 1, -8), (8122, 8123, 1, -74),
    (8124, 8124, 1, -9), (8136, 8139, 1, -86), (8140, 8140, 1, -9), (8152, 8153, 1, -8),
    (8154, 8155, 1, -100), (8168, 8169, 1, -8), (8170, 8171, 1, -112), (8172, 8172, 1, -7),
    (8184, 8185, 1, -128), (8186, 8187, 1, -126), (8188, 8188, 1, -9), (8486, 8486, 1, -7517),
    (8490, 8490, 1, -8383), (8491, 8491, 1, -8262), (8498, 8498, 1, 28), (8544, 8559, 1, 16),
    (8579, 8579, 1, 1), (9398, 9423, 1, 26), (11264, 11311, 1, 48), (11360, 11360, 1, 1),
    (11362, 11362, 1, -10743), (11363, 11363, 1, -3814), (11364, 11364, 1, -10727),
    (11367, 11371, 2, 1), (11373, 11373, 1, -10780), (11374, 11374, 1, -10749),
    (11375, 11375, 1, -10783), (11376, 11376, 1, -10782), (11378, 11378, 1, 1),
    (11381, 11381, 1, 1), (11390, 11391, 1, -10815), (11392, 11490, 2, 1), (11499, 11501, 2, 1),
    (11506, 11506, 1, 1), (42560, 42604, 2, 1), (42624, 42650, 2, 1), (42786, 42798, 2, 1),
    (42802, 42862, 2, 1), (42873, 42875, 2, 1), (42877, 42877, 1, -35332), (42878, 42886, 2, 1),
    (42891, 42891, 1, 1), (42893, 42893, 1, -42280), (42896, 42898, 2, 1), (42902, 42920, 2, 1),
    (42922, 42922, 1, -42308), (42923, 42923, 1, -42319), (42924, 42924, 1, -42315),
    (42925, 42925, 1, -42305), (42926, 42926, 1, -42308), (42928, 42928, 1, -42258),
    (42929, 42929, 1, -42282), (42930, 42930, 1, -42261), (42931, 42931, 1, 928),
    (42932, 42946, 2, 1), (42948, 42948, 1, -48), (42949, 42949, 1, -42307),
    (42950, 42950, 1, -35384), (42951, 42953, 2, 1), (42960, 42960, 1, 1), (42966, 42968, 2, 1),
    (42997, 42997, 1, 1), (65313, 65338, 1, 32), (66560, 66599, 1, 40), (66736, 66771, 1, 40),
    (66928, 66938, 1, 39), (66940, 66954, 1, 39), (66956, 66962, 1, 39), (66964, 66965, 1, 39),
    (68736, 68786, 1, 64), (71840, 71871, 1, 32), (93760, 93791, 1, 32),
    (125184, 125217, 1, 34)]

/-- `unicode.ToLower` on one rune. -/
def toLowerRune (c : Char) : Char :=
  if c.toNat < 0x80 then c.toLower
  else
    match lowerRanges.find? fun r =>
        r.1 ≤ c.toNat && c.toNat ≤ r.2.1 && (c.toNat - r.1) % r.2.2.1 == 0 with
    | some r => Char.ofNat ((c.toNat : Int) + r.2.2.2).toNat
    | none => c

/-- `strings.ToLower`. -/
def toLower (s : String) : String :=
  String.ofList (s.toList.map toLowerRune)

/-- A visible ASCII character that is not in upper case is neither white space nor changed. -/
theorem plain_of_ascii {c : Char} (h : 0x20 < c.toNat ∧ c.toNat < 0x7F)
    (hupper : c.toNat < 65 ∨ 90 < c.toNat) : isSpace c = false ∧ toLowerRune c = c := by
  refine ⟨?_, ?_⟩
  · simp only [isSpace, Bool.or_eq_false_iff, Bool.and_eq_false_iff, decide_eq_false_iff_not,
      beq_eq_false_iff_ne]
    omega
  · rw [toLowerRune, if_pos (by omega)]
    apply dif_neg
    rintro ⟨h1, h2⟩
    have h1' : 65 ≤ c.toNat := h1
    have h2' : c.toNat ≤ 90 := h2
    omega

/-- A text of such characters is left as it is. -/
theorem toLower_trimSpace_of_plain {s : String}
    (h : ∀ c ∈ s.toList, isSpace c = false ∧ toLowerRune c = c) : toLower (trimSpace s) = s := by
  rw [trimSpace_of_forall fun c hc => (h c hc).1, toLower,
    List.map_congr_left (g := id) fun c hc => (h c hc).2, List.map_id, String.ofList_toList]

/-! ### Substrings -/

/-- `strings.Contains`. -/
def contains (s sub : String) : Bool :=
  decide (sub.toList <:+: s.toList)

/-- `strings.HasPrefix`. -/
def hasPrefix (s start : String) : Bool := start.toList.isPrefixOf s.toList

/-- `strings.HasSuffix`. -/
def hasSuffix (s ending : String) : Bool := ending.toList.isSuffixOf s.toList

/-- `strings.TrimPrefix`. -/
def trimPrefix (s start : String) : String :=
  if hasPrefix s start then String.ofList (s.toList.drop start.length) else s

/-- `strings.TrimSuffix`. -/
def trimSuffix (s ending : String) : String :=
  if hasSuffix s ending then String.ofList (s.toList.take (s.length - ending.length)) else s

/-- `strings.ContainsAny`. -/
def containsAny (s chars : String) : Bool := s.toList.any fun c => c ∈ chars.toList

/-! ### Quoted text and JSON -/

/-- One lower-case hexadecimal digit. -/
def hexDigit (n : Nat) : Char :=
  if n < 10 then Char.ofNat (48 + n) else Char.ofNat (87 + n)

/-- The quotation mark and the backslash of JSON strings. -/
def quote : Char := Char.ofNat 0x22
@[inherit_doc quote] def backslash : Char := Char.ofNat 0x5C

/-- The six-character escape of a code point below U+10000. -/
def unicodeEscape (n : Nat) : List Char :=
  [backslash, 'u', hexDigit (n / 4096 % 16), hexDigit (n / 256 % 16), hexDigit (n / 16 % 16),
    hexDigit (n % 16)]

/-- What `encoding/json` writes for one rune, with its default HTML escaping. -/
def jsonRune (c : Char) : List Char :=
  let n := c.toNat
  if c = quote ∨ c = backslash then [backslash, c]
  else if n = 0x08 then [backslash, 'b']
  else if n = 0x0C then [backslash, 'f']
  else if n = 0x0A then [backslash, 'n']
  else if n = 0x0D then [backslash, 'r']
  else if n = 0x09 then [backslash, 't']
  else if n < 0x20 ∨ c = '<' ∨ c = '>' ∨ c = '&' ∨ n = 0x2028 ∨ n = 0x2029 then unicodeEscape n
  else [c]

/-- What `strconv.Quote` (the verb `%q`) writes for one rune; runes above U+007F
are taken as printable. -/
def quotedRune (c : Char) : List Char :=
  let n := c.toNat
  if c = quote ∨ c = backslash then [backslash, c]
  else if n = 0x07 then [backslash, 'a']
  else if n = 0x08 then [backslash, 'b']
  else if n = 0x0C then [backslash, 'f']
  else if n = 0x0A then [backslash, 'n']
  else if n = 0x0D then [backslash, 'r']
  else if n = 0x09 then [backslash, 't']
  else if n = 0x0B then [backslash, 'v']
  else if n < 0x20 ∨ n = 0x7F then [backslash, 'x', hexDigit (n / 16 % 16), hexDigit (n % 16)]
  else [c]

/-- `strconv.Quote`. -/
def quoted (s : String) : String :=
  String.ofList (quote :: s.toList.flatMap quotedRune ++ [quote])

/-- `json.Marshal` of one string. -/
def jsonString (s : String) : List Char :=
  quote :: s.toList.flatMap jsonRune ++ [quote]

/-- `json.Marshal` of a `[]string`. -/
def jsonStrings (values : List String) : String :=
  String.ofList ('[' :: List.intercalate [','] (values.map jsonString) ++ [']'])

end AgentMesh
