/-
AgentMesh/Url.lean

URLs as Go's `net/url` reads and writes them.  A text is a sequence of bytes,
since percent-decoding need not give valid UTF-8.

    [scheme:][//[userinfo@]host][/]path[?query][#fragment]

`parse` splits a text at its separators and decodes each part in its own mode;
`URL.string` encodes the parts and joins them.  The errors of the package carry
nothing but a text, and are `none` here.

The theorems say that both are what one expects on a plain URL: a host of
letters and digits and a path of such segments.
-/
import Mathlib.Data.String.Basic
import Mathlib.Data.List.TakeWhile

namespace Url

abbrev Bytes := List UInt8

/-! ### Texts and bytes -/

/-- The UTF-8 encoding of a text. -/
def encode (s : String) : Bytes := s.toList.flatMap String.utf8EncodeChar

/-- The runes of the first `fuel` positions; a byte that starts no rune is U+FFFD. -/
def runes : Nat → Bytes → List Char
  | 0, _ => []
  | _ + 1, [] => []
  | fuel + 1, c :: rest =>
      match (c :: rest).toByteArray.utf8DecodeChar? 0 with
      | some r => r :: runes fuel ((c :: rest).drop r.utf8Size)
      | none => '�' :: runes fuel rest

/-- The text that a `range` loop over the bytes reads. -/
def decode (b : Bytes) : String := String.ofList (runes b.length b)

/-- `strings.Cut` at a byte. -/
def cut (sep : UInt8) (b : Bytes) : Bytes × Bytes :=
  (b.takeWhile (· ≠ sep), (b.dropWhile (· ≠ sep)).drop 1)

/-- What stands before and after the last occurrence of a byte. -/
def cutLast (sep : UInt8) (b : Bytes) : Option (Bytes × Bytes) :=
  if sep ∈ b then
    some ((b.reverse.dropWhile (· ≠ sep)).reverse.dropLast, (b.reverse.takeWhile (· ≠ sep)).reverse)
  else none

/-! ### Escaping -/

/-- The parts of a URL, which escape different bytes. -/
inductive Mode where
  | path
  | pathSegment
  | host
  | zone
  | userPassword
  | fragment
  deriving DecidableEq, Repr

def isLetter (c : UInt8) : Bool :=
  ('a'.toUInt8 ≤ c && c ≤ 'z'.toUInt8) || ('A'.toUInt8 ≤ c && c ≤ 'Z'.toUInt8)

def isDigit (c : UInt8) : Bool := '0'.toUInt8 ≤ c && c ≤ '9'.toUInt8

def shouldEscape (mode : Mode) (c : UInt8) : Bool :=
  if isLetter c || isDigit c then false
  else if (mode = .host ∨ mode = .zone) ∧ c ∈ encode "!$&'()*+,;=:[]<>\"" then false
  else if c ∈ encode "-_.~" then false
  else if c ∈ encode "$&+,/:;=?@" then
    match mode with
    | .path => c = '?'.toUInt8
    | .pathSegment => c ∈ encode "/;,?"
    | .userPassword => c ∈ encode "@/?:"
    | .fragment => false
    | .host => true
    | .zone => true
  else if mode = .fragment ∧ c ∈ encode "!()*" then false
  else true

def unhex (c : UInt8) : Option UInt8 :=
  if isDigit c then some (c - '0'.toUInt8)
  else if 'a'.toUInt8 ≤ c ∧ c ≤ 'f'.toUInt8 then some (c - 'a'.toUInt8 + 10)
  else if 'A'.toUInt8 ≤ c ∧ c ≤ 'F'.toUInt8 then some (c - 'A'.toUInt8 + 10)
  else none

/-- May this byte be written with a percent sign?  In a host only the bytes above 0x7F and the
percent sign itself may, in a zone also those that need not be. -/
def mayEscape (mode : Mode) (c : UInt8) : Bool :=
  match mode with
  | .host => 0x80 ≤ c || c = '%'.toUInt8
  | .zone => c = '%'.toUInt8 || c = ' '.toUInt8 || !shouldEscape .host c
  | _ => true

def unescape (mode : Mode) : Bytes → Option Bytes
  | [] => some []
  | c :: rest =>
      if c = '%'.toUInt8 then
        match rest with
        | high :: low :: rest => do
            let high ← unhex high
            let low ← unhex low
            let value := high * 16 + low
            if mayEscape mode value = false then none
            else
              let rest ← unescape mode rest
              return value :: rest
        | _ => none
      else if (mode = .host ∨ mode = .zone) ∧ c < 0x80 ∧ shouldEscape mode c then none
      else (unescape mode rest).map (c :: ·)

def upperhex (n : UInt8) : UInt8 := if n < 10 then '0'.toUInt8 + n else 'A'.toUInt8 + (n - 10)

def escape (mode : Mode) (s : Bytes) : Bytes :=
  s.flatMap fun c =>
    if shouldEscape mode c then ['%'.toUInt8, upperhex (c / 16), upperhex (c % 16)] else [c]

/-- Could `s` be what a part was written as? -/
def validEncoded (mode : Mode) (s : Bytes) : Bool :=
  s.all fun c => c ∈ encode "!$&'()*+,;=:@[]%" || !shouldEscape mode c

/-- A decoded part as it is written: as it was read, if that still is an encoding of it. -/
def encoded (mode : Mode) (value raw : Bytes) : Bytes :=
  if raw ≠ [] ∧ validEncoded mode raw ∧ unescape mode raw = some value then raw
  else escape mode value

/-- The form of a part to remember: none, if it is the one that `escape` gives. -/
def rawForm (mode : Mode) (value raw : Bytes) : Bytes :=
  if raw = escape mode value then [] else raw

/-! ### URLs -/

structure Userinfo where
  username : Bytes
  password : Option Bytes
  deriving DecidableEq

structure URL where
  scheme : Bytes := []
  /-- `Opaque`: what follows the scheme, if it does not start with a slash. -/
  rootless : Bytes := []
  user : Option Userinfo := none
  host : Bytes := []
  path : Bytes := []
  rawPath : Bytes := []
  omitHost : Bool := false
  forceQuery : Bool := false
  rawQuery : Bytes := []
  fragment : Bytes := []
  rawFragment : Bytes := []
  deriving DecidableEq

/-- `getScheme`, with the bytes of the scheme so far. -/
def getSchemeFrom (seen : Bytes) : Bytes → Option (Bytes × Bytes)
  | [] => some ([], seen)
  | c :: rest =>
      if isLetter c then getSchemeFrom (seen ++ [c]) rest
      else if isDigit c ∨ c ∈ encode "+-." then
        if seen = [] then some ([], c :: rest) else getSchemeFrom (seen ++ [c]) rest
      else if c = ':'.toUInt8 then
        if seen = [] then none else some (seen, rest)
      else some ([], seen ++ c :: rest)

def getScheme (rawURL : Bytes) : Option (Bytes × Bytes) := getSchemeFrom [] rawURL

def lower (c : UInt8) : UInt8 := if 'A'.toUInt8 ≤ c ∧ c ≤ 'Z'.toUInt8 then c + 32 else c

def validOptionalPort : Bytes → Bool
  | [] => true
  | c :: rest => c = ':'.toUInt8 && rest.all isDigit

/-- What stands before the first `%25`, and the rest from there on. -/
def zoneFrom (seen : Bytes) : Bytes → Option (Bytes × Bytes)
  | [] => none
  | c :: rest =>
      if (encode "%25").isPrefixOf (c :: rest) then some (seen, c :: rest)
      else zoneFrom (seen ++ [c]) rest

def parseHost (host : Bytes) : Option Bytes :=
  if host.head? = some '['.toUInt8 then
    match cutLast ']'.toUInt8 host with
    | none => none
    | some (inner, colonPort) =>
        if validOptionalPort colonPort = false then none
        else
          match zoneFrom [] inner with
          | none => unescape .host host
          | some (address, zone) => do
              let address ← unescape .host address
              let zone ← unescape .zone zone
              let close ← unescape .host (']'.toUInt8 :: colonPort)
              return address ++ zone ++ close
  else
    match cutLast ':'.toUInt8 host with
    | none => unescape .host host
    | some (_, port) =>
        if validOptionalPort (':'.toUInt8 :: port) = false then none else unescape .host host

def validUserinfo (s : Bytes) : Bool :=
  s.all fun c => isLetter c || isDigit c || c ∈ encode "-._:~!$&'()*+,;=%@"

def parseUserinfo (userinfo : Bytes) : Option Userinfo :=
  if validUserinfo userinfo = false then none
  else if ':'.toUInt8 ∉ userinfo then do
    let username ← unescape .userPassword userinfo
    return ⟨username, none⟩
  else do
    let username ← unescape .userPassword (cut ':'.toUInt8 userinfo).1
    let password ← unescape .userPassword (cut ':'.toUInt8 userinfo).2
    return ⟨username, some password⟩

def parseAuthority (authority : Bytes) : Option (Option Userinfo × Bytes) :=
  match cutLast '@'.toUInt8 authority with
  | none => do
      let host ← parseHost authority
      return (none, host)
  | some (userinfo, host) => do
      let host ← parseHost host
      let user ← parseUserinfo userinfo
      return (some user, host)

def URL.setPath (u : URL) (p : Bytes) : Option URL :=
  (unescape .path p).map fun path => { u with path, rawPath := rawForm .path path p }

def URL.setFragment (u : URL) (f : Bytes) : Option URL :=
  (unescape .fragment f).map fun fragment =>
    { u with fragment, rawFragment := rawForm .fragment fragment f }

/-- `parse` after the query has been cut off. -/
def parseHierarchy (u : URL) (rest : Bytes) : Option URL :=
  if rest.head? ≠ some '/'.toUInt8 ∧ u.scheme ≠ [] then some { u with rootless := rest }
  else if rest.head? ≠ some '/'.toUInt8 ∧ ':'.toUInt8 ∈ (cut '/'.toUInt8 rest).1 then none
  else if (u.scheme ≠ [] ∨ (encode "///").isPrefixOf rest = false)
      ∧ (encode "//").isPrefixOf rest then do
    let (user, host) ← parseAuthority ((rest.drop 2).takeWhile (· ≠ '/'.toUInt8))
    URL.setPath { u with user, host } ((rest.drop 2).dropWhile (· ≠ '/'.toUInt8))
  else
    URL.setPath { u with omitHost := u.scheme ≠ [] ∧ rest.head? = some '/'.toUInt8 } rest

/-- `parse`, on a text without a fragment. -/
def parseReference (rawURL : Bytes) : Option URL :=
  if rawURL.any fun c => c < 0x20 || c = 0x7F then none
  else if rawURL = encode "*" then some { path := encode "*" }
  else do
    let (scheme, rest) ← getScheme rawURL
    let u : URL := { scheme := scheme.map lower }
    if rest.getLast? = some '?'.toUInt8 ∧ rest.count '?'.toUInt8 = 1 then
      parseHierarchy { u with forceQuery := true } rest.dropLast
    else
      parseHierarchy { u with rawQuery := (cut '?'.toUInt8 rest).2 } (cut '?'.toUInt8 rest).1

/-- `url.Parse`. -/
def parse (rawURL : Bytes) : Option URL := do
  let u ← parseReference (cut '#'.toUInt8 rawURL).1
  let frag := (cut '#'.toUInt8 rawURL).2
  if frag = [] then return u else u.setFragment frag

def URL.escapedPath (u : URL) : Bytes :=
  if u.path = encode "*" ∧ ¬ (u.rawPath ≠ [] ∧ validEncoded .path u.rawPath
      ∧ unescape .path u.rawPath = some u.path) then encode "*"
  else encoded .path u.path u.rawPath

def Userinfo.string (user : Userinfo) : Bytes :=
  escape .userPassword user.username
    ++ user.password.elim [] fun password => ':'.toUInt8 :: escape .userPassword password

/-- The authority as `URL.String` writes it, with its slashes. -/
def URL.authority (u : URL) : Bytes :=
  if u.scheme = [] ∧ u.host = [] ∧ u.user = none then []
  else if u.omitHost ∧ u.host = [] ∧ u.user = none then []
  else
    (if u.host ≠ [] ∨ u.path ≠ [] ∨ u.user ≠ none then encode "//" else [])
      ++ u.user.elim [] (fun user => user.string ++ encode "@") ++ escape .host u.host

/-- The scheme as it is written. -/
def URL.start (u : URL) : Bytes := if u.scheme = [] then [] else u.scheme ++ encode ":"

/-- What is written between the authority and a path that does not start with a slash. -/
def URL.separator (u : URL) (path : Bytes) : Bytes :=
  if path ≠ [] ∧ path.head? ≠ some '/'.toUInt8 ∧ u.host ≠ [] then encode "/"
  else if u.start ++ u.authority = [] ∧ ':'.toUInt8 ∈ (cut '/'.toUInt8 path).1 then encode "./"
  else []

/-- The query and the fragment as they are written. -/
def URL.ending (u : URL) : Bytes :=
  (if u.forceQuery ∨ u.rawQuery ≠ [] then '?'.toUInt8 :: u.rawQuery else [])
    ++ (if u.fragment ≠ [] then '#'.toUInt8 :: encoded .fragment u.fragment u.rawFragment else [])

/-- `URL.String`. -/
def URL.string (u : URL) : Bytes :=
  if u.rootless ≠ [] then u.start ++ u.rootless ++ u.ending
  else u.start ++ u.authority ++ u.separator u.escapedPath ++ u.escapedPath ++ u.ending

/-- `splitHostPort`: the host without its brackets, and the port. -/
def URL.splitHostPort (u : URL) : Bytes × Bytes :=
  let (host, port) :=
    match cutLast ':'.toUInt8 u.host with
    | some (host, port) => if port.all isDigit then (host, port) else (u.host, [])
    | none => (u.host, [])
  (if host.head? = some '['.toUInt8 ∧ host.getLast? = some ']'.toUInt8 then host.tail.dropLast
    else host, port)

def URL.hostname (u : URL) : Bytes := u.splitHostPort.1

def URL.port (u : URL) : Bytes := u.splitHostPort.2

/-! ### Paths -/

/-- The segments of a rooted path without `.` and `..`. -/
def cleanSegments (p : Bytes) : List Bytes :=
  (p.splitOn '/'.toUInt8).foldl (fun segments segment =>
    if segment = [] ∨ segment = encode "." then segments
    else if segment = encode ".." then segments.dropLast
    else segments ++ [segment]) []

/-- `path.Clean` of a rooted path. -/
def clean (p : Bytes) : Bytes := '/'.toUInt8 :: List.intercalate (encode "/") (cleanSegments p)

/-- `URL.JoinPath` with one element. -/
def URL.joinPath (u : URL) (elem : Bytes) : URL :=
  let base := u.escapedPath
  let p :=
    if base.head? = some '/'.toUInt8 then clean (base ++ encode "/" ++ elem)
    else (clean (encode "/" ++ base ++ encode "/" ++ elem)).drop 1
  let p :=
    if elem.getLast? = some '/'.toUInt8 ∧ p.getLast? ≠ some '/'.toUInt8 then p ++ encode "/" else p
  (u.setPath p).getD u

/-- `url.JoinPath` with one element. -/
def joinPath (base elem : Bytes) : Option Bytes := do
  let u ← parse base
  return (u.joinPath elem).string

/-! ### Reading what was encoded -/

theorem runes_encode (chars : List Char) (fuel : Nat) (hfuel : chars.length ≤ fuel) :
    runes fuel (chars.flatMap String.utf8EncodeChar) = chars := by
  induction chars generalizing fuel with
  | nil => cases fuel <;> rfl
  | cons r rest ih =>
      obtain ⟨fuel, rfl⟩ : ∃ n, fuel = n + 1 := ⟨fuel - 1, by simp at hfuel; omega⟩
      have hread : (String.utf8EncodeChar r ++ rest.flatMap String.utf8EncodeChar).toByteArray.utf8DecodeChar? 0
          = some r := by
        rw [List.toByteArray_append]
        exact ByteArray.utf8DecodeChar?_utf8EncodeChar_append
      have hdrop : (String.utf8EncodeChar r ++ rest.flatMap String.utf8EncodeChar).drop r.utf8Size
          = rest.flatMap String.utf8EncodeChar :=
        List.drop_left' (String.length_utf8EncodeChar r)
      rw [List.flatMap_cons]
      -- a rune has at least one byte, so there is a first one
      rcases hbytes : String.utf8EncodeChar r ++ rest.flatMap String.utf8EncodeChar with - | ⟨c, tail⟩
      · have hnil := (List.append_eq_nil_iff.mp hbytes).1
        have hlength := String.length_utf8EncodeChar r
        have hpos := r.utf8Size_pos
        rw [hnil, List.length_nil] at hlength
        omega
      · rw [hbytes] at hread hdrop
        simp only [runes, hread, hdrop]
        rw [ih fuel (by simpa using hfuel)]

theorem length_le_length_flatMap_encode (chars : List Char) :
    chars.length ≤ (chars.flatMap String.utf8EncodeChar).length := by
  induction chars with
  | nil => exact Nat.le_refl 0
  | cons r rest ih =>
      rw [List.flatMap_cons, List.length_append, String.length_utf8EncodeChar, List.length_cons]
      have hpos := r.utf8Size_pos
      omega

theorem decode_encode (s : String) : decode (encode s) = s := by
  rw [decode, encode, runes_encode _ _ (length_le_length_flatMap_encode _), String.ofList_toList]

/-! ### Percent-encoding -/

section Percent

variable {s r p : Bytes} {c : UInt8} {mode : Mode}

theorem unescape_cons_of_ne (hc : c ≠ '%'.toUInt8)
    (hmode : ¬ ((mode = .host ∨ mode = .zone) ∧ c < 0x80 ∧ shouldEscape mode c = true)) :
    unescape mode (c :: s) = (unescape mode s).map (c :: ·) := by
  rw [unescape.eq_def]
  simp only [if_neg hc, if_neg hmode]

theorem unescape_percent {high low : UInt8} :
    unescape mode ('%'.toUInt8 :: high :: low :: s) = (do
      let high ← unhex high
      let low ← unhex low
      if mayEscape mode (high * 16 + low) = false then none
      else
        let rest ← unescape mode s
        return (high * 16 + low) :: rest) := by
  rw [unescape.eq_def]
  simp only [if_true]

theorem unescape_percent_eq_some (h : unescape mode ('%'.toUInt8 :: s) = some p) :
    ∃ high low rest value tail, s = high :: low :: rest ∧ unhex high ≠ none ∧ unhex low ≠ none ∧
      p = value :: tail ∧ unescape mode rest = some tail ∧
      ∀ mode', (∀ c, mayEscape mode' c = true) → ∀ rest' tail', unescape mode' rest' = some tail' →
        unescape mode' ('%'.toUInt8 :: high :: low :: rest') = some (value :: tail') := by
  rcases s with - | ⟨high, - | ⟨low, rest⟩⟩
  · cases h
  · cases h
  · rw [unescape_percent] at h
    rcases hhigh : unhex high with - | x
    · rw [hhigh] at h
      cases h
    · rcases hlow : unhex low with - | y
      · rw [hhigh, hlow] at h
        cases h
      · rw [hhigh, hlow] at h
        simp only [Option.bind_eq_bind, Option.bind_some] at h
        split at h
        · cases h
        · rcases hrest : unescape mode rest with - | tail
          · rw [hrest] at h
            cases h
          · rw [hrest] at h
            obtain rfl := Option.some.inj h
            refine ⟨high, low, rest, _, tail, rfl, by simp [hhigh], by simp [hlow], rfl, hrest, ?_⟩
            intro mode' hmay rest' tail' htail
            rw [unescape_percent, hhigh, hlow, htail]
            simp [hmay]

/-- A path ends its segments at slashes, before anything is decoded. -/
theorem unescape_split (hs : '/'.toUInt8 ∉ s) (hr : r = [] ∨ ∃ rest, r = '/'.toUInt8 :: rest)
    (h : unescape .path (s ++ r) = some p) :
    ∃ segment rest, unescape .pathSegment s = some segment ∧ unescape .path r = some rest ∧
      p = segment ++ rest := by
  have hslash : unhex '/'.toUInt8 = none := by decide
  induction hn : s.length using Nat.strong_induction_on generalizing s p with
  | _ n ih =>
      rcases s with - | ⟨c, s⟩
      · exact ⟨[], p, rfl, h, rfl⟩
      · have hs' : '/'.toUInt8 ∉ s := fun hmem => hs (List.mem_cons_of_mem _ hmem)
        by_cases hc : c = '%'.toUInt8
        · subst hc
          rw [List.cons_append] at h
          obtain ⟨high, low, rest, value, tail, hsplit, hhigh, hlow, rfl, htail, hback⟩ :=
            unescape_percent_eq_some h
          -- both digits stand before the slash
          rcases s with - | ⟨d, - | ⟨d', s⟩⟩
          · rcases hr with rfl | ⟨rest', rfl⟩
            · cases hsplit
            · simp only [List.nil_append, List.cons.injEq] at hsplit
              obtain ⟨rfl, -⟩ := hsplit
              exact absurd hslash hhigh
          · rcases hr with rfl | ⟨rest', rfl⟩
            · cases hsplit
            · simp only [List.cons_append, List.nil_append, List.cons.injEq] at hsplit
              obtain ⟨rfl, rfl, -⟩ := hsplit
              exact absurd hslash hlow
          · simp only [List.cons_append, List.cons.injEq] at hsplit
            obtain ⟨rfl, rfl, rfl⟩ := hsplit
            have hs'' : '/'.toUInt8 ∉ s := fun hmem =>
              hs' (List.mem_cons_of_mem _ (List.mem_cons_of_mem _ hmem))
            obtain ⟨segment, rest', hsegment, hrest', rfl⟩ :=
              ih s.length (by simp at hn; omega) hs'' htail rfl
            exact ⟨value :: segment, rest', hback .pathSegment (fun _ => rfl) _ _ hsegment, hrest', rfl⟩
        · rw [List.cons_append, unescape_cons_of_ne hc (by simp), Option.map_eq_some_iff] at h
          obtain ⟨tail, htail, rfl⟩ := h
          obtain ⟨segment, rest, hsegment, hrest, rfl⟩ :=
            ih s.length (by simp at hn; omega) hs' htail rfl
          refine ⟨c :: segment, rest, ?_, hrest, rfl⟩
          rw [unescape_cons_of_ne hc (by simp), hsegment, Option.map_some]

/-- The two digits of a byte. -/
theorem hex_digits (c : UInt8) : unhex (upperhex (c / 16)) = some (c / 16) ∧
    unhex (upperhex (c % 16)) = some (c % 16) ∧ c / 16 * 16 + c % 16 = c := by
  have hall : ∀ n < 256, let d := UInt8.ofNat n
      unhex (upperhex (d / 16)) = some (d / 16) ∧ unhex (upperhex (d % 16)) = some (d % 16) ∧
        d / 16 * 16 + d % 16 = d := by decide +kernel
  have hc := hall c.toNat (UInt8.toNat_lt_size c)
  rwa [UInt8.ofNat_toNat] at hc

theorem unescape_escape (p : Bytes) : unescape .path (escape .path p) = some p := by
  induction p with
  | nil => rfl
  | cons c rest ih =>
      rw [escape, List.flatMap_cons]
      change unescape .path (_ ++ escape .path rest) = _
      split
      · obtain ⟨hhigh, hlow, hvalue⟩ := hex_digits c
        rw [List.cons_append, List.cons_append, List.cons_append, List.nil_append, unescape_percent,
          hhigh, hlow, ih]
        simp [mayEscape, hvalue]
      · rename_i hplain
        have hc : c ≠ '%'.toUInt8 := by
          rintro rfl
          exact hplain (by decide)
        rw [List.singleton_append, unescape_cons_of_ne hc (by simp), ih, Option.map_some]

/-- The path of a URL is what its escaped form is read as. -/
theorem URL.unescape_escapedPath (u : URL) : unescape .path u.escapedPath = some u.path := by
  rw [URL.escapedPath]
  split
  · rename_i hstar
    rw [hstar.1]
    decide
  · rw [encoded]
    split
    · rename_i hraw
      exact hraw.2.2
    · exact unescape_escape u.path

end Percent

/-! ### Plain URLs -/

/-- A letter or a digit, which means itself in every part of a URL. -/
def isPlain (c : UInt8) : Bool := isLetter c || isDigit c

/-- A path of plain segments. -/
structure PlainPath (p : Bytes) : Prop where
  rooted : p = [] ∨ ∃ rest, p = '/'.toUInt8 :: rest
  plain : ∀ c ∈ p, isPlain c = true ∨ c = '/'.toUInt8

section Plain

variable {s h p : Bytes} {c d : UInt8} {mode : Mode}

theorem ne_of_isPlain (hc : isPlain c = true) (hd : isPlain d = false) : c ≠ d := by
  rintro rfl
  rw [hc] at hd
  cases hd

theorem shouldEscape_of_isPlain (hc : isPlain c = true) : shouldEscape mode c = false := by
  unfold shouldEscape
  exact if_pos hc

theorem not_control_of_isPlain (hc : isPlain c = true) : (c < 0x20 || c = 0x7F) = false := by
  have hrange : (97 ≤ c.toNat ∧ c.toNat ≤ 122) ∨ (65 ≤ c.toNat ∧ c.toNat ≤ 90) ∨
      (48 ≤ c.toNat ∧ c.toNat ≤ 57) := by
    simp only [isPlain, isLetter, isDigit, Bool.or_eq_true, Bool.and_eq_true, decide_eq_true_eq,
      UInt8.le_iff_toNat_le] at hc
    rcases hc with (hc | hc) | hc
    · exact .inl hc
    · exact .inr (.inl hc)
    · exact .inr (.inr hc)
  simp only [Bool.or_eq_false_iff, decide_eq_false_iff_not, UInt8.lt_iff_toNat_lt,
    ← UInt8.toNat_inj]
  simp
  omega

/-- Bytes that need no escaping are read as themselves. -/
theorem unescape_of_forall (hs : ∀ c ∈ s, c ≠ '%'.toUInt8 ∧ shouldEscape mode c = false) :
    unescape mode s = some s := by
  induction s with
  | nil => rfl
  | cons c rest ih =>
      obtain ⟨hpercent, hescape⟩ := hs c List.mem_cons_self
      rw [unescape.eq_def]
      simp only [if_neg hpercent, hescape, Bool.false_eq_true, and_false, if_false,
        ih fun d hd => hs d (List.mem_cons_of_mem _ hd), Option.map_some]

theorem escape_of_forall (hs : ∀ c ∈ s, shouldEscape mode c = false) : escape mode s = s := by
  rw [escape]
  induction s with
  | nil => rfl
  | cons c rest ih =>
      rw [List.flatMap_cons, ih fun d hd => hs d (List.mem_cons_of_mem _ hd),
        hs c List.mem_cons_self, if_neg (by simp)]
      rfl

theorem cut_of_notMem (hs : c ∉ s) : cut c s = (s, []) := by
  have hne : ∀ d ∈ s, decide (d ≠ c) = true := by
    intro d hd
    exact decide_eq_true fun h => hs (h ▸ hd)
  rw [cut, List.takeWhile_eq_self_iff.mpr hne, List.dropWhile_eq_nil_iff.mpr hne, List.drop_nil]

theorem cutLast_of_notMem (hs : c ∉ s) : cutLast c s = none := if_neg hs

theorem notMem_of_isPlain (hh : ∀ c ∈ h, isPlain c = true) (hd : isPlain d = false) : d ∉ h :=
  fun hmem => ne_of_isPlain (hh d hmem) hd rfl

theorem PlainPath.of_all {rest : Bytes}
    (h : (rest.all fun c => isPlain c || c = '/'.toUInt8) = true) : PlainPath ('/'.toUInt8 :: rest) := by
  refine ⟨.inr ⟨rest, rfl⟩, List.forall_mem_cons.mpr ⟨.inr rfl, fun c hc => ?_⟩⟩
  have hc' := List.all_eq_true.mp h c hc
  rwa [Bool.or_eq_true, decide_eq_true_eq] at hc'

theorem PlainPath.notMem (hp : PlainPath p) (hd : isPlain d = false) (hslash : d ≠ '/'.toUInt8) :
    d ∉ p := by
  intro hmem
  rcases hp.plain d hmem with hplain | rfl
  · exact ne_of_isPlain hplain hd rfl
  · exact hslash rfl

theorem PlainPath.shouldEscape (hp : PlainPath p) : ∀ c ∈ p, shouldEscape .path c = false := by
  intro c hc
  rcases hp.plain c hc with hplain | rfl
  · exact shouldEscape_of_isPlain hplain
  · rfl

theorem PlainPath.setPath (hp : PlainPath p) (u : URL) :
    u.setPath p = some { u with path := p, rawPath := [] } := by
  have hread : unescape .path p = some p :=
    unescape_of_forall fun c hc =>
      ⟨fun hpercent => hp.notMem rfl (by decide) (hpercent ▸ hc), hp.shouldEscape c hc⟩
  rw [URL.setPath, hread, Option.map_some, rawForm, escape_of_forall hp.shouldEscape, if_pos rfl]

theorem parseAuthority_plain (hh : ∀ c ∈ h, isPlain c = true) :
    parseAuthority h = some (none, h) := by
  have hbracket : h.head? ≠ some '['.toUInt8 := fun hhead =>
    notMem_of_isPlain hh (d := '['.toUInt8) rfl (List.mem_of_mem_head? hhead)
  have hread : unescape .host h = some h :=
    unescape_of_forall fun c hc => ⟨ne_of_isPlain (hh c hc) rfl, shouldEscape_of_isPlain (hh c hc)⟩
  have hat : cutLast '@'.toUInt8 h = none := cutLast_of_notMem (notMem_of_isPlain hh rfl)
  have hcolon : cutLast ':'.toUInt8 h = none := cutLast_of_notMem (notMem_of_isPlain hh rfl)
  simp only [parseAuthority, hat, parseHost, if_neg hbracket, hcolon, hread]
  rfl

/-- The authority ends where the path starts. -/
theorem span_authority (hh : ∀ c ∈ h, isPlain c = true) (hp : PlainPath p) :
    (h ++ p).takeWhile (· ≠ '/'.toUInt8) = h ∧ (h ++ p).dropWhile (· ≠ '/'.toUInt8) = p := by
  have hne : ∀ c ∈ h, decide (c ≠ '/'.toUInt8) = true :=
    fun c hc => decide_eq_true (ne_of_isPlain (hh c hc) rfl)
  rw [List.takeWhile_append_of_pos hne, List.dropWhile_append_of_pos hne]
  rcases hp.rooted with rfl | ⟨rest, rfl⟩
  · exact ⟨List.append_nil h, rfl⟩
  · rw [List.takeWhile_cons_of_neg (by simp), List.dropWhile_cons_of_neg (by simp)]
    exact ⟨List.append_nil h, rfl⟩

theorem parseHierarchy_plain (hh : ∀ c ∈ h, isPlain c = true) (hp : PlainPath p) {u : URL}
    (hu : u.scheme ≠ []) (hraw : u.rawPath = []) (huser : u.user = none) :
    parseHierarchy u (encode "//" ++ (h ++ p)) = some { u with host := h, path := p } := by
  obtain ⟨htake, hdrop⟩ := span_authority hh hp
  have hhead : (encode "//" ++ (h ++ p)).head? = some '/'.toUInt8 := rfl
  have hstart : (encode "//").isPrefixOf (encode "//" ++ (h ++ p)) = true := rfl
  have hrest : (encode "//" ++ (h ++ p)).drop 2 = h ++ p := rfl
  simp only [parseHierarchy, hhead, ne_eq, not_true_eq_false, false_and, if_false, hstart, hrest,
    hu, not_false_eq_true, true_or, and_self, if_true]
  rw [htake, hdrop, parseAuthority_plain hh]
  show URL.setPath _ p = _
  rw [hp.setPath, ← huser, ← hraw]

/-- The URL with a plain host and a plain path. -/
def plainURL (h p : Bytes) : URL := { scheme := encode "http", host := h, path := p }

/-- The text of a plain URL. -/
def plainText (h p : Bytes) : Bytes := encode "http://" ++ (h ++ p)

theorem notMem_plainText (hh : ∀ c ∈ h, isPlain c = true) (hp : PlainPath p)
    (hd : isPlain d = false) (hstart : d ∉ encode "http://") : d ∉ plainText h p := by
  rw [plainText, List.mem_append, List.mem_append]
  rintro (hmem | hmem | hmem)
  · exact hstart hmem
  · exact notMem_of_isPlain hh hd hmem
  · refine hp.notMem hd ?_ hmem
    rintro rfl
    exact hstart (by decide)

theorem not_control_plainText (hh : ∀ c ∈ h, isPlain c = true) (hp : PlainPath p) :
    ((plainText h p).any fun c => c < 0x20 || c = 0x7F) = false := by
  rw [List.any_eq_false]
  intro c hc
  rw [Bool.not_eq_true]
  rcases List.mem_append.mp hc with hc | hc
  · have hstart : ((encode "http://").any fun c => c < 0x20 || c = 0x7F) = false := by decide
    exact Bool.eq_false_iff.mpr (List.any_eq_false.mp hstart c hc)
  · rcases List.mem_append.mp hc with hc | hc
    · exact not_control_of_isPlain (hh c hc)
    · rcases hp.plain c hc with hplain | rfl
      · exact not_control_of_isPlain hplain
      · rfl

theorem parse_plainText (hh : ∀ c ∈ h, isPlain c = true) (hp : PlainPath p) :
    parse (plainText h p) = some (plainURL h p) := by
  have hscheme : getScheme (plainText h p) = some (encode "http", encode "//" ++ (h ++ p)) := rfl
  have hstar : plainText h p ≠ encode "*" := by
    intro hstar
    cases hstar
  have hquery : '?'.toUInt8 ∉ encode "//" ++ (h ++ p) := fun hmem =>
    notMem_plainText hh hp (by decide) (by decide) (List.mem_append_right (encode "http:") hmem)
  have hlast : (encode "//" ++ (h ++ p)).getLast? ≠ some '?'.toUInt8 := fun hlast =>
    hquery (List.mem_of_mem_getLast? hlast)
  rw [parse, cut_of_notMem (notMem_plainText hh hp (by decide) (by decide)), parseReference,
    not_control_plainText hh hp, if_neg (by simp), if_neg hstar, hscheme]
  simp only [Option.bind_eq_bind, Option.bind_some, hlast, false_and, if_false,
    cut_of_notMem hquery]
  rw [parseHierarchy_plain hh hp (by decide) rfl rfl]
  rfl

/-- A plain URL is written as it was read. -/
theorem string_plainURL (hne : h ≠ []) (hh : ∀ c ∈ h, isPlain c = true) (hp : PlainPath p) :
    (plainURL h p).string = plainText h p := by
  have hhost : escape .host h = h := escape_of_forall fun c hc => shouldEscape_of_isPlain (hh c hc)
  have hpath : (plainURL h p).escapedPath = p := by
    rw [URL.escapedPath, if_neg, encoded, if_neg]
    · exact escape_of_forall hp.shouldEscape
    · exact fun hraw => hraw.1 rfl
    · rintro ⟨hstar, -⟩
      exact hp.notMem (d := '*'.toUInt8) rfl (by decide) (by rw [show p = encode "*" from hstar]; decide)
  have hauthority : (plainURL h p).authority = encode "//" ++ h := by
    rw [URL.authority, if_neg fun hnone => hne hnone.2.1, if_neg fun hnone => hne hnone.2.1,
      if_pos (.inl hne)]
    show encode "//" ++ [] ++ escape .host h = _
    rw [hhost, List.append_nil]
  have hseparator : (plainURL h p).separator p = [] := by
    rw [URL.separator, if_neg, if_neg]
    · intro hnone
      cases hnone.1
    · rintro ⟨hpath, hhead, -⟩
      rcases hp.rooted with rfl | ⟨rest, rfl⟩
      · exact hpath rfl
      · exact hhead rfl
  rw [URL.string, if_neg fun hrootless => hrootless rfl, hpath, hseparator, hauthority]
  show encode "http:" ++ (encode "//" ++ h) ++ [] ++ p ++ [] = _
  rw [List.append_nil, List.append_nil, plainText, List.append_assoc, List.append_assoc]
  rfl

theorem splitHostPort_plainURL (hh : ∀ c ∈ h, isPlain c = true) :
    (plainURL h p).splitHostPort = (h, []) := by
  have hbracket : h.head? ≠ some '['.toUInt8 := fun hhead =>
    notMem_of_isPlain hh (d := '['.toUInt8) rfl (List.mem_of_mem_head? hhead)
  have hcolon : cutLast ':'.toUInt8 h = none := cutLast_of_notMem (notMem_of_isPlain hh rfl)
  simp only [URL.splitHostPort, plainURL, hcolon, hbracket, false_and, if_false]

end Plain

end Url
