/-
AgentMesh/JsonLexer.lean

The tokens of JSON as Go's `encoding/json` reads them.

A text is a sequence of bytes.  A string may use escapes, and its bytes need not
be UTF-8: those that are not stand for U+FFFD, as does half of a surrogate pair.
A number stands for itself, since what it means depends on the type it is read
into.

Each scanner comes with two theorems: what it reads is of the form that the
grammar gives (`…_sound`), and everything of that form is read, to its end
(`…_complete`).
-/
import AgentMesh.Url

namespace Json

open Url (Bytes)

/-! ### Bytes -/

def quote : UInt8 := 0x22
def plus : UInt8 := 0x2B
def comma : UInt8 := 0x2C
def minus : UInt8 := 0x2D
def dot : UInt8 := 0x2E
def zero : UInt8 := 0x30
def colon : UInt8 := 0x3A
def upperE : UInt8 := 0x45
def openBracket : UInt8 := 0x5B
def backslash : UInt8 := 0x5C
def closeBracket : UInt8 := 0x5D
def lowerE : UInt8 := 0x65
def lowerU : UInt8 := 0x75
def openBrace : UInt8 := 0x7B
def closeBrace : UInt8 := 0x7D

def isSpace (c : UInt8) : Bool := c = 0x20 || c = 0x09 || c = 0x0A || c = 0x0D

def isDigit (c : UInt8) : Bool := 0x30 ≤ c && c ≤ 0x39

def skipSpace (t : Bytes) : Bytes := t.dropWhile isSpace

/-- White space. -/
def IsBlank (t : Bytes) : Prop := ∀ c ∈ t, isSpace c = true

/-- The text does not begin with such a byte. -/
def Stops (p : UInt8 → Bool) (t : Bytes) : Prop := ∀ c, t.head? = some c → p c = false

section Bytes

variable {p q : UInt8 → Bool} {a c : UInt8} {s t r : Bytes}

theorem Stops.nil : Stops p [] := by
  simp [Stops]

theorem stops_cons : Stops p (c :: t) ↔ p c = false := by
  simp [Stops]

theorem Stops.mono (h : Stops q t) (hp : ∀ c, q c = false → p c = false) : Stops p t :=
  fun c hc => hp c (h c hc)

theorem dropWhile_append_of_stops (hs : ∀ c ∈ s, p c = true) (ht : Stops p t) :
    (s ++ t).dropWhile p = t := by
  rw [List.dropWhile_append_of_pos hs]
  cases t with
  | nil => rfl
  | cons c t => exact List.dropWhile_cons_of_neg (by simp [stops_cons.mp ht])

theorem takeWhile_append_of_stops (hs : ∀ c ∈ s, p c = true) (ht : Stops p t) :
    (s ++ t).takeWhile p = s := by
  rw [List.takeWhile_append_of_pos hs]
  cases t with
  | nil => simp
  | cons c t => rw [List.takeWhile_cons_of_neg (by simp [stops_cons.mp ht]), List.append_nil]

theorem skipSpace_append (hs : IsBlank s) (ht : Stops isSpace t) : skipSpace (s ++ t) = t :=
  dropWhile_append_of_stops hs ht

/-- What was skipped. -/
theorem exists_skipSpace (t : Bytes) : ∃ s, IsBlank s ∧ t = s ++ skipSpace t :=
  ⟨t.takeWhile isSpace, fun _ => List.mem_takeWhile_imp, List.takeWhile_append_dropWhile.symm⟩

end Bytes

/-! ### Numbers -/

/-- One digit or more. -/
def IsDigits (t : Bytes) : Prop := t ≠ [] ∧ ∀ c ∈ t, isDigit c = true

def IsWhole (t : Bytes) : Prop :=
  t = [zero] ∨ ∃ d ds, t = d :: ds ∧ d ≠ zero ∧ isDigit d = true ∧ ∀ c ∈ ds, isDigit c = true

def IsFraction (t : Bytes) : Prop := t = [] ∨ ∃ ds, t = dot :: ds ∧ IsDigits ds

def IsExponent (t : Bytes) : Prop :=
  t = [] ∨ ∃ e sign ds, t = e :: (sign ++ ds) ∧ (e = lowerE ∨ e = upperE) ∧
    (sign = [] ∨ sign = [plus] ∨ sign = [minus]) ∧ IsDigits ds

def IsNumber (t : Bytes) : Prop :=
  ∃ sign whole fraction exponent, t = sign ++ (whole ++ (fraction ++ exponent)) ∧
    (sign = [] ∨ sign = [minus]) ∧ IsWhole whole ∧ IsFraction fraction ∧ IsExponent exponent

/-- The bytes that could go on with a number. -/
def isNumberByte (c : UInt8) : Bool := isDigit c || c = dot || c = lowerE || c = upperE

/-- A sign out of a list, if there is one. -/
def scanSign (signs : Bytes) : Bytes → Bytes × Bytes
  | [] => ([], [])
  | c :: t => if c ∈ signs then ([c], t) else ([], c :: t)

def scanDigits (t : Bytes) : Option (Bytes × Bytes) :=
  if t.takeWhile isDigit = [] then none else some (t.takeWhile isDigit, t.dropWhile isDigit)

def scanWhole : Bytes → Option (Bytes × Bytes)
  | [] => none
  | c :: t =>
      if c = zero then some ([c], t)
      else if isDigit c then some (c :: t.takeWhile isDigit, t.dropWhile isDigit)
      else none

def scanFraction : Bytes → Option (Bytes × Bytes)
  | [] => some ([], [])
  | c :: t =>
      if c = dot then (scanDigits t).map fun x => (c :: x.1, x.2)
      else some ([], c :: t)

def scanExponent : Bytes → Option (Bytes × Bytes)
  | [] => some ([], [])
  | c :: t =>
      if c = lowerE ∨ c = upperE then
        let sign := scanSign [plus, minus] t
        (scanDigits sign.2).map fun x => (c :: (sign.1 ++ x.1), x.2)
      else some ([], c :: t)

def scanNumber (t : Bytes) : Option (Bytes × Bytes) :=
  let sign := scanSign [minus] t
  (scanWhole sign.2).bind fun whole =>
    (scanFraction whole.2).bind fun fraction =>
      (scanExponent fraction.2).map fun exponent =>
        (sign.1 ++ (whole.1 ++ (fraction.1 ++ exponent.1)), exponent.2)

section Numbers

variable {s t r : Bytes} {signs : Bytes}

theorem scanSign_sound : t = (scanSign signs t).1 ++ (scanSign signs t).2 ∧
    ((scanSign signs t).1 = [] ∨ ∃ c ∈ signs, (scanSign signs t).1 = [c]) := by
  cases t with
  | nil => exact ⟨rfl, .inl rfl⟩
  | cons c t =>
      rw [scanSign]
      split
      · exact ⟨rfl, .inr ⟨c, ‹_›, rfl⟩⟩
      · exact ⟨rfl, .inl rfl⟩

theorem scanSign_complete (hs : s = [] ∨ ∃ c ∈ signs, s = [c])
    (ht : Stops (fun c => decide (c ∈ signs)) t) : scanSign signs (s ++ t) = (s, t) := by
  rcases hs with rfl | ⟨c, hc, rfl⟩
  · cases t with
    | nil => rfl
    | cons c t => exact if_neg (of_decide_eq_false (stops_cons.mp ht))
  · exact if_pos hc

theorem scanDigits_sound (h : scanDigits t = some (s, r)) : t = s ++ r ∧ IsDigits s := by
  rw [scanDigits] at h
  split at h
  · cases h
  · obtain ⟨rfl, rfl⟩ := Prod.mk.inj (Option.some.inj h)
    exact ⟨List.takeWhile_append_dropWhile.symm, ‹_›, fun _ => List.mem_takeWhile_imp⟩

theorem scanDigits_complete (hs : IsDigits s) (hr : Stops isDigit r) :
    scanDigits (s ++ r) = some (s, r) := by
  rw [scanDigits, takeWhile_append_of_stops hs.2 hr, dropWhile_append_of_stops hs.2 hr,
    if_neg hs.1]

theorem scanWhole_sound (h : scanWhole t = some (s, r)) : t = s ++ r ∧ IsWhole s := by
  cases t with
  | nil => cases h
  | cons c t =>
      rw [scanWhole] at h
      split at h
      · obtain ⟨rfl, rfl⟩ := Prod.mk.inj (Option.some.inj h)
        exact ⟨rfl, .inl (by rw [‹c = zero›])⟩
      · split at h
        · obtain ⟨rfl, rfl⟩ := Prod.mk.inj (Option.some.inj h)
          refine ⟨?_, .inr ⟨c, _, rfl, ‹_›, ‹_›, fun _ => List.mem_takeWhile_imp⟩⟩
          rw [List.cons_append, List.takeWhile_append_dropWhile]
        · cases h

theorem scanWhole_complete (hs : IsWhole s) (hr : Stops isDigit r) :
    scanWhole (s ++ r) = some (s, r) := by
  rcases hs with rfl | ⟨d, ds, rfl, hzero, hd, hds⟩
  · rw [List.singleton_append, scanWhole, if_pos rfl]
  · rw [List.cons_append, scanWhole, if_neg hzero, if_pos hd, takeWhile_append_of_stops hds hr,
      dropWhile_append_of_stops hds hr]

theorem scanFraction_sound (h : scanFraction t = some (s, r)) : t = s ++ r ∧ IsFraction s := by
  cases t with
  | nil =>
      obtain ⟨rfl, rfl⟩ := Prod.mk.inj (Option.some.inj h)
      exact ⟨rfl, .inl rfl⟩
  | cons c t =>
      rw [scanFraction] at h
      split at h
      · obtain ⟨⟨ds, r'⟩, hds, heq⟩ := Option.map_eq_some_iff.mp h
        obtain ⟨rfl, rfl⟩ := Prod.mk.inj heq
        obtain ⟨rfl, hdigits⟩ := scanDigits_sound hds
        exact ⟨rfl, .inr ⟨ds, by rw [‹c = dot›], hdigits⟩⟩
      · obtain ⟨rfl, rfl⟩ := Prod.mk.inj (Option.some.inj h)
        exact ⟨rfl, .inl rfl⟩

theorem scanFraction_complete (hs : IsFraction s) (hdot : Stops (fun c => decide (c = dot)) r)
    (hr : Stops isDigit r) : scanFraction (s ++ r) = some (s, r) := by
  rcases hs with rfl | ⟨ds, rfl, hds⟩
  · cases r with
    | nil => rfl
    | cons c r => exact if_neg (of_decide_eq_false (stops_cons.mp hdot))
  · rw [List.cons_append, scanFraction, if_pos rfl, scanDigits_complete hds hr]
    rfl

theorem scanExponent_sound (h : scanExponent t = some (s, r)) : t = s ++ r ∧ IsExponent s := by
  cases t with
  | nil =>
      obtain ⟨rfl, rfl⟩ := Prod.mk.inj (Option.some.inj h)
      exact ⟨rfl, .inl rfl⟩
  | cons c t =>
      rw [scanExponent] at h
      split at h
      · rename_i he
        obtain ⟨⟨ds, r'⟩, hds, heq⟩ := Option.map_eq_some_iff.mp h
        obtain ⟨rfl, rfl⟩ := Prod.mk.inj heq
        obtain ⟨ht, hsign⟩ := @scanSign_sound t [plus, minus]
        obtain ⟨hrest, hdigits⟩ := scanDigits_sound hds
        refine ⟨?_, .inr ⟨c, _, ds, rfl, he, ?_, hdigits⟩⟩
        · rw [List.cons_append, List.append_assoc, ← hrest, ← ht]
        · simpa using hsign
      · obtain ⟨rfl, rfl⟩ := Prod.mk.inj (Option.some.inj h)
        exact ⟨rfl, .inl rfl⟩

/-- Digits do not begin with a sign. -/
theorem IsDigits.stops_sign (hs : IsDigits s) :
    Stops (fun c => decide (c ∈ [plus, minus])) (s ++ r) := by
  obtain ⟨hne, hdigits⟩ := hs
  cases s with
  | nil => exact absurd rfl hne
  | cons c s =>
      have hc := hdigits c List.mem_cons_self
      refine stops_cons.mpr (decide_eq_false fun hmem => ?_)
      rcases List.mem_cons.mp hmem with rfl | hmem
      · exact absurd hc (by decide)
      · rw [List.mem_singleton.mp hmem] at hc
        exact absurd hc (by decide)

theorem scanExponent_complete (hs : IsExponent s) (hr : Stops isNumberByte r) :
    scanExponent (s ++ r) = some (s, r) := by
  have hdigit : Stops isDigit r := hr.mono fun c hc => by simp_all [isNumberByte]
  rcases hs with rfl | ⟨e, sign, ds, rfl, he, hsign, hds⟩
  · cases r with
    | nil => rfl
    | cons c r =>
        have hc := stops_cons.mp hr
        exact if_neg (by simp_all [isNumberByte])
  · have hscan : scanSign [plus, minus] (sign ++ (ds ++ r)) = (sign, ds ++ r) :=
      scanSign_complete (by simpa using hsign) hds.stops_sign
    rw [List.cons_append, List.append_assoc, scanExponent, if_pos he]
    simp only [hscan, scanDigits_complete hds hdigit, Option.map_some]

theorem scanNumber_sound (h : scanNumber t = some (s, r)) : t = s ++ r ∧ IsNumber s := by
  rw [scanNumber] at h
  obtain ⟨⟨whole, t₁⟩, hwhole, h⟩ := Option.bind_eq_some_iff.mp h
  obtain ⟨⟨fraction, t₂⟩, hfraction, h⟩ := Option.bind_eq_some_iff.mp h
  obtain ⟨⟨exponent, t₃⟩, hexponent, h⟩ := Option.map_eq_some_iff.mp h
  obtain ⟨rfl, rfl⟩ := Prod.mk.inj h
  obtain ⟨ht, hsign⟩ := @scanSign_sound t [minus]
  obtain ⟨h₁, hwhole⟩ := scanWhole_sound hwhole
  obtain ⟨h₂, hfraction⟩ := scanFraction_sound hfraction
  obtain ⟨h₃, hexponent⟩ := scanExponent_sound hexponent
  refine ⟨?_, _, _, _, _, rfl, by simpa using hsign, hwhole, hfraction, hexponent⟩
  rw [List.append_assoc, List.append_assoc, List.append_assoc, ← h₃, ← h₂, ← h₁, ← ht]

/-- A number is read to its end. -/
theorem scanNumber_complete (hs : IsNumber s) (hr : Stops isNumberByte r) :
    scanNumber (s ++ r) = some (s, r) := by
  obtain ⟨sign, whole, fraction, exponent, rfl, hsign, hwhole, hfraction, hexponent⟩ := hs
  -- what stands after each part does not go on with it
  have hexp : Stops (fun c => isDigit c || decide (c = dot)) (exponent ++ r) := by
    rcases hexponent with rfl | ⟨e, -, -, rfl, rfl | rfl, -⟩
    · exact hr.mono fun c hc => by simp_all [isNumberByte]
    · exact stops_cons.mpr (by decide)
    · exact stops_cons.mpr (by decide)
  have hfrac : Stops isDigit (fraction ++ (exponent ++ r)) := by
    rcases hfraction with rfl | ⟨-, rfl, -⟩
    · exact hexp.mono fun c hc => (Bool.or_eq_false_iff.mp hc).1
    · exact stops_cons.mpr (by decide)
  have hscan : scanSign [minus] (sign ++ (whole ++ (fraction ++ (exponent ++ r))))
      = (sign, whole ++ (fraction ++ (exponent ++ r))) := by
    refine scanSign_complete (by simpa using hsign) ?_
    rcases hwhole with rfl | ⟨d, ds, rfl, -, hd, -⟩
    · exact stops_cons.mpr (by decide)
    · refine stops_cons.mpr (decide_eq_false fun hmem => ?_)
      rw [List.mem_singleton.mp hmem] at hd
      exact absurd hd (by decide)
  rw [scanNumber]
  simp only [List.append_assoc, hscan, scanWhole_complete hwhole hfrac, Option.bind_some,
    scanFraction_complete hfraction (hexp.mono fun c hc => (Bool.or_eq_false_iff.mp hc).2)
      (hexp.mono fun c hc => (Bool.or_eq_false_iff.mp hc).1),
    scanExponent_complete hexponent hr, Option.map_some]

end Numbers

/-! ### Strings -/

/-- The byte of a two-character escape. -/
def shortEscape (c : UInt8) : Option UInt8 :=
  if c = quote ∨ c = backslash ∨ c = 0x2F then some c
  else if c = 0x62 then some 0x08
  else if c = 0x66 then some 0x0C
  else if c = 0x6E then some 0x0A
  else if c = 0x72 then some 0x0D
  else if c = 0x74 then some 0x09
  else none

def unhex (c : UInt8) : Option Nat :=
  if 0x30 ≤ c ∧ c ≤ 0x39 then some (c.toNat - 0x30)
  else if 0x61 ≤ c ∧ c ≤ 0x66 then some (c.toNat - 0x61 + 10)
  else if 0x41 ≤ c ∧ c ≤ 0x46 then some (c.toNat - 0x41 + 10)
  else none

/-- One element of a string: a byte, or an escape of two or of six bytes. -/
inductive Piece
  | raw (c : UInt8)
  | short (c : UInt8)
  | unicode (a b c d : UInt8)
  deriving DecidableEq, Repr

def Piece.text : Piece → Bytes
  | .raw c => [c]
  | .short c => [backslash, c]
  | .unicode a b c d => [backslash, lowerU, a, b, c, d]

def Piece.isValid : Piece → Bool
  | .raw c => 0x20 ≤ c && c ≠ quote && c ≠ backslash
  | .short c => (shortEscape c).isSome
  | .unicode a b c d => [a, b, c, d].all fun x => (unhex x).isSome

/-- The 16-bit unit of a `unicode` escape. -/
def codeUnit (a b c d : UInt8) : Nat :=
  [a, b, c, d].foldl (fun n x => n * 16 + (unhex x).getD 0) 0

def isHighSurrogate (u : Nat) : Bool := 0xD800 ≤ u && u < 0xDC00
def isLowSurrogate (u : Nat) : Bool := 0xDC00 ≤ u && u < 0xE000

/-- U+FFFD. -/
def replacement : Char := Char.ofNat 0xFFFD

/-- What one unit stands for. -/
def unitChar (u : Nat) : Char :=
  if isHighSurrogate u || isLowSurrogate u then replacement else Char.ofNat u

def pairChar (high low : Nat) : Char :=
  Char.ofNat ((high - 0xD800) * 0x400 + (low - 0xDC00) + 0x10000)

/-- The first half of a pair that has no second half. -/
def flush : Option Nat → Bytes
  | none => []
  | some _ => String.utf8EncodeChar replacement

/-- The bytes of a string without escapes, after the first half of a pair. -/
def unescapeFrom : Option Nat → List Piece → Bytes
  | pending, [] => flush pending
  | pending, .raw c :: ps => flush pending ++ c :: unescapeFrom none ps
  | pending, .short c :: ps => flush pending ++ (shortEscape c).getD c :: unescapeFrom none ps
  | pending, .unicode a b c d :: ps =>
      let u := codeUnit a b c d
      match pending.filter fun _ => isLowSurrogate u with
      | some high => String.utf8EncodeChar (pairChar high u) ++ unescapeFrom none ps
      | none =>
          flush pending ++ if isHighSurrogate u then unescapeFrom (some u) ps
            else String.utf8EncodeChar (unitChar u) ++ unescapeFrom none ps

/-- The text that a string stands for. -/
def unquote (ps : List Piece) : String := Url.decode (unescapeFrom none ps)

def scanUnicode : Bytes → Option (Piece × Bytes)
  | a :: b :: c :: d :: t =>
      if (Piece.unicode a b c d).isValid then some (.unicode a b c d, t) else none
  | _ => none

def scanEscape : Bytes → Option (Piece × Bytes)
  | [] => none
  | c :: t =>
      if c = lowerU then scanUnicode t
      else if (Piece.short c).isValid then some (.short c, t)
      else none

def scanPiece : Bytes → Option (Piece × Bytes)
  | [] => none
  | c :: t =>
      if c = backslash then scanEscape t
      else if (Piece.raw c).isValid then some (.raw c, t)
      else none

/-- Reads at most so many pieces and a quotation mark. -/
def scanPieces : Nat → Bytes → Option (List Piece × Bytes)
  | 0, _ => none
  | fuel + 1, t =>
      if t.head? = some quote then some ([], t.tail)
      else (scanPiece t).bind fun x => (scanPieces fuel x.2).map fun y => (x.1 :: y.1, y.2)

/-- Reads a string behind its opening quotation mark. -/
def scanString (t : Bytes) : Option (List Piece × Bytes) := scanPieces (t.length + 1) t

section Strings

variable {t r : Bytes} {ps : List Piece} {x : Piece} {fuel : Nat}

theorem scanPiece_sound (h : scanPiece t = some (x, r)) :
    t = x.text ++ r ∧ x.isValid = true := by
  cases t with
  | nil => cases h
  | cons c t =>
      rw [scanPiece] at h
      split at h
      · subst c
        cases t with
        | nil => cases h
        | cons e t =>
            rw [scanEscape] at h
            split at h
            · subst e
              rw [scanUnicode.eq_def] at h
              split at h
              · split at h
                · obtain ⟨rfl, rfl⟩ := Prod.mk.inj (Option.some.inj h)
                  exact ⟨rfl, ‹_›⟩
                · cases h
              · cases h
            · split at h
              · obtain ⟨rfl, rfl⟩ := Prod.mk.inj (Option.some.inj h)
                exact ⟨rfl, ‹_›⟩
              · cases h
      · split at h
        · obtain ⟨rfl, rfl⟩ := Prod.mk.inj (Option.some.inj h)
          exact ⟨rfl, ‹_›⟩
        · cases h

theorem scanPiece_complete (hx : x.isValid = true) (r : Bytes) :
    scanPiece (x.text ++ r) = some (x, r) := by
  cases x with
  | raw c =>
      have hc : c ≠ backslash := by simp_all [Piece.isValid]
      rw [Piece.text, List.singleton_append, scanPiece, if_neg hc, if_pos hx]
  | short c =>
      have hc : c ≠ lowerU := by
        rintro rfl
        exact absurd hx (by decide)
      show scanPiece (backslash :: c :: r) = _
      rw [scanPiece, if_pos rfl, scanEscape, if_neg hc, if_pos hx]
  | unicode a b c d =>
      show scanPiece (backslash :: lowerU :: a :: b :: c :: d :: r) = _
      rw [scanPiece, if_pos rfl, scanEscape, if_pos rfl, scanUnicode, if_pos hx]

/-- No piece begins with a quotation mark. -/
theorem Piece.head?_text (hx : x.isValid = true) (r : Bytes) :
    (x.text ++ r).head? ≠ some quote := by
  cases x with
  | raw c =>
      intro h
      simp_all [Piece.isValid, Piece.text]
  | short c => exact fun h => absurd (Option.some.inj h) (by decide)
  | unicode a b c d => exact fun h => absurd (Option.some.inj h) (by decide)

theorem scanPieces_sound (h : scanPieces fuel t = some (ps, r)) :
    t = ps.flatMap Piece.text ++ quote :: r ∧ ∀ x ∈ ps, x.isValid = true := by
  induction fuel generalizing t ps with
  | zero => cases h
  | succ fuel ih =>
      rw [scanPieces] at h
      split at h
      · rename_i hquote
        obtain ⟨rfl, rfl⟩ := Prod.mk.inj (Option.some.inj h)
        refine ⟨?_, by simp⟩
        rw [List.flatMap_nil, List.nil_append]
        exact (List.cons_head?_tail hquote).symm
      · obtain ⟨⟨x, t'⟩, hx, h⟩ := Option.bind_eq_some_iff.mp h
        obtain ⟨⟨ps, r'⟩, hps, heq⟩ := Option.map_eq_some_iff.mp h
        obtain ⟨rfl, rfl⟩ := Prod.mk.inj heq
        obtain ⟨rfl, hvalid⟩ := scanPiece_sound hx
        obtain ⟨hrest, hall⟩ := ih hps
        refine ⟨?_, List.forall_mem_cons.mpr ⟨hvalid, hall⟩⟩
        rw [List.flatMap_cons, List.append_assoc, ← hrest]

theorem scanPieces_complete (h : ∀ x ∈ ps, x.isValid = true) (hfuel : ps.length < fuel)
    (r : Bytes) : scanPieces fuel (ps.flatMap Piece.text ++ quote :: r) = some (ps, r) := by
  induction ps generalizing fuel with
  | nil =>
      obtain ⟨fuel, rfl⟩ : ∃ n, fuel = n + 1 := ⟨fuel - 1, by omega⟩
      rw [List.flatMap_nil, List.nil_append, scanPieces, List.head?_cons, if_pos rfl]
      rfl
  | cons x ps ih =>
      obtain ⟨fuel, rfl⟩ : ∃ n, fuel = n + 1 := ⟨fuel - 1, by omega⟩
      rw [List.forall_mem_cons] at h
      rw [List.length_cons] at hfuel
      rw [List.flatMap_cons, List.append_assoc, scanPieces, if_neg (Piece.head?_text h.1 _),
        scanPiece_complete h.1, Option.bind_some, ih h.2 (by omega), Option.map_some]

theorem length_le_length_flatMap_text (ps : List Piece) :
    ps.length ≤ (ps.flatMap Piece.text).length := by
  induction ps with
  | nil => exact Nat.le_refl 0
  | cons x ps ih =>
      have hx : 1 ≤ x.text.length := by cases x <;> exact Nat.succ_le_succ (Nat.zero_le _)
      rw [List.flatMap_cons, List.length_append, List.length_cons]
      omega

theorem scanString_sound (h : scanString t = some (ps, r)) :
    t = ps.flatMap Piece.text ++ quote :: r ∧ ∀ x ∈ ps, x.isValid = true :=
  scanPieces_sound h

/-- A string is read to its quotation mark. -/
theorem scanString_complete (h : ∀ x ∈ ps, x.isValid = true) (r : Bytes) :
    scanString (ps.flatMap Piece.text ++ quote :: r) = some (ps, r) := by
  refine scanPieces_complete h ?_ r
  have hlength := length_le_length_flatMap_text ps
  rw [List.length_append]
  omega

end Strings

end Json
