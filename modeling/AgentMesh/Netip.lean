/-
AgentMesh/Netip.lean

IP addresses and prefixes, after Go's package `net/netip`.

An address is an IPv4 address or an IPv6 address with an optional zone.  An
IPv4 address `a.b.c.d` has the IPv4-mapped form `::ffff:a.b.c.d`, which is an
IPv6 address; `Addr.unmap` goes back.  A prefix is an address without a zone and
a number of leading bits.  `Prefix.contains` compares addresses of one family
only, and never contains an address with a zone.

`Addr.to128` and `Covers` are the same notions without these distinctions: every
address is its 128 bits, an IPv4 address those of its mapped form.  Where the
families agree and there is no zone the two notions of containment are the same
(`Prefix.contains_iff`).
-/
import Mathlib.Data.BitVec
import Mathlib.Tactic

namespace Netip

/-! ### Addresses -/

inductive Addr
  | v4 (bits : BitVec 32)
  | v6 (bits : BitVec 128) (zone : String)
  deriving DecidableEq, Repr

namespace Addr

def zone : Addr → String
  | v4 _ => ""
  | v6 _ zone => zone

def withoutZone : Addr → Addr
  | v4 bits => v4 bits
  | v6 bits _ => v6 bits ""

def bitLen : Addr → Nat
  | v4 _ => 32
  | v6 _ _ => 128

/-- An IPv4-mapped IPv6 address. -/
def is4In6 : Addr → Bool
  | v4 _ => false
  | v6 bits _ => bits.extractLsb' 32 96 = 0xffff#96

def unmap (a : Addr) : Addr :=
  match a with
  | v4 bits => v4 bits
  | v6 bits zone => if a.is4In6 then v4 (bits.extractLsb' 0 32) else v6 bits zone

/-- The leading `n` bits of an address of `w` bits. -/
def leading {w : Nat} (bits : BitVec w) (n : Nat) : BitVec w := bits >>> (w - n)

def isLinkLocalUnicast : Addr → Bool
  | v4 bits => leading bits 16 = leading 0xa9fe0000#32 16
  | v6 bits _ => leading bits 10 = leading 0xfe800000000000000000000000000000#128 10

def isLinkLocalMulticast : Addr → Bool
  | v4 bits => leading bits 24 = leading 0xe0000000#32 24
  | v6 bits _ => bits.extractLsb' 112 16 &&& 0xff0f#16 = 0xff02#16

def isLoopback : Addr → Bool
  | v4 bits => leading bits 8 = leading 0x7f000000#32 8
  | v6 bits _ => bits = 1#128

def isPrivate : Addr → Bool
  | v4 bits => leading bits 8 = leading 0x0a000000#32 8
      ∨ leading bits 12 = leading 0xac100000#32 12 ∨ leading bits 16 = leading 0xc0a80000#32 16
  | v6 bits _ => leading bits 7 = leading 0xfc000000000000000000000000000000#128 7

end Addr

/-! ### Texts -/

/-- The value of a decimal or hexadecimal digit. -/
def digitValue (c : Char) : Option Nat :=
  if '0' ≤ c ∧ c ≤ '9' then some (c.toNat - 48) else none

@[inherit_doc digitValue] def hexValue (c : Char) : Option Nat :=
  if '0' ≤ c ∧ c ≤ '9' then some (c.toNat - 48)
  else if 'a' ≤ c ∧ c ≤ 'f' then some (c.toNat - 87)
  else if 'A' ≤ c ∧ c ≤ 'F' then some (c.toNat - 55)
  else none

/-- The four fields of an IPv4 address: those that are read, and the value and the number of
digits of the one that is being read. -/
def parseIPv4Fields (fields : List Nat) (val digits : Nat) : List Char → Option (List Nat)
  | [] => if fields.length < 3 then none else some (fields ++ [val])
  | c :: rest =>
      match digitValue c with
      | some d =>
          if digits = 1 ∧ val = 0 then none
          else if 255 < val * 10 + d then none
          else parseIPv4Fields fields (val * 10 + d) (digits + 1) rest
      | none =>
          if c ≠ '.' ∨ digits = 0 ∨ rest = [] ∨ fields.length = 3 then none
          else parseIPv4Fields (fields ++ [val]) 0 0 rest

def parseIPv4 (s : List Char) : Option Addr :=
  (parseIPv4Fields [] 0 0 s).map fun fields =>
    .v4 (BitVec.ofNat 32 (fields.foldl (fun value field => value * 256 + field) 0))

/-- One group of hexadecimal digits: its value, the number of digits and what comes after. -/
def scanGroup (value digits : Nat) : List Char → Option (Nat × Nat × List Char)
  | [] => some (value, digits, [])
  | c :: rest =>
      match hexValue c with
      | some d => if 3 < digits then none else scanGroup (value * 16 + d) (digits + 1) rest
      | none => some (value, digits, c :: rest)

/-- The groups of an IPv6 address: those that are read, and the place of the ellipsis. -/
def parseGroups : Nat → List Nat → Option Nat → List Char →
    Option (List Nat × Option Nat × List Char)
  | 0, groups, ellipsis, s => some (groups, ellipsis, s)
  | room + 1, groups, ellipsis, s =>
      match scanGroup 0 0 s with
      | none => none
      | some (_, 0, _) => none
      | some (value, _ + 1, rest) =>
          match rest with
          | '.' :: _ =>
              -- an IPv4 address takes the place of the last two groups
              if ellipsis = none ∧ groups.length ≠ 6 ∨ 6 < groups.length then none
              else
                match parseIPv4Fields [] 0 0 s with
                | some [a, b, c, d] => some (groups ++ [a * 256 + b, c * 256 + d], ellipsis, [])
                | _ => none
          | [] => some (groups ++ [value], ellipsis, [])
          | [':'] => none
          | ':' :: ':' :: rest =>
              if ellipsis.isSome then none
              else if rest = [] then some (groups ++ [value], some (groups.length + 1), [])
              else parseGroups room (groups ++ [value]) (some (groups.length + 1)) rest
          | ':' :: rest => parseGroups room (groups ++ [value]) ellipsis rest
          | _ => none

/-- The zeros that the ellipsis stands for. -/
def expandGroups (groups : List Nat) (ellipsis : Option Nat) : Option (List Nat) :=
  match ellipsis with
  | none => if groups.length < 8 then none else some groups
  | some place =>
      if groups.length < 8 then
        some (groups.take place ++ List.replicate (8 - groups.length) 0 ++ groups.drop place)
      else none

/-- An IPv6 address without its zone. -/
def parseBits (s : List Char) : Option (BitVec 128) :=
  let start :=
    match s with
    | ':' :: ':' :: rest => if rest = [] then some ([], some 0, []) else parseGroups 8 [] (some 0) rest
    | s => parseGroups 8 [] none s
  match start with
  | some (groups, ellipsis, []) =>
      (expandGroups groups ellipsis).map fun groups =>
        BitVec.ofNat 128 (groups.foldl (fun value group => value * 65536 + group) 0)
  | _ => none

def parseIPv6 (s : List Char) : Option Addr :=
  match s.span (· ≠ '%') with
  | (s, []) => (parseBits s).map fun bits => .v6 bits ""
  | (_, [_]) => none
  | (s, _ :: zone) => (parseBits s).map fun bits => .v6 bits (String.ofList zone)

/-- `netip.ParseAddr`: the first of `.`, `:` and `%` tells the family. -/
def parseAddr (s : String) : Option Addr :=
  match s.toList.find? fun c => c = '.' ∨ c = ':' ∨ c = '%' with
  | some '.' => parseIPv4 s.toList
  | some ':' => parseIPv6 s.toList
  | _ => none

/-! ### Prefixes -/

/-- `bits` is absent in an invalid prefix. -/
structure Prefix where
  ip : Addr
  bits : Option Nat
  zoneless : ip.zone = ""
  fits : ∀ n ∈ bits, n ≤ ip.bitLen
  deriving DecidableEq

namespace Prefix

def isValid (p : Prefix) : Bool := p.bits.isSome

/-- Only the leading bits are kept. -/
def maskBits {w : Nat} (bits : BitVec w) (n : Nat) : BitVec w := (bits >>> (w - n)) <<< (w - n)

def maskAddr (n : Nat) : Addr → Addr
  | .v4 bits => .v4 (maskBits bits n)
  | .v6 bits zone => .v6 (maskBits bits n) zone

theorem zone_maskAddr (n : Nat) (a : Addr) : (maskAddr n a).zone = a.zone := by
  cases a <;> rfl

theorem bitLen_maskAddr (n : Nat) (a : Addr) : (maskAddr n a).bitLen = a.bitLen := by
  cases a <;> rfl

def masked (p : Prefix) : Prefix where
  ip := maskAddr (p.bits.getD 0) p.ip
  bits := p.bits
  zoneless := by
    rw [zone_maskAddr]
    exact p.zoneless
  fits := by
    rw [bitLen_maskAddr]
    exact p.fits

/-- The comparison of `contains`, for addresses of one family. -/
def containsBits (n : Nat) : Addr → Addr → Bool
  | .v4 net, .v4 bits => Addr.leading bits n = Addr.leading net n
  | .v6 net _, .v6 bits _ => Addr.leading bits n = Addr.leading net n
  | _, _ => false

def contains (p : Prefix) (a : Addr) : Bool :=
  match p.bits with
  | none => false
  | some n => a.zone = "" ∧ containsBits n p.ip a

end Prefix

/-! ### Containment without families and zones -/

/-- The 128 bits of an address, for an IPv4 address those of its mapped form. -/
def Addr.to128 : Addr → BitVec 128
  | .v4 bits => 0xffff#96 ++ bits
  | .v6 bits _ => bits

/-- The number of leading bits of a prefix, counted in the 128. -/
def Addr.length128 (n : Nat) : Addr → Nat
  | .v4 _ => 96 + n
  | .v6 _ _ => n

/-- The bits of the address lie in the prefix. -/
def Covers (p : Prefix) (a : Addr) : Prop :=
  ∃ n, p.bits = some n ∧
    Addr.leading a.to128 (p.ip.length128 n) = Addr.leading p.ip.to128 (p.ip.length128 n)

section Bits

variable {w : Nat}

theorem leading_maskBits (bits : BitVec w) (n : Nat) :
    Addr.leading (Prefix.maskBits bits n) n = Addr.leading bits n := by
  apply BitVec.eq_of_getLsbD_eq
  intro i hi
  simp only [Addr.leading, Prefix.maskBits, BitVec.getLsbD_ushiftRight, BitVec.getLsbD_shiftLeft]
  by_cases hlt : w - n + i < w
  · simp [hlt]
  · have hzero := BitVec.getLsbD_of_ge bits (w - n + i) (by omega)
    simp [hlt, hzero]

/-- The leading bits of a mapped address. -/
theorem leading_mapped_iff (a b : BitVec 32) {n : Nat} (hn : n ≤ 32) :
    Addr.leading (0xffff#96 ++ a) (96 + n) = Addr.leading (0xffff#96 ++ b) (96 + n) ↔
      Addr.leading a n = Addr.leading b n := by
  have hshift : 96 + 32 - (96 + n) = 32 - n := by omega
  simp only [Addr.leading, hshift]
  constructor
  · intro h
    apply BitVec.eq_of_getLsbD_eq
    intro i hi
    have hbit := congrArg (fun bits => bits.getLsbD i) h
    simp only [BitVec.getLsbD_ushiftRight, BitVec.getLsbD_append] at hbit ⊢
    split at hbit
    · exact hbit
    · rw [BitVec.getLsbD_of_ge a _ (by omega), BitVec.getLsbD_of_ge b _ (by omega)]
  · intro h
    apply BitVec.eq_of_getLsbD_eq
    intro i hi
    have hbit := congrArg (fun bits => bits.getLsbD i) h
    simp only [BitVec.getLsbD_ushiftRight, BitVec.getLsbD_append] at hbit ⊢
    rw [hbit]

end Bits

section Containment

variable {p : Prefix} {a : Addr}

theorem Addr.to128_unmap (a : Addr) : a.unmap.to128 = a.to128 := by
  rcases a with bits | ⟨bits, zone⟩
  · rfl
  · simp only [Addr.unmap]
    split
    · rename_i h
      have hmapped : bits.extractLsb' 32 96 = 0xffff#96 := of_decide_eq_true h
      show 0xffff#96 ++ bits.extractLsb' 0 32 = bits
      rw [← hmapped]
      exact BitVec.extractLsb'_append_extractLsb'
    · rfl

/-- Of the same family: both IPv4, or both IPv6. -/
def SameFamily (a b : Addr) : Prop := a.bitLen = b.bitLen

instance (a b : Addr) : Decidable (SameFamily a b) := inferInstanceAs (Decidable (_ = _))

theorem Prefix.contains_masked (p : Prefix) (a : Addr) : p.masked.contains a = p.contains a := by
  rcases hbits : p.bits with - | n
  · simp only [Prefix.contains, Prefix.masked, hbits]
  · simp only [Prefix.contains, Prefix.masked, hbits, Option.getD_some]
    congr 1
    rcases p.ip with net | ⟨net, zone⟩ <;> rcases a with bits | ⟨bits, zone'⟩ <;>
      simp only [Prefix.maskAddr, Prefix.containsBits, leading_maskBits]

/-- `contains` is containment within a family, of addresses without a zone. -/
theorem Prefix.contains_iff (p : Prefix) (a : Addr) :
    p.contains a = true ↔ a.zone = "" ∧ SameFamily p.ip a ∧ Covers p a := by
  rw [Prefix.contains, Covers]
  rcases hbits : p.bits with - | n
  · simp
  · have hfits := p.fits n hbits
    rcases hip : p.ip with net | ⟨net, zone⟩ <;> rcases a with bits | ⟨bits, zone'⟩ <;>
      simp only [hip, Addr.bitLen] at hfits <;>
      simp [SameFamily, Prefix.containsBits, Addr.bitLen, Addr.to128, Addr.length128]
    exact fun _ => (leading_mapped_iff bits net hfits).symm

end Containment

end Netip
