/-
AgentMesh/Http.lean

The side of Go's `net/http` that makes a request: the header map and its
canonical names, `http.NewRequest`, and the checks of `Transport.RoundTrip` up to
the address that it dials.

The conversion of host names beyond ASCII (`idna.Lookup.ToASCII`) is a
parameter.
-/
import AgentMesh.Table
import AgentMesh.Url

namespace Http

open Url

/-! ### Headers -/

/-- `http.Header`: the values under each canonical name. -/
abbrev Header := Table (List String)

/-- The characters of a header name. -/
def isTokenChar (c : Char) : Bool :=
  ('a' ≤ c && c ≤ 'z') || ('A' ≤ c && c ≤ 'Z') || ('0' ≤ c && c ≤ '9')
    || c ∈ "!#$%&'*+-.^_`|~".toList

/-- Upper case at the start and after each hyphen, lower case elsewhere. -/
def capitalize (upper : Bool) : List Char → List Char
  | [] => []
  | c :: rest => (if upper then c.toUpper else c.toLower) :: capitalize (c = '-') rest

/-- `http.CanonicalHeaderKey`. -/
def canonicalHeaderKey (key : String) : String :=
  if key.toList.all isTokenChar then String.ofList (capitalize true key.toList) else key

/-- `Header.Set`. -/
def Header.set (h : Header) (key value : String) : Header :=
  AList.insert (canonicalHeaderKey key) [value] h

/-- `Header.Values`. -/
def Header.values (h : Header) (key : String) : Option (List String) :=
  AList.lookup (canonicalHeaderKey key) h

theorem Header.lookup_set (h : Header) (key value key' : String) :
    AList.lookup key' (h.set key value)
      = if key' = canonicalHeaderKey key then some [value] else AList.lookup key' h :=
  Table.lookup_insert_eq h _ _ _

def validHeaderFieldName (key : String) : Bool := key ≠ "" ∧ key.toList.all isTokenChar

/-- No control character but the tabulator. -/
def validHeaderFieldValue (value : String) : Bool :=
  value.toList.all fun c => (0x20 ≤ c.toNat && c.toNat ≠ 0x7F) || c = '\t'

/-- The header check of `Transport.roundTrip`. -/
def Header.valid (h : Header) : Bool :=
  h.entries.all fun entry =>
    validHeaderFieldName entry.1 && entry.2.all validHeaderFieldValue

/-! ### Requests -/

structure Request where
  url : URL
  header : Header := ∅

/-- `removeEmptyPort`. -/
def removeEmptyPort (host : Bytes) : Bytes :=
  match cutLast ':'.toUInt8 host with
  | some (before, []) => before
  | _ => host

/-- `http.NewRequest` with a method that is valid. -/
def newRequest (url : Bytes) : Option Request := do
  let u ← parse url
  return { url := { u with host := removeEmptyPort u.host } }

/-- `net.JoinHostPort`. -/
def joinHostPort (host port : String) : String :=
  if ':' ∈ host.toList then "[" ++ host ++ "]:" ++ port else host ++ ":" ++ port

/-- `canonicalAddr`: the host and port to dial. -/
def canonicalAddr (idna : String → Option String) (u : URL) : String :=
  let port :=
    if u.port ≠ [] then decode u.port else if u.scheme = encode "https" then "443" else "80"
  let host := decode u.hostname
  joinHostPort (if host.toList.all fun c => c.toNat < 0x80 then host else (idna host).getD host) port

/-- Why `Transport.roundTrip` sends nothing, if it does not. -/
def Request.refused (request : Request) : Option String :=
  if request.url.scheme ≠ encode "http" ∧ request.url.scheme ≠ encode "https" then
    some "unsupported protocol scheme"
  else if request.header.valid = false then some "net/http: invalid header field"
  else if request.url.host = [] then some "http: no Host in request URL"
  else none

/-! ### Plain requests -/

section Plain

variable {h p : Bytes}

theorem newRequest_plainText (hh : ∀ c ∈ h, isPlain c = true) (hp : PlainPath p) :
    newRequest (plainText h p) = some { url := plainURL h p } := by
  have hcolon : cutLast ':'.toUInt8 h = none := cutLast_of_notMem (notMem_of_isPlain hh rfl)
  have hport : removeEmptyPort h = h := by rw [removeEmptyPort, hcolon]
  rw [newRequest, parse_plainText hh hp]
  show some ({ url := { plainURL h p with host := removeEmptyPort h } } : Request) = _
  rw [hport]
  rfl

theorem canonicalAddr_plainURL (idna : String → Option String) {name : String}
    (hname : ∀ c ∈ name.toList, c ≠ ':' ∧ c.toNat < 0x80) (hplain : ∀ c ∈ encode name, isPlain c = true) :
    canonicalAddr idna (plainURL (encode name) p) = name ++ ":80" := by
  have hascii : (name.toList.all fun c => c.toNat < 0x80) = true :=
    List.all_eq_true.mpr fun c hc => decide_eq_true (hname c hc).2
  have hcolon : ':' ∉ name.toList := fun hmem => (hname _ hmem).1 rfl
  have hsplit := splitHostPort_plainURL (p := p) hplain
  have hscheme : (plainURL (encode name) p).scheme ≠ encode "https" := by
    show encode "http" ≠ encode "https"
    decide
  simp only [canonicalAddr, URL.port, URL.hostname, hsplit, decode_encode, hascii, if_true,
    joinHostPort, hcolon, if_false, hscheme, ne_eq, not_true_eq_false]
  rw [String.append_assoc]
  rfl

end Plain

end Http
