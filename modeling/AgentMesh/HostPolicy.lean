/-
AgentMesh/HostPolicy.lean

The network policy of outbound requests, `internal/runtime/http.go`: which hosts
and addresses an endpoint may have, and the `DialContext` that `secureTransport`
installs.

A policy is enforced twice.  `validateHost` looks at the host of an endpoint
before a request is made, and at its address if the host is one.  `dialContext`
looks at every address that the resolver returns for the host, and connects to
the first acceptable one that answers.  Both unmap the address and ask each
blocked prefix whether it contains it; the prefixes are not unmapped.

The resolver and the network are the environment of a call.
-/
import AgentMesh.Netip
import AgentMesh.Text
import AgentMesh.Run

namespace AgentMesh

open Netip

/-! ### Policies -/

structure HTTPPolicy where
  requireHTTPS : Bool := false
  allowPrivate : Bool := false
  allowLoopback : Bool := false
  allowLinkLocal : Bool := false
  allowedHosts : List String := []
  blockedCIDRs : List Prefix := []
  deriving DecidableEq

/-- One round of the first loop of `normalizeHTTPPolicy`. -/
def normalizeAllowedHost (host : String) : Except Err String :=
  let host := toLower (trimSpace host)
  let wildcard := hasPrefix host "*."
  let host := trimPrefix host "*."
  if wildcard ∧ host = "" then .error (errorf "allowed host wildcard requires a suffix")
  else if host = "" ∨ containsAny host "/:@?# \\" then
    .error (errorf ("invalid allowed host " ++ quoted host))
  else .ok (if wildcard then "*." ++ host else host)

/-- The second loop. -/
def normalizeBlockedCIDRs (index : Nat) : List Prefix → Except Err (List Prefix)
  | [] => .ok []
  | p :: rest =>
      if p.isValid = false then
        .error (errorf ("invalid blocked CIDR at index " ++ toString index))
      else do
        let rest ← normalizeBlockedCIDRs (index + 1) rest
        return p.masked :: rest

def normalizeHTTPPolicy (policy : HTTPPolicy) : Except Err HTTPPolicy := do
  let allowedHosts ← policy.allowedHosts.mapM normalizeAllowedHost
  let blockedCIDRs ← normalizeBlockedCIDRs 0 policy.blockedCIDRs
  return { policy with allowedHosts, blockedCIDRs }

/-- An error of the policy. -/
def deniedBy (text : String) : Err := Sentinel.networkPolicy.errWith (": " ++ text)

def hostAllowed (host : String) (allowed : List String) : Bool :=
  allowed.any fun candidate =>
    if hasPrefix candidate "*." then
      let ending := trimPrefix candidate "*"
      hasSuffix host ending && host ≠ trimPrefix ending "."
    else host = candidate

def HTTPPolicy.validateAddress (policy : HTTPPolicy) (address : Addr) : Except Err Unit :=
  let address := address.unmap
  if policy.blockedCIDRs.any fun p => p.contains address then
    .error (deniedBy "address is in a blocked CIDR")
  else if (address.isLinkLocalUnicast ∨ address.isLinkLocalMulticast)
      ∧ policy.allowLinkLocal = false then
    .error (deniedBy "link-local address is disabled")
  else if address.isLoopback ∧ policy.allowLoopback = false then
    .error (deniedBy "loopback address is disabled")
  else if address.isPrivate ∧ policy.allowPrivate = false then
    .error (deniedBy "private address is disabled")
  else .ok ()

/-- The host as `validateHost` compares and parses it. -/
def hostText (host : String) : String := toLower (trimSuffix (trimSpace host) ".")

def HTTPPolicy.validateHost (policy : HTTPPolicy) (host : String) : Except Err Unit :=
  let host := hostText host
  if host = "" then .error (deniedBy "endpoint hostname is empty")
  else if policy.allowedHosts ≠ [] ∧ hostAllowed host policy.allowedHosts = false then
    .error (deniedBy "hostname is not allowed")
  else
    match parseAddr host with
    | some address => policy.validateAddress address
    | none => .ok ()

/-! ### Dialing -/

/-- `net.SplitHostPort`: the port starts after the last colon, and a host with colons stands in
brackets. -/
def splitHostPort (hostport : String) : Option (String × String) :=
  let s := hostport.toList
  let port := (s.reverse.takeWhile (· ≠ ':')).reverse
  match (s.reverse.dropWhile (· ≠ ':')).reverse.dropLast with
  | '[' :: inner =>
      match inner.span (· ≠ ']') with
      | (host, [_]) =>
          if '[' ∈ host ∨ '[' ∈ port ∨ ']' ∈ port then none
          else some (String.ofList host, String.ofList port)
      | _ => none
  | host =>
      if ':' ∉ s ∨ ':' ∈ host ∨ '[' ∈ host ∨ ']' ∈ host ∨ '[' ∈ port ∨ ']' ∈ port then none
      else some (String.ofList host, String.ofList port)

/-- A host and a port without colons and brackets, joined by a colon. -/
theorem splitHostPort_joined {host port : String}
    (hhost : ':' ∉ host.toList ∧ '[' ∉ host.toList ∧ ']' ∉ host.toList)
    (hport : ':' ∉ port.toList ∧ '[' ∉ port.toList ∧ ']' ∉ port.toList) :
    splitHostPort (host ++ ":" ++ port) = some (host, port) := by
  have htext : (host ++ ":" ++ port).toList = host.toList ++ ':' :: port.toList := by
    rw [String.toList_append, String.toList_append, List.append_assoc]
    rfl
  have hne : ∀ c ∈ port.toList.reverse, decide (c ≠ ':') = true := fun c hc =>
    decide_eq_true fun hcolon => hport.1 (hcolon ▸ List.mem_reverse.mp hc)
  have hreverse : (host.toList ++ ':' :: port.toList).reverse
      = port.toList.reverse ++ ':' :: host.toList.reverse := by simp
  have hafter : (((host.toList ++ ':' :: port.toList).reverse.takeWhile (· ≠ ':')).reverse)
      = port.toList := by
    rw [hreverse, List.takeWhile_append_of_pos hne, List.takeWhile_cons_of_neg (by simp)]
    simp
  have hbefore : ((host.toList ++ ':' :: port.toList).reverse.dropWhile (· ≠ ':')).reverse.dropLast
      = host.toList := by
    rw [hreverse, List.dropWhile_append_of_pos hne, List.dropWhile_cons_of_neg (by simp)]
    simp
  simp only [splitHostPort, htext, hafter, hbefore]
  split
  · rename_i inner hinner
    exact absurd (hinner ▸ List.mem_cons_self) hhost.2.1
  · rw [if_neg]
    · rw [String.ofList_toList, String.ofList_toList]
    · simp [hhost, hport]

/-- The resolver and the network. -/
structure Net where
  lookup : String → Except Err (List Addr)
  /-- `baseDial` to an address and a port; without an error there is a connection. -/
  dial : Addr → String → Option Err

/-- `LookupNetIP`; the addresses come from `LookupIP`, whose results have no zones. -/
def Net.lookupNetIP (net : Net) (host : String) : Except Err (List Addr) :=
  (net.lookup host).map fun addresses => addresses.map Addr.withoutZone

/-- `errors.Join`. -/
def joinErrors (errs : List Err) : Err :=
  ⟨errs.findSome? Err.sentinel, String.intercalate "\n" (errs.map Err.text)⟩

section Dial

variable (policy : HTTPPolicy) (net : Net)

/-- The loop over the candidates: the addresses that were dialed, and the connection. -/
def dialCandidates (host port : String) (dialErrors : List Err) :
    List Addr → List Addr × Except Err Addr
  | [] =>
      ([], .error (if dialErrors = [] then errorf ("resolve " ++ host ++ ": no addresses")
        else joinErrors dialErrors))
  | candidate :: rest =>
      match policy.validateAddress candidate with
      | .error err => dialCandidates host port (dialErrors ++ [err]) rest
      | .ok () =>
          match net.dial candidate port with
          | none => ([candidate], .ok candidate)
          | some err =>
              let (dialed, connection) := dialCandidates host port (dialErrors ++ [err]) rest
              (candidate :: dialed, connection)

/-- The `DialContext` of `secureTransport`. -/
def dialContext (address : String) : List Addr × Except Err Addr :=
  match splitHostPort address with
  | none => ([], .error (deniedBy "invalid dial address"))
  | some (host, port) =>
      match net.lookupNetIP host with
      | .error err => ([], .error err)
      | .ok addresses => dialCandidates policy net host port [] addresses

end Dial

/-! ### What is refused -/

section Refusal

variable {policy raw : HTTPPolicy} {net : Net} {a : Addr} {p : Prefix}

/-- Only acceptable addresses are dialed. -/
theorem mem_dialCandidates {host port : String} {dialErrors : List Err} {candidates : List Addr}
    (h : a ∈ (dialCandidates policy net host port dialErrors candidates).1) :
    a ∈ candidates ∧ policy.validateAddress a = .ok () := by
  induction candidates generalizing dialErrors with
  | nil => cases h
  | cons candidate rest ih =>
      simp only [dialCandidates] at h
      rcases hvalid : policy.validateAddress candidate with err | ⟨⟩
      · simp only [hvalid] at h
        exact ⟨List.mem_cons_of_mem _ (ih h).1, (ih h).2⟩
      · simp only [hvalid] at h
        rcases hdial : net.dial candidate port with - | err
        · simp only [hdial, List.mem_singleton] at h
          subst h
          exact ⟨List.mem_cons_self, hvalid⟩
        · simp only [hdial] at h
          rcases List.mem_cons.mp h with rfl | h
          · exact ⟨List.mem_cons_self, hvalid⟩
          · exact ⟨List.mem_cons_of_mem _ (ih h).1, (ih h).2⟩

/-- An address that is dialed came from the resolver and is acceptable. -/
theorem mem_dialContext {address : String} (h : a ∈ (dialContext policy net address).1) :
    a.zone = "" ∧ policy.validateAddress a = .ok () := by
  rw [dialContext] at h
  split at h
  · cases h
  · split at h
    · cases h
    · rename_i addresses hlookup
      obtain ⟨hmem, hvalid⟩ := mem_dialCandidates h
      refine ⟨?_, hvalid⟩
      rw [Net.lookupNetIP] at hlookup
      rcases hresolved : net.lookup _ with err | found
      · rw [hresolved] at hlookup
        cases hlookup
      · rw [hresolved] at hlookup
        obtain rfl := Except.ok.inj hlookup
        obtain ⟨b, -, rfl⟩ := List.mem_map.mp hmem
        cases b <;> rfl

theorem connection_mem_dialCandidates {host port : String} {dialErrors : List Err}
    {candidates : List Addr}
    (h : (dialCandidates policy net host port dialErrors candidates).2 = .ok a) :
    a ∈ (dialCandidates policy net host port dialErrors candidates).1 := by
  induction candidates generalizing dialErrors with
  | nil => cases h
  | cons candidate rest ih =>
      simp only [dialCandidates] at h ⊢
      rcases hvalid : policy.validateAddress candidate with err | ⟨⟩
      · simp only [hvalid] at h ⊢
        exact ih h
      · simp only [hvalid] at h ⊢
        rcases hdial : net.dial candidate port with - | err
        · simp only [hdial] at h ⊢
          obtain rfl := Except.ok.inj h
          exact List.mem_cons_self
        · simp only [hdial] at h ⊢
          exact List.mem_cons_of_mem _ (ih h)

/-- A connection is to an address that was dialed. -/
theorem connection_mem_dialContext {address : String}
    (h : (dialContext policy net address).2 = .ok a) : a ∈ (dialContext policy net address).1 := by
  rw [dialContext] at h ⊢
  split at h
  · cases h
  · split at h
    · cases h
    · exact connection_mem_dialCandidates h

theorem mem_normalizeBlockedCIDRs {index : Nat} {prefixes result : List Prefix}
    (h : normalizeBlockedCIDRs index prefixes = .ok result) (hp : p ∈ prefixes) :
    p.masked ∈ result := by
  induction prefixes generalizing index result with
  | nil => cases hp
  | cons first rest ih =>
      simp only [normalizeBlockedCIDRs] at h
      split at h
      · cases h
      · rcases hrest : normalizeBlockedCIDRs (index + 1) rest with err | tail
        · rw [hrest] at h
          cases h
        · rw [hrest] at h
          obtain rfl := Except.ok.inj h
          rcases List.mem_cons.mp hp with rfl | hp
          · exact List.mem_cons_self
          · exact List.mem_cons_of_mem _ (ih hrest hp)

/-- An accepted policy blocks what was configured. -/
theorem masked_mem_of_normalize (h : normalizeHTTPPolicy raw = .ok policy)
    (hp : p ∈ raw.blockedCIDRs) : p.masked ∈ policy.blockedCIDRs := by
  rw [normalizeHTTPPolicy] at h
  rcases hhosts : raw.allowedHosts.mapM normalizeAllowedHost with err | hosts
  · rw [hhosts] at h
    cases h
  · rcases hblocked : normalizeBlockedCIDRs 0 raw.blockedCIDRs with err | blocked
    · rw [hhosts, hblocked] at h
      cases h
    · rw [hhosts, hblocked] at h
      obtain rfl := Except.ok.inj h
      exact mem_normalizeBlockedCIDRs hblocked hp

theorem validateAddress_of_contains (hp : p ∈ policy.blockedCIDRs)
    (h : p.contains a.unmap = true) : policy.validateAddress a ≠ .ok () := by
  rw [HTTPPolicy.validateAddress, if_pos (List.any_eq_true.mpr ⟨p, hp, h⟩)]
  intro hok
  cases hok

/-- A policy that blocks one prefix and nothing else. -/
def blocking (p : Prefix) : HTTPPolicy :=
  { allowPrivate := true, allowLoopback := true, allowLinkLocal := true, blockedCIDRs := [p] }

theorem normalize_blocking (hp : p.isValid = true) :
    normalizeHTTPPolicy (blocking p) = .ok (blocking p.masked) := by
  simp only [normalizeHTTPPolicy, blocking, normalizeBlockedCIDRs, hp]
  rfl

theorem blocking_validateAddress (h : p.contains a.unmap = false) :
    (blocking p).validateAddress a = .ok () := by
  simp [HTTPPolicy.validateAddress, blocking, h]

/-- The policy refuses an address: no text that is read as the address is a valid host, and the
address is never dialed. -/
def Refuses (policy : HTTPPolicy) (a : Addr) : Prop :=
  (∀ host, parseAddr (hostText host) = some a → policy.validateHost host ≠ .ok ()) ∧
    ∀ net address, a ∉ (dialContext policy net address).1

theorem refuses_of_validateAddress (h : policy.validateAddress a ≠ .ok ()) :
    Refuses policy a := by
  refine ⟨fun host hhost hok => ?_, fun net address hmem => h (mem_dialContext hmem).2⟩
  rw [HTTPPolicy.validateHost] at hok
  split at hok
  · cases hok
  · split at hok
    · cases hok
    · rw [hhost] at hok
      exact h hok

/-- Without a list of hosts, the address decides. -/
theorem validateHost_of_address {host : String} (hallowed : policy.allowedHosts = [])
    (hhost : parseAddr (hostText host) = some a) (h : policy.validateAddress a = .ok ()) :
    policy.validateHost host = .ok () := by
  have hne : hostText host ≠ "" := by
    intro hempty
    have hnone : parseAddr "" = none := by decide
    rw [hempty, hnone] at hhost
    cases hhost
  simp only [HTTPPolicy.validateHost, hne, if_false, hallowed, ne_eq, not_true_eq_false, false_and,
    hhost, h]

/-- A resolver that knows one address, and a network in which it answers. -/
def reachable (a : Addr) : Net where
  lookup _ := .ok [a]
  dial _ _ := none

theorem dialContext_reachable {address host port : String}
    (hsplit : splitHostPort address = some (host, port)) (hzone : a.zone = "")
    (h : policy.validateAddress a = .ok ()) :
    dialContext policy (reachable a) address = ([a], .ok a) := by
  have hself : a.withoutZone = a := by
    cases a with
    | v4 bits => rfl
    | v6 bits zone => exact congrArg (Addr.v6 bits) hzone.symm
  have hlookup : (reachable a).lookupNetIP host = .ok [a] := by
    rw [Net.lookupNetIP, reachable, Except.map, List.map_singleton, hself]
  simp only [dialContext, hsplit, hlookup, dialCandidates, h]
  rfl

end Refusal

/-- `10.0.0.0/8`. -/
def privateNet : Prefix where
  ip := .v4 0x0a000000#32
  bits := some 8
  zoneless := rfl
  fits := by decide

/-- The same network in the mapped form, `::ffff:10.0.0.0/104`. -/
def privateNet6 : Prefix where
  ip := .v6 0xffff0a000000#128 ""
  bits := some 104
  zoneless := rfl
  fits := by decide

/-- `2001:db8::/32`. -/
def documentationNet : Prefix where
  ip := .v6 0x20010db8000000000000000000000000#128 ""
  bits := some 32
  zoneless := rfl
  fits := by decide

end AgentMesh
