/-
AgentMesh/Agent.lean

Agents: the record of `internal/domain/agent.go` with its validation, the
runtime an Agent resolves to (`internal/runtime/resolver.go`), the canonical
form of the capabilities that an Agent has or a request may require
(`internal/router/router.go`), and its health (`internal/agenthealth`).

Whether a text is an absolute URI for `url.Parse` is a parameter.
-/
import AgentMesh.Text
import AgentMesh.Run

namespace AgentMesh

structure Agent where
  id : String
  name : String := ""
  systemPrompt : String := ""
  runtime : String := ""
  protocol : String := ""
  endpoint : String := ""
  model : String := ""
  capabilities : List String := []
  effectIdempotency : String := ""
  maxConcurrency : Int := 0
  priority : Int := 0
  createdAt : Time := 0
  updatedAt : Time := 0
  version : Int := 0
  deriving DecidableEq, Repr

/-! ### Runtime resolution -/

def demoRuntime : String := "demo"

/-- `Registry.Resolve`, over the names registered with the registry. -/
def resolveRuntime (runtimes : List String) (agent : Agent) : Except Err String :=
  let name := toLower (trimSpace agent.runtime)
  let name := if name = "" then demoRuntime else name
  if name ∈ runtimes then .ok name
  else .error (Sentinel.unknownRuntime.errWith (" " ++ quoted name))

/-! ### Capabilities -/

def isCapabilityChar (c : Char) : Bool :=
  ('a' ≤ c && c ≤ 'z') || ('0' ≤ c && c ≤ '9') || c == '.'

def isCapabilitySeparator (c : Char) : Bool :=
  c == '-' || c == '_' || c == ' ' || c == '\t' || c == '\n' || c == '\r'

/-- The loop of `NormalizeCapability`: what is written so far, and whether a
separator is due before the next character. -/
def normalizeCapabilityChars : List Char → Bool → List Char → Option (List Char)
  | normalized, _, [] => some normalized
  | normalized, separator, c :: rest =>
      if isCapabilityChar c then
        if separator ∧ normalized ≠ [] then
          normalizeCapabilityChars (normalized ++ ['-', c]) false rest
        else normalizeCapabilityChars (normalized ++ [c]) false rest
      else if isCapabilitySeparator c then
        normalizeCapabilityChars normalized (normalized ≠ []) rest
      else none

def normalizeCapability (value : String) : Except Err String :=
  let value := toLower (trimSpace value)
  match normalizeCapabilityChars [] false value.toList with
  | none => .error (errorf ("capability " ++ quoted value
      ++ " must contain only letters, numbers, dots, hyphens, underscores or spaces"))
  | some [] => .error (errorf "capabilities cannot contain blank values")
  | some (c :: cs) => .ok (String.ofList (c :: cs))

/-- The capability loop of `NormalizeAndValidate`. -/
def normalizeCapabilities (result : List String) : List String → Except Err (List String)
  | [] => .ok result
  | capability :: rest =>
      match normalizeCapability capability with
      | .error err => .error err
      | .ok normalized =>
          if normalized ∈ result then normalizeCapabilities result rest
          else normalizeCapabilities (result ++ [normalized]) rest

/-- The loop of `NormalizeRequirements`. -/
def normalizeRequirementsFrom (result : List String) : List String → Except Err (List String)
  | [] => .ok result
  | capability :: rest =>
      match normalizeCapability capability with
      | .error err => .error (Sentinel.invalidRequirements.errWith (": " ++ err.text))
      | .ok normalized =>
          if normalized ∈ result then normalizeRequirementsFrom result rest
          else normalizeRequirementsFrom (result ++ [normalized]) rest

def normalizeRequirements (required : List String) : Except Err (List String) :=
  if required = [] then
    .error (Sentinel.invalidRequirements.errWith ": at least one required capability is required")
  else normalizeRequirementsFrom [] required

/-! ### Canonical forms -/

/-- The characters of canonical capabilities are neither white space nor upper case. -/
theorem plain_of_capability {c : Char} (h : isCapabilityChar c = true ∨ c = '-') :
    isSpace c = false ∧ toLowerRune c = c := by
  have hrange : (97 ≤ c.toNat ∧ c.toNat ≤ 122) ∨ (48 ≤ c.toNat ∧ c.toNat ≤ 57) ∨
      c.toNat = 46 ∨ c.toNat = 45 := by
    rcases h with h | rfl
    · simp only [isCapabilityChar, Bool.or_eq_true, Bool.and_eq_true, decide_eq_true_eq,
        beq_iff_eq] at h
      rcases h with (⟨h1, h2⟩ | ⟨h1, h2⟩) | rfl
      · exact .inl ⟨h1, h2⟩
      · exact .inr (.inl ⟨h1, h2⟩)
      · exact .inr (.inr (.inl rfl))
    · exact .inr (.inr (.inr rfl))
  exact plain_of_ascii (by omega) (by omega)

/-- What the loop has written, it would read and write again. -/
structure Written (normalized : List Char) : Prop where
  plain : ∀ c ∈ normalized, isCapabilityChar c = true ∨ c = '-'
  again : ∀ rest, normalizeCapabilityChars [] false (normalized ++ rest)
    = normalizeCapabilityChars normalized false rest

section Canonical

variable {normalized result : List Char} {c : Char}

theorem Written.snoc (h : Written normalized) (hc : isCapabilityChar c = true) :
    Written (normalized ++ [c]) := by
  refine ⟨?_, ?_⟩
  · intro d hd
    rcases List.mem_append.mp hd with hd | hd
    · exact h.plain d hd
    · exact .inl (List.mem_singleton.mp hd ▸ hc)
  · intro rest
    rw [List.append_assoc, List.singleton_append, h.again, normalizeCapabilityChars, if_pos hc,
      if_neg (by simp)]

theorem Written.separated (h : Written normalized) (hne : normalized ≠ [])
    (hc : isCapabilityChar c = true) : Written (normalized ++ ['-', c]) := by
  have hdash : isCapabilityChar '-' = false := rfl
  have hsep : isCapabilitySeparator '-' = true := rfl
  refine ⟨?_, ?_⟩
  · intro d hd
    rcases List.mem_append.mp hd with hd | hd
    · exact h.plain d hd
    · rcases List.mem_cons.mp hd with rfl | hd
      · exact .inr rfl
      · exact .inl (List.mem_singleton.mp hd ▸ hc)
  · intro rest
    rw [List.append_assoc, List.cons_append, List.singleton_append, h.again,
      normalizeCapabilityChars, if_neg (by simp [hdash]), if_pos hsep, normalizeCapabilityChars,
      if_pos hc, if_pos ⟨by simpa using hne, hne⟩]

theorem Written.loop {separator : Bool} {cs : List Char} (h : Written normalized)
    (hloop : normalizeCapabilityChars normalized separator cs = some result) : Written result := by
  induction cs generalizing normalized separator with
  | nil => exact Option.some.inj hloop ▸ h
  | cons c rest ih =>
      rw [normalizeCapabilityChars] at hloop
      split at hloop
      case isTrue hc =>
        split at hloop
        case isTrue hsep => exact ih (h.separated hsep.2 hc) hloop
        case isFalse => exact ih (h.snoc hc) hloop
      case isFalse =>
        split at hloop
        · exact ih h hloop
        · cases hloop

/-- The empty text is no capability. -/
theorem normalizeCapability_ne_empty {value normalized : String}
    (h : normalizeCapability value = .ok normalized) : value ≠ "" := by
  rintro rfl
  cases h

/-- A canonical capability is its own canonical form. -/
theorem normalizeCapability_self {value normalized : String}
    (h : normalizeCapability value = .ok normalized) :
    normalizeCapability normalized = .ok normalized := by
  rw [normalizeCapability] at h
  split at h
  · cases h
  · cases h
  · rename_i c cs hloop
    obtain rfl := Except.ok.inj h
    have hwritten : Written (c :: cs) := Written.loop ⟨by simp, fun _ => rfl⟩ hloop
    have hplain : ∀ d ∈ c :: cs, isSpace d = false ∧ toLowerRune d = d :=
      fun d hd => plain_of_capability (hwritten.plain d hd)
    have hsettled : toLower (trimSpace (String.ofList (c :: cs))) = String.ofList (c :: cs) :=
      toLower_trimSpace_of_plain (by simpa using hplain)
    have hagain := hwritten.again []
    rw [List.append_nil, normalizeCapabilityChars] at hagain
    simp only [normalizeCapability, hsettled, String.toList_ofList, hagain]

theorem normalizeRequirementsFrom_self {result required result' : List String}
    (h : normalizeRequirementsFrom result required = .ok result')
    (hagain : ∀ rest, normalizeRequirementsFrom [] (result ++ rest)
      = normalizeRequirementsFrom result rest) :
    ∀ rest, normalizeRequirementsFrom [] (result' ++ rest)
      = normalizeRequirementsFrom result' rest := by
  induction required generalizing result with
  | nil => exact Except.ok.inj h ▸ hagain
  | cons capability rest ih =>
      rw [normalizeRequirementsFrom] at h
      split at h
      · cases h
      · rename_i normalized hnormalized
        split at h
        · exact ih h hagain
        · rename_i hnew
          refine ih h fun rest' => ?_
          rw [List.append_assoc, List.singleton_append, hagain, normalizeRequirementsFrom,
            normalizeCapability_self hnormalized]
          simp only [if_neg hnew]

theorem normalizeRequirementsFrom_eq_nil {result required : List String}
    (h : normalizeRequirementsFrom result required = .ok []) : result = [] ∧ required = [] := by
  induction required generalizing result with
  | nil => exact ⟨Except.ok.inj h, rfl⟩
  | cons capability rest ih =>
      rw [normalizeRequirementsFrom] at h
      split at h
      · cases h
      · split at h
        case isTrue hmem =>
          rw [(ih h).1] at hmem
          cases hmem
        case isFalse => simpa using (ih h).1

/-- Canonical requirements are not empty, and their own canonical form. -/
theorem normalizeRequirements_self {required result : List String}
    (h : normalizeRequirements required = .ok result) :
    result ≠ [] ∧ normalizeRequirements result = .ok result := by
  rw [normalizeRequirements] at h
  split at h
  · cases h
  · rename_i hrequired
    have hne : result ≠ [] := by
      rintro rfl
      exact hrequired (normalizeRequirementsFrom_eq_nil h).2
    have hagain := normalizeRequirementsFrom_self h (fun _ => rfl) []
    rw [List.append_nil, normalizeRequirementsFrom] at hagain
    exact ⟨hne, by rw [normalizeRequirements, if_neg hne, hagain]⟩

end Canonical

/-! ### Validation -/

def isIdentifierChar (c : Char) : Bool :=
  ('a' ≤ c && c ≤ 'z') || ('0' ≤ c && c ≤ '9') || c == '-' || c == '_' || c == '.'

def normalizeAgentIdentifier (field value : String) : Except Err String :=
  let value := toLower (trimSpace value)
  if value = "" then .ok ""
  else if value.toList.all isIdentifierChar then .ok value
  else .error (errorf
    (field ++ " must contain only lowercase letters, numbers, hyphens, underscores or dots"))

theorem normalizeAgentIdentifier_empty (field : String) :
    normalizeAgentIdentifier field "" = .ok "" := by
  rw [normalizeAgentIdentifier, if_pos (by decide)]

def effectIdempotencyRequired : String := "required"

section Validation

variable (absoluteURI : String → Bool)

def Agent.normalizeAndValidate (a : Agent) : Except Err Agent := do
  let a := { a with
    id := trimSpace a.id, name := trimSpace a.name, systemPrompt := trimSpace a.systemPrompt
    runtime := toLower (trimSpace a.runtime), protocol := toLower (trimSpace a.protocol)
    endpoint := trimSpace a.endpoint, model := trimSpace a.model
    effectIdempotency := toLower (trimSpace a.effectIdempotency) }
  if a.id = "" then throw (errorf "agent id is required")
  if a.name = "" then throw (errorf "agent name is required")
  let _ ← normalizeAgentIdentifier "runtime" a.runtime
  let _ ← normalizeAgentIdentifier "protocol" a.protocol
  if a.protocol ≠ "" ∧ a.runtime = "" then throw (errorf "protocol requires runtime")
  if a.endpoint ≠ "" then
    if a.runtime = "" ∨ a.protocol = "" then
      throw (errorf "endpoint requires runtime and protocol")
    if ¬ absoluteURI a.endpoint then throw (errorf "endpoint must be an absolute URI")
  if a.model ≠ "" ∧ (a.runtime = "" ∨ a.protocol = "") then
    throw (errorf "model requires runtime and protocol")
  if a.effectIdempotency ≠ "" ∧ a.effectIdempotency ≠ effectIdempotencyRequired then
    throw (errorf ("effect_idempotency must be empty or " ++ quoted effectIdempotencyRequired))
  if a.effectIdempotency ≠ "" ∧ (a.runtime = "" ∨ a.protocol = "") then
    throw (errorf "effect_idempotency requires runtime and protocol")
  if a.maxConcurrency < 0 then throw (errorf "max_concurrency cannot be negative")
  if a.priority < -1000 ∨ 1000 < a.priority then
    throw (errorf "priority must be between -1000 and 1000")
  let capabilities ← normalizeCapabilities [] a.capabilities
  return { a with capabilities := capabilities }

def Agent.initializeForCreate (a : Agent) (now : Time) : Except Err Agent := do
  let a ← a.normalizeAndValidate absoluteURI
  let createdAt := if a.createdAt = 0 then now else a.createdAt
  let a := { a with
    createdAt := createdAt
    updatedAt := if a.updatedAt = 0 then createdAt else a.updatedAt
    version := if a.version = 0 then 1 else a.version }
  if a.version ≠ 1 then throw (errorf "new agent version must be 1")
  return a

end Validation

/-! ### Health -/

/-- `agenthealth.Status`. -/
inductive HealthStatus
  | unknown
  | healthy
  | unhealthy
  deriving DecidableEq, Repr

def HealthStatus.text : HealthStatus → String
  | .unknown => "unknown"
  | .healthy => "healthy"
  | .unhealthy => "unhealthy"

end AgentMesh
