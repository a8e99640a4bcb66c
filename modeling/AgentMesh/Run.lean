/-
AgentMesh/Run.lean

Runs: the record of `internal/domain/run.go` and its state machine, and the
errors that the store, the engine and the workflow manager return.

`Start`, `Retry`, `Succeed`, `Fail` and `Cancel` are methods that change their
receiver or return an error; here they return the changed Run or the error.
Times are nanoseconds since the zero `time.Time`, so the zero time is `0`.
-/
import Mathlib.Algebra.Ring.Int.Defs
import Mathlib.Order.Basic

namespace AgentMesh

/-! ### Errors -/

/-- The error values that the code tells apart with `errors.Is`. -/
inductive Sentinel
  | notFound
  | conflict
  | runCanceled
  | staleExecution
  | runNotExecutable
  | runNotCancelable
  | workflowNotCancelable
  | attemptTimeout
  | runtimePanic
  | leaseRenewal
  | unknownRuntime
  | invalidRequirements
  | contextCanceled
  | childRunLimit
  | agentInUse
  | approvalNotPending
  | approvalNotApproved
  | approvalExpired
  | approvalMismatch
  | mcpServerNotFound
  | mcpToolDenied
  | mcpTimeout
  | leaseLost
  | invalidLeaseTTL
  | queueFull
  | invalidQuery
  | noCandidate
  | noCapacity
  | networkPolicy
  deriving DecidableEq, Repr

/-- The text of a sentinel error. -/
def Sentinel.text : Sentinel → String
  | .notFound => "not found"
  | .conflict => "concurrent update conflict"
  | .runCanceled => "run was canceled"
  | .staleExecution => "stale run execution fence"
  | .runNotExecutable => "run is not executable"
  | .runNotCancelable => "run cannot be canceled"
  | .workflowNotCancelable => "workflow cannot be canceled"
  | .attemptTimeout => "run attempt timed out"
  | .runtimePanic => "runtime panic"
  | .leaseRenewal => "run lease renewal failed"
  | .unknownRuntime => "unknown agent runtime"
  | .invalidRequirements => "invalid routing requirements"
  | .contextCanceled => "context canceled"
  | .childRunLimit => "parent Run child limit reached"
  | .agentInUse => "agent has dependent runs"
  | .approvalNotPending => "approval is not pending"
  | .approvalNotApproved => "approval is not approved"
  | .approvalExpired => "approval expired"
  | .approvalMismatch => "approval does not match tool call"
  | .mcpServerNotFound => "MCP server not found"
  | .mcpToolDenied => "MCP tool denied by policy"
  | .mcpTimeout => "MCP tool call timed out"
  | .leaseLost => "lease ownership lost"
  | .invalidLeaseTTL => "lease TTL must be positive"
  | .queueFull => "run queue is full"
  | .invalidQuery => "invalid Agent discovery query"
  | .noCandidate => "no Agent matches the required capabilities"
  | .noCapacity => "all matching Agents are at routing capacity"
  | .networkPolicy => "HTTP runtime network policy denied endpoint"

/-- An error: its text, and the sentinel that it is or wraps, if any. -/
structure Err where
  sentinel : Option Sentinel
  text : String
  deriving DecidableEq, Repr

/-- A sentinel error itself. -/
def Sentinel.err (e : Sentinel) : Err := ⟨some e, e.text⟩

/-- `fmt.Errorf("%w" ++ after, e)`. -/
def Sentinel.errWith (e : Sentinel) (after : String) : Err := ⟨some e, e.text ++ after⟩

/-- An error made by `fmt.Errorf` that wraps no other. -/
def errorf (text : String) : Err := ⟨none, text⟩

/-- `fmt.Errorf(context ++ "%w", err)`. -/
def Err.wrap (err : Err) (context : String) : Err := { err with text := context ++ err.text }

/-- `errors.Is`. -/
def Err.is (err : Err) (e : Sentinel) : Bool := err.sentinel == some e

@[simp] theorem Sentinel.err_is (e e' : Sentinel) : e.err.is e' = decide (e = e') := by
  by_cases h : e = e' <;> simp [Sentinel.err, Err.is, h]

@[simp] theorem Sentinel.errWith_is (e e' : Sentinel) (t : String) :
    (e.errWith t).is e' = decide (e = e') := by
  by_cases h : e = e' <;> simp [Sentinel.errWith, Err.is, h]

@[simp] theorem errorf_is (t : String) (e : Sentinel) : (errorf t).is e = false := rfl

/-! ### The Run record -/

abbrev Time := Int

/-- The status of a Run; `unset` is the zero value of the Go string type. -/
inductive RunStatus
  | unset
  | queued
  | running
  | succeeded
  | failed
  | canceled
  deriving DecidableEq, Repr, Inhabited

def RunStatus.text : RunStatus → String
  | .unset => ""
  | .queued => "queued"
  | .running => "running"
  | .succeeded => "succeeded"
  | .failed => "failed"
  | .canceled => "canceled"

structure Run where
  id : String := ""
  agentID : String := ""
  parentRunID : String := ""
  rootRunID : String := ""
  requiredCapabilities : List String := []
  input : String := ""
  output : String := ""
  status : RunStatus := .unset
  error : String := ""
  attempt : Int := 0
  maxAttempts : Int := 0
  requestID : String := ""
  durationMS : Int := 0
  createdAt : Time := 0
  startedAt : Option Time := none
  completedAt : Option Time := none
  deriving DecidableEq, Repr, Inhabited

/-- A Run in one of its three final statuses. -/
def Run.IsTerminal (r : Run) : Prop :=
  r.status = .succeeded ∨ r.status = .failed ∨ r.status = .canceled

instance (r : Run) : Decidable r.IsTerminal := by
  unfold Run.IsTerminal; infer_instance

/-- A Run that can still be executed or canceled. -/
def Run.IsActive (r : Run) : Prop := r.status = .queued ∨ r.status = .running

instance (r : Run) : Decidable r.IsActive := by
  unfold Run.IsActive; infer_instance

/-! ### The state machine -/

/-- `time.Duration` holds at most `2^63 - 1` nanoseconds, and `Sub` saturates there. -/
def maxDuration : Int := 2 ^ 63 - 1

def Run.durationMilliseconds (r : Run) (completedAt : Time) : Int :=
  let startedAt := r.startedAt.getD r.createdAt
  if startedAt = 0 ∨ completedAt < startedAt then 0
  else min (completedAt - startedAt) maxDuration / 1000000

/-- Lineage is assigned from a parent that already exists.  Root Runs keep both
lineage fields empty; descendants always point at the top root. -/
def Run.attachTo (r parent : Run) : Except Err Run :=
  if r.id = "" then .error (errorf "run id is required before assigning a parent")
  else if parent.id = "" then .error (errorf "parent run id is required")
  else if parent.id = r.id then .error (errorf "run cannot be its own parent")
  else if parent.parentRunID = "" then
    if parent.rootRunID ≠ "" then .error (errorf "root parent cannot declare root_run_id")
    else .ok { r with parentRunID := parent.id, rootRunID := parent.id }
  else if parent.rootRunID = "" then .error (errorf "parent run lineage is incomplete")
  else if parent.rootRunID = r.id then .error (errorf "run cannot be its own root")
  else .ok { r with parentRunID := parent.id, rootRunID := parent.rootRunID }

/-- The attempt limit that `Start` and `Retry` enforce. -/
def Run.Exhausted (r : Run) : Prop := 0 < r.maxAttempts ∧ r.maxAttempts ≤ r.attempt

instance (r : Run) : Decidable r.Exhausted := by
  unfold Run.Exhausted; infer_instance

def Run.exhaustedError (r : Run) : Err :=
  errorf ("run has exhausted " ++ toString r.maxAttempts ++ " attempts")

def Run.start (r : Run) (at_ : Time) : Except Err Run :=
  if r.status ≠ .queued then
    .error (errorf ("cannot transition run from " ++ r.status.text ++ " to running"))
  else if r.Exhausted then .error r.exhaustedError
  else .ok { r with status := .running, startedAt := some at_, attempt := r.attempt + 1 }

def Run.retry (r : Run) : Except Err Run :=
  if r.status ≠ .running then
    .error (errorf ("cannot retry run in status " ++ r.status.text))
  else if r.Exhausted then .error r.exhaustedError
  else .ok { r with attempt := r.attempt + 1 }

def Run.succeed (r : Run) (output : String) (at_ : Time) : Except Err Run :=
  if r.status ≠ .running then
    .error (errorf ("cannot transition run from " ++ r.status.text ++ " to succeeded"))
  else
    .ok { r with
      status := .succeeded, output := output, error := "", completedAt := some at_
      durationMS := r.durationMilliseconds at_ }

/-- `Fail`; the cause is `none` for a nil error. -/
def Run.fail (r : Run) (cause : Option Err) (at_ : Time) : Except Err Run :=
  if r.status ≠ .queued ∧ r.status ≠ .running then
    .error (errorf ("cannot transition run from " ++ r.status.text ++ " to failed"))
  else
    match cause with
    | none => .error (errorf "cannot fail run without an error")
    | some err =>
        .ok { r with
          status := .failed, output := "", error := err.text, completedAt := some at_
          durationMS := r.durationMilliseconds at_ }

def Run.cancel (r : Run) (at_ : Time) : Except Err Run :=
  if r.status ≠ .queued ∧ r.status ≠ .running then
    .error (Sentinel.runNotCancelable.errWith (" from status " ++ r.status.text))
  else
    .ok { r with
      status := .canceled, output := "", error := "", completedAt := some at_
      durationMS := r.durationMilliseconds at_ }

/-! ### What a transition does -/

section Transitions

variable {r r' : Run} {now : Time}

/-- What identifies a Run and what it was asked to do: no transition and no
store write after creation changes any of it. -/
structure Run.SameRequest (r r' : Run) : Prop where
  id : r'.id = r.id
  agentID : r'.agentID = r.agentID
  input : r'.input = r.input
  parentRunID : r'.parentRunID = r.parentRunID
  rootRunID : r'.rootRunID = r.rootRunID
  requiredCapabilities : r'.requiredCapabilities = r.requiredCapabilities

theorem Run.SameRequest.refl (r : Run) : r.SameRequest r := ⟨rfl, rfl, rfl, rfl, rfl, rfl⟩

theorem Run.SameRequest.trans {r₁ r₂ r₃ : Run} (h : r₁.SameRequest r₂) (h' : r₂.SameRequest r₃) :
    r₁.SameRequest r₃ :=
  ⟨h'.id.trans h.id, h'.agentID.trans h.agentID, h'.input.trans h.input,
    h'.parentRunID.trans h.parentRunID, h'.rootRunID.trans h.rootRunID,
    h'.requiredCapabilities.trans h.requiredCapabilities⟩

/-- A lineage check changes nothing but the lineage. -/
theorem Run.attachTo_ok {parent : Run} (h : r.attachTo parent = .ok r') :
    ∃ parentID root, r' = { r with parentRunID := parentID, rootRunID := root } := by
  rw [Run.attachTo] at h
  repeat' split at h
  all_goals cases h
  all_goals exact ⟨_, _, rfl⟩

theorem Run.start_ok (h : r.start now = .ok r') :
    r.status = .queued ∧ ¬ r.Exhausted ∧
      r' = { r with status := .running, startedAt := some now, attempt := r.attempt + 1 } := by
  rw [Run.start] at h
  split at h
  · cases h
  · split at h
    · cases h
    · exact ⟨not_not.mp ‹_›, ‹_›, (Except.ok.inj h).symm⟩

theorem Run.retry_ok (h : r.retry = .ok r') :
    r.status = .running ∧ ¬ r.Exhausted ∧ r' = { r with attempt := r.attempt + 1 } := by
  rw [Run.retry] at h
  split at h
  · cases h
  · split at h
    · cases h
    · exact ⟨not_not.mp ‹_›, ‹_›, (Except.ok.inj h).symm⟩

theorem Run.succeed_ok {output : String} (h : r.succeed output now = .ok r') :
    r.status = .running ∧
      r' = { r with
        status := .succeeded, output := output, error := "", completedAt := some now
        durationMS := r.durationMilliseconds now } := by
  rw [Run.succeed] at h
  split at h
  · cases h
  · exact ⟨not_not.mp ‹_›, (Except.ok.inj h).symm⟩

theorem Run.fail_ok {cause : Option Err} (h : r.fail cause now = .ok r') :
    r.IsActive ∧ ∃ err, cause = some err ∧
      r' = { r with
        status := .failed, output := "", error := err.text, completedAt := some now
        durationMS := r.durationMilliseconds now } := by
  unfold Run.fail at h
  split at h
  · cases h
  · rename_i hs
    rcases cause with - | err
    · cases h
    · exact ⟨by simpa [Run.IsActive, or_iff_not_imp_left] using hs, err, rfl,
        (Except.ok.inj h).symm⟩

theorem Run.cancel_ok (h : r.cancel now = .ok r') :
    r.IsActive ∧
      r' = { r with
        status := .canceled, output := "", error := "", completedAt := some now
        durationMS := r.durationMilliseconds now } := by
  rw [Run.cancel] at h
  split at h
  · cases h
  · rename_i hs
    exact ⟨by simpa [Run.IsActive, or_iff_not_imp_left] using hs, (Except.ok.inj h).symm⟩

theorem Run.IsActive.not_terminal (h : r.IsActive) : ¬ r.IsTerminal := by
  rw [Run.IsActive] at h
  rw [Run.IsTerminal]
  rcases h with h | h <;> simp [h]

end Transitions

end AgentMesh
