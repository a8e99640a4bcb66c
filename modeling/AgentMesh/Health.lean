/-
AgentMesh/Health.lean

The health monitor of `internal/agenthealth/service.go`, with the handlers of
`internal/httpapi/server.go` that change Agents.

A handler that updates or deletes an Agent writes to the store, and only then
tells the monitor to forget what it knows.  A worker probes an Agent, reads it
again from the store, and only then records what it has found, if the Agent
still has the runtime, the protocol and the endpoint that were probed.  Neither
pair of steps is atomic.

If a handler writes and forgets between the two steps of a worker, the worker
records the state of an endpoint that is no longer there, and nothing removes it
until the next probe.  Otherwise what is recorded belongs to the stored Agent,
or a handler is about to remove it.

A recorded state has the Agent that was probed beside it.  This is history that
the monitor does not read.
-/
import AgentMesh.Machine
import AgentMesh.Pointwise
import AgentMesh.Memory
import AgentMesh.Outbound

namespace AgentMesh

open Machine Url Http

/-! ### Probes -/

/-- `agenthealth.State`. -/
structure HealthState where
  agentID : String
  status : HealthStatus
  lastCheckedAt : Option Time := none
  reason : String := ""
  deriving DecidableEq, Repr

/-- `agenthealth.Config`. -/
structure HealthConfig where
  path : String
  interval : Int
  timeout : Int
  workers : Int
  deriving DecidableEq, Repr

/-- `New`, as far as the configuration. -/
def newHealthConfig (config : HealthConfig) : Except Err HealthConfig :=
  let config := if config.path = "" then { config with path := "/healthz" } else config
  let invalidPath : Except Err HealthConfig :=
    .error (errorf "agent health path must be a relative URL path without query or fragment")
  if ¬ hasPrefix config.path "/" ∨ hasPrefix config.path "//" then
    .error (errorf "agent health path must start with /")
  else
    match parse (encode config.path) with
    | none => invalidPath
    | some parsed =>
        if parsed.scheme ≠ [] ∨ parsed.host ≠ [] ∨ parsed.rawQuery ≠ [] ∨ parsed.fragment ≠ [] then
          invalidPath
        else if config.interval ≤ 0 ∨ config.timeout ≤ 0 then
          .error (errorf "agent health interval and timeout must be positive")
        else if config.workers < 1 then .error (errorf "agent health workers must be positive")
        else .ok config

/-- `strings.EqualFold` with a text of small letters that fold with their capitals only. -/
def equalFold (s small : String) : Bool := toLower s = small

def probeable (agent : Agent) : Bool :=
  equalFold (trimSpace agent.runtime) "remote" && equalFold (trimSpace agent.protocol) "http"
    && trimSpace agent.endpoint ≠ ""

def sameTarget (current checked : Agent) : Bool :=
  current.runtime = checked.runtime && current.protocol = checked.protocol
    && current.endpoint = checked.endpoint

def buildHealthURL (endpoint path : String) : Except Err Bytes :=
  match parse (encode (trimSpace endpoint)) with
  | none => .error (errorf "invalid endpoint")
  | some parsed =>
      if parsed.host = [] then .error (errorf "invalid endpoint")
      -- the scheme is in lower case as it was parsed
      else if parsed.scheme ≠ encode "http" ∧ parsed.scheme ≠ encode "https" then
        .error (errorf "unsupported endpoint scheme")
      else if parsed.user ≠ none ∨ parsed.rawQuery ≠ [] ∨ parsed.fragment ≠ [] then
        .error (errorf "unsafe endpoint")
      else
        match joinPath parsed.string (encode path) with
        | none => .error (errorf "invalid endpoint")
        | some url => .ok url

/-- What comes back from a probe: an error, by the error of its context, or a response. -/
inductive ProbeAnswer
  | deadlineExceeded
  | canceled
  | failed
  | response (statusCode : Int)
  deriving DecidableEq, Repr

/-- The status and the reason of a probe that was sent. -/
def ProbeAnswer.outcome : ProbeAnswer → HealthStatus × String
  | .deadlineExceeded => (.unhealthy, "timeout")
  | .canceled => (.unhealthy, "canceled")
  | .failed => (.unhealthy, "unreachable")
  | .response statusCode =>
      if statusCode < 200 ∨ 300 ≤ statusCode then
        (.unhealthy, "http_status_" ++ toString statusCode)
      else (.healthy, "")

/-- `check`. -/
def checkAgent (path : String) (agent : Agent) (answer : ProbeAnswer) (checkedAt : Time) :
    HealthState :=
  let invalid : HealthState :=
    { agentID := agent.id, status := .unhealthy, lastCheckedAt := some checkedAt
      reason := "invalid_endpoint" }
  match buildHealthURL agent.endpoint path with
  | .error _ => invalid
  | .ok healthURL =>
      match newRequest healthURL with
      | none => invalid
      | some _ =>
          { agentID := agent.id, status := answer.outcome.1, lastCheckedAt := some checkedAt
            reason := answer.outcome.2 }

/-- A state with the Agent that it was measured on. -/
structure Measured (path : String) where
  target : Agent
  state : HealthState
  checked : ∃ answer checkedAt, state = checkAgent path target answer checkedAt

/-! ### The monitor -/

/-- What a handler, or the scheduler, has still to do with the monitor. -/
inductive MonitorTask
  /-- `Forget`. -/
  | forget (agentID : String)
  /-- `Refresh`. -/
  | refresh (agent : Agent)
  /-- `Refresh` has marked the Agent; it sends to the queue. -/
  | send (agent : Agent)
  /-- The queue was full; `Refresh` takes the mark back. -/
  | unmark (agentID : String)
  deriving DecidableEq, Repr

/-- Where a worker is in its loop. -/
inductive ProbeWorker (path : String)
  /-- Before it receives from the queue. -/
  | ready
  /-- In `check`. -/
  | checking (agent : Agent)
  /-- Before `GetAgent`. -/
  | checked (measured : Measured path)
  /-- Before it takes the lock. -/
  | reloaded (measured : Measured path) (current : Except Err Agent)

/-- The state that a worker is about to record. -/
def ProbeWorker.recording {path : String} : ProbeWorker path → Option (Measured path)
  | .reloaded measured (.ok current) =>
      if sameTarget current measured.target then some measured else none
  | _ => none

/-- `Service` over the store, with its workers and those who call it. -/
structure Monitor (path : String) where
  store : Memory
  /-- The capacity of the queue. -/
  capacity : Nat
  queue : List Agent := []
  states : Table (Measured path) := ∅
  pending : Table Unit := ∅
  workers : List (ProbeWorker path)
  /-- The handlers and the scheduler. -/
  callers : List (List MonitorTask)

/-- A monitor that was just started, and so many callers. -/
def newMonitor (config : HealthConfig) (store : Memory) (callers : Nat) : Monitor config.path :=
  { store, capacity := config.workers.toNat * 64
    workers := List.replicate config.workers.toNat .ready
    callers := List.replicate callers [] }

/-- The requests that reach the monitor, and a round of the scheduler. -/
inductive AgentRequest
  | createAgent (agent : Agent) (now : Time)
  | updateAgent (agent : Agent) (expectedVersion : Int) (now : Time)
  | deleteAgent (id : String) (expectedVersion : Int)
  | getAgentHealth (id : String)
  | refreshAll

/-- The store call of a request, and what is left to do after it.  The reads by which handlers
refuse a request earlier are left out, for they change nothing. -/
def AgentRequest.begin (m : Memory) : AgentRequest → Except Err (Memory × List MonitorTask)
  | .createAgent agent now =>
      (m.createAgent absoluteURI agent now).map fun r => (r.1, [.refresh r.2])
  | .updateAgent agent expectedVersion now =>
      (m.updateAgent absoluteURI agent expectedVersion now).map fun r =>
        (r.1, [.forget r.2.id, .refresh r.2])
  | .deleteAgent id expectedVersion =>
      (m.deleteAgent id expectedVersion).map fun m => (m, [.forget id])
  | .getAgentHealth id => (m.getAgent id).map fun agent => (m, [.refresh agent])
  | .refreshAll => m.listAgents.map fun agents => (m, agents.map .refresh)

namespace Monitor

variable {path : String}

/-- `State`. -/
def state (s : Monitor path) (agentID : String) : HealthState :=
  match s.states.lookup agentID with
  | none => { agentID, status := .unknown }
  | some measured => measured.state

def forget (s : Monitor path) (agentID : String) : Monitor path :=
  { s with states := s.states.erase agentID, pending := s.pending.erase agentID }

/-- A task, up to the next point at which others can come between; and what is left of it. -/
def perform (s : Monitor path) : MonitorTask → Monitor path × List MonitorTask
  | .forget agentID => (s.forget agentID, [])
  | .refresh agent =>
      if probeable agent = false then (s.forget agent.id, [])
      else if (s.pending.lookup agent.id).isSome then (s, [])
      else ({ s with pending := s.pending.insert agent.id () }, [.send agent])
  | .send agent =>
      if s.queue.length < s.capacity then ({ s with queue := s.queue ++ [agent] }, [])
      else (s, [.unmark agent.id])
  | .unmark agentID => ({ s with pending := s.pending.erase agentID }, [])

/-- The locked section at the end of a worker's round. -/
def record (s : Monitor path) (measured : Measured path) (current : Except Err Agent) :
    Monitor path :=
  let s := { s with pending := s.pending.erase measured.target.id }
  match current with
  | .error _ => s
  | .ok current =>
      if sameTarget current measured.target then
        { s with states := s.states.insert measured.target.id measured }
      else s

end Monitor

inductive MonitorAction
  /-- A caller makes the store call of a request. -/
  | begin (caller : Nat) (request : AgentRequest)
  /-- A caller goes on with its tasks. -/
  | perform (caller : Nat)
  /-- A worker receives from the queue. -/
  | receive (worker : Nat)
  /-- The probe of a worker is answered. -/
  | check (worker : Nat) (answer : ProbeAnswer) (checkedAt : Time)
  /-- A worker reads its Agent again. -/
  | reload (worker : Nat)
  | record (worker : Nat)
  /-- Anything else is stored. -/
  | other (store : Memory)

def Monitor.step {path : String} (s : Monitor path) : MonitorAction → Option (Monitor path)
  | .begin caller request =>
      match s.callers[caller]? with
      | some [] =>
          match request.begin s.store with
          | .error _ => some s
          | .ok (store, tasks) => some { s with store, callers := s.callers.set caller tasks }
      | _ => none
  | .perform caller =>
      match s.callers[caller]? with
      | some (task :: rest) =>
          let (s', left) := s.perform task
          some { s' with callers := s'.callers.set caller (left ++ rest) }
      | _ => none
  | .receive worker =>
      match s.workers[worker]?, s.queue with
      | some .ready, agent :: queue =>
          some { s with queue, workers := s.workers.set worker (.checking agent) }
      | _, _ => none
  | .check worker answer checkedAt =>
      match s.workers[worker]? with
      | some (.checking agent) =>
          let measured : Measured path :=
            ⟨agent, checkAgent path agent answer checkedAt, answer, checkedAt, rfl⟩
          some { s with workers := s.workers.set worker (.checked measured) }
      | _ => none
  | .reload worker =>
      match s.workers[worker]? with
      | some (.checked measured) =>
          let current := s.store.getAgent measured.target.id
          some { s with workers := s.workers.set worker (.reloaded measured current) }
      | _ => none
  | .record worker =>
      match s.workers[worker]? with
      | some (.reloaded measured current) =>
          some { s.record measured current with workers := s.workers.set worker .ready }
      | _ => none
  | .other store => some { s with store := { store with agents := s.store.agents } }

/-! ### What is recorded -/

/-- An Agent of the store is there after a store call as it was, unless the caller has now to
tell the monitor about it. -/
theorem AgentRequest.begin_ok {m m' : Memory} {request : AgentRequest} {tasks : List MonitorTask}
    (h : request.begin m = .ok (m', tasks)) {id : String} {current : Agent}
    (hcurrent : m.agents.lookup id = some current) :
    m'.agents.lookup id = some current ∨ .forget id ∈ tasks := by
  cases request with
  | createAgent agent now =>
      rcases hcreate : m.createAgent absoluteURI agent now with err | ⟨m₁, created⟩
      · simp [AgentRequest.begin, hcreate, Except.map] at h
      obtain ⟨habs, hm⟩ := Memory.createAgent_ok hcreate
      simp only [AgentRequest.begin, hcreate, Except.map, Except.ok.injEq, Prod.mk.injEq] at h
      -- the new Agent has an ID that was not taken
      have hne : id ≠ created.id := by
        rintro rfl
        rw [hcurrent] at habs
        cases habs
      left
      rw [← h.1, hm, AList.lookup_insert_ne hne]
      exact hcurrent
  | updateAgent agent expectedVersion now =>
      rcases hupdate : m.updateAgent absoluteURI agent expectedVersion now with err | ⟨m₁, updated⟩
      · simp [AgentRequest.begin, hupdate, Except.map] at h
      have hm := Memory.updateAgent_ok hupdate
      simp only [AgentRequest.begin, hupdate, Except.map, Except.ok.injEq, Prod.mk.injEq] at h
      by_cases heq : id = updated.id
      · right
        simp [← h.2, heq]
      · left
        rw [← h.1, hm, AList.lookup_insert_ne heq]
        exact hcurrent
  | deleteAgent agentID expectedVersion =>
      rcases hdelete : m.deleteAgent agentID expectedVersion with err | m₁
      · simp [AgentRequest.begin, hdelete, Except.map] at h
      have hm := (Memory.deleteAgent_ok hdelete).2
      simp only [AgentRequest.begin, hdelete, Except.map, Except.ok.injEq, Prod.mk.injEq] at h
      by_cases heq : id = agentID
      · right
        simp [← h.2, heq]
      · left
        rw [← h.1, hm, AList.lookup_erase_ne heq]
        exact hcurrent
  | getAgentHealth agentID =>
      rcases hget : m.getAgent agentID with err | agent
      · simp [AgentRequest.begin, hget, Except.map] at h
      simp only [AgentRequest.begin, hget, Except.map, Except.ok.injEq, Prod.mk.injEq] at h
      exact .inl (h.1 ▸ hcurrent)
  | refreshAll =>
      rcases hlist : m.listAgents with err | agents
      · simp [AgentRequest.begin, hlist, Except.map] at h
      simp only [AgentRequest.begin, hlist, Except.map, Except.ok.injEq, Prod.mk.injEq] at h
      exact .inl (h.1 ▸ hcurrent)

namespace Monitor

variable {path : String} {s s' t : Monitor path}

/-- The store has an Agent with this ID and this target. -/
def Stores (s : Monitor path) (id : String) (target : Agent) : Prop :=
  ∃ current, s.store.agents.lookup id = some current ∧ sameTarget current target = true

/-- A handler has changed the Agent in the store, and has still to tell the monitor. -/
def Owes (s : Monitor path) (id : String) : Prop :=
  ∃ tasks ∈ s.callers, MonitorTask.forget id ∈ tasks

/-- A worker that is about to record a state finds the target that it has read again in the store,
or a handler that has still to tell the monitor. -/
def Unraced (s : Monitor path) : MonitorAction → Prop
  | .record worker => ∀ measured ∈ (s.workers[worker]?).bind ProbeWorker.recording,
      s.Stores measured.target.id measured.target ∨ s.Owes measured.target.id
  | _ => True

instance (s : Monitor path) (id : String) (target : Agent) : Decidable (s.Stores id target) :=
  decidable_of_iff ((s.store.agents.lookup id).any (sameTarget · target) = true)
    (Option.any_eq_true _ _)

instance (s : Monitor path) (id : String) : Decidable (s.Owes id) :=
  inferInstanceAs (Decidable (∃ tasks ∈ s.callers, MonitorTask.forget id ∈ tasks))

instance (s : Monitor path) (a : MonitorAction) : Decidable (s.Unraced a) :=
  match a with
  | .record _ => inferInstanceAs (Decidable (∀ _ ∈ _, _ ∨ _))
  | .begin _ _ | .perform _ | .receive _ | .check _ _ _ | .reload _ | .other _ => .isTrue trivial

/-- What is recorded belongs to the stored Agent, or is about to be removed. -/
def Current (s : Monitor path) : Prop :=
  ∀ id measured, s.states.lookup id = some measured → s.Stores id measured.target ∨ s.Owes id

theorem current_newMonitor (config : HealthConfig) (store : Memory) (callers : Nat) :
    (newMonitor config store callers).Current := by
  intro id measured hstate
  cases hstate

/-- What a step may do without harm: it keeps the stored targets, and the handlers that have to
tell the monitor still have to, for every state that it leaves. -/
theorem Current.of_kept (h : s.Current)
    (hstates : ∀ {id measured}, t.states.lookup id = some measured →
      s.states.lookup id = some measured)
    (hstores : ∀ {id measured}, t.states.lookup id = some measured →
      s.Stores id measured.target → t.Stores id measured.target ∨ t.Owes id)
    (howes : ∀ {id measured}, t.states.lookup id = some measured → s.Owes id → t.Owes id) :
    t.Current := by
  intro id measured hstate
  rcases h id measured (hstates hstate) with hstored | howed
  · exact hstores hstate hstored
  · exact .inr (howes hstate howed)

/-- A caller that was idle owes nothing, so nothing is lost when it gets tasks. -/
theorem Owes.of_idle {id : String} {caller : Nat} (hidle : s.callers[caller]? = some [])
    (h : s.Owes id) (tasks : List MonitorTask) (ht : t.callers = s.callers.set caller tasks) :
    t.Owes id := by
  obtain ⟨owing, hmem, howing⟩ := h
  obtain ⟨i, hi⟩ := List.mem_iff_getElem?.mp hmem
  refine ⟨owing, List.mem_iff_getElem?.mpr ⟨i, ?_⟩, howing⟩
  rw [ht, List.getElem?_set_ne]
  · exact hi
  · rintro rfl
    rw [hidle] at hi
    obtain rfl := Option.some.inj hi
    cases howing

/-- A caller that has done a task owes what it owed, except what the task was. -/
theorem Owes.of_performed {id : String} {caller : Nat} {task : MonitorTask}
    {left rest : List MonitorTask} (hcaller : s.callers[caller]? = some (task :: rest))
    (htask : task ≠ .forget id) (h : s.Owes id)
    (ht : t.callers = s.callers.set caller (left ++ rest)) : t.Owes id := by
  obtain ⟨owing, hmem, howing⟩ := h
  obtain ⟨i, hi⟩ := List.mem_iff_getElem?.mp hmem
  by_cases heq : caller = i
  · subst heq
    obtain rfl := Option.some.inj (hi.symm.trans hcaller)
    refine ⟨left ++ rest, List.mem_iff_getElem?.mpr ⟨caller, ?_⟩, ?_⟩
    · rw [ht, List.getElem?_set_self (List.getElem?_eq_some_iff.mp hcaller).1]
    · rcases List.mem_cons.mp howing with hself | hrest
      · exact absurd hself.symm htask
      · exact List.mem_append_right _ hrest
  · refine ⟨owing, List.mem_iff_getElem?.mpr ⟨i, ?_⟩, howing⟩
    rw [ht, List.getElem?_set_ne heq]
    exact hi

/-- A task changes neither the store nor the tasks of other callers, and leaves no state of an
Agent that it makes the monitor forget. -/
theorem perform_eq {task : MonitorTask} {left : List MonitorTask}
    (h : s.perform task = (s', left)) :
    s'.store = s.store ∧ s'.callers = s.callers ∧
      ∀ {id measured}, s'.states.lookup id = some measured →
        s.states.lookup id = some measured ∧ task ≠ .forget id := by
  -- an Agent of which there is a state was not forgotten
  have hforget : ∀ {agentID id measured}, (s.forget agentID).states.lookup id = some measured →
      s.states.lookup id = some measured ∧ id ≠ agentID := by
    intro agentID id measured hstate
    refine ⟨Table.lookup_of_erase hstate, ?_⟩
    rintro rfl
    rw [forget, AList.lookup_erase] at hstate
    cases hstate
  cases task with
  | forget agentID =>
      obtain ⟨rfl, -⟩ := Prod.mk.inj h
      refine ⟨rfl, rfl, ?_⟩
      intro id measured hstate
      obtain ⟨hold, hne⟩ := hforget hstate
      refine ⟨hold, ?_⟩
      rintro ⟨⟩
      exact hne rfl
  | refresh agent =>
      simp only [perform] at h
      split at h
      · obtain ⟨rfl, -⟩ := Prod.mk.inj h
        exact ⟨rfl, rfl, fun hstate => ⟨(hforget hstate).1, by simp⟩⟩
      · split at h <;> obtain ⟨rfl, -⟩ := Prod.mk.inj h <;>
          exact ⟨rfl, rfl, fun hstate => ⟨hstate, by simp⟩⟩
  | send agent =>
      simp only [perform] at h
      split at h <;> obtain ⟨rfl, -⟩ := Prod.mk.inj h <;>
        exact ⟨rfl, rfl, fun hstate => ⟨hstate, by simp⟩⟩
  | unmark agentID =>
      obtain ⟨rfl, -⟩ := Prod.mk.inj h
      exact ⟨rfl, rfl, fun hstate => ⟨hstate, by simp⟩⟩

theorem Current.begin (h : s.Current) {caller : Nat} {request : AgentRequest}
    (hstep : s.step (.begin caller request) = some t) : t.Current := by
  simp only [step] at hstep
  split at hstep
  case h_2 => cases hstep
  rename_i hidle
  split at hstep
  · exact Option.some.inj hstep ▸ h
  · rename_i store tasks hbegin
    obtain rfl := Option.some.inj hstep
    apply h.of_kept
    · exact fun hstate => hstate
    · rintro id measured - ⟨current, hcurrent, htarget⟩
      refine (AgentRequest.begin_ok hbegin hcurrent).imp ?_ ?_
      · exact fun hstored => ⟨current, hstored, htarget⟩
      · intro howed
        refine ⟨tasks, ?_, howed⟩
        exact List.mem_set (List.getElem?_eq_some_iff.mp hidle).1 tasks
    · exact fun _ howes => howes.of_idle hidle tasks rfl

theorem Current.perform (h : s.Current) {caller : Nat}
    (hstep : s.step (.perform caller) = some t) : t.Current := by
  simp only [step] at hstep
  split at hstep
  case h_2 => cases hstep
  rename_i task rest hcaller
  rcases hperform : s.perform task with ⟨s', left⟩
  obtain ⟨hstore, hcallers, hstates⟩ := perform_eq hperform
  simp only [hperform] at hstep
  obtain rfl := Option.some.inj hstep
  apply h.of_kept
  · exact fun hstate => (hstates hstate).1
  · rintro id measured - ⟨current, hcurrent, htarget⟩
    exact .inl ⟨current, hstore ▸ hcurrent, htarget⟩
  · intro id measured hstate howes
    exact howes.of_performed hcaller (hstates hstate).2 (by rw [hcallers])

theorem Current.record (h : s.Current) {worker : Nat} (hunraced : s.Unraced (.record worker))
    (hstep : s.step (.record worker) = some t) : t.Current := by
  simp only [step] at hstep
  split at hstep
  case h_2 => cases hstep
  rename_i measured current hworker
  obtain rfl := Option.some.inj hstep
  rcases current with err | current
  · exact h
  · rw [Monitor.record]
    split
    case isFalse => exact h
    rename_i htarget
    intro id measured' hstate
    refine Table.of_lookup_insert (P := fun id measured => s.Stores id measured.target ∨ s.Owes id)
      ?_ ?_ hstate
    · apply hunraced measured
      simp only [hworker, Option.bind_some, ProbeWorker.recording, htarget, if_true,
        Option.mem_def]
    · exact fun hstate => h _ _ hstate

/-- The steps between a worker's record and the next concern the worker alone. -/
theorem Current.step (h : s.Current) {a : MonitorAction} (hunraced : s.Unraced a)
    (hstep : s.step a = some t) : t.Current := by
  cases a with
  | begin caller request => exact h.begin hstep
  | perform caller => exact h.perform hstep
  | record worker => exact h.record hunraced hstep
  | other store =>
      obtain rfl := Option.some.inj hstep
      exact h
  | receive worker | check worker answer checkedAt | reload worker =>
      simp only [Monitor.step] at hstep
      split at hstep
      · obtain rfl := Option.some.inj hstep
        exact h
      · cases hstep

end Monitor

/-! ### Health and endpoints -/

/-- One worker, on the default path. -/
def oneProbe : HealthConfig := { path := "/healthz", interval := 30, timeout := 5, workers := 1 }

/-- An Agent behind an endpoint. -/
def remoteAgent (endpoint : String) : Agent :=
  { id := "agt_1", name := "remote", runtime := "remote", protocol := "http", endpoint }

/-- The Agent is registered, and a worker probes it. -/
def probed : List MonitorAction :=
  [.begin 0 (.createAgent (remoteAgent "http://old.test") 1), .perform 0, .perform 0, .receive 0,
    .check 0 (.response 200) 2]

end AgentMesh
