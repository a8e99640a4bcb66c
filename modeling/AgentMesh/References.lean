/-
AgentMesh/References.lean

Agents, and the Runs and Workflows that refer to them.

`DeleteAgent` refuses, under the lock of the store, an Agent that has a Run or a
step of a Workflow; and `CreateWorkflow` checks the Agents of its steps under the
same lock.  A Workflow is never removed, so the Runs of its steps have their
Agents too.  But `CreateRun` checks no Agent.  The handlers read the Agent before,
by `GetAgent` or by the `FindAgents` of the router, and a deletion can come
between.

A `Roster` is a state of the system together with the Agents that the router of
each request has read.  In it, Agents change by the methods of the store only.
As long as no Agent is deleted that a request has read and not yet used,
everything refers to stored Agents.
-/
import AgentMesh.FlowSafety
import AgentMesh.Desk
import AgentMesh.Router
import AgentMesh.Outbound

namespace AgentMesh

open Machine

/-! ### The system with its Agents -/

structure Roster where
  mesh : State := init
  /-- The IDs of the Agents that the router of each request has read. -/
  found : Nat → List String := fun _ => []

inductive RosterAction
  /-- A step of the system that leaves the Agents alone. -/
  | mesh (a : Action)
  | createAgent (agent : Agent) (now : Time)
  | updateAgent (agent : Agent) (expectedVersion : Int) (now : Time)
  | deleteAgent (id : String) (expectedVersion : Int)
  /-- The router of a request calls `FindAgents`. -/
  | findAgents (h : Nat) (filter : AgentFilter)

/-- The request waits for its router. -/
def SubmitPc.isRouting : SubmitPc → Bool
  | .selectAgent sub _ | .callSelect _ sub _ _ => sub.routed
  | _ => false

/-- Agents change by the actions of the roster, and the router selects what it has found
(`select_found`). -/
def Roster.allows (r : Roster) : Action → Bool
  | .registry _ => false
  | .handle h o =>
      match o.routed with
      | .agent id => id ∈ r.found h
      | _ => true
  | _ => true

/-- The router of a request that starts or goes on has nothing read. -/
def Roster.nextFound (r : Roster) : Action → Nat → List String
  | .request h _ _ _ _ | .agentCall h _ _ _ | .handle h _ => Function.update r.found h []
  | _ => r.found

def Roster.withStore (r : Roster) (m : Memory) : Roster :=
  { r with mesh := { r.mesh with store := m } }

def rosterStep (r : Roster) : RosterAction → Option Roster
  | .mesh a =>
      if r.allows a then (step r.mesh a).map fun t => { mesh := t, found := r.nextFound a }
      else none
  | .createAgent agent now =>
      match r.mesh.store.createAgent absoluteURI agent now with
      | .error _ => some r
      | .ok (m, _) => some (r.withStore m)
  | .updateAgent agent expectedVersion now =>
      match r.mesh.store.updateAgent absoluteURI agent expectedVersion now with
      | .error _ => some r
      | .ok (m, _) => some (r.withStore m)
  | .deleteAgent id expectedVersion =>
      match r.mesh.store.deleteAgent id expectedVersion with
      | .error _ => some r
      | .ok m => some (r.withStore m)
  | .findAgents h filter =>
      if (r.mesh.submits h).pc.isRouting then
        match r.mesh.store.findAgents filter with
        | .error _ => some r
        | .ok agents =>
            some { r with
              found := Function.update r.found h (r.found h ++ agents.map Agent.id) }
      else none

/-- The Agent for which a request is about to create a Run. -/
def SubmitPc.chosen : SubmitPc → Option String
  | .create sub _ | .callCreate _ sub _ => some sub.request.agentID
  | _ => none

/-- A request has read the Agent, and has still to create a Run for it. -/
def Roster.Uses (r : Roster) (h : Nat) (id : String) : Prop :=
  id ∈ r.found h ∨ (r.mesh.submits h).pc.chosen = some id

/-- No Agent is deleted that a request has read and not yet used. -/
def SparesUsed (r : Roster) : RosterAction → Prop
  | .deleteAgent id expectedVersion =>
      ∀ m, r.mesh.store.deleteAgent id expectedVersion = .ok m → ∀ h, ¬ r.Uses h id
  | _ => True

/-! ### What a step does to Agents -/

def Memory.HasAgent (m : Memory) (id : String) : Prop := ∃ agent, m.agents.lookup id = some agent

section Steps

variable {s t : State} {a : Action} {m m' : Memory} {id : String} {run : Run}

theorem Memory.updateWorkflow_agents {w updated : Workflow} {version : Int}
    (h : m.updateWorkflow w version = .ok (m', updated)) : m'.agents = m.agents := by
  obtain ⟨existing, steps, -, -, -, -, -, rfl⟩ := Memory.updateWorkflow_ok h
  rfl

theorem Manager.act_agents {c : Manager} {o : ManagerOracle} {pc : ManagerPc} {e : ManagerEffect}
    (h : c.act o m = some (pc, e)) : e.store.agents = m.agents := by
  cases hpc : c.pc <;> simp only [Manager.act, hpc, Option.some.injEq, reduceCtorEq] at h
  case storeTerminal | storeChanged | assign =>
    obtain ⟨-, -, ⟨updated, hupdate, -⟩ | ⟨hstore, -⟩⟩ := reconcileUpdate_eq h
    · exact Memory.updateWorkflow_agents hupdate
    · rw [hstore]
  case createRun =>
    split at h
    · cases h
    · split at h
      · cases h
        rfl
      · rename_i hcreate
        obtain ⟨-, rfl⟩ := Prod.mk.inj (Option.some.inj h)
        exact (Memory.createRun_onlyRuns (createStepRun_ok hcreate)).agents
  case fail | startStore | cancelStore =>
    repeat' split at h
    all_goals cases h
    all_goals first | rfl | exact Memory.updateWorkflow_agents ‹_›
  case tasks todo next =>
    rcases todo with - | ⟨task, rest⟩
    · cases h
      rfl
    · rcases task with runID | ⟨workflowID, stepID, runID, type, message⟩
      · simp only at h
        split at h
        all_goals cases h
        · rfl
        · obtain ⟨existing, -, -, rfl⟩ := Memory.cancelRun_ok ‹_›
          rfl
      · simp only at h
        split at h
        all_goals cases h
        · rfl
        · obtain ⟨events, rfl⟩ := Memory.appendWorkflowEvent_ok ‹_›
          rfl
  all_goals
    repeat' split at h
    all_goals cases h
    all_goals rfl

/-- The steps of the system leave the Agents alone, except those that are about Agents. -/
theorem agents_of_step (ha : step s a = some t) (hregistry : ∀ agents, a ≠ .registry agents) :
    t.store.agents = s.store.agents := by
  cases a <;> simp only [step] at ha
  case registry agents => exact absurd rfl (hregistry agents)
  case work w o =>
    split at ha
    · obtain ⟨⟨pc, e⟩, hact, rfl⟩ := Option.map_eq_some_iff.mp ha
      exact (Worker.execute_move hact).keeps.1.agents
    · cases ha
  case handle h o =>
    split at ha
    · obtain ⟨⟨pc, e, created⟩, hact, rfl⟩ := Option.map_eq_some_iff.mp ha
      exact (Submit.handle_move hact).onlyRuns.agents
    · cases ha
  case manage c o =>
    split at ha
    · obtain ⟨⟨pc, e⟩, hact, rfl⟩ := Option.map_eq_some_iff.mp ha
      exact Manager.act_agents hact
    · cases ha
  case cancelRun =>
    split at ha
    · exact Option.some.inj ha ▸ rfl
    · obtain ⟨existing, -, -, rfl⟩ := Memory.cancelRun_ok ‹_›
      exact Option.some.inj ha ▸ rfl
  case recoverRun =>
    repeat' split at ha
    all_goals cases ha
    · obtain ⟨hfalse, -⟩ | ⟨-, existing, -, -, rfl⟩ := Memory.recoverRun_ok ‹_›
      · cases hfalse
      · rfl
    · rfl
  case createWorkflow =>
    split at ha
    · exact Option.some.inj ha ▸ rfl
    · obtain ⟨-, -, rfl⟩ := Memory.createWorkflow_ok ‹_›
      exact Option.some.inj ha ▸ rfl
  case startWorkflow | cancelWorkflow =>
    rw [(State.call_eq ha).2]
    rfl
  case reconcile =>
    split at ha
    · rw [(State.call_eq ha).2]
      rfl
    · cases ha
  case announceCanceled =>
    obtain ⟨r, -, rfl⟩ := Option.map_eq_some_iff.mp ha
    rfl
  all_goals
    repeat' split at ha
    all_goals cases ha
    all_goals rfl

/-! ### Where new references come from -/

theorem agentCallAncestry_chosen (call : AgentCall) (sub : Submission) (parent current : Run)
    (depth : Int) (agents seenRuns : List String) :
    (agentCallAncestry call sub parent current depth agents seenRuns).chosen = none := by
  rw [agentCallAncestry]
  repeat' split
  all_goals rfl

theorem checkCallee_chosen {call : AgentCall} {sub : Submission} {parent : Run}
    {ancestorAgents : List String}
    (h : (checkCallee call sub parent ancestorAgents).chosen = some id) :
    sub.request.agentID = id := by
  rw [checkCallee] at h
  split at h
  · cases h
  · exact Option.some.inj h

/-- What the router has selected, the request asks for. -/
theorem selectRouted_agent {sub sub' : Submission} {routed : Routed}
    (h : selectRouted sub routed = .ok sub') : routed = .agent sub'.request.agentID := by
  rw [selectRouted] at h
  repeat' split at h
  all_goals cases h
  rfl

theorem selectCallee_agent {sub sub' : Submission} {routed : Routed}
    (h : selectCallee sub routed = .ok sub') : routed = .agent sub'.request.agentID := by
  rw [selectCallee] at h
  repeat' split at h
  all_goals cases h
  rfl

/-- An Agent is chosen when the router has selected it or the store has it. -/
theorem Submit.chosen_of_handle {h : Submit} {o : SubmitOracle} {pc : SubmitPc} {e : Effect}
    {created : Option (String × Run)} (hh : h.handle o m = some (pc, e, created))
    (hid : pc.chosen = some id) : o.routed = .agent id ∨ m.HasAgent id := by
  cases hpc : h.pc <;> simp only [Submit.handle, hpc, Option.some.injEq, reduceCtorEq] at hh
  case selectAgent sub parent =>
    split at hh
    · split at hh
      · cases hh
        cases hid
      · rename_i hselect
        cases hh
        exact .inl (Option.some.inj hid ▸ selectRouted_agent hselect)
    · split at hh
      · cases hh
        cases hid
      · rename_i agent hagent
        cases hh
        exact .inr ⟨agent, Option.some.inj hid ▸ Memory.getAgent_ok.mp hagent⟩
  case callSelect call sub parent ancestorAgents =>
    split at hh
    · split at hh
      · cases hh
        cases hid
      · rename_i hselect
        cases hh
        exact .inl (checkCallee_chosen hid ▸ selectCallee_agent hselect)
    · split at hh
      · cases hh
        cases hid
      · rename_i agent hagent
        cases hh
        exact .inr ⟨agent, checkCallee_chosen hid ▸ Memory.getAgent_ok.mp hagent⟩
  case callLookup | callAncestry =>
    repeat' split at hh
    all_goals cases hh
    all_goals first | cases hid | (rw [agentCallAncestry_chosen] at hid; cases hid)
  -- no other action leads to a creation
  all_goals
    repeat' split at hh
    all_goals cases hh
    all_goals cases hid

theorem Submit.Drafts.agentID {h : Submit} {o : SubmitOracle} {key : String}
    (hd : h.Drafts o key run) : h.pc.chosen = some run.agentID := by
  cases hd with
  | run pc attach =>
      obtain ⟨p, r, rfl⟩ := attachParent_ok attach
      rw [pc]
      rfl
  | child pc attach =>
      obtain ⟨p, r, rfl⟩ := Run.attachTo_ok attach
      rw [pc]
      rfl

/-- A Run that replaces another is not a new one. -/
theorem not_new_of_put {runs : Table Run} {id' : String} {old run' : Run}
    (hold : runs.lookup id' = some old) (hnew : runs.lookup id = none) :
    AList.lookup id (runs.insert id' run') = none := by
  rw [Table.lookup_insert_eq, if_neg]
  · exact hnew
  · rintro rfl
    rw [hold] at hnew
    cases hnew

theorem Memory.createRun_agentID {key : String} {created : Run} {isNew : Bool}
    (h : m.createRun run key = .ok (m', created, isNew)) {stored : Run}
    (hnew : m.runs.lookup id = none) (hstored : m'.runs.lookup id = some stored) :
    stored.agentID = run.agentID := by
  obtain ⟨-, rfl, -⟩ | ⟨-, -, rfl, parent, root, rfl⟩ := Memory.createRun_ok h
  · rw [hnew] at hstored
    cases hstored
  · rw [Memory.storeRun, Table.lookup_insert_eq] at hstored
    split at hstored
    · rw [← Option.some.inj hstored]
    · rw [hnew] at hstored
      cases hstored

/-- A new Run has the Agent that a request has chosen, or that of a step of a Workflow. -/
theorem agent_of_new (ha : step s a = some t) (hnew : s.store.runs.lookup id = none)
    (hrun : t.store.runs.lookup id = some run) :
    (∃ h, (s.submits h).pc.chosen = some run.agentID) ∨
      ∃ c candidate next input parentRunID step,
        (s.managers c).pc = .createRun candidate next input parentRunID ∧
        candidate.steps[next]? = some step ∧ step.agentID = run.agentID := by
  have hsame : t.store.runs = s.store.runs → False := by
    intro hruns
    rw [hruns, hnew] at hrun
    cases hrun
  have hput : ∀ {id' old run'}, s.store.runs.lookup id' = some old →
      t.store.runs = s.store.runs.insert id' run' → False := by
    intro id' old run' hold hruns
    rw [hruns, not_new_of_put hold hnew] at hrun
    cases hrun
  cases systemMove_of_step ha with
  | other runs => exact (hsame runs.runs).elim
  | worker | request | called => exact (hsame rfl).elim
  | worked _ act =>
      cases Worker.execute_move act with
      | silent store | reload _ _ store | enter _ _ _ store | invoke _ store =>
          exact (hsame (congrArg Memory.runs store)).elim
      | claim _ store =>
          obtain ⟨existing, -, -, -, hm⟩ := Memory.claimRunExecution_ok store
          have hruns := congrArg Memory.runs hm
          exact (hsame hruns).elim
      | attempt _ _ store | finish _ _ _ store =>
          obtain ⟨existing, hold, -, -, -, hm⟩ := Memory.updateRunFenced_ok store
          exact (hput hold (congrArg Memory.runs hm)).elim
  | @handled h _ _ _ _ _ move =>
      cases move with
      | silent store => exact (hsame (congrArg Memory.runs store)).elim
      | fail _ _ store =>
          obtain ⟨existing, hold, -, -, hm⟩ := Memory.updateRun_ok store
          exact (hput hold (congrArg Memory.runs hm)).elim
      | create draft store =>
          refine .inl ⟨h, ?_⟩
          rw [Memory.createRun_agentID store hnew hrun]
          exact draft.agentID
  | @managed c _ _ _ _ act =>
      cases Manager.act_move act with
      | silent runs => exact (hsame runs.runs).elim
      | cancel store =>
          obtain ⟨existing, hold, -, hm⟩ := Memory.cancelRun_ok store
          exact (hput hold (congrArg Memory.runs hm)).elim
      | @create candidate next input parentRunID step created pc found store =>
          refine .inr ⟨c, candidate, next, input, parentRunID, step, pc, found, ?_⟩
          exact (Memory.createRun_agentID store hnew hrun).symm
  | created create =>
      obtain ⟨-, -, rfl⟩ := Memory.createWorkflow_ok create
      exact (hsame rfl).elim
  | canceled cancel =>
      obtain ⟨existing, hold, -, rfl⟩ := Memory.cancelRun_ok cancel
      exact (hput hold rfl).elim
  | recovered _ recover =>
      obtain ⟨hfalse, -⟩ | ⟨-, existing, hold, -, rfl⟩ := Memory.recoverRun_ok recover
      · cases hfalse
      · exact (hput hold rfl).elim

end Steps

/-! ### The invariant -/

/-- What refers to an Agent: a Run, a step of a Workflow, or a request that is about to create
a Run. -/
inductive Roster.Refers (r : Roster) : String → Prop
  | run {id : String} {run : Run} (stored : r.mesh.store.runs.lookup id = some run) :
      Refers r run.agentID
  | step {id : String} {w : Workflow} {step : WorkflowStep}
      (stored : r.mesh.store.workflows.lookup id = some w) (mem : step ∈ w.steps) :
      Refers r step.agentID
  | request {h : Nat} {id : String} (uses : r.Uses h id) : Refers r id

structure Roster.Sound (r : Roster) : Prop where
  named : ∀ {id agent}, r.mesh.store.agents.lookup id = some agent → agent.id = id
  present : ∀ {id}, r.Refers id → r.mesh.store.HasAgent id

section Invariant

variable {r r' : Roster} {t : State} {a : Action}

theorem Roster.sound_init : Roster.Sound {} where
  named h := by cases h
  present := by
    intro id h
    cases h with
    | run stored => cases stored
    | step stored => cases stored
    | request uses =>
        rcases uses with hfound | hchosen
        · cases hfound
        · cases hchosen

/-- The Agents change, and those that are referred to stay. -/
theorem Roster.Sound.withAgents (h : r.Sound) {agents : Table Agent}
    (hnamed : ∀ {id agent}, agents.lookup id = some agent → agent.id = id)
    (hkeeps : ∀ {id}, r.Refers id → r.mesh.store.HasAgent id →
      ∃ agent, agents.lookup id = some agent) :
    (r.withStore { r.mesh.store with agents := agents }).Sound where
  named := hnamed
  present := by
    intro id hrefers
    have hbefore : r.Refers id := by
      cases hrefers with
      | run stored => exact .run stored
      | step stored mem => exact .step stored mem
      | request uses => exact .request uses
    exact hkeeps hbefore (h.present hbefore)

/-- An Agent is put into the store under its ID. -/
theorem Roster.Sound.put (h : r.Sound) (agent : Agent) :
    (r.withStore { r.mesh.store with
      agents := r.mesh.store.agents.insert agent.id agent }).Sound := by
  apply h.withAgents
  · intro id stored hstored
    exact Table.of_lookup_insert (P := fun id agent => agent.id = id) rfl h.named hstored
  · rintro id - ⟨stored, hstored⟩
    rw [Table.lookup_insert_eq]
    split
    · exact ⟨agent, rfl⟩
    · exact ⟨stored, hstored⟩

/-- An Agent is deleted to which nothing refers. -/
theorem Roster.Sound.delete (h : r.Sound) {id : String} {version : Int} {m : Memory}
    (hspared : ∀ h, ¬ r.Uses h id) (hdelete : r.mesh.store.deleteAgent id version = .ok m) :
    (r.withStore m).Sound := by
  obtain ⟨hunused, rfl⟩ := Memory.deleteAgent_ok hdelete
  obtain ⟨hruns, hsteps⟩ := Memory.agentInUse_eq_false hunused
  apply h.withAgents
  · exact fun hstored => h.named (Table.lookup_of_erase hstored)
  · rintro id' hrefers ⟨agent, hagent⟩
    have hne : id' ≠ id := by
      cases hrefers with
      | run stored => exact hruns _ _ stored
      | step stored mem => exact hsteps _ _ stored _ mem
      | request uses =>
          rintro rfl
          exact hspared _ uses
    exact ⟨agent, by rw [AList.lookup_erase_ne hne, hagent]⟩

/-- `FindAgents` returns stored Agents. -/
theorem Roster.Sound.found (h : r.Sound) {filter : AgentFilter} {agents : List Agent}
    (hfound : r.mesh.store.findAgents filter = .ok agents) {agent : Agent}
    (hagent : agent ∈ agents) : r.mesh.store.HasAgent agent.id := by
  rw [Memory.findAgents] at hfound
  split at hfound
  · cases hfound
  · obtain rfl := Except.ok.inj hfound
    rw [List.mem_insertionSort, List.mem_filterMap] at hagent
    obtain ⟨⟨id, stored⟩, hentry, hsome⟩ := hagent
    have hstored : r.mesh.store.agents.lookup id = some stored := AList.mem_lookup_iff.mpr hentry
    have heq : stored = agent := by
      split at hsome
      · cases hsome
      · split at hsome
        · cases hsome
        · exact Option.some.inj hsome
    exact ⟨stored, by rw [← heq, h.named hstored, hstored]⟩

/-- The router of a request reads stored Agents. -/
theorem Roster.Sound.read (h : r.Sound) (n : Nat) {filter : AgentFilter} {agents : List Agent}
    (hfound : r.mesh.store.findAgents filter = .ok agents) :
    Roster.Sound { r with
      found := Function.update r.found n (r.found n ++ agents.map Agent.id) } where
  named := h.named
  present := by
    intro id hrefers
    cases hrefers with
    | run stored => exact h.present (.run stored)
    | step stored mem => exact h.present (.step stored mem)
    | @request n' _ uses =>
        rcases uses with hread | hchosen
        case inr => exact h.present (.request (.inr hchosen))
        replace hread : id ∈ Function.update r.found n (r.found n ++ agents.map Agent.id) n' := hread
        by_cases heq : n' = n
        · subst heq
          rw [Function.update_self, List.mem_append] at hread
          rcases hread with hread | hread
          · exact h.present (.request (.inl hread))
          · obtain ⟨agent, hagent, rfl⟩ := List.mem_map.mp hread
            exact h.found hfound hagent
        · rw [Function.update_of_ne heq] at hread
          exact h.present (.request (.inl hread))

theorem receive_chosen (body : RunRequest) (key : String) : (receive body key).chosen = none :=
  receive_cases (P := fun pc => pc.chosen = none) body key (fun _ => rfl) (fun _ => rfl)
    (fun _ => rfl) fun _ => rfl

theorem Ask.start_chosen (ask : Ask) : ask.start.chosen = none := by
  rcases ask with ⟨body, header⟩ | call
  · exact receive_chosen body header
  · rfl

/-- A step of the system lets a router read nothing. -/
theorem Roster.nextFound_subset (r : Roster) (a : Action) (h : Nat) :
    r.nextFound a h ⊆ r.found h := by
  have hupdate : ∀ h', Function.update r.found h' [] h ⊆ r.found h := by
    intro h'
    by_cases heq : h = h'
    · subst heq
      simp
    · rw [Function.update_of_ne heq]
      exact List.Subset.refl _
  cases a with
  | request h' | agentCall h' | handle h' => exact hupdate h'
  | _ => exact List.Subset.refl _

/-- What a request uses after a step of the system, the store has. -/
theorem Roster.Sound.uses (hr : r.Sound) (hallows : r.allows a = true)
    (ha : step r.mesh a = some t) {h : Nat} {id : String}
    (huses : Roster.Uses { mesh := t, found := r.nextFound a } h id) :
    r.mesh.store.HasAgent id := by
  rcases huses with hfound | hchosen
  · exact hr.present (.request (.inl (r.nextFound_subset a h hfound)))
  replace hchosen : (t.submits h).pc.chosen = some id := hchosen
  -- a request that stays where it is has chosen the Agent before
  have hstays : t.submits h = r.mesh.submits h → r.mesh.store.HasAgent id := by
    intro hsame
    rw [hsame] at hchosen
    exact hr.present (.request (.inr hchosen))
  have hdesk : deskStep { mesh := r.mesh } a
      = some { mesh := t, asks := Desk.nextAsks { mesh := r.mesh } a
               made := Desk.nextMade { mesh := r.mesh } a } := by
    rw [deskStep, ha]
    rfl
  cases Desk.move_of_step hdesk with
  | @ask h' ask _ _ self others =>
      by_cases heq : h = h'
      · subst heq
        have hstart : (t.submits h).pc = ask.start := self
        rw [hstart, ask.start_chosen] at hchosen
        cases hchosen
      · exact hstays (others h heq)
  | @handled h' o pc e created action _ handle mesh =>
      have hmesh : t = r.mesh.handled h' pc e created := mesh
      by_cases heq : h = h'
      · subst heq
        rw [hmesh, State.handled_self] at hchosen
        rcases Submit.chosen_of_handle handle hchosen with hrouted | hstored
        · -- the router has selected what it had found
          rw [action, Roster.allows, hrouted] at hallows
          exact hr.present (.request (.inl (of_decide_eq_true hallows)))
        · exact hstored
      · exact hstays (by rw [hmesh, State.handled_of_ne _ heq])
  | other _ submits => exact hstays (congrFun submits h)

theorem Roster.Sound.mesh (hr : r.Sound) (hruns : RunInv r.mesh) (hflow : FlowInv ⊤ r.mesh)
    (hallows : r.allows a = true) (ha : step r.mesh a = some t) :
    Roster.Sound { mesh := t, found := r.nextFound a } := by
  have hagents : t.store.agents = r.mesh.store.agents := by
    apply agents_of_step ha
    rintro agents rfl
    cases hallows
  have hkeep : ∀ {id}, r.mesh.store.HasAgent id → t.store.HasAgent id := by
    rintro id ⟨agent, hagent⟩
    exact ⟨agent, hagents ▸ hagent⟩
  refine ⟨fun hstored => hr.named (hagents ▸ hstored), ?_⟩
  intro id hrefers
  apply hkeep
  cases hrefers with
  | @run runID run stored =>
      rcases hold : r.mesh.store.runs.lookup runID with - | old
      · rcases agent_of_new ha hold stored with ⟨h, hchosen⟩ |
          ⟨c, candidate, next, input, parentRunID, step, hpc, hat, hagent⟩
        · exact hr.present (.request (.inr hchosen))
        · -- the Workflow of the step is stored, with the same Agents
          have hok := (hflow.managers c).pc
          rw [hpc] at hok
          obtain ⟨-, -, ⟨w, hw, hext⟩, -⟩ := hok
          obtain ⟨step', hat', hprogress⟩ := Pointwise.getElem?_left hext.steps hat
          rw [← hagent, ← hprogress.definition.agentID]
          exact hr.present (.step hw (List.mem_of_getElem? hat'))
      · obtain ⟨run', hrun', hrequest, -⟩ := (hruns.step ha).2.runs hold
        obtain rfl := Option.some.inj (hrun'.symm.trans stored)
        rw [hrequest.agentID]
        exact hr.present (.run hold)
  | @step workflowID w step stored mem =>
      obtain hold | ⟨given, now, -, hchecked, -⟩ |
        ⟨c, o, candidate, w₀, -, -, hw₀, -, hext, -, rfl, -⟩ := workflow_of_step hflow ha stored
      · exact hr.present (.step hold mem)
      · exact hchecked step mem
      · obtain ⟨step₀, hstep₀, hprogress⟩ := Pointwise.mem_right hext.steps mem
        rw [hprogress.definition.agentID]
        exact hr.present (.step hw₀ hstep₀)
  | request uses => exact hr.uses hallows ha uses

/-- The system of a roster takes a step, or stays where it is. -/
theorem mesh_of_rosterStep {a : RosterAction} (ha : rosterStep r a = some r') :
    r'.mesh = r.mesh ∨ ∃ b, step r.mesh b = some r'.mesh := by
  cases a <;> simp only [rosterStep] at ha
  case mesh a =>
    split at ha
    · obtain ⟨t, ht, rfl⟩ := Option.map_eq_some_iff.mp ha
      exact .inr ⟨a, ht⟩
    · cases ha
  case findAgents =>
    repeat' split at ha
    all_goals cases ha
    all_goals exact .inl rfl
  -- the methods on Agents change nothing but the Agents
  case createAgent =>
    split at ha
    · exact .inl (congrArg Roster.mesh (Option.some.inj ha).symm)
    · obtain ⟨-, rfl⟩ := Memory.createAgent_ok ‹_›
      obtain rfl := Option.some.inj ha
      exact .inr ⟨.registry _, rfl⟩
  case updateAgent =>
    split at ha
    · exact .inl (congrArg Roster.mesh (Option.some.inj ha).symm)
    · obtain rfl := Memory.updateAgent_ok ‹_›
      obtain rfl := Option.some.inj ha
      exact .inr ⟨.registry _, rfl⟩
  case deleteAgent =>
    split at ha
    · exact .inl (congrArg Roster.mesh (Option.some.inj ha).symm)
    · obtain ⟨-, rfl⟩ := Memory.deleteAgent_ok ‹_›
      obtain rfl := Option.some.inj ha
      exact .inr ⟨.registry _, rfl⟩

theorem Roster.Sound.step (h : r.Sound) (hruns : RunInv r.mesh) (hflow : FlowInv ⊤ r.mesh)
    {a : RosterAction} (hspares : SparesUsed r a) (ha : rosterStep r a = some r') :
    r'.Sound := by
  cases a <;> simp only [rosterStep] at ha
  case mesh a =>
    split at ha
    · obtain ⟨t, ht, rfl⟩ := Option.map_eq_some_iff.mp ha
      exact h.mesh hruns hflow ‹_› ht
    · cases ha
  case createAgent =>
    split at ha
    · exact Option.some.inj ha ▸ h
    · obtain ⟨-, rfl⟩ := Memory.createAgent_ok ‹_›
      exact Option.some.inj ha ▸ h.put _
  case updateAgent =>
    split at ha
    · exact Option.some.inj ha ▸ h
    · obtain rfl := Memory.updateAgent_ok ‹_›
      exact Option.some.inj ha ▸ h.put _
  case deleteAgent id expectedVersion =>
    split at ha
    · exact Option.some.inj ha ▸ h
    · rename_i m hdelete
      exact Option.some.inj ha ▸ h.delete (hspares m hdelete) hdelete
  case findAgents n filter =>
    split at ha
    case isFalse => cases ha
    split at ha
    · exact Option.some.inj ha ▸ h
    · rename_i agents hfound
      exact Option.some.inj ha ▸ h.read n hfound

end Invariant

/-! ### No dangling references -/

/-- **Every reference is to a stored Agent**, as long as no Agent is deleted that a request has
read and not yet used: every Run and every step of every Workflow has its Agent in the store,
after any steps of the handlers, the managers, the workers and the methods on Agents. -/
theorem agent_references_resolve {r : Roster} (h : Runs rosterStep SparesUsed {} r) :
    (∀ id run, r.mesh.store.runs.lookup id = some run →
      ∃ agent, r.mesh.store.agents.lookup run.agentID = some agent) ∧
    ∀ id w, r.mesh.store.workflows.lookup id = some w → ∀ step ∈ w.steps,
      ∃ agent, r.mesh.store.agents.lookup step.agentID = some agent := by
  have hinv : RunInv r.mesh ∧ FlowInv ⊤ r.mesh ∧ r.Sound := by
    apply h.invariant (I := fun r => RunInv r.mesh ∧ FlowInv ⊤ r.mesh ∧ r.Sound)
    · exact ⟨runInv_init, flowInv_init ⊤, Roster.sound_init⟩
    · rintro u v a ⟨hruns, hflow, hsound⟩ hspares ha
      have hsound' := hsound.step hruns hflow hspares ha
      rcases mesh_of_rosterStep ha with hsame | ⟨b, hb⟩
      · rw [hsame]
        exact ⟨hruns, hflow, hsound'⟩
      · exact ⟨(hruns.step hb).1, (hflow.step hruns (withinLimit_top _ _) hb).1, hsound'⟩
  refine ⟨?_, ?_⟩
  · intro id run hrun
    exact hinv.2.2.present (.run hrun)
  · intro id w hw step hstep
    exact hinv.2.2.present (.step hw hstep)

/-- A client asks for a Run of an Agent that is registered, and the handler has read the Agent. -/
def agentRead : List RosterAction :=
  [.createAgent { id := "agent_1", name := "writer" } 1,
    .mesh (.request 0 3 "req_1" { agentID := "agent_1", input := "hello" } ""),
    .mesh (.handle 0 {})]

/-- Deletions that the store refuses. -/
def refusesDeletion (r : Roster) : RosterAction → Bool
  | .deleteAgent id expectedVersion => !(r.mesh.store.deleteAgent id expectedVersion).isOk
  | _ => true

theorem sparesUsed_of_refused {r : Roster} {a : RosterAction} (h : refusesDeletion r a = true) :
    SparesUsed r a := by
  cases a with
  | deleteAgent id expectedVersion =>
      intro m hdelete
      rw [refusesDeletion, hdelete] at h
      cases h
  | _ => trivial

/-- The Run is stored, and the deletion of its Agent is refused. -/
theorem agent_references_resolve_refused :
    ∃ r run, Runs rosterStep SparesUsed {} r ∧
      r.mesh.store.runs.lookup "run_1" = some run ∧ run.agentID = "agent_1" ∧
      ∃ agent, r.mesh.store.agents.lookup run.agentID = some agent := by
  obtain ⟨r, hexec, hstored⟩ : ∃ r, exec (guarded rosterStep refusesDeletion) {} (agentRead ++
        [.mesh (.handle 0 { newID := "run_1" }), .deleteAgent "agent_1" 1]) = some r ∧
      (r.mesh.store.runs.lookup "run_1").map Run.agentID = some "agent_1" := by
    refine exists_of_any ?_
    decide +kernel
  obtain ⟨run, hrun, hagent⟩ := Option.map_eq_some_iff.mp hstored
  have hruns : Runs rosterStep SparesUsed {} r :=
    runs_exec_guarded (fun _ _ hok => sparesUsed_of_refused hok) hexec
  exact ⟨r, run, hruns, hrun, hagent, (agent_references_resolve hruns).1 "run_1" run hrun⟩

/-- The Agent is deleted between `GetAgent` and `CreateRun`, and the Run is stored all the same. -/
theorem agent_reference_dangles :
    ∃ r, exec rosterStep {} (agentRead ++
        [.deleteAgent "agent_1" 1, .mesh (.handle 0 { newID := "run_1" })]) = some r ∧
      (r.mesh.store.runs.lookup "run_1").map Run.agentID = some "agent_1" ∧
      r.mesh.store.agents.lookup "agent_1" = none := by
  refine exists_of_any ?_
  decide +kernel

end AgentMesh
