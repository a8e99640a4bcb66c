/-
AgentMesh/AgentCalls.lean

What holds of the Runs that Agents start by calling other Agents.

A call reads its parent once, and several actions later it creates the child.
In between the parent may end: `call_under_running` needs that nothing changes
the status of a Run that a call in progress has read, and
`call_under_canceled` is a run in which the parent is canceled in between.

The depth of a call and the Agents that take part in it are read one ancestor at
a time.  Lineage and Agent of a Run never change, so what the walk has read is
true when the child is created (`Memory.Walk`).  The number of children is
compared by the store at the creation itself.  Both bounds hold in every state
(`agent_calls_bounded`).
-/
import AgentMesh.Desk

namespace AgentMesh

open Machine

/-! ### Children -/

section Children

variable {m m' : Memory} {parentID : String}

/-- Distinct Runs under one parent are counted. -/
theorem Memory.length_le_childCount {ids : List String} (hnodup : ids.Nodup)
    (h : ∀ id ∈ ids, ∃ run, m.runs.lookup id = some run ∧ run.parentRunID = parentID) :
    ids.length ≤ m.childCount parentID := by
  have hsub : ids ⊆ (m.runs.entries.filter fun entry => entry.2.parentRunID = parentID).map
      Sigma.fst := by
    intro id hid
    obtain ⟨run, hrun, hparent⟩ := h id hid
    have hentry : (⟨id, run⟩ : Sigma fun _ : String => Run) ∈ m.runs.entries :=
      AList.mem_lookup_iff.mp hrun
    exact List.mem_map.mpr ⟨⟨id, run⟩, List.mem_filter.mpr ⟨hentry, by simpa using hparent⟩, rfl⟩
  calc ids.length ≤ _ := (hnodup.subperm hsub).length_le
    _ = m.childCount parentID := by
      rw [List.length_map, Memory.childCount, List.countP_eq_length_filter]

/-- `CreateChildRun` compares the number of children with its limit. -/
theorem Memory.createChildRun_limit {run created : Run} {key : String} {maxChildren : Int}
    (h : m.createChildRun run key maxChildren = .ok (m', created, true))
    (hlimit : 0 < maxChildren) :
    (m.childCount run.parentRunID : Int) < maxChildren := by
  rw [Memory.createChildRun] at h
  split at h
  · cases h
  · split at h
    · cases h
    · split at h
      · cases h
      · split at h
        · cases h
        · rename_i hfull
          exact not_le.mp fun hle => hfull ⟨hlimit, hle⟩

end Children

/-! ### The status of the parent -/

/-- The parent that a call in progress has read. -/
def SubmitPc.calls : SubmitPc → Option Run
  | .callLookup _ _ parent | .callAncestry _ _ parent _ _ _ _ | .callSelect _ _ parent _
  | .callCreate _ _ parent => some parent
  | _ => none

/-- The call has checked that its parent is running. -/
def SubmitPc.checked : SubmitPc → Bool
  | .callAncestry .. | .callSelect .. | .callCreate .. => true
  | _ => false

def Memory.statusOf (m : Memory) (id : String) : Option RunStatus :=
  (m.runs.lookup id).map Run.status

/-- The action leaves the status of every Run alone that a call in progress has read. -/
def ParentsKept (d : Desk) (a : Action) : Prop :=
  ∀ d', deskStep d a = some d' → ∀ h parent, (d.mesh.submits h).pc.calls = some parent →
    d'.mesh.store.statusOf parent.id = d.mesh.store.statusOf parent.id

/-- What a call has read of its parent is what the store has. -/
def SubmitPc.SeesParent (m : Memory) (pc : SubmitPc) : Prop :=
  ∀ parent, pc.calls = some parent → m.statusOf parent.id = some parent.status ∧
    (pc.checked = true → parent.status = .running)

section Status

variable {d d' : Desk} {a : Action} {m m' : Memory} {h : Submit} {o : SubmitOracle} {pc : SubmitPc}
  {created : Option (String × Run)} {call : AgentCall} {sub : Submission} {parent : Run}

theorem sees_of_calls (hpc : pc.calls = none) : pc.SeesParent m := by
  intro parent hparent
  rw [hpc] at hparent
  cases hparent

theorem calls_start (ask : Ask) : ask.start.calls = none := by
  rcases ask with ⟨body, header⟩ | call
  · exact receive_cases (P := fun pc => pc.calls = none) body header (fun _ => rfl) (fun _ => rfl)
      (fun _ => rfl) fun _ => rfl
  · rfl

/-- The walk and the choice of an Agent keep the parent, or end the call. -/
theorem sees_next {next : SubmitPc} (hsees : m.statusOf parent.id = some parent.status)
    (hrunning : parent.status = .running) (hnext : next.calls = none ∨ next.calls = some parent) :
    next.SeesParent m := by
  intro p hp
  rcases hnext with hnext | hnext
  · rw [hnext] at hp
    cases hp
  · obtain rfl := Option.some.inj (hnext.symm.trans hp)
    exact ⟨hsees, fun _ => hrunning⟩

theorem ancestry_calls (current : Run) (depth : Int) (agents seenRuns : List String) :
    (agentCallAncestry call sub parent current depth agents seenRuns).calls = none ∨
      (agentCallAncestry call sub parent current depth agents seenRuns).calls = some parent := by
  rw [agentCallAncestry]
  repeat' split
  all_goals simp [SubmitPc.calls]

theorem callee_calls (ancestorAgents : List String) :
    (checkCallee call sub parent ancestorAgents).calls = none ∨
      (checkCallee call sub parent ancestorAgents).calls = some parent := by
  rw [checkCallee]
  split
  all_goals simp [SubmitPc.calls]

theorem SubmitPc.SeesParent.step (hm : m.RunsOk) (hsees : h.pc.SeesParent m)
    (hs : h.Step o m pc m' created) : pc.SeesParent m' := by
  cases hs with
  | @callLoad call parent sub hpc found =>
      intro p hp
      obtain rfl := Option.some.inj hp
      exact ⟨by rw [Memory.statusOf, hm.id found, found]; rfl, fun hc => nomatch hc⟩
  | callRunning hpc running =>
      rw [hpc] at hsees
      exact sees_next (hsees _ rfl).1 running (ancestry_calls ..)
  | callAncestor hpc =>
      rw [hpc] at hsees
      exact sees_next (hsees _ rfl).1 ((hsees _ rfl).2 rfl) (ancestry_calls ..)
  | callRouted hpc | callAgent hpc =>
      rw [hpc] at hsees
      exact sees_next (hsees _ rfl).1 ((hsees _ rfl).2 rfl) (callee_calls _)
  | refused | replay | missed | missedRoot | parent | routed | agent | create | raced | published
  | accepted | unqueued | failed | callReplay | callCreate | callRaced | callPublished
  | callAccepted | callUnqueued | callFailed => exact sees_of_calls rfl

/-- The Runs of the calls in progress have the status that was read. -/
def CallsSee (d : Desk) : Prop :=
  ∀ h, (d.mesh.submits h).pc.SeesParent d.mesh.store

theorem CallsSee.step (h : CallsSee d) (hd : DeskInv d) (hkept : ParentsKept d a)
    (ha : deskStep d a = some d') : CallsSee d' := by
  have hother : ∀ {n}, d'.mesh.submits n = d.mesh.submits n →
      (d'.mesh.submits n).pc.SeesParent d'.mesh.store := by
    intro n hsame parent hparent
    rw [hsame] at hparent ⊢
    rw [hkept d' ha n parent hparent]
    exact h n parent hparent
  intro n
  cases Desk.move_of_step ha with
  | other _ submits => exact hother (by rw [submits])
  | @ask n' ask _ _ self others =>
      by_cases hn : n = n'
      · subst hn
        rw [self]
        exact sees_of_calls (calls_start ask)
      · exact hother (others n hn)
  | @handled n' o pc e created _ _ handle mesh =>
      by_cases hn : n = n'
      · subst hn
        rw [mesh, State.handled_self]
        exact (h n).step hd.run.ok (Submit.handle_step handle)
      · exact hother (by rw [mesh, State.handled_of_ne _ hn])

theorem callsSee_runs (h : Runs deskStep ParentsKept {} d) : DeskInv d ∧ CallsSee d :=
  h.invariant (I := fun d => DeskInv d ∧ CallsSee d)
    ⟨deskInv_init, fun _ => sees_of_calls rfl⟩
    fun hu hP ha => ⟨hu.1.step ha, hu.2.step hu.1 hP ha⟩

/-- The Run that `CreateChildRun` has created for a call. -/
structure AgentCall.Creates (call : AgentCall) (m m' : Memory) (sub : Submission)
    (parent child : Run) : Prop where
  passed : call.Passed m sub parent
  named : parent.id ≠ ""
  agentID : child.agentID = sub.request.agentID
  parentRunID : child.parentRunID = parent.id
  children : 0 < call.maxChildren → (m.childCount parent.id : Int) < call.maxChildren

theorem AgentCall.Passed.creates {o : SubmitOracle} {draft child : Run} {key : String}
    (hpassed : call.Passed m sub parent) (hm : m.RunsOk)
    (hattach : (h.newChildRun sub parent o.newID o.now).attachTo parent = .ok draft)
    (hcreate : m.createChildRun draft key call.maxChildren = .ok (m', child, true)) :
    call.Creates m m' sub parent child := by
  obtain ⟨-, hparent, hnamed, -⟩ := Run.attachTo_lineage hattach
  have hlimit := Memory.createChildRun_limit hcreate
  rw [hparent] at hlimit
  obtain ⟨-, -, -, -, hfalse⟩ | ⟨-, hlineage, -, -⟩ :=
    Memory.createRun_cases (Memory.createChildRun_ok hcreate)
  · cases hfalse
  refine ⟨hpassed, hnamed, ?_, (hm.attachLineage hlineage).trans hparent, hlimit⟩
  obtain ⟨p, r, rfl⟩ := Run.attachTo_ok hattach
  obtain ⟨p', r', rfl⟩ := Memory.attachLineage_ok hlineage
  rfl

/-- A call creates a Run by `CreateChildRun` only. -/
theorem Submit.Step.created_call {key : String} {run : Run} (hm : m.RunsOk)
    (hs : h.Step o m pc m' (some (key, run))) (hserves : (Ask.call call).Serves m h.pc) :
    ∃ sub parent, h.pc = .callCreate call sub parent ∧ call.Creates m m' sub parent run := by
  cases hs with
  | create hpc =>
      rw [hpc] at hserves
      cases hserves
  | callCreate hpc attach create =>
      have hcreate := hserves
      rw [hpc] at hcreate
      cases hcreate with
      | callCreate passed => exact ⟨_, _, hpc, passed.creates hm attach create⟩

/-- The action that adds a Run to those that calls have created. -/
theorem DeskInv.made_call {x : Made} (hd : DeskInv d) (ha : deskStep d a = some d')
    (hmade : d'.made = d.made ++ [x]) (hcall : x.ask.isCall = true) :
    ∃ n call sub parent, d.asks n = some (.call call) ∧
      (d.mesh.submits n).pc = .callCreate call sub parent ∧
      call.Creates d.mesh.store d'.mesh.store sub parent x.run := by
  have hnew : d'.made ≠ d.made := by
    intro heq
    rw [heq] at hmade
    exact absurd (congrArg List.length hmade) (by simp)
  cases Desk.move_of_step ha with
  | ask _ _ _ _ _ made | other _ _ _ made => exact absurd made hnew
  | @handled n o pc e created action fresh handle mesh asks made =>
      obtain ⟨ask, hask⟩ := hd.asked handle
      have hstore : e.store = d'.mesh.store := by
        rw [mesh]
        rfl
      rcases created with - | ⟨key, run⟩
      · exact absurd (by rw [made, Desk.entry_none, List.append_nil]) hnew
      · obtain rfl : ⟨ask, key, run⟩ = x := by
          rw [made, Desk.entry_some hask] at hmade
          simpa using hmade
        rcases ask with ⟨body, header⟩ | call
        · cases hcall
        · obtain ⟨sub, parent, hpc, hcreates⟩ :=
            Submit.Step.created_call hd.run.ok (hstore ▸ Submit.handle_step handle) (hd.serves hask)
          exact ⟨n, call, sub, parent, hask, hpc, hcreates⟩

end Status

/-- **An Agent call under a running parent.**  Where nothing changes the status of a Run that a
call in progress has read, the parent of every Run that a call creates is stored as running at
that moment. -/
theorem call_under_running {d d' : Desk} {a : Action} {x : Made}
    (hd : Runs deskStep ParentsKept {} d) (ha : deskStep d a = some d')
    (hmade : d'.made = d.made ++ [x]) (hcall : x.ask.isCall = true) :
    ∃ parent, d.mesh.store.runs.lookup x.run.parentRunID = some parent ∧
      parent.status = .running := by
  obtain ⟨hinv, hsees⟩ := callsSee_runs hd
  obtain ⟨n, call, sub, parent, -, hpc, hcreates⟩ := hinv.made_call ha hmade hcall
  have hread := hsees n
  rw [hpc] at hread
  obtain ⟨hstatus, hrunning⟩ := hread parent rfl
  -- the child hangs under the parent that was read
  rw [hrunning rfl] at hstatus
  rw [hcreates.parentRunID]
  exact Option.map_eq_some_iff.mp hstatus

/-- Calls are sent to place 1 only, and the Run that the call there has read keeps its status. -/
def keptAtOne (d : Desk) (a : Action) : Bool :=
  (match a.ask with
    | some (h, ask) => !ask.isCall || h = 1
    | none => true) &&
  (deskStep d a).all fun d' => (d.mesh.submits 1).pc.calls.all fun parent =>
    d'.mesh.store.statusOf parent.id = d.mesh.store.statusOf parent.id

/-- No other place has a call. -/
def CallsAtOne (d : Desk) : Prop :=
  DeskInv d ∧ ∀ h ask, d.asks h = some ask → ask.isCall = true → h = 1

theorem CallsAtOne.parentsKept {d : Desk} {a : Action} (hd : CallsAtOne d)
    (hkept : keptAtOne d a = true) : ParentsKept d a := by
  intro d' ha h parent hcalls
  have hone : h = 1 := by
    rcases hask : d.asks h with - | ask
    · rw [hd.1.idle hask] at hcalls
      cases hcalls
    · refine hd.2 h ask hask ?_
      have hserves := hd.1.serves hask
      generalize (d.mesh.submits h).pc = pc at hserves hcalls
      cases hserves with
      | callLookup | callAncestry | callSelect | callCreate => rfl
      | _ => cases hcalls
  subst hone
  have hsame := (Bool.and_eq_true_iff.mp hkept).2
  rw [ha, Option.all_some, hcalls, Option.all_some] at hsame
  exact of_decide_eq_true hsame

theorem CallsAtOne.step {d d' : Desk} {a : Action} (hd : CallsAtOne d)
    (hkept : keptAtOne d a = true) (ha : deskStep d a = some d') : CallsAtOne d' := by
  refine ⟨hd.1.step ha, ?_⟩
  intro h ask hask hcall
  cases Desk.move_of_step ha with
  | other _ _ asks => exact hd.2 h ask (asks ▸ hask) hcall
  | handled _ _ _ _ asks => exact hd.2 h ask (asks ▸ hask) hcall
  | @ask n ask' sent _ _ _ asks =>
      rw [asks] at hask
      by_cases hn : h = n
      · subst hn
        rw [Function.update_self] at hask
        obtain rfl := Option.some.inj hask
        simpa [keptAtOne, sent, hcall] using (Bool.and_eq_true_iff.mp hkept).1
      · rw [Function.update_of_ne hn] at hask
        exact hd.2 h ask hask hcall

/-- A call goes through while its parent keeps running. -/
theorem call_under_running_demo :
    ∃ d d' x parent, Runs deskStep ParentsKept {} d ∧
      deskStep d (.handle 1 { newID := "run_2" }) = some d' ∧ d'.made = d.made ++ [x] ∧
      x.ask.isCall = true ∧ d.mesh.store.runs.lookup x.run.parentRunID = some parent ∧
      parent.status = .running := by
  obtain ⟨d, hexec, hnext⟩ :
      ∃ d, exec (guarded deskStep keptAtOne) {}
          (runningParent ++ prepareCall 1 { agentID := "agent_2", input := "hello" }) = some d ∧
        ((deskStep d (.handle 1 { newID := "run_2" })).any fun d' =>
          decide (∃ x ∈ d'.made, d'.made = d.made ++ [x] ∧ x.ask.isCall = true)) = true := by
    refine exists_of_any ?_
    decide +kernel
  obtain ⟨d', hd', x, -, hmade, hcall⟩ := exists_of_any hnext
  have hruns : Runs deskStep ParentsKept {} d :=
    runs_exec_invariant (I := CallsAtOne) (fun h hb => h.parentsKept hb)
      (fun h hb ha => h.step hb ha)
      ⟨deskInv_init, fun _ _ hask => nomatch hask⟩ hexec
  obtain ⟨parent, hparent, hrunning⟩ := call_under_running hruns hd' hmade hcall
  exact ⟨d, d', x, parent, hruns, hd', hmade, hcall, hparent, hrunning⟩

/-- The parent is canceled after the call has read it, and the child is created all the same. -/
theorem call_under_canceled :
    ∃ d d' x parent, Runs deskStep Free {} d ∧
      deskStep d (.handle 1 { newID := "run_2" }) = some d' ∧ d'.made = d.made ++ [x] ∧
      x.ask.isCall = true ∧ d.mesh.store.runs.lookup x.run.parentRunID = some parent ∧
      parent.status = .canceled := by
  obtain ⟨d, hexec, hnext⟩ :
      ∃ d, exec deskStep {} (runningParent ++
          prepareCall 1 { agentID := "agent_2", input := "hello" } ++ [.cancelRun "run_1" 9]) = some d ∧
        ((deskStep d (.handle 1 { newID := "run_2" })).any fun d' =>
          decide (∃ x ∈ d'.made, d'.made = d.made ++ [x] ∧ x.ask.isCall = true ∧
            d.mesh.store.statusOf x.run.parentRunID = some .canceled)) = true := by
    refine exists_of_any ?_
    decide +kernel
  obtain ⟨d', hd', x, -, hmade, hcall, hstatus⟩ := exists_of_any hnext
  obtain ⟨parent, hparent, hcanceled⟩ := Option.map_eq_some_iff.mp hstatus
  exact ⟨d, d', x, parent, runs_exec (fun _ _ => trivial) hexec, hd', hmade, hcall, hparent,
    hcanceled⟩

/-! ### Depth, Agents and children -/

/-- All these Runs are stored, with Agents of the kind. -/
def Memory.AgentsOf (m : Memory) (ids : List String) (Q : String → Prop) : Prop :=
  ∀ id ∈ ids, ∃ run, m.runs.lookup id = some run ∧ Q run.agentID

/-- What `agentCallAncestry` has read when it has come to `current`. -/
def Memory.Walk (m : Memory) (parent current : Run) (depth : Int) (agents : List String) : Prop :=
  ∃ above, Climb m.parentOf parent.id above current.id ∧ m.Holds current ∧
    depth = above.length + 1 ∧ m.AgentsOf (parent.id :: above) (· ∈ agents)

/-- The ancestors of a Run that the parent may get: not too many, with Agents of the kind. -/
def Memory.Ancestors (m : Memory) (parent : Run) (maxDepth : Int) (Q : String → Prop) : Prop :=
  ∃ above, Ancestry m.parentOf parent.id above ∧ (above.length : Int) + 1 ≤ maxDepth ∧
    m.AgentsOf (parent.id :: above) Q

/-- What a call knows of the ancestors. -/
def SubmitPc.Walked (m : Memory) : SubmitPc → Prop
  | .callAncestry _ _ parent current depth agents _ => m.Walk parent current depth agents
  | .callSelect call _ parent ancestorAgents =>
      m.Ancestors parent call.maxDepth (· ∈ ancestorAgents)
  | .callCreate call sub parent => m.Ancestors parent call.maxDepth (· ≠ sub.request.agentID)
  | _ => True

section Walks

variable {m m' : Memory} {parent current : Run} {depth maxDepth : Int} {agents ids : List String}
  {Q : String → Prop} {call : AgentCall} {sub : Submission} {pc : SubmitPc} {h : Submit}
  {o : SubmitOracle} {created : Option (String × Run)}

theorem Memory.Evolves.parentOf (hm : m.Evolves m') (id : String) (v : Option String)
    (h : m.parentOf id = some v) : m'.parentOf id = some v := by
  obtain ⟨run, hrun, rfl⟩ := Memory.parentOf_eq_some h
  obtain ⟨run', hrun', hreq, -⟩ := hm.runs hrun
  rw [Memory.parentOf_of_lookup hrun', hreq.parentRunID]

theorem Memory.AgentsOf.evolves (h : m.AgentsOf ids Q) (hm : m.Evolves m') : m'.AgentsOf ids Q := by
  intro id hid
  obtain ⟨run, hrun, hQ⟩ := h id hid
  obtain ⟨run', hrun', hreq, -⟩ := hm.runs hrun
  exact ⟨run', hrun', hreq.agentID ▸ hQ⟩

theorem Memory.AgentsOf.mono {Q' : String → Prop} (h : m.AgentsOf ids Q) (hQ : ∀ id, Q id → Q' id) :
    m.AgentsOf ids Q' := by
  intro id hid
  obtain ⟨run, hrun, hrunQ⟩ := h id hid
  exact ⟨run, hrun, hQ _ hrunQ⟩

/-- Lineage and Agents stay, so what was read stays true. -/
theorem SubmitPc.Walked.evolves (h : pc.Walked m) (hm : m.Evolves m') : pc.Walked m' := by
  have hancestors : ∀ {parent maxDepth Q}, m.Ancestors parent maxDepth Q →
      m'.Ancestors parent maxDepth Q := by
    rintro parent maxDepth Q ⟨above, hanc, hdepth, hagents⟩
    exact ⟨above, hanc.mono hm.parentOf, hdepth, hagents.evolves hm⟩
  cases pc with
  | callAncestry =>
      obtain ⟨above, hclimb, hholds, hdepth, hagents⟩ := h
      exact ⟨above, hclimb.mono hm.parentOf, hholds.evolves hm, hdepth, hagents.evolves hm⟩
  | callSelect | callCreate => exact hancestors h
  | _ => trivial

theorem Memory.Holds.parentOf (h : m.Holds current) :
    m.parentOf current.id
      = some (if current.parentRunID = "" then none else some current.parentRunID) := by
  obtain ⟨stored, hstored, hreq⟩ := h
  rw [Memory.parentOf_of_lookup hstored, hreq.parentRunID]

/-- The walk goes on, or has come to the root. -/
theorem Memory.Walk.ancestry (h : m.Walk parent current depth agents) (seenRuns : List String) :
    (agentCallAncestry call sub parent current depth agents seenRuns).Walked m := by
  rw [agentCallAncestry]
  refine iteInduction (fun hroot => ?_) fun _ => ?_
  · refine iteInduction (fun _ => trivial) fun hdepth => ?_
    obtain ⟨above, hclimb, hholds, rfl, hagents⟩ := h
    have htop : Ancestry m.parentOf current.id [] := .root (by rw [hholds.parentOf, if_pos hroot])
    have hanc := hclimb.ancestry htop
    rw [List.append_nil] at hanc
    exact ⟨above, hanc, not_lt.mp hdepth, hagents⟩
  · exact iteInduction (fun _ => trivial) fun _ => h

theorem Memory.Holds.walk (h : m.Holds parent) : m.Walk parent parent 1 [parent.agentID] := by
  refine ⟨[], .start, h, rfl, ?_⟩
  intro id hid
  obtain rfl := List.mem_singleton.mp hid
  obtain ⟨stored, hstored, hreq⟩ := h
  exact ⟨stored, hstored, by rw [hreq.agentID]; exact List.mem_singleton_self _⟩

theorem Memory.Walk.up {ancestor : Run} (h : m.Walk parent current depth agents) (hm : m.RunsOk)
    (hfound : m.runs.lookup current.parentRunID = some ancestor) :
    m.Walk parent ancestor (depth + 1) (ancestor.agentID :: agents) := by
  obtain ⟨above, hclimb, hholds, rfl, hagents⟩ := h
  obtain ⟨hid, hstored⟩ := hm.holds hfound
  have hnext : m.parentOf current.id = some (some ancestor.id) := by
    rw [hholds.parentOf, if_neg (hm.named hfound), hid]
  refine ⟨above ++ [ancestor.id], hclimb.up hnext, hstored, by simp, ?_⟩
  intro id hmem
  rw [← List.cons_append, List.mem_append, List.mem_singleton] at hmem
  rcases hmem with hmem | rfl
  · obtain ⟨run, hrun, hagent⟩ := hagents id hmem
    exact ⟨run, hrun, List.mem_cons_of_mem _ hagent⟩
  · exact ⟨ancestor, hid ▸ hfound, List.mem_cons_self⟩

/-- An Agent that takes part is not called. -/
theorem walked_checkCallee {ancestorAgents : List String}
    (h : m.Ancestors parent call.maxDepth (· ∈ ancestorAgents)) :
    (checkCallee call sub parent ancestorAgents).Walked m := by
  rw [checkCallee]
  refine iteInduction (fun _ => trivial) fun hnew => ?_
  obtain ⟨above, hanc, hdepth, hagents⟩ := h
  refine ⟨above, hanc, hdepth, hagents.mono fun id hid heq => ?_⟩
  exact hnew (heq ▸ hid)

theorem SubmitPc.Walked.step {ask : Ask} (hm : m.RunsOk) (hserves : ask.Serves m h.pc)
    (hwalk : h.pc.Walked m) (hs : h.Step o m pc m' created) : pc.Walked m' := by
  cases hs with
  | callRunning hpc =>
      rw [hpc] at hserves
      cases hserves with
      | callLookup passed => exact passed.holds.walk.ancestry _
  | callAncestor hpc found =>
      rw [hpc] at hwalk
      exact (Memory.Walk.up hwalk hm found).ancestry _
  | callRouted hpc | callAgent hpc =>
      rw [hpc] at hwalk
      exact walked_checkCallee hwalk
  | refused | replay | missed | missedRoot | parent | routed | agent | create | raced | published
  | accepted | unqueued | failed | callLoad | callReplay | callCreate | callRaced | callPublished
  | callAccepted | callUnqueued | callFailed => trivial

theorem walked_start (ask : Ask) : ask.start.Walked m := by
  rcases ask with ⟨body, header⟩ | call
  · exact receive_cases (P := fun pc => pc.Walked m) body header (fun _ => trivial)
      (fun _ => trivial) (fun _ => trivial) fun _ => trivial
  · trivial

end Walks

/-! ### Every state -/

/-- The number of Runs that calls have created under a parent. -/
def Desk.callChildren (d : Desk) (parentID : String) : Nat :=
  d.made.countP fun x => x.ask.isCall && x.run.parentRunID = parentID

/-- Not too many ancestors, none of them with the Agent of the Run. -/
def Memory.CallBounded (m : Memory) (maxDepth : Int) (run : Run) : Prop :=
  ∃ ancestors, Ancestry m.parentOf run.id ancestors ∧ (ancestors.length : Int) ≤ maxDepth ∧
    m.AgentsOf ancestors (· ≠ run.agentID)

/-- All calls have the limits of the server. -/
def limited (maxDepth maxChildren : Int) (_ : Desk) : Action → Bool
  | .agentCall _ _ _ call => call.maxDepth = maxDepth && call.maxChildren = maxChildren
  | _ => true

structure CallInv (maxDepth maxChildren : Int) (d : Desk) : Prop where
  desk : DeskInv d
  limits : ∀ {h call}, d.asks h = some (.call call) →
    call.maxDepth = maxDepth ∧ call.maxChildren = maxChildren
  walked : ∀ h, (d.mesh.submits h).pc.Walked d.mesh.store
  distinct : (d.made.map fun x => x.run.id).Nodup
  bounded : ∀ {x}, x ∈ d.made → x.ask.isCall = true → d.mesh.store.CallBounded maxDepth x.run
  children : ∀ parentID, (d.callChildren parentID : Int) ≤ maxChildren

section Invariant

variable {maxDepth maxChildren : Int} {d d' : Desk} {a : Action} {x : Made}

/-- The Runs that requests have created are stored; a new one was not. -/
theorem DeskInv.made_step (hd : DeskInv d) (ha : deskStep d a = some d') :
    d'.made = d.made ∨
      ∃ x, d'.made = d.made ++ [x] ∧ d.mesh.store.runs.lookup x.run.id = none := by
  cases Desk.move_of_step ha with
  | ask _ _ _ _ _ made | other _ _ _ made => exact .inl made
  | @handled n o pc e created action fresh handle mesh asks made =>
      obtain ⟨ask, hask⟩ := hd.asked handle
      cases Submit.handle_move handle with
      | silent | fail => exact .inl (by rw [made, Desk.entry_none, List.append_nil])
      | @create key run run' _ draft store =>
          refine .inr ⟨⟨ask, key, run'⟩, by rw [made, Desk.entry_some hask], ?_⟩
          obtain ⟨hfalse, -⟩ | ⟨-, -, -, p, r, rfl⟩ := Memory.createRun_ok store
          · cases hfalse
          · show d.mesh.store.runs.lookup run.id = none
            rw [draft.new.1]
            exact (draft.fresh fresh).2

theorem Memory.CallBounded.evolves {m m' : Memory} {run : Run} (h : m.CallBounded maxDepth run)
    (hm : m.Evolves m') : m'.CallBounded maxDepth run := by
  obtain ⟨ancestors, hanc, hdepth, hagents⟩ := h
  exact ⟨ancestors, hanc.mono hm.parentOf, hdepth, hagents.evolves hm⟩

/-- The Run that a call has created hangs under its parent, whose ancestors were read. -/
theorem CallInv.bounded_new (h : CallInv maxDepth maxChildren d) (ha : deskStep d a = some d')
    (hmade : d'.made = d.made ++ [x]) (hcall : x.ask.isCall = true) :
    d'.mesh.store.CallBounded maxDepth x.run := by
  have hev := (h.desk.run.step (mesh_of_deskStep ha)).2
  obtain ⟨n, call, sub, parent, hask, hpc, hcreates⟩ := h.desk.made_call ha hmade hcall
  have hwalk := h.walked n
  rw [hpc] at hwalk
  obtain ⟨above, hanc, hdepth, hagents⟩ := hwalk
  have hholds : d'.mesh.store.Holds x.run :=
    ((h.desk.step ha).made (hmade ▸ List.mem_append_right _ List.mem_cons_self)).2.holds
  have hnext : d'.mesh.store.parentOf x.run.id = some (some parent.id) := by
    rw [hholds.parentOf, hcreates.parentRunID, if_neg hcreates.named]
  refine ⟨parent.id :: above, .child hnext (hanc.mono hev.parentOf), ?_, ?_⟩
  · rw [← (h.limits hask).1, List.length_cons]
    exact_mod_cast hdepth
  · rw [hcreates.agentID]
    exact hagents.evolves hev

/-- The store has counted the Runs that calls have created under the parent. -/
theorem CallInv.children_new (h : CallInv maxDepth maxChildren d) (hpos : 1 ≤ maxChildren)
    (ha : deskStep d a = some d') (hmade : d'.made = d.made ++ [x]) (hcall : x.ask.isCall = true) :
    (d.callChildren x.run.parentRunID : Int) < maxChildren := by
  obtain ⟨n, call, sub, parent, hask, -, hcreates⟩ := h.desk.made_call ha hmade hcall
  have hlimit := hcreates.children (by rw [(h.limits hask).2]; omega)
  rw [(h.limits hask).2] at hlimit
  have hcounted : d.callChildren parent.id ≤ d.mesh.store.childCount parent.id := by
    rw [Desk.callChildren, List.countP_eq_length_filter, ← List.length_map fun x => x.run.id]
    refine Memory.length_le_childCount (h.distinct.sublist (List.filter_sublist.map _)) ?_
    intro id hid
    obtain ⟨y, hy, rfl⟩ := List.mem_map.mp hid
    obtain ⟨hy, hunder⟩ := List.mem_filter.mp hy
    obtain ⟨stored, hstored, hreq⟩ := (h.desk.made hy).2.holds
    refine ⟨stored, hstored, hreq.parentRunID.trans ?_⟩
    simpa using (Bool.and_eq_true_iff.mp hunder).2
  rw [hcreates.parentRunID]
  omega

theorem CallInv.step (h : CallInv maxDepth maxChildren d) (hpos : 1 ≤ maxChildren)
    (hlimited : limited maxDepth maxChildren d a = true) (ha : deskStep d a = some d') :
    CallInv maxDepth maxChildren d' := by
  have hdesk := h.desk.step ha
  have hev := (h.desk.run.step (mesh_of_deskStep ha)).2
  have hsame : ∀ {n}, d'.mesh.submits n = d.mesh.submits n →
      (d'.mesh.submits n).pc.Walked d'.mesh.store := by
    intro n hn
    rw [hn]
    exact (h.walked n).evolves hev
  have hlimits : (∀ {n call}, d'.asks n = some (.call call) →
      call.maxDepth = maxDepth ∧ call.maxChildren = maxChildren) ∧
      ∀ n, (d'.mesh.submits n).pc.Walked d'.mesh.store := by
    cases Desk.move_of_step ha with
    | other _ submits asks =>
        exact ⟨fun hask => h.limits (asks ▸ hask), fun n => hsame (by rw [submits])⟩
    | @handled n o pc e created _ _ handle mesh asks =>
        refine ⟨fun hask => h.limits (asks ▸ hask), fun n' => ?_⟩
        by_cases hn : n' = n
        · subst hn
          obtain ⟨ask, hask⟩ := h.desk.asked handle
          rw [mesh, State.handled_self]
          exact (h.walked n').step h.desk.run.ok (h.desk.serves hask) (Submit.handle_step handle)
        · exact hsame (by rw [mesh, State.handled_of_ne _ hn])
    | @ask n ask sent _ self others asks =>
        refine ⟨fun {n' call} hask => ?_, fun n' => ?_⟩
        · rw [asks] at hask
          by_cases hn : n' = n
          · subst hn
            rw [Function.update_self] at hask
            obtain rfl := Option.some.inj hask
            cases a with
            | agentCall =>
                obtain ⟨-, rfl⟩ : _ ∧ _ = call := by simpa [Action.ask] using sent
                simpa [limited] using hlimited
            | _ => simp [Action.ask] at sent
          · rw [Function.update_of_ne hn] at hask
            exact h.limits hask
        · by_cases hn : n' = n
          · subst hn
            rw [self]
            exact walked_start ask
          · exact hsame (others n' hn)
  rcases h.desk.made_step ha with hmade | ⟨x, hmade, hnew⟩
  · refine ⟨hdesk, hlimits.1, hlimits.2, ?_, ?_, ?_⟩
    · rw [hmade]
      exact h.distinct
    · rw [hmade]
      exact fun hx hcall => (h.bounded hx hcall).evolves hev
    · intro parentID
      rw [Desk.callChildren, hmade]
      exact h.children parentID
  · refine ⟨hdesk, hlimits.1, hlimits.2, ?_, ?_, ?_⟩
    · rw [hmade, List.map_append, List.nodup_append]
      refine ⟨h.distinct, List.nodup_singleton _, ?_⟩
      intro id hid id' hid' heq
      obtain ⟨y, hy, rfl⟩ := List.mem_map.mp hid
      obtain rfl := List.mem_singleton.mp hid'
      obtain ⟨stored, hstored, -⟩ := (h.desk.made hy).2.holds
      rw [heq, hnew] at hstored
      cases hstored
    · rw [hmade]
      intro y hy hcall
      rcases List.mem_append.mp hy with hy | hy
      · exact (h.bounded hy hcall).evolves hev
      · obtain rfl := List.mem_singleton.mp hy
        exact h.bounded_new ha hmade hcall
    · intro parentID
      rw [Desk.callChildren, hmade, List.countP_append, List.countP_singleton]
      split
      · rename_i hunder
        obtain ⟨hcall, hparent⟩ := Bool.and_eq_true_iff.mp hunder
        obtain rfl : x.run.parentRunID = parentID := by simpa using hparent
        have := h.children_new hpos ha hmade hcall
        rw [Desk.callChildren] at this
        omega
      · exact_mod_cast h.children parentID

end Invariant

/-- **Agent calls are bounded.**  Every Run that a call has created has at most `maxDepth` proper
ancestors, each with another Agent than its own, and no Run gets more than `maxChildren` children
by calls. -/
theorem agent_calls_bounded {maxDepth maxChildren : Int} {d : Desk} (hpos : 1 ≤ maxChildren)
    (hd : Runs deskStep (fun d a => limited maxDepth maxChildren d a = true) {} d) :
    (∀ {x}, x ∈ d.made → x.ask.isCall = true →
      ∃ run ancestors, d.mesh.store.runs.lookup x.run.id = some run ∧
        Ancestry d.mesh.store.parentOf run.id ancestors ∧ (ancestors.length : Int) ≤ maxDepth ∧
        ∀ id ∈ ancestors, ∃ ancestor, d.mesh.store.runs.lookup id = some ancestor ∧
          ancestor.agentID ≠ run.agentID) ∧
      ∀ parentID, (d.callChildren parentID : Int) ≤ maxChildren := by
  have hinv : CallInv maxDepth maxChildren d :=
    hd.invariant (I := CallInv maxDepth maxChildren)
      ⟨deskInv_init, fun hask => (nomatch hask), fun _ => trivial, List.nodup_nil,
        fun hx => (nomatch hx), fun _ => by show ((0 : Nat) : Int) ≤ _; omega⟩
      fun hu hP ha => hu.step hpos hP ha
  refine ⟨?_, hinv.children⟩
  intro x hx hcall
  obtain ⟨run, hrun, hreq⟩ := (hinv.desk.made hx).2.holds
  obtain ⟨ancestors, hanc, hdepth, hagents⟩ := hinv.bounded hx hcall
  refine ⟨run, ancestors, hrun, hreq.id ▸ hanc, hdepth, ?_⟩
  rw [hreq.agentID]
  exact hagents

theorem agent_calls_bounded_demo :
    ∃ d x run ancestors, Runs deskStep (fun d a => limited 8 16 d a = true) {} d ∧ x ∈ d.made ∧
      x.ask.isCall = true ∧ d.mesh.store.runs.lookup x.run.id = some run ∧
      Ancestry d.mesh.store.parentOf run.id ancestors ∧ (ancestors.length : Int) ≤ 8 ∧
      (d.callChildren "run_1" : Int) ≤ 16 := by
  obtain ⟨d, hexec, x, hx, hcall⟩ :
      ∃ d, exec (guarded deskStep (limited 8 16)) {} (runningParent ++
          prepareCall 1 { agentID := "agent_2", input := "hello" } ++
          [.handle 1 { newID := "run_2" }]) = some d ∧
        ∃ x ∈ d.made, x.ask.isCall = true := by
    refine exists_of_any ?_
    decide +kernel
  have hruns : Runs deskStep (fun d a => limited 8 16 d a = true) {} d :=
    runs_exec_guarded (fun _ _ h => h) hexec
  obtain ⟨hbounded, hchildren⟩ := agent_calls_bounded (by decide) hruns
  obtain ⟨run, ancestors, hrun, hanc, hdepth, -⟩ := hbounded hx hcall
  exact ⟨d, x, run, ancestors, hruns, hx, hcall, hrun, hanc, hdepth, hchildren "run_1"⟩

end AgentMesh
