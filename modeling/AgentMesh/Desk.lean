/-
AgentMesh/Desk.lean

The system with the requests that its clients have sent.

A control point of a request knows the submission after its checks, and forgets
it once the Run is created.  A `Desk` is a state of the system together with
what was asked at each place (`asks`) and with the Runs that requests have
created, each with the request that asked for it (`made`).  Both are history
that nothing reads, so a run of the desk is a run of the system.

`Ask.Serves` says what a request at a control point knows: its submission comes
from what was asked, the Runs that it has read are stored still with the same
request, and the Run that it has created is the one bound to its key.  It holds
along every run (`deskInv_runs`).  The store of the system is a forest of Runs
(`meshForest_runs`), since every creation has a fresh ID.
-/
import AgentMesh.Requests

namespace AgentMesh

open Machine

/-! ### Requests and what they made -/

/-- A request: `POST /api/v1/runs` with its body and its `Idempotency-Key`, or
`POST /api/v1/runs/{id}/children`. -/
inductive Ask
  | run (body : RunRequest) (header : String)
  | call (call : AgentCall)
  deriving DecidableEq

def Ask.body : Ask → RunRequest
  | .run body _ => body
  | .call c => c.body

def Ask.isCall : Ask → Bool
  | .run _ _ => false
  | .call _ => true

/-- The key under which the store creates the Run. -/
def Ask.key : Ask → String
  | .run _ header => trimSpace header
  | .call c => agentCallKey c.parentID (trimSpace c.idempotencyHeader)

/-- The Run that the request names as the parent. -/
def Ask.parentID : Ask → String
  | .run body _ => trimSpace body.parentRunID
  | .call c => c.parentID

/-- Where the handler starts. -/
def Ask.start : Ask → SubmitPc
  | .run body header => receive body header
  | .call c => .callLoad c

/-- A Run that a request has created, as it was created. -/
structure Made where
  ask : Ask
  key : String
  run : Run
  deriving DecidableEq

structure Desk where
  mesh : State := init
  asks : Nat → Option Ask := fun _ => none
  made : List Made := []

def Action.ask : Action → Option (Nat × Ask)
  | .request h _ _ body key => some (h, .run body key)
  | .agentCall h _ _ call => some (h, .call call)
  | _ => none

/-- The entry for a Run that the request at place `h` has created. -/
def Desk.entry (d : Desk) (h : Nat) (created : Option (String × Run)) : List Made :=
  match d.asks h, created with
  | some ask, some (key, run) => [⟨ask, key, run⟩]
  | _, _ => []

def Desk.nextAsks (d : Desk) (a : Action) : Nat → Option Ask :=
  match a.ask with
  | some (h, ask) => Function.update d.asks h (some ask)
  | none => d.asks

def Desk.nextMade (d : Desk) : Action → List Made
  | .handle h o =>
      match (d.mesh.submits h).handle o d.mesh.store with
      | some (_, _, created) => d.made ++ d.entry h created
      | none => d.made
  | _ => d.made

def deskStep (d : Desk) (a : Action) : Option Desk :=
  (step d.mesh a).map fun t => { mesh := t, asks := d.nextAsks a, made := d.nextMade a }

/-- The steps of the desk, by what they do to requests. -/
inductive Desk.Move (d : Desk) (a : Action) (d' : Desk) : Prop
  | ask {h : Nat} {ask : Ask} (sent : a.ask = some (h, ask))
      (store : d'.mesh.store = d.mesh.store) (self : (d'.mesh.submits h).pc = ask.start)
      (others : ∀ h', h' ≠ h → d'.mesh.submits h' = d.mesh.submits h')
      (asks : d'.asks = Function.update d.asks h (some ask)) (made : d'.made = d.made)
  | handled {h : Nat} {o : SubmitOracle} {pc : SubmitPc} {e : Effect}
      {created : Option (String × Run)} (action : a = .handle h o)
      (fresh : (d.mesh.submits h).fresh o d.mesh.store = true)
      (handle : (d.mesh.submits h).handle o d.mesh.store = some (pc, e, created))
      (mesh : d'.mesh = d.mesh.handled h pc e created) (asks : d'.asks = d.asks)
      (made : d'.made = d.made ++ d.entry h created)
  | other (action : ∀ h o, a ≠ .handle h o) (submits : d'.mesh.submits = d.mesh.submits)
      (asks : d'.asks = d.asks) (made : d'.made = d.made)

section Steps

variable {d d' : Desk} {a : Action}

theorem mesh_of_deskStep (h : deskStep d a = some d') : step d.mesh a = some d'.mesh := by
  obtain ⟨t, ht, rfl⟩ := Option.map_eq_some_iff.mp h
  exact ht

@[simp] theorem Desk.entry_none (d : Desk) (h : Nat) : d.entry h none = [] := by
  rw [Desk.entry]
  rintro _ _ _ _ ⟨⟩

theorem Desk.entry_some {h : Nat} {ask : Ask} (hask : d.asks h = some ask) (key : String)
    (run : Run) : d.entry h (some (key, run)) = [⟨ask, key, run⟩] := by
  simp only [Desk.entry, hask]

/-- A run of the desk is a run of the system. -/
theorem mesh_runs {P : Desk → Action → Prop} (h : Runs deskStep P d d') :
    Runs step Free d.mesh d'.mesh := by
  induction h with
  | refl => exact .refl
  | tail _ hnext ih =>
      obtain ⟨a, -, ha⟩ := hnext
      exact ih.snoc trivial (mesh_of_deskStep ha)

/-- Only requests move requests. -/
theorem submits_of_step {s t : State} (ha : step s a = some t) (hask : a.ask = none)
    (hhandle : ∀ h o, a ≠ .handle h o) : t.submits = s.submits := by
  cases a <;> simp only [step] at ha
  case request | agentCall => cases hask
  case handle h o => exact absurd rfl (hhandle h o)
  case startWorkflow | cancelWorkflow =>
    rw [(State.call_eq ha).2]
    rfl
  case reconcile =>
    split at ha
    · rw [(State.call_eq ha).2]
      rfl
    · cases ha
  case work | manage =>
    split at ha
    · obtain ⟨r, -, rfl⟩ := Option.map_eq_some_iff.mp ha
      rfl
    · cases ha
  case announceCanceled =>
    obtain ⟨r, -, rfl⟩ := Option.map_eq_some_iff.mp ha
    rfl
  all_goals
    repeat' split at ha
    all_goals cases ha
    all_goals rfl

theorem State.handled_self (s : State) (h : Nat) (pc : SubmitPc) (e : Effect)
    (created : Option (String × Run)) : ((s.handled h pc e created).submits h).pc = pc := by
  simp [State.handled]

theorem State.handled_of_ne (s : State) {h h' : Nat} (hne : h' ≠ h) (pc : SubmitPc) (e : Effect)
    (created : Option (String × Run)) :
    (s.handled h pc e created).submits h' = s.submits h' := by
  simp [State.handled, hne]

theorem Desk.move_of_step (ha : deskStep d a = some d') : d.Move a d' := by
  obtain ⟨t, ht, rfl⟩ := Option.map_eq_some_iff.mp ha
  cases a
  case request | agentCall =>
    simp only [step] at ht
    split at ht
    · obtain rfl := Option.some.inj ht
      refine .ask rfl rfl ?_ (fun h' hne => Function.update_of_ne hne ..) rfl rfl
      simp [Ask.start]
    · cases ht
  case handle h o =>
    simp only [step] at ht
    split at ht
    · rename_i hfresh
      obtain ⟨⟨pc, e, created⟩, he, rfl⟩ := Option.map_eq_some_iff.mp ht
      refine .handled rfl hfresh he rfl rfl ?_
      simp only [Desk.nextMade, he]
    · cases ht
  all_goals
    exact .other (fun _ _ h => by cases h) (submits_of_step ht rfl fun _ _ h => by cases h) rfl rfl

theorem made_mono (ha : deskStep d a = some d') {x : Made} (hx : x ∈ d.made) : x ∈ d'.made := by
  cases Desk.move_of_step ha with
  | ask _ _ _ _ _ made | other _ _ _ made => rwa [made]
  | handled _ _ _ _ _ made =>
      rw [made]
      exact List.mem_append_left _ hx

end Steps

/-! ### The forest of the system -/

section Forest

variable {s t : State} {a : Action}

/-- Every step keeps the Runs or is one method of the store, which creates no Run under an ID in
use. -/
theorem storeOp_of_step (ha : step s a = some t) :
    t.store.runs = s.store.runs ∨
      ∃ op, unused s.store (.run op) = true ∧ (s.store.perform op).1.runs = t.store.runs := by
  cases systemMove_of_step ha with
  | other runs => exact .inl runs.runs
  | worker | request | called => exact .inl rfl
  | created create =>
      obtain ⟨-, -, rfl⟩ := Memory.createWorkflow_ok create
      exact .inl rfl
  | @canceled _ id now _ _ cancel =>
      exact .inr ⟨.cancelRun id now, rfl, by rw [Memory.perform, cancel]⟩
  | @recovered _ id token _ _ recover =>
      exact .inr ⟨.recoverRun id token, rfl, by rw [Memory.perform, recover]⟩
  | worked _ act =>
      cases Worker.execute_move act with
      | silent store | reload _ _ store | enter _ _ _ store | invoke _ store =>
          exact .inl (congrArg Memory.runs store)
      | @claim run token _ _ _ store =>
          exact .inr ⟨.claimRunExecution run.id token, rfl, by rw [Memory.perform, store]; rfl⟩
      | @attempt _ run' f _ _ _ _ store | @finish _ _ run' f _ _ _ _ store =>
          exact .inr ⟨.updateRunFenced run' f, rfl, by rw [Memory.perform, store]; rfl⟩
  | handled fresh move =>
      cases move with
      | silent store => exact .inl (congrArg Memory.runs store)
      | @fail _ run' _ _ _ _ store =>
          exact .inr ⟨.updateRun run', rfl, by rw [Memory.perform, store]; rfl⟩
      | @create key run _ _ draft store =>
          refine .inr ⟨.createRun run key, ?_, by rw [Memory.perform, store]; rfl⟩
          rw [unused, draft.new.1, (draft.fresh fresh).2]
          rfl
  | @managed _ o _ _ fresh act =>
      cases Manager.act_move act with
      | silent runs => exact .inl runs.runs
      | @cancel id _ store => exact .inr ⟨.cancelRun id _, rfl, by rw [Memory.perform, store]; rfl⟩
      | @create candidate next input parentRunID step run hpc _ store =>
          refine .inr ⟨.createRun _ (stepKey candidate.id step.id), ?_,
            by rw [Memory.perform, store]; rfl⟩
          have hid : o.newID ≠ "" ∧ s.store.runs.lookup o.newID = none := by
            simpa [Manager.fresh, hpc] using fresh
          exact Option.isNone_iff_eq_none.mpr hid.2

theorem continues_of_step (hs : s.store.Forest) (ha : step s a = some t) :
    s.store.Continues t.store := by
  rcases storeOp_of_step ha with hruns | ⟨op, hunused, hruns⟩
  · exact .of_runs hruns
  · have hop := hs.perform hunused
    refine ⟨?_, ?_⟩
    · rw [Memory.KeepsLineage, ← hruns]
      exact hop.keeps
    · rw [← hruns]
      exact hop.new

theorem meshForest_runs {P : State → Action → Prop} (h : Runs step P init s) : s.store.Forest :=
  h.invariant (I := fun s => s.store.Forest) forest_empty
    fun hu _ ha => hu.continues (continues_of_step hu ha)

end Forest

/-! ### What requests know -/

/-- The Run is stored still, with the same request. -/
def Memory.Holds (m : Memory) (run : Run) : Prop :=
  ∃ stored, m.runs.lookup run.id = some stored ∧ run.SameRequest stored

/-- What `createRun` has read for the parent that it was given. -/
def Memory.IsParent (m : Memory) (id : String) : Option Run → Prop
  | none => id = ""
  | some parent => parent.id = id ∧ m.Holds parent

/-- The Run is the one that was asked for, and the one that the key is bound to. -/
structure Ask.Owns (m : Memory) (ask : Ask) (run : Run) : Prop where
  holds : m.Holds run
  selects : ask.body.Selects run
  parent : run.parentRunID = ask.parentID
  bound : ask.key ≠ "" → m.idempotencyKeys.lookup ask.key = some run.id

/-- An Agent call after its checks. -/
structure AgentCall.Passed (m : Memory) (call : AgentCall) (sub : Submission) (parent : Run) :
    Prop where
  accepts : call.body.Accepts call.idempotencyHeader sub
  keyed : sub.key ≠ ""
  id : parent.id = call.parentID
  holds : m.Holds parent

/-- A request at a control point. -/
inductive Ask.Serves (m : Memory) : Ask → SubmitPc → Prop
  | lookup {body : RunRequest} {header : String} {sub : Submission}
      (accepts : body.Accepts header sub) : Serves m (.run body header) (.lookup sub)
  | loadParent {body : RunRequest} {header : String} {sub : Submission}
      (accepts : body.Accepts header sub) : Serves m (.run body header) (.loadParent sub)
  | selectAgent {body : RunRequest} {header : String} {sub : Submission} {parent : Option Run}
      (accepts : body.Accepts header sub) (isParent : m.IsParent sub.request.parentRunID parent) :
      Serves m (.run body header) (.selectAgent sub parent)
  | create {body : RunRequest} {header : String} {sub : Submission} {parent : Option Run}
      (accepts : body.Accepts header sub) (isParent : m.IsParent sub.request.parentRunID parent) :
      Serves m (.run body header) (.create sub parent)
  | publishQueued {ask : Ask} {run : Run} (owns : ask.Owns m run) :
      Serves m ask (.publishQueued run)
  | enqueue {ask : Ask} {run : Run} (owns : ask.Owns m run) : Serves m ask (.enqueue run)
  | failRun {ask : Ask} {run : Run} {cause : Err} : Serves m ask (.failRun run cause)
  | publishFailed {ask : Ask} {run : Run} : Serves m ask (.publishFailed run)
  | callLoad {call : AgentCall} : Serves m (.call call) (.callLoad call)
  | callLookup {call : AgentCall} {sub : Submission} {parent : Run}
      (passed : call.Passed m sub parent) : Serves m (.call call) (.callLookup call sub parent)
  | callAncestry {call : AgentCall} {sub : Submission} {parent current : Run} {depth : Int}
      {agents seenRuns : List String} (passed : call.Passed m sub parent) :
      Serves m (.call call) (.callAncestry call sub parent current depth agents seenRuns)
  | callSelect {call : AgentCall} {sub : Submission} {parent : Run} {ancestorAgents : List String}
      (passed : call.Passed m sub parent) :
      Serves m (.call call) (.callSelect call sub parent ancestorAgents)
  | callCreate {call : AgentCall} {sub : Submission} {parent : Run}
      (passed : call.Passed m sub parent) : Serves m (.call call) (.callCreate call sub parent)
  | callPublish {ask : Ask} {parent run : Run} (owns : ask.Owns m run) :
      Serves m ask (.callPublish parent run)
  | callEnqueue {ask : Ask} {run : Run} (owns : ask.Owns m run) : Serves m ask (.callEnqueue run)
  | callFail {ask : Ask} {run : Run} {cause : Err} : Serves m ask (.callFail run cause)
  | done {ask : Ask} {response : Response} : Serves m ask (.done response)

section Serves

variable {m m' : Memory} {ask : Ask} {pc : SubmitPc} {run run' : Run} {call : AgentCall}
  {sub : Submission} {parent : Run}

theorem Memory.Holds.evolves (h : m.Holds run) (hm : m.Evolves m') : m'.Holds run := by
  obtain ⟨stored, hstored, hreq⟩ := h
  obtain ⟨stored', hstored', hreq', -⟩ := hm.runs hstored
  exact ⟨stored', hstored', hreq.trans hreq'⟩

theorem Memory.RunsOk.holds (hm : m.RunsOk) {id : String} (h : m.runs.lookup id = some run) :
    run.id = id ∧ m.Holds run := by
  have hid := hm.id h
  exact ⟨hid, run, by rw [hid, h], .refl run⟩

theorem Memory.IsParent.evolves {id : String} {parent : Option Run} (h : m.IsParent id parent)
    (hm : m.Evolves m') : m'.IsParent id parent := by
  rcases parent with - | parent
  · exact h
  · exact ⟨h.1, h.2.evolves hm⟩

theorem Ask.Owns.evolves (h : ask.Owns m run) (hm : m.Evolves m') : ask.Owns m' run :=
  ⟨h.holds.evolves hm, h.selects, h.parent, fun hkey => hm.keys (h.bound hkey)⟩

theorem AgentCall.Passed.evolves (h : call.Passed m sub parent) (hm : m.Evolves m') :
    call.Passed m' sub parent :=
  ⟨h.accepts, h.keyed, h.id, h.holds.evolves hm⟩

/-- What a request knows does not depend on what others do to the store. -/
theorem Ask.Serves.evolves (h : ask.Serves m pc) (hm : m.Evolves m') : ask.Serves m' pc := by
  cases h with
  | lookup accepts => exact .lookup accepts
  | loadParent accepts => exact .loadParent accepts
  | selectAgent accepts isParent => exact .selectAgent accepts (isParent.evolves hm)
  | create accepts isParent => exact .create accepts (isParent.evolves hm)
  | publishQueued owns => exact .publishQueued (owns.evolves hm)
  | enqueue owns => exact .enqueue (owns.evolves hm)
  | failRun => exact .failRun
  | publishFailed => exact .publishFailed
  | callLoad => exact .callLoad
  | callLookup passed => exact .callLookup (passed.evolves hm)
  | callAncestry passed => exact .callAncestry (passed.evolves hm)
  | callSelect passed => exact .callSelect (passed.evolves hm)
  | callCreate passed => exact .callCreate (passed.evolves hm)
  | callPublish owns => exact .callPublish (owns.evolves hm)
  | callEnqueue owns => exact .callEnqueue (owns.evolves hm)
  | callFail => exact .callFail
  | done => exact .done

theorem Ask.serves_start (m : Memory) (ask : Ask) : ask.Serves m ask.start := by
  rcases ask with ⟨body, header⟩ | call
  · exact receive_accepts (P := Ask.Serves m (.run body header)) body header (fun _ _ => .done)
      (fun _ h => .lookup h) (fun _ h => .loadParent h) fun _ h hroot => .selectAgent h hroot
  · exact .callLoad

theorem AgentCall.Passed.ancestry (h : call.Passed m sub parent) (current : Run) (depth : Int)
    (agents seenRuns : List String) :
    (Ask.call call).Serves m (agentCallAncestry call sub parent current depth agents seenRuns) := by
  rw [agentCallAncestry]
  refine iteInduction (fun _ => ?_) fun _ => ?_
  · exact iteInduction (fun _ => .done) fun _ => .callSelect h
  · exact iteInduction (fun _ => .done) fun _ => .callAncestry h

theorem AgentCall.Passed.callee (h : call.Passed m sub parent) (ancestorAgents : List String) :
    (Ask.call call).Serves m (checkCallee call sub parent ancestorAgents) := by
  rw [checkCallee]
  exact iteInduction (fun _ => .done) fun _ => .callCreate h

/-- A lineage check keeps the parent that a Run names. -/
theorem Memory.RunsOk.attachLineage (hm : m.RunsOk) (h : m.attachLineage run = .ok run') :
    run'.parentRunID = run.parentRunID := by
  rw [Memory.attachLineage] at h
  split at h
  · split at h
    · cases h
    · rw [Except.ok.inj h]
  · split at h
    · cases h
    · rename_i parent hparent
      split at h
      · cases h
      · rename_i attached hattach
        split at h
        · cases h
        · obtain rfl := Except.ok.inj h
          rw [(Run.attachTo_lineage hattach).2.1, hm.id hparent]

theorem attachParent_parent {parent : Option Run} (hparent : m.IsParent run.parentRunID parent)
    (h : attachParent run parent = .ok run') : run'.parentRunID = run.parentRunID := by
  rcases parent with - | parent
  · rw [Except.ok.inj h]
  · rw [(Run.attachTo_lineage h).2.1, hparent.1]

/-- The store has created the Run that a request asks for. -/
theorem Ask.Owns.created (ask : Ask) {key : String} (hm : m.RunsOk)
    (hselects : ask.body.Selects run)
    (hparent : run.parentRunID = ask.parentID) (hkey : key = ask.key)
    (h : m.createRun run key = .ok (m', run', true)) : key = ask.key ∧ ask.Owns m' run' := by
  obtain ⟨-, -, -, -, hfalse⟩ | ⟨-, hattach, rfl, -⟩ := Memory.createRun_cases h
  · cases hfalse
  have hsame := hm.attachLineage hattach
  obtain ⟨parentID, root, rfl⟩ := Memory.attachLineage_ok hattach
  refine ⟨hkey, ⟨_, AList.lookup_insert _, .refl _⟩, hselects, hsame.trans hparent, ?_⟩
  intro hne
  rw [hkey, Memory.storeRun_keys, if_pos ⟨rfl, hne⟩]

variable {h : Submit} {o : SubmitOracle} {created : Option (String × Run)}

/-- **A request does what it was asked.**  Each action leads to a control point that serves the
request, and a Run that it creates is the one asked for. -/
theorem Ask.Serves.step (hm : m.RunsOk) (hev : m.Evolves m') (hserves : ask.Serves m h.pc)
    (hs : h.Step o m pc m' created) :
    ask.Serves m' pc ∧ ∀ key run, created = some (key, run) → key = ask.key ∧ ask.Owns m' run := by
  have hnone : ∀ (key : String) (run : Run),
      none = some (key, run) → key = ask.key ∧ ask.Owns m' run :=
    fun _ _ h => nomatch h
  cases hs with
  | refused => exact ⟨.done, hnone⟩
  | replay | raced | accepted | callReplay | callRaced | callAccepted | callFailed =>
      exact ⟨.done, hnone⟩
  | unqueued => exact ⟨.failRun, hnone⟩
  | failed => exact ⟨.publishFailed, hnone⟩
  | callUnqueued => exact ⟨.callFail, hnone⟩
  | missed hpc =>
      rw [hpc] at hserves
      cases hserves with
      | lookup accepts => exact ⟨.loadParent accepts, hnone⟩
  | missedRoot hpc root =>
      rw [hpc] at hserves
      cases hserves with
      | lookup accepts => exact ⟨.selectAgent accepts root, hnone⟩
  | parent hpc found =>
      rw [hpc] at hserves
      cases hserves with
      | loadParent accepts => exact ⟨.selectAgent accepts (hm.holds found), hnone⟩
  | routed hpc hr select =>
      rw [hpc] at hserves
      cases hserves with
      | selectAgent accepts isParent =>
          obtain ⟨haccepts, hsame⟩ := accepts.selectRouted hr select
          exact ⟨.create haccepts (hsame ▸ isParent), hnone⟩
  | agent hpc =>
      rw [hpc] at hserves
      cases hserves with
      | selectAgent accepts isParent => exact ⟨.create accepts isParent, hnone⟩
  | @create sub parent run created _ hpc attach create =>
      rw [hpc] at hserves
      cases hserves with
      | create accepts isParent =>
          have hparent : run.parentRunID = sub.request.parentRunID :=
            attachParent_parent (m := m) isParent attach
          obtain ⟨p, r, rfl⟩ := attachParent_ok attach
          have howns := Ask.Owns.created (.run _ _) hm
            (accepts.selects_iff.mpr ⟨rfl, rfl, fun _ => rfl⟩) (hparent.trans accepts.parent)
            accepts.key create
          refine ⟨.publishQueued howns.2, ?_⟩
          rintro key run ⟨⟩
          exact howns
  | published hpc =>
      rw [hpc] at hserves
      cases hserves with
      | publishQueued owns => exact ⟨.enqueue owns, hnone⟩
  | callLoad hpc found check =>
      rw [hpc] at hserves
      cases hserves with
      | callLoad =>
          obtain ⟨hid, hholds⟩ := hm.holds found
          refine ⟨.callLookup ?_, hnone⟩
          exact AgentCall.check_cases
            (P := fun r => ∀ sub, r = .ok sub → AgentCall.Passed m _ sub _) _ _
            (fun _ _ _ h => nomatch h)
            (fun _ haccepts hkey _ h => Except.ok.inj h ▸ ⟨haccepts, hkey, hid, hholds⟩) _ check
  | callRunning hpc =>
      rw [hpc] at hserves
      cases hserves with
      | callLookup passed => exact ⟨passed.ancestry .., hnone⟩
  | callAncestor hpc =>
      rw [hpc] at hserves
      cases hserves with
      | callAncestry passed => exact ⟨passed.ancestry .., hnone⟩
  | callRouted hpc hr select =>
      rw [hpc] at hserves
      cases hserves with
      | callSelect passed =>
          have hkey := (passed.accepts.selectCallee hr select).key.trans passed.accepts.key.symm
          exact ⟨AgentCall.Passed.callee ⟨passed.accepts.selectCallee hr select, hkey ▸ passed.keyed,
            passed.id, passed.holds⟩ _, hnone⟩
  | callAgent hpc =>
      rw [hpc] at hserves
      cases hserves with
      | callSelect passed => exact ⟨passed.callee _, hnone⟩
  | @callCreate call sub parent run created _ hpc attach create =>
      rw [hpc] at hserves
      cases hserves with
      | callCreate passed =>
          have hparent : run.parentRunID = call.parentID :=
            (Run.attachTo_lineage attach).2.1.trans passed.id
          obtain ⟨p, r, rfl⟩ := Run.attachTo_ok attach
          have hkey : agentCallKey parent.id sub.key = Ask.key (.call call) := by
            rw [Ask.key, passed.id, passed.accepts.key]
          have howns := Ask.Owns.created (.call call) hm
            (passed.accepts.selects_iff.mpr ⟨rfl, rfl, fun _ => rfl⟩) hparent hkey
            (Memory.createChildRun_ok create)
          refine ⟨.callPublish howns.2, ?_⟩
          rintro key run ⟨⟩
          exact howns
  | callPublished hpc =>
      rw [hpc] at hserves
      cases hserves with
      | callPublish owns => exact ⟨.callEnqueue owns, hnone⟩

end Serves

/-! ### Every step -/

structure DeskInv (d : Desk) : Prop where
  run : RunInv d.mesh
  forest : d.mesh.store.Forest
  serves : ∀ {h ask}, d.asks h = some ask → ask.Serves d.mesh.store (d.mesh.submits h).pc
  /-- Nobody works where nothing was asked. -/
  idle : ∀ {h}, d.asks h = none → (d.mesh.submits h).pc = .idle
  made : ∀ {x}, x ∈ d.made → x.key = x.ask.key ∧ x.ask.Owns d.mesh.store x.run

section Invariant

variable {d d' : Desk} {a : Action}

theorem deskInv_init : DeskInv {} where
  run := runInv_init
  forest := forest_empty
  serves := nofun
  idle _ := rfl
  made := nofun

/-- A request that takes an action was asked for. -/
theorem DeskInv.asked (hd : DeskInv d) {n : Nat} {o : SubmitOracle}
    {r : SubmitPc × Effect × Option (String × Run)}
    (h : (d.mesh.submits n).handle o d.mesh.store = some r) : ∃ ask, d.asks n = some ask := by
  rcases hask : d.asks n with - | ask
  · simp [Submit.handle, hd.idle hask] at h
  · exact ⟨ask, rfl⟩

theorem DeskInv.step (hd : DeskInv d) (ha : deskStep d a = some d') : DeskInv d' := by
  have hmesh := mesh_of_deskStep ha
  obtain ⟨hrun, hev⟩ := hd.run.step hmesh
  have hforest := hd.forest.continues (continues_of_step hd.forest hmesh)
  have hmade : ∀ {x}, x ∈ d.made → x.key = x.ask.key ∧ x.ask.Owns d'.mesh.store x.run :=
    fun hx => ⟨(hd.made hx).1, (hd.made hx).2.evolves hev⟩
  cases Desk.move_of_step ha with
  | other _ submits asks made =>
      refine ⟨hrun, hforest, ?_, ?_, ?_⟩
      · intro h ask hask
        rw [asks] at hask
        rw [submits]
        exact (hd.serves hask).evolves hev
      · intro h hask
        rw [asks] at hask
        rw [submits]
        exact hd.idle hask
      · rw [made]
        exact hmade
  | @ask n ask _ store self others asks made =>
      refine ⟨hrun, hforest, ?_, ?_, ?_⟩
      · intro h ask' hask
        rw [asks] at hask
        by_cases hn : h = n
        · subst hn
          rw [Function.update_self] at hask
          obtain rfl := Option.some.inj hask
          rw [self]
          exact ask.serves_start _
        · rw [Function.update_of_ne hn] at hask
          rw [others h hn]
          exact (hd.serves hask).evolves hev
      · intro h hask
        rw [asks] at hask
        by_cases hn : h = n
        · subst hn
          rw [Function.update_self] at hask
          cases hask
        · rw [Function.update_of_ne hn] at hask
          rw [others h hn]
          exact hd.idle hask
      · rw [made]
        exact hmade
  | @handled n o pc e created _ _ handle mesh asks made =>
      obtain ⟨ask, hask⟩ := hd.asked handle
      have hstore : e.store = d'.mesh.store := by
        rw [mesh]
        rfl
      have hstep := (hd.serves hask).step hd.run.ok hev (hstore ▸ Submit.handle_step handle)
      refine ⟨hrun, hforest, ?_, ?_, ?_⟩
      · intro h ask' hask'
        rw [asks] at hask'
        by_cases hn : h = n
        · subst hn
          obtain rfl := Option.some.inj (hask.symm.trans hask')
          have hpc : (d'.mesh.submits h).pc = pc := mesh ▸ d.mesh.handled_self ..
          rw [hpc]
          exact hstep.1
        · have hsame : d'.mesh.submits h = d.mesh.submits h := mesh ▸ d.mesh.handled_of_ne hn ..
          rw [hsame]
          exact (hd.serves hask').evolves hev
      · intro h hask'
        rw [asks] at hask'
        have hn : h ≠ n := by
          rintro rfl
          rw [hask] at hask'
          cases hask'
        have hsame : d'.mesh.submits h = d.mesh.submits h := mesh ▸ d.mesh.handled_of_ne hn ..
        rw [hsame]
        exact hd.idle hask'
      · intro x hx
        rw [made] at hx
        rcases List.mem_append.mp hx with hx | hx
        · exact hmade hx
        · rcases created with - | ⟨key, run⟩
          · simp at hx
          · obtain rfl : x = ⟨ask, key, run⟩ := by simpa [Desk.entry_some hask] using hx
            exact hstep.2 key run rfl

/-- The response of the request at a place, once it has one. -/
def Desk.response (d : Desk) (h : Nat) : Option Response :=
  match (d.mesh.submits h).pc with
  | .done response => some response
  | _ => none

/-- A response that reports success carries the Run that was asked for. -/
def Ask.Answered (m : Memory) (ask : Ask) (response : Response) : Prop :=
  response.code < 300 → ∃ run, response.run = some run ∧ ask.Owns m run

theorem Desk.response_eq {h : Nat} {response : Response} (hr : d.response h = some response) :
    (d.mesh.submits h).pc = .done response := by
  rw [Desk.response] at hr
  split at hr
  · rename_i found
    rw [found, Option.some.inj hr]
  · cases hr

theorem Ask.Answered.evolves {m m' : Memory} {ask : Ask} {response : Response}
    (h : ask.Answered m response) (hm : m.Evolves m') : ask.Answered m' response := by
  intro hcode
  obtain ⟨run, hrun, howns⟩ := h hcode
  exact ⟨run, hrun, howns.evolves hm⟩

/-- No request is answered with success before its first store call. -/
theorem Ask.answered_start {m : Memory} {ask : Ask} {response : Response}
    (h : ask.start = .done response) : ask.Answered m response := by
  intro hcode
  rcases ask with ⟨body, header⟩ | call
  · have herror : 400 ≤ response.code :=
      receive_accepts (P := fun pc => ∀ r, pc = .done r → 400 ≤ r.code) body header
        (fun _ hc r hr => by cases hr; exact hc) (fun _ _ _ hr => nomatch hr)
        (fun _ _ _ hr => nomatch hr) (fun _ _ _ _ hr => nomatch hr) response h
    omega
  · cases h

theorem deskInv_runs {P : Desk → Action → Prop} (h : Runs deskStep P {} d) : DeskInv d :=
  h.invariant deskInv_init fun hu _ ha => hu.step ha

/-- **Answers.**  Where the last action of a request answers well, all its answers are good:
nothing that happens later takes the Run away. -/
theorem answered_runs {P : Desk → Action → Prop} {A : Ask → Prop}
    (hact : ∀ {d h o ask response e created}, DeskInv d → P d (.handle h o) → A ask →
      d.asks h = some ask →
      (d.mesh.submits h).handle o d.mesh.store = some (.done response, e, created) →
      ask.Answered e.store response)
    (h : Runs deskStep P {} d) {n : Nat} {ask : Ask} {response : Response} (hA : A ask)
    (hask : d.asks n = some ask) (hr : d.response n = some response) :
    ask.Answered d.mesh.store response := by
  have key : DeskInv d ∧ ∀ n ask response, A ask → d.asks n = some ask →
      (d.mesh.submits n).pc = .done response → ask.Answered d.mesh.store response := by
    refine h.invariant (I := fun d => DeskInv d ∧ ∀ n ask response, A ask → d.asks n = some ask →
      (d.mesh.submits n).pc = .done response → ask.Answered d.mesh.store response)
      ⟨deskInv_init, fun _ _ _ _ hask => nomatch hask⟩ ?_
    rintro u v a ⟨hu, hanswers⟩ hP ha
    have hev := (hu.run.step (mesh_of_deskStep ha)).2
    refine ⟨hu.step ha, ?_⟩
    intro n ask response hA hask hdone
    cases Desk.move_of_step ha with
    | other _ submits asks =>
        rw [submits] at hdone
        rw [asks] at hask
        exact (hanswers n ask response hA hask hdone).evolves hev
    | @ask n' ask' _ store self others asks =>
        rw [asks] at hask
        by_cases hn : n = n'
        · subst hn
          rw [Function.update_self] at hask
          obtain rfl := Option.some.inj hask
          exact Ask.answered_start (self ▸ hdone)
        · rw [Function.update_of_ne hn] at hask
          rw [others n hn] at hdone
          exact (hanswers n ask response hA hask hdone).evolves hev
    | @handled n' o pc e created action _ handle mesh asks =>
        rw [asks] at hask
        rw [mesh] at hdone ⊢
        by_cases hn : n = n'
        · subst hn
          rw [State.handled_self] at hdone
          exact hact hu (action ▸ hP) hA hask (hdone ▸ handle)
        · rw [State.handled_of_ne _ hn] at hdone
          exact (hanswers n ask response hA hask hdone).evolves (mesh ▸ hev)
  exact key.2 n ask response hA hask (Desk.response_eq hr)

end Invariant

/-! ### A Run that calls -/

/-- A Run of `agent_1` is running, and there is another Agent that it can call. -/
def runningParent : List Action :=
  submitRun 3 ++ workOn 0 8 {} ++
    [.registry (AList.insert "agent_2" { id := "agent_2" }
      (AList.insert "agent_1" { id := "agent_1" } ∅))]

/-- `agent_1` calls from its Run. -/
def callFrom (body : RunRequest) : AgentCall :=
  { parentID := "run_1", callerHeader := "agent_1", idempotencyHeader := "key", body := body }

/-- The call is sent to place `h` and comes to `CreateChildRun`. -/
def prepareCall (h : Nat) (body : RunRequest) : List Action :=
  [.agentCall h 3 "req" (callFrom body), .handle h {}, .handle h {},
    .handle h { routed := .agent "agent_2" }]

end AgentMesh
