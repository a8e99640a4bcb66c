/-
AgentMesh/Moves.lean

What one action of a call can do to the Runs of the store.

A call of `execute` has some forty ways to go on, a manager call as many, and
for the Runs nearly all of them are alike: nothing is written.  `Worker.Move`,
`Submit.Move` and `Manager.Move` sort the actions of each kind of call into a
few classes, each with the store operation that it makes and with what the
call holds before and after.  The invariants of Runs are proved per class.
-/
import AgentMesh.Mesh
import AgentMesh.Ownership

namespace AgentMesh

/-! ### Executions -/

/-- The Run that a call of `execute` may write to. -/
def ExecPc.hold : ExecPc → Option Hold
  | .reload run fence => some ⟨run.id, fence, .unknown⟩
  | .loopLease run fence | .loopRunCtx run fence | .persistAttempt run fence =>
      some ⟨run.id, fence, .limited run⟩
  | .loadAgent run fence | .invoke run fence | .running run fence | .afterLease run fence _
  | .afterCtx run fence _ | .afterRunCtx run fence _ | .persistSucceeded run fence _
  | .persistFailed run fence _ | .backoff run fence | .backoffLease run fence
  | .backoffCtx run fence => some ⟨run.id, fence, .exact run⟩
  | _ => none

/-- The Run whose stored attempt the call is about to hand to the runtime. -/
def ExecPc.invoking : ExecPc → Option String
  | .invoke run _ => some run.id
  | _ => none

/-- The output that the runtime has returned and that is not stored yet. -/
def ExecPc.outcome : ExecPc → Option (Run × String)
  | .afterLease run _ (.ok output) | .afterCtx run _ (.ok output)
  | .afterRunCtx run _ (.ok output) | .persistSucceeded run _ output => some (run, output)
  | _ => none

/-- The actions of a call of `execute`, by what they do to Runs. -/
inductive Worker.Move (w : Worker) (m : Memory) : ExecPc → Effect → Prop
  /-- Nothing is written, and the call keeps its Run or lets go of it. -/
  | silent {pc : ExecPc} {e : Effect} (store : e.store = m) (invocations : e.invocations = [])
      (hold : pc.hold = w.pc.hold ∨ pc.hold = none) (before : w.pc.invoking = none)
      (after : pc.invoking = none) : Move w m pc e
  | claim {run : Run} {token f : Int} {e : Effect} (pc : w.pc = .claim run token)
      (store : m.claimRunExecution run.id token = .ok (e.store, f))
      (invocations : e.invocations = []) : Move w m (.reload run f) e
  | reload {run run' : Run} {f : Int} {e : Effect} (pc : w.pc = .reload run f)
      (lookup : m.runs.lookup run.id = some run') (store : e.store = m)
      (invocations : e.invocations = []) : Move w m (.loadAgent run' f) e
  /-- The attempt loop is entered, with a limit. -/
  | enter {run v : Run} {f : Int} {e : Effect} (hold : w.pc.hold = some ⟨run.id, f, .exact run⟩)
      (before : w.pc.invoking = none) (limit : v.LimitOf run) (store : e.store = m)
      (invocations : e.invocations = []) : Move w m (.loopLease v f) e
  | attempt {run run' : Run} {f : Int} {now : Time} {e : Effect}
      (pc : w.pc = .persistAttempt run f) (next : run.nextAttempt now = .ok run')
      (store : m.updateRunFenced run' f = .ok e.store) (invocations : e.invocations = []) :
      Move w m (.invoke run' f) e
  | invoke {run : Run} {f : Int} {e : Effect} (pc : w.pc = .invoke run f) (store : e.store = m)
      (invocations : e.invocations = [run.id]) : Move w m (.running run f) e
  /-- The end of the Run is stored. -/
  | finish {pc : ExecPc} {run run' : Run} {f : Int} {e : Effect}
      (hold : w.pc.hold = some ⟨run.id, f, .exact run⟩) (before : w.pc.invoking = none)
      (advance : (View.exact run).Advance run') (store : m.updateRunFenced run' f = .ok e.store)
      (after : pc.hold = none) (stopped : pc.invoking = none) (invocations : e.invocations = [])
      (outcome : run'.status = .succeeded → w.pc.outcome = some (run, run'.output)) :
      Move w m pc e

section Executions

variable {w : Worker} {o : Oracle} {m : Memory} {pc next : ExecPc} {e : Effect}

theorem checkLease_eq {run : Run} (h : checkLease w run m next = (pc, e)) :
    e.store = m ∧ e.invocations = [] ∧ (pc = next ∨ ∃ err, pc = .done err) := by
  rw [checkLease] at h
  split at h
  · obtain ⟨rfl, rfl⟩ := Prod.mk.inj h
    exact ⟨rfl, rfl, .inr ⟨_, rfl⟩⟩
  · obtain ⟨rfl, rfl⟩ := Prod.mk.inj h
    exact ⟨rfl, rfl, .inl rfl⟩

theorem writeFenced_eq {run : Run} {f : Int} {context : String}
    (h : writeFenced m run f context next = (pc, e)) :
    e.invocations = [] ∧
      (m.updateRunFenced run f = .ok e.store ∧ pc = next ∨
        e.store = m ∧ ∃ err, pc = .done err) := by
  rw [writeFenced] at h
  split at h
  · split at h
    all_goals
      obtain ⟨rfl, rfl⟩ := Prod.mk.inj h
      exact ⟨rfl, .inr ⟨rfl, _, rfl⟩⟩
  · rename_i m' hm'
    obtain ⟨rfl, rfl⟩ := Prod.mk.inj h
    exact ⟨rfl, .inl ⟨hm', rfl⟩⟩

/-- A lease check keeps the Run or lets go of it. -/
theorem Worker.Move.of_checkLease {run : Run} (h : checkLease w run m next = (pc, e))
    (hold : next.hold = w.pc.hold) (before : w.pc.invoking = none)
    (after : next.invoking = none) : w.Move m pc e := by
  obtain ⟨hstore, hinv, rfl | ⟨err, rfl⟩⟩ := checkLease_eq h
  · exact .silent hstore hinv (.inl hold) before after
  · exact .silent hstore hinv (.inr rfl) before rfl

/-- A write that ends the Run. -/
theorem Worker.Move.of_finish {run run' : Run} {f : Int} {context : String}
    (h : writeFenced m run' f context next = (pc, e))
    (hold : w.pc.hold = some ⟨run.id, f, .exact run⟩) (before : w.pc.invoking = none)
    (advance : (View.exact run).Advance run') (after : next.hold = none)
    (stopped : next.invoking = none)
    (outcome : run'.status = .succeeded → w.pc.outcome = some (run, run'.output)) :
    w.Move m pc e := by
  obtain ⟨hinv, ⟨hw, rfl⟩ | ⟨hstore, err, rfl⟩⟩ := writeFenced_eq h
  · exact .finish hold before advance hw after stopped hinv outcome
  · exact .silent hstore hinv (.inr rfl) before rfl

/-- Every action of a call of `execute` is in one of the classes. -/
theorem Worker.execute_move (h : w.execute o m = some (pc, e)) : w.Move m pc e := by
  cases hpc : w.pc <;> simp only [Worker.execute, hpc, Option.some.injEq, reduceCtorEq] at h
  -- before the claim and after the end nothing is held
  case load | deadLetterLoaded | acquire | deadLetter | backoffCtx =>
    repeat' split at h
    all_goals
      obtain ⟨rfl, rfl⟩ := Prod.mk.inj (Option.some.inj h)
      exact .silent rfl rfl (.inr rfl) (by rw [hpc]; rfl) rfl
  case publishSucceeded | publishFailed =>
    obtain ⟨rfl, rfl⟩ := Prod.mk.inj h
    exact .silent rfl rfl (.inr rfl) (by rw [hpc]; rfl) rfl
  case claim run token =>
    split at h
    · split at h
      all_goals
        obtain ⟨rfl, rfl⟩ := Prod.mk.inj (Option.some.inj h)
        exact .silent rfl rfl (.inr rfl) (by rw [hpc]; rfl) rfl
    · rename_i m' f hclaim
      obtain ⟨rfl, rfl⟩ := Prod.mk.inj (Option.some.inj h)
      exact .claim hpc hclaim rfl
  case reload run f =>
    split at h
    · obtain ⟨rfl, rfl⟩ := Prod.mk.inj (Option.some.inj h)
      exact .silent rfl rfl (.inr rfl) (by rw [hpc]; rfl) rfl
    · rename_i run' hrun
      split at h
      · obtain ⟨rfl, rfl⟩ := Prod.mk.inj (Option.some.inj h)
        exact .silent rfl rfl (.inr rfl) (by rw [hpc]; rfl) rfl
      · obtain ⟨rfl, rfl⟩ := Prod.mk.inj (Option.some.inj h)
        exact .reload hpc (Memory.getRun_ok.mp hrun) rfl rfl
  case loadAgent run f =>
    repeat' split at h
    · obtain ⟨rfl, rfl⟩ := Prod.mk.inj (Option.some.inj h)
      exact .silent rfl rfl (.inl (by rw [hpc]; rfl)) (by rw [hpc]; rfl) rfl
    · obtain ⟨rfl, rfl⟩ := Prod.mk.inj (Option.some.inj h)
      exact .silent rfl rfl (.inl (by rw [hpc]; rfl)) (by rw [hpc]; rfl) rfl
    · obtain ⟨rfl, rfl⟩ := Prod.mk.inj (Option.some.inj h)
      -- the record enters the attempt loop with its limit filled in
      have hlimit := (Run.LimitOf.refl run).withLimit w.engine
      exact .enter (by rw [hpc]; rfl) (by rw [hpc]; rfl) hlimit rfl rfl
  case loopLease | afterLease | backoffLease =>
    exact .of_checkLease h (by rw [hpc]; rfl) (by rw [hpc]; rfl) rfl
  -- a context that is done gives the Run up, otherwise the call keeps it
  case loopRunCtx | afterCtx | afterRunCtx =>
    split at h
    · obtain ⟨rfl, rfl⟩ := Prod.mk.inj (Option.some.inj h)
      exact .silent rfl rfl (.inr rfl) (by rw [hpc]; rfl) rfl
    · repeat' split at h
      all_goals
        obtain ⟨rfl, rfl⟩ := Prod.mk.inj (Option.some.inj h)
        exact .silent rfl rfl (.inl (by rw [hpc]; rfl)) (by rw [hpc]; rfl) rfl
  case persistAttempt run f =>
    split at h
    · obtain ⟨rfl, rfl⟩ := Prod.mk.inj (Option.some.inj h)
      exact .silent rfl rfl (.inr rfl) (by rw [hpc]; rfl) rfl
    · rename_i run' hnext
      obtain ⟨hinv, ⟨hw, rfl⟩ | ⟨hstore, err, rfl⟩⟩ := writeFenced_eq (Option.some.inj h)
      · exact .attempt hpc hnext hw hinv
      · exact .silent hstore hinv (.inr rfl) (by rw [hpc]; rfl) rfl
  case invoke run f =>
    obtain ⟨rfl, rfl⟩ := Prod.mk.inj h
    exact .invoke hpc rfl rfl
  case running run f =>
    obtain ⟨rfl, rfl⟩ := Prod.mk.inj h
    exact .silent rfl rfl (.inl (by rw [hpc]; rfl)) (by rw [hpc]; rfl) rfl
  case persistSucceeded run f output =>
    split at h
    · obtain ⟨rfl, rfl⟩ := Prod.mk.inj (Option.some.inj h)
      exact .silent rfl rfl (.inr rfl) (by rw [hpc]; rfl) rfl
    · rename_i run' hs
      obtain ⟨-, hrun'⟩ := Run.succeed_ok hs
      exact .of_finish (Option.some.inj h) (by rw [hpc]; rfl) (by rw [hpc]; rfl)
        (.succeed output o.now hs) rfl rfl fun _ => by rw [hpc, hrun']; rfl
  case persistFailed run f cause =>
    split at h
    · obtain ⟨rfl, rfl⟩ := Prod.mk.inj (Option.some.inj h)
      exact .silent rfl rfl (.inr rfl) (by rw [hpc]; rfl) rfl
    · rename_i run' hf
      obtain ⟨-, err, -, hrun'⟩ := Run.fail_ok hf
      exact .of_finish (Option.some.inj h) (by rw [hpc]; rfl) (by rw [hpc]; rfl)
        (.fail (some cause) o.now hf) rfl rfl fun hs => by simp [hrun'] at hs
  case backoff run f =>
    split at h
    · obtain ⟨rfl, rfl⟩ := Prod.mk.inj (Option.some.inj h)
      exact .enter (by rw [hpc]; rfl) (by rw [hpc]; rfl) (.refl run) rfl rfl
    · split at h
      · obtain ⟨rfl, rfl⟩ := Prod.mk.inj (Option.some.inj h)
        exact .silent rfl rfl (.inl (by rw [hpc]; rfl)) (by rw [hpc]; rfl) rfl
      · cases h

/-- An execution writes to Runs only, and binds no key. -/
theorem Worker.Move.keeps (h : w.Move m pc e) :
    m.OnlyRuns e.store ∧ e.store.idempotencyKeys = m.idempotencyKeys := by
  cases h with
  | silent store | reload _ _ store | enter _ _ _ store | invoke _ store =>
      rw [store]
      exact ⟨.refl m, rfl⟩
  | claim _ store =>
      obtain ⟨existing, -, -, -, hm⟩ := Memory.claimRunExecution_ok store
      rw [hm]
      exact ⟨⟨rfl, rfl, rfl, rfl⟩, rfl⟩
  | attempt _ _ store | finish _ _ _ store =>
      obtain ⟨existing, -, -, -, -, hm⟩ := Memory.updateRunFenced_ok store
      rw [hm]
      exact ⟨⟨rfl, rfl, rfl, rfl⟩, rfl⟩

end Executions

/-! ### Requests -/

/-- The Run that a request may write to: the one that it has created. -/
def SubmitPc.hold : SubmitPc → Option Hold
  | .publishQueued run | .enqueue run | .failRun run _ => some ⟨run.id, 0, .exact run⟩
  | .callPublish _ run | .callEnqueue run | .callFail run _ => some ⟨run.id, 0, .exact run⟩
  | _ => none

/-- The key and the Run that a request hands to the store. -/
inductive Submit.Drafts (h : Submit) (o : SubmitOracle) : String → Run → Prop
  | run {sub : Submission} {parent : Option Run} {run : Run} (pc : h.pc = .create sub parent)
      (attach : attachParent (h.newRun sub o.newID o.now) parent = .ok run) : Drafts h o sub.key run
  | child {call : AgentCall} {sub : Submission} {parent run : Run}
      (pc : h.pc = .callCreate call sub parent)
      (attach : (h.newChildRun sub parent o.newID o.now).attachTo parent = .ok run) :
      Drafts h o (agentCallKey parent.id sub.key) run

/-- The actions of a request, by what they do to Runs. -/
inductive Submit.Move (h : Submit) (o : SubmitOracle) (m : Memory) :
    SubmitPc → Effect → Option (String × Run) → Prop
  | silent {pc : SubmitPc} {e : Effect} (store : e.store = m)
      (hold : pc.hold = h.pc.hold ∨ pc.hold = none) : Move h o m pc e none
  | create {pc : SubmitPc} {key : String} {run run' : Run} {e : Effect} (draft : h.Drafts o key run)
      (store : m.createRun run key = .ok (e.store, run', true))
      (hold : pc.hold = some ⟨run'.id, 0, .exact run'⟩) : Move h o m pc e (some (key, run'))
  | fail {pc : SubmitPc} {run run' : Run} {cause : Err} {e : Effect}
      (hold : h.pc.hold = some ⟨run.id, 0, .exact run⟩)
      (fail : run.fail (some cause) o.now = .ok run') (store : m.updateRun run' = .ok e.store)
      (after : pc.hold = none) : Move h o m pc e none

theorem attachParent_ok {run run' : Run} {parent : Option Run}
    (h : attachParent run parent = .ok run') :
    ∃ parentID root, run' = { run with parentRunID := parentID, rootRunID := root } := by
  rcases parent with - | parent
  · exact ⟨run.parentRunID, run.rootRunID, (Except.ok.inj h).symm⟩
  · exact Run.attachTo_ok h

/-- A request asks for a queued Run under the ID that it has generated. -/
theorem Submit.Drafts.new {h : Submit} {o : SubmitOracle} {key : String} {run : Run}
    (hd : h.Drafts o key run) : run.id = o.newID ∧ run.status = .queued ∧ run.attempt = 0 := by
  cases hd with
  | run _ attach =>
      obtain ⟨p, r, rfl⟩ := attachParent_ok attach
      exact ⟨rfl, rfl, rfl⟩
  | child _ attach =>
      obtain ⟨p, r, rfl⟩ := Run.attachTo_ok attach
      exact ⟨rfl, rfl, rfl⟩

/-- That ID is not empty and not taken. -/
theorem Submit.Drafts.fresh {h : Submit} {o : SubmitOracle} {m : Memory} {key : String} {run : Run}
    (hd : h.Drafts o key run) (hfresh : h.fresh o m = true) :
    o.newID ≠ "" ∧ m.runs.lookup o.newID = none := by
  cases hd with
  | run hpc | child hpc => simpa [Submit.fresh, hpc] using hfresh

theorem agentCallAncestry_hold (call : AgentCall) (sub : Submission) (parent current : Run)
    (depth : Int) (agents seenRuns : List String) :
    (agentCallAncestry call sub parent current depth agents seenRuns).hold = none := by
  rw [agentCallAncestry]
  repeat' split
  all_goals rfl

theorem checkCallee_hold (call : AgentCall) (sub : Submission) (parent : Run)
    (ancestorAgents : List String) : (checkCallee call sub parent ancestorAgents).hold = none := by
  rw [checkCallee]
  split <;> rfl

/-- Every action of a request is in one of the classes. -/
theorem Submit.handle_move {h : Submit} {o : SubmitOracle} {m : Memory} {pc : SubmitPc}
    {e : Effect} {created : Option (String × Run)}
    (hh : h.handle o m = some (pc, e, created)) : h.Move o m pc e created := by
  cases hpc : h.pc <;> simp only [Submit.handle, hpc, Option.some.injEq, reduceCtorEq] at hh
  -- a request holds nothing before it has created its Run
  case lookup | loadParent | selectAgent | callLoad =>
    repeat' split at hh
    all_goals cases hh
    all_goals exact .silent rfl (.inr rfl)
  case callLookup | callAncestry =>
    repeat' split at hh
    all_goals cases hh
    all_goals first
      | exact .silent rfl (.inr (agentCallAncestry_hold ..))
      | exact .silent rfl (.inr rfl)
  case callSelect =>
    repeat' split at hh
    all_goals cases hh
    all_goals first
      | exact .silent rfl (.inr (checkCallee_hold ..))
      | exact .silent rfl (.inr rfl)
  case create sub parent =>
    split at hh
    · cases hh
      exact .silent rfl (.inr rfl)
    · rename_i run hattach
      split at hh
      · cases hh
        exact .silent rfl (.inr rfl)
      · rename_i m' run' hcreate
        cases hh
        exact .create (.run hpc hattach) hcreate rfl
      · cases hh
        exact .silent rfl (.inr rfl)
  case callCreate call sub parent =>
    split at hh
    · cases hh
      exact .silent rfl (.inr rfl)
    · rename_i run hattach
      split at hh
      · cases hh
        exact .silent rfl (.inr rfl)
      · rename_i m' run' hcreate
        cases hh
        exact .create (.child hpc hattach) (Memory.createChildRun_ok hcreate) rfl
      · cases hh
        exact .silent rfl (.inr rfl)
  case publishQueued | callPublish =>
    cases hh
    exact .silent rfl (.inl (by rw [hpc]; rfl))
  case enqueue | callEnqueue =>
    split at hh
    · cases hh
      exact .silent rfl (.inr rfl)
    · cases hh
      exact .silent rfl (.inl (by rw [hpc]; rfl))
  case failRun | callFail =>
    split at hh
    · cases hh
      exact .silent rfl (.inr rfl)
    · rename_i run' hfail
      split at hh
      · cases hh
        exact .silent rfl (.inr rfl)
      · rename_i m' hupdate
        cases hh
        exact .fail (by rw [hpc]; rfl) hfail hupdate rfl
  case publishFailed run =>
    cases hh
    exact .silent rfl (.inr rfl)

/-- A request writes to Runs only. -/
theorem Submit.Move.onlyRuns {h : Submit} {o : SubmitOracle} {m : Memory} {pc : SubmitPc}
    {e : Effect} {created : Option (String × Run)} (hmove : h.Move o m pc e created) :
    m.OnlyRuns e.store := by
  cases hmove with
  | silent store =>
      rw [store]
      exact .refl m
  | create _ store => exact Memory.createRun_onlyRuns store
  | fail _ _ store =>
      obtain ⟨existing, -, -, -, hm⟩ := Memory.updateRun_ok store
      rw [hm]
      exact ⟨rfl, rfl, rfl, rfl⟩

/-! ### Manager calls -/

/-- The actions of a manager call, by what they do to Runs. -/
inductive Manager.Move (c : Manager) (o : ManagerOracle) (m : Memory) : ManagerEffect → Prop
  | silent {e : ManagerEffect} (runs : m.SameRuns e.store) (canceled : e.canceled = none)
      (created : e.created = none) : Move c o m e
  | cancel {e : ManagerEffect} {runID : String} {run : Run}
      (store : m.cancelRun runID o.now = .ok (e.store, run)) (canceled : e.canceled = some run)
      (created : e.created = none) : Move c o m e
  | create {e : ManagerEffect} {candidate : Workflow} {next : Nat} {input parentRunID : String}
      {step : WorkflowStep} {run : Run} (pc : c.pc = .createRun candidate next input parentRunID)
      (found : candidate.steps[next]? = some step)
      (store : m.createRun (c.newRun candidate step o.newID input parentRunID o.now)
        (stepKey candidate.id step.id) = .ok (e.store, run, true))
      (canceled : e.canceled = none) (created : e.created = some (stepKey candidate.id step.id, run)) :
      Move c o m e

section ManagerCalls

variable {c : Manager} {o : ManagerOracle} {m m' : Memory} {pc : ManagerPc} {e : ManagerEffect}
variable {candidate updated : Workflow}

theorem Memory.SameRuns.refl (m : Memory) : m.SameRuns m := ⟨rfl, rfl, rfl⟩

theorem Memory.updateWorkflow_sameRuns {version : Int}
    (h : m.updateWorkflow candidate version = .ok (m', updated)) : m.SameRuns m' := by
  obtain ⟨existing, steps, -, -, -, -, -, rfl⟩ := Memory.updateWorkflow_ok h
  exact ⟨rfl, rfl, rfl⟩

theorem createStepRun_ok {run : Run} {key : String} {r : Memory × Run × Bool}
    (h : createStepRun o m run key = .ok r) : m.createRun run key = .ok r := by
  rw [createStepRun] at h
  split at h
  · cases h
  · exact h

theorem reconcileUpdate_eq {next : Workflow → ManagerPc}
    (h : reconcileUpdate m candidate next = (pc, e)) :
    e.canceled = none ∧ e.created = none ∧
      ((∃ updated, m.updateWorkflow candidate candidate.version = .ok (e.store, updated) ∧
          pc = next updated) ∨
        e.store = m ∧ (pc = .load candidate.id ∨ ∃ err, pc = .done (some err))) := by
  rw [reconcileUpdate] at h
  split at h
  · split at h
    · obtain ⟨rfl, rfl⟩ := Prod.mk.inj h
      exact ⟨rfl, rfl, .inr ⟨rfl, .inl rfl⟩⟩
    · obtain ⟨rfl, rfl⟩ := Prod.mk.inj h
      exact ⟨rfl, rfl, .inr ⟨rfl, .inr ⟨_, rfl⟩⟩⟩
  · rename_i m' updated hupdate
    obtain ⟨rfl, rfl⟩ := Prod.mk.inj h
    exact ⟨rfl, rfl, .inl ⟨updated, hupdate, rfl⟩⟩

theorem Manager.Move.of_reconcileUpdate {next : Workflow → ManagerPc}
    (h : reconcileUpdate m candidate next = (pc, e)) : c.Move o m e := by
  obtain ⟨hcanceled, hcreated, ⟨updated, hupdate, -⟩ | ⟨hstore, -⟩⟩ := reconcileUpdate_eq h
  · exact .silent (Memory.updateWorkflow_sameRuns hupdate) hcanceled hcreated
  · exact .silent (hstore ▸ .refl _) hcanceled hcreated

/-- Every action of a manager call is in one of the classes. -/
theorem Manager.act_move (h : c.act o m = some (pc, e)) : c.Move o m e := by
  cases hpc : c.pc <;> simp only [Manager.act, hpc, Option.some.injEq, reduceCtorEq] at h
  -- a load reads the store, and a stored Workflow leaves the Runs alone
  case load | enqueue | startLoad | cancelLoad =>
    repeat' split at h
    all_goals cases h
    all_goals exact .silent (.refl m) rfl rfl
  case refresh =>
    cases h
    exact .silent (.refl m) rfl rfl
  case storeTerminal | storeChanged | assign => exact .of_reconcileUpdate h
  case startStore | cancelStore =>
    split at h
    · cases h
      exact .silent (.refl m) rfl rfl
    · rename_i hupdate
      cases h
      exact .silent (Memory.updateWorkflow_sameRuns hupdate) rfl rfl
  case createRun candidate next input parentRunID =>
    split at h
    · cases h
    · rename_i step hstep
      split at h
      · cases h
        exact .silent (.refl m) rfl rfl
      · rename_i m' created isNew hcreate
        replace hcreate := createStepRun_ok hcreate
        cases h
        -- the manager does not look at `isNew`, but only a new Run is a creation
        rcases isNew with - | -
        · obtain ⟨-, rfl, -⟩ | ⟨hnew, -⟩ := Memory.createRun_ok hcreate
          · exact .silent (.refl _) rfl rfl
          · cases hnew
        · exact .create hpc hstep hcreate rfl rfl
  case fail candidate cause =>
    split at h
    · split at h
      all_goals cases h
      all_goals exact .silent (.refl m) rfl rfl
    · rename_i hupdate
      cases h
      exact .silent (Memory.updateWorkflow_sameRuns hupdate) rfl rfl
  case tasks todo next =>
    rcases todo with - | ⟨task | task, rest⟩
    · cases h
      exact .silent (.refl m) rfl rfl
    · simp only at h
      split at h
      · cases h
        exact .silent (.refl m) rfl rfl
      · rename_i hcancel
        cases h
        exact .cancel hcancel rfl rfl
    · simp only at h
      split at h
      · cases h
        exact .silent (.refl m) rfl rfl
      · rename_i hevent
        cases h
        obtain ⟨events, rfl⟩ := Memory.appendWorkflowEvent_ok hevent
        exact .silent ⟨rfl, rfl, rfl⟩ rfl rfl

end ManagerCalls

/-! ### Steps -/

/-- The steps of the system, by what they do to Runs, to Workflows and to the calls
that work on them. -/
inductive SystemMove (s : State) : Action → State → Prop
  /-- The store keeps its Runs and Workflows, and the calls stay where they are. -/
  | other {a : Action} {t : State} (runs : s.store.SameRuns t.store)
      (workflows : t.store.workflows = s.store.workflows) (workers : t.workers = s.workers)
      (submits : t.submits = s.submits) (managers : t.managers = s.managers)
      (invocations : t.invocations = s.invocations) (recoveries : t.recoveries = s.recoveries)
      (creations : t.creations = s.creations) (asked : t.asked = s.asked)
      (emitted : t.emitted = s.emitted)
      (events : t.store.workflowEvents = s.store.workflowEvents) : SystemMove s a t
  /-- A delivery, or an event in the environment of a call of `execute`. -/
  | worker {a : Action} {w : Nat} {worker : Worker}
      (pc : worker.pc = (s.workers w).pc ∨ worker.pc = .load) :
      SystemMove s a (s.setWorker w worker)
  | worked {w : Nat} {o : Oracle} {pc : ExecPc} {e : Effect}
      (left : (s.workers w).fenceLeft s.store = true)
      (act : (s.workers w).execute o s.store = some (pc, e)) :
      SystemMove s (.work w o) (s.worked w pc e)
  | request {a : Action} {h : Nat} {request : Submit} (pc : request.pc.hold = none) :
      SystemMove s a { s with submits := Function.update s.submits h request }
  | handled {h : Nat} {o : SubmitOracle} {pc : SubmitPc} {e : Effect}
      {created : Option (String × Run)} (fresh : (s.submits h).fresh o s.store = true)
      (move : (s.submits h).Move o s.store pc e created) :
      SystemMove s (.handle h o) (s.handled h pc e created)
  /-- A manager call starts, or its process dies. -/
  | called {a : Action} {c : Nat} {manager : Manager} (slot : a.manager = some c)
      (pc : manager.pc = .idle ∨ (∃ id, manager.pc = .startLoad id) ∨
        (∃ id, manager.pc = .cancelLoad id) ∨ ∃ config id, a = .reconcile c config id ∧
          manager = ⟨config.concurrency, config.maxAttempts, .load id⟩)
      (free : (s.managers c).pc.isOver = true ∨ a = .crash c) :
      SystemMove s a (s.setManager c manager)
  | managed {c : Nat} {o : ManagerOracle} {pc : ManagerPc} {e : ManagerEffect}
      (fresh : (s.managers c).fresh o s.store = true)
      (act : (s.managers c).act o s.store = some (pc, e)) :
      SystemMove s (.manage c o) (s.managed c pc e)
  | created {workflow accepted : Workflow} {now : Time} {m : Memory}
      (create : s.store.createWorkflow workflow now = .ok (m, accepted)) :
      SystemMove s (.createWorkflow workflow now) { s with store := m }
  | canceled {a : Action} {id : String} {now : Time} {m : Memory} {run : Run}
      (cancel : s.store.cancelRun id now = .ok (m, run)) :
      SystemMove s a { s with store := m, canceling := s.canceling ++ [run] }
  | recovered {a : Action} {id : String} {token : Int} {m : Memory}
      (left : s.store.fence id < maxFence)
      (recover : s.store.recoverRun id token = .ok (m, true)) :
      SystemMove s a { s with store := m, recoveries := s.recoveries ++ [id] }

/-- Where a request starts. -/
theorem receive_cases {P : SubmitPc → Prop} (body : RunRequest) (key : String)
    (hdone : ∀ response, P (.done response)) (hlookup : ∀ sub, P (.lookup sub))
    (hparent : ∀ sub, P (.loadParent sub)) (hselect : ∀ sub, P (.selectAgent sub none)) :
    P (receive body key) := by
  -- what the checks accept goes on in one of three ways
  have haccept : ∀ sub : Submission,
      P (if 128 < (trimSpace key).utf8ByteSize then .done ⟨400, none⟩
        else if trimSpace key ≠ "" then .lookup sub
        else if sub.request.parentRunID ≠ "" then .loadParent sub
        else .selectAgent sub none) := by
    intro sub
    refine iteInduction (fun _ => hdone _) fun _ => ?_
    refine iteInduction (fun _ => hlookup _) fun _ => ?_
    exact iteInduction (fun _ => hparent _) fun _ => hselect _
  rw [receive]
  refine iteInduction (fun _ => hdone _) fun _ => ?_
  refine iteInduction (fun _ => hdone _) fun _ => ?_
  refine iteInduction (fun _ => hdone _) fun _ => ?_
  refine iteInduction (fun _ => ?_) fun _ => haccept _
  rcases normalizeRequirements _ with err | required
  · exact hdone _
  · exact haccept _

theorem receive_hold (body : RunRequest) (key : String) : (receive body key).hold = none :=
  receive_cases (P := fun pc => pc.hold = none) body key (fun _ => rfl) (fun _ => rfl)
    (fun _ => rfl) fun _ => rfl

theorem SystemMove.refl (s : State) (a : Action) : SystemMove s a s :=
  .other (.refl _) rfl rfl rfl rfl rfl rfl rfl rfl rfl rfl

theorem State.call_eq {s t : State} {c : Nat} {config : ManagerConfig} {pc : ManagerPc}
    (h : s.call c config pc = some t) : (s.managers c).pc.isOver = true ∧
      t = s.setManager c ⟨config.concurrency, config.maxAttempts, pc⟩ := by
  rw [State.call] at h
  split at h
  · exact ⟨‹_›, (Option.some.inj h).symm⟩
  · cases h

theorem systemMove_of_step {s t : State} {a : Action} (ha : step s a = some t) :
    SystemMove s a t := by
  cases a <;> simp only [step] at ha
  case registry agents =>
    obtain rfl := Option.some.inj ha
    exact .other ⟨rfl, rfl, rfl⟩ rfl rfl rfl rfl rfl rfl rfl rfl rfl rfl
  case deliver w engine runID =>
    split at ha
    · obtain rfl := Option.some.inj ha
      exact .worker (.inr rfl)
    · cases ha
  case work w o =>
    split at ha
    · rename_i hleft
      obtain ⟨⟨pc, e⟩, he, rfl⟩ := Option.map_eq_some_iff.mp ha
      exact .worked hleft he
    · cases ha
  case shutdown w =>
    obtain rfl := Option.some.inj ha
    exact .worker (.inl rfl)
  -- the contexts of a call change between its actions, its control point does not
  case propagate | renewalFails | keeperCancels | observesCancel =>
    split at ha
    · obtain rfl := Option.some.inj ha
      exact .worker (.inl rfl)
    · cases ha
  case cancelRun id now =>
    split at ha
    · obtain rfl := Option.some.inj ha
      exact .refl s _
    · rename_i hcancel
      obtain rfl := Option.some.inj ha
      exact .canceled hcancel
  case announceCanceled index =>
    obtain ⟨run, -, rfl⟩ := Option.map_eq_some_iff.mp ha
    exact .other (.refl _) rfl rfl rfl rfl rfl rfl rfl rfl rfl rfl
  case recoverRun id token =>
    split at ha
    · rename_i hleft
      split at ha
      · rename_i hrecover
        obtain rfl := Option.some.inj ha
        exact .recovered hleft hrecover
      · obtain rfl := Option.some.inj ha
        exact .refl s _
    · cases ha
  case request n maxAttempts requestID body key =>
    have hfirst := receive_hold body key
    generalize receive body key = pc at ha hfirst
    split at ha
    · obtain rfl := Option.some.inj ha
      exact .request hfirst
    · cases ha
  case agentCall n maxAttempts requestID call =>
    split at ha
    · obtain rfl := Option.some.inj ha
      exact .request rfl
    · cases ha
  case handle n o =>
    split at ha
    · rename_i hfresh
      obtain ⟨⟨pc, e, created⟩, he, rfl⟩ := Option.map_eq_some_iff.mp ha
      exact .handled hfresh (Submit.handle_move he)
    · cases ha
  case createWorkflow workflow now =>
    split at ha
    · obtain rfl := Option.some.inj ha
      exact .refl s _
    · rename_i hcreate
      obtain rfl := Option.some.inj ha
      exact .created hcreate
  case startWorkflow c config id =>
    obtain ⟨hfree, rfl⟩ := State.call_eq ha
    exact .called rfl (.inr (.inl ⟨id, rfl⟩)) (.inl hfree)
  case cancelWorkflow c config id =>
    obtain ⟨hfree, rfl⟩ := State.call_eq ha
    exact .called rfl (.inr (.inr (.inl ⟨id, rfl⟩))) (.inl hfree)
  case reconcile c config id =>
    split at ha
    · obtain ⟨hfree, rfl⟩ := State.call_eq ha
      exact .called rfl (.inr (.inr (.inr ⟨config, id, rfl, rfl⟩))) (.inl hfree)
    · cases ha
  case manage c o =>
    split at ha
    · rename_i hfresh
      obtain ⟨⟨pc, e⟩, he, rfl⟩ := Option.map_eq_some_iff.mp ha
      exact .managed hfresh he
    · cases ha
  case crash c =>
    obtain rfl := Option.some.inj ha
    exact .called rfl (.inl rfl) (.inr rfl)

/-- The actions of a manager call do not move the other ones. -/
theorem managers_of_step {s t : State} {a : Action} (ha : step s a = some t) {c : Nat}
    (hc : a.manager ≠ some c) : t.managers c = s.managers c := by
  cases systemMove_of_step ha with
  | other _ _ _ _ managers => rw [managers]
  | worker | worked | request | handled | created | canceled | recovered => rfl
  | @called _ c' manager slot =>
      have hne : c ≠ c' := fun h => hc (h ▸ slot)
      simp [State.setManager, hne]
  | @managed c' =>
      have hne : c ≠ c' := fun h => hc (h ▸ rfl)
      simp [State.managed, hne]

theorem managers_of_exec {s t : State} {actions : List Action}
    (h : Machine.exec step s actions = some t) {c : Nat} (hc : ∀ a ∈ actions, a.manager ≠ some c) :
    t.managers c = s.managers c := by
  induction actions generalizing s with
  | nil =>
      obtain rfl := Option.some.inj h
      rfl
  | cons a rest ih =>
      rw [List.forall_mem_cons] at hc
      rw [Machine.exec_cons] at h
      obtain ⟨u, hu, hrest⟩ := Option.bind_eq_some_iff.mp h
      rw [ih hrest hc.2, managers_of_step hu hc.1]

end AgentMesh
