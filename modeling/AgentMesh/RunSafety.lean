/-
AgentMesh/RunSafety.lean

The invariant of Runs, and what follows from it at once: Runs that have ended
never change.

`RunInv` says that the stored Runs are in order (`Memory.RunsOk`) and that the
calls that may write to them agree with the store (`Owned`).  `RunInv.step`
goes through the actions once and gives, besides the invariant, how the store
may have changed (`Memory.Evolves`); everything else in the development that
needs to know how Runs develop uses the latter.
-/
import AgentMesh.Moves

namespace AgentMesh

open Machine

/-! ### Holders -/

/-- The calls that may write to a Run. -/
inductive Party
  | worker (w : Nat)
  | request (h : Nat)
  deriving DecidableEq

def State.hold (s : State) : Party → Option Hold
  | .worker w => (s.workers w).pc.hold
  | .request h => (s.submits h).pc.hold

section Holds

variable (s : State)

theorem State.hold_setWorker (w : Nat) (worker : Worker) :
    (s.setWorker w worker).hold = Function.update s.hold (.worker w) worker.pc.hold := by
  funext p
  rcases p with n | n
  · by_cases hn : n = w
    · subst hn
      simp [State.hold, State.setWorker]
    · simp [State.hold, State.setWorker, hn]
  · simp [State.hold, State.setWorker]

theorem State.hold_worked (w : Nat) (pc : ExecPc) (e : Effect) :
    (s.worked w pc e).hold = Function.update s.hold (.worker w) pc.hold :=
  s.hold_setWorker w { s.workers w with pc := pc }

theorem State.hold_request (h : Nat) (request : Submit) :
    State.hold { s with submits := Function.update s.submits h request }
      = Function.update s.hold (.request h) request.pc.hold := by
  funext p
  rcases p with n | n
  · simp [State.hold]
  · by_cases hn : n = h
    · subst hn
      simp [State.hold]
    · simp [State.hold, hn]

theorem State.hold_handled (h : Nat) (pc : SubmitPc) (e : Effect) (created : Option (String × Run)) :
    (s.handled h pc e created).hold = Function.update s.hold (.request h) pc.hold :=
  s.hold_request h { s.submits h with pc := pc }

end Holds

/-! ### The invariant -/

structure RunInv (s : State) : Prop where
  ok : s.store.RunsOk
  owned : Owned s.store s.hold

variable {s t : State}

theorem runInv_init : RunInv init where
  ok :=
    { id := by simp [init]
      named := by simp [init]
      status := by simp [init]
      counted := by simp [init]
      fence_nonneg := fun id => by simp [init, Memory.fence, Table.getD]
      fence_absent := fun _ => by simp [init, Memory.fence, Table.getD]
      keys := by simp [init] }
  owned := by
    have hnone : ∀ p, State.hold init p = none := by
      rintro (n | n) <;> rfl
    constructor <;> simp [hnone]

/-- The store keeps its Runs and the calls keep theirs or let go of them. -/
theorem RunInv.frame (h : RunInv s) (hm : s.store.SameRuns t.store)
    (hhold : ∀ p, t.hold p = s.hold p ∨ t.hold p = none) :
    RunInv t ∧ s.store.Evolves t.store :=
  ⟨⟨hm.runsOk h.ok, h.owned.frame hm.runs hm.runFences hhold⟩, hm.evolves⟩

/-- One call keeps the Run that it holds or lets go of it. -/
theorem hold_update {p : Party} {x : Option Hold} (ht : t.hold = Function.update s.hold p x)
    (hx : x = s.hold p ∨ x = none) : ∀ q, t.hold q = s.hold q ∨ t.hold q = none := by
  intro q
  rw [ht]
  by_cases hqp : q = p
  · subst hqp
    simpa using hx
  · exact .inl (by simp [hqp])

/-- A write of a call that holds the current fence of its Run. -/
theorem RunInv.write (h : RunInv s) {p : Party} {v run run' : Run} {view : View}
    {x : Option Hold} (hp : s.hold p = some ⟨v.id, s.store.fence v.id, view⟩)
    (hrun : s.store.runs.lookup v.id = some run) (hsucc : run.Successor run')
    (hstore : t.store = { s.store with runs := s.store.runs.insert v.id run' })
    (hhold : t.hold = Function.update s.hold p x)
    (hx : x = none ∨ x = some ⟨v.id, s.store.fence v.id, .exact run'⟩ ∧ run'.IsActive) :
    RunInv t ∧ s.store.Evolves t.store := by
  have hid : run'.id = v.id := hsucc.request.id.trans (h.ok.id hrun)
  have hstatus : run'.status ≠ .unset := by
    rcases hsucc.next with ⟨hs, -⟩ | ⟨hs | hs | hs, -⟩ <;> simp [hs]
  refine ⟨⟨?_, ?_⟩, ?_⟩
  · rw [hstore]
    exact h.ok.put hid (h.ok.named hrun) hstatus (hsucc.counted (h.ok.counted hrun))
  · rw [hstore, hhold]
    rcases hx with rfl | ⟨rfl, hact⟩
    · exact h.owned.finish hp rfl
    · exact h.owned.write hp rfl hact
  · rw [hstore]
    exact .put hrun hsucc.active hsucc.request

/-- What a store that accepts a write of a holder has found. -/
theorem RunInv.accepted (h : RunInv s) {p : Party} {v run run' : Run} {view : View} {f : Int}
    (hp : s.hold p = some ⟨v.id, f, view⟩) (hadv : view.Advance run') (hid : run'.id = v.id)
    (hrun : s.store.runs.lookup run'.id = some run) (hc : run.status ≠ .canceled)
    (hf : s.store.fence run'.id = f) :
    run.Successor run' ∧ Memory.keepLineage run run' = run' := by
  rw [hid] at hrun hf
  have hsucc : run.Successor run' := h.owned.successor hp hf.symm hrun hc hadv
  refine ⟨hsucc, ?_⟩
  rw [Memory.keepLineage, ← hsucc.request.parentRunID, ← hsucc.request.rootRunID]

/-- A new Run, which its request holds until the queue has taken it. -/
theorem RunInv.create (h : RunInv s) {run : Run} {key : String} (hn : run.id ≠ "")
    (habs : s.store.runs.lookup run.id = none) (hs : run.status = .queued) (ha : run.attempt = 0)
    (hkey : key ≠ "" → s.store.idempotencyKeys.lookup key = none)
    (hstore : t.store = s.store.storeRun run key)
    (hhold : t.hold = s.hold ∨
      ∃ p, t.hold = Function.update s.hold p (some ⟨run.id, 0, .exact run⟩)) :
    RunInv t ∧ s.store.Evolves t.store := by
  have hc : run.WellCounted :=
    ⟨by omega, fun hr => by simp [hs] at hr, fun _ => by omega, fun _ _ => by omega⟩
  -- nobody holds a Run that does not exist
  have hfree : ∀ {q z}, s.hold q = some z → z.runID ≠ run.id := by
    intro q z hq hid
    obtain ⟨r, hr⟩ := h.owned.stored hq
    rw [hid, habs] at hr
    cases hr
  have hput : Owned (s.store.storeRun run key) s.hold :=
    (h.owned.put fun hq hid _ => absurd hid (hfree hq)).frame rfl rfl fun _ => .inl rfl
  refine ⟨⟨?_, ?_⟩, ?_⟩
  · rw [hstore]
    exact h.ok.create hn (by simp [hs]) hc key
  · rw [hstore]
    rcases hhold with hhold | ⟨p, hhold⟩
    · rw [hhold]
      exact hput
    · have hfence : (s.store.storeRun run key).fence run.id = 0 := h.ok.fence_absent habs
      have hstored : (s.store.storeRun run key).runs.lookup run.id = some run := by
        simp [Memory.storeRun]
      have hacq := hput.acquire (.exact run) hstored (.inl hs) rfl
        (fun hq hid => absurd hid (hfree hq)) p
      rw [hfence] at hacq
      rw [hhold]
      exact hacq
  · rw [hstore]
    exact .create habs hkey

theorem RunInv.cancel (h : RunInv s) {id : String} {now : Time} {run : Run}
    (hcancel : s.store.cancelRun id now = .ok (t.store, run)) (hhold : t.hold = s.hold) :
    RunInv t ∧ s.store.Evolves t.store := by
  obtain ⟨existing, he, hc, hstore⟩ := Memory.cancelRun_ok hcancel
  obtain ⟨hact, rfl⟩ := Run.cancel_ok hc
  have hid : existing.id = id := h.ok.id he
  refine ⟨⟨?_, ?_⟩, ?_⟩
  · rw [hstore]
    exact h.ok.put hid (h.ok.named he) (by simp) ((h.ok.counted he).ended (.inr (.inr rfl)) rfl rfl)
  · rw [hstore, hhold]
    exact h.owned.put fun _ _ _ => .inl rfl
  · rw [hstore]
    exact .put he hact ⟨rfl, rfl, rfl, rfl, rfl, rfl⟩

/-- A running Run that goes back into the queue gives its attempt back. -/
theorem Run.WellCounted.requeue {run : Run} (h : run.WellCounted) (hs : run.status = .running) :
    run.requeue.WellCounted := by
  have hstarted := h.started hs
  refine ⟨?_, fun hr => by simp [Run.requeue] at hr, fun h1 => ?_, fun _ h1 => ?_⟩
  all_goals
    simp only [Run.requeue, if_pos (show 0 < run.attempt by omega)] at *
  · omega
  · have := h.bounded h1
    omega
  · have := h.bounded h1
    omega

/-- Every holder of a Run has an older fence than one that is issued now. -/
theorem RunInv.fence_ne (h : RunInv s) {id : String} {f : Int} (hlt : s.store.fence id < f)
    {q : Party} {z : Hold} (hq : s.hold q = some z) (hid : z.runID = id) :
    z.fence ≠ Memory.fence { s.store with runFences := s.store.runFences.insert id f } id := by
  have hle := h.owned.le hq
  rw [hid] at hle
  rw [Memory.fence_insert_self]
  omega

theorem RunInv.recover (h : RunInv s) {id : String} {token : Int}
    (hleft : s.store.fence id < maxFence)
    (hrecover : s.store.recoverRun id token = .ok (t.store, true)) (hhold : t.hold = s.hold) :
    RunInv t ∧ s.store.Evolves t.store := by
  obtain ⟨hfalse, -⟩ | ⟨-, run, hrun, hs, hstore⟩ := Memory.recoverRun_ok hrecover
  · cases hfalse
  have hlt := Memory.lt_nextFence (h.ok.fence_nonneg id) hleft token
  have hid : run.id = id := h.ok.id hrun
  have hissue := h.owned.issue hlt
  have hok := h.ok.issue hrun ((h.ok.fence_nonneg id).trans hlt.le)
  refine ⟨⟨?_, ?_⟩, ?_⟩
  · rw [hstore]
    exact hok.put hid (h.ok.named hrun) (by simp [Run.requeue]) ((h.ok.counted hrun).requeue hs)
  · rw [hstore, hhold]
    apply hissue.put
    intro q z hq hid hz
    exact absurd hz (h.fence_ne hlt hq hid)
  · rw [hstore]
    refine (Memory.Evolves.put hrun (.inr hs) ?_).trans ⟨fun hr => ⟨_, hr, .refl _, fun _ => rfl⟩,
      fun hk => hk⟩
    exact ⟨rfl, rfl, rfl, rfl, rfl, rfl⟩

/-- A call that claims its Run is the only one with the new fence. -/
theorem RunInv.claim (h : RunInv s) {p : Party} {id : String} {token f : Int}
    (hleft : s.store.fence id < maxFence)
    (hclaim : s.store.claimRunExecution id token = .ok (t.store, f))
    (hhold : t.hold = Function.update s.hold p (some ⟨id, f, .unknown⟩)) :
    RunInv t ∧ s.store.Evolves t.store := by
  obtain ⟨existing, he, hact, hf, hstore⟩ := Memory.claimRunExecution_ok hclaim
  have hlt : s.store.fence id < f := by
    rw [hf]
    exact Memory.lt_nextFence (h.ok.fence_nonneg id) hleft token
  refine ⟨⟨?_, ?_⟩, ?_⟩
  · rw [hstore]
    exact h.ok.issue he ((h.ok.fence_nonneg id).trans hlt.le)
  · have hacq := (h.owned.issue hlt).acquire .unknown he hact trivial (h.fence_ne hlt) p
    rw [Memory.fence_insert_self] at hacq
    rw [hstore, hhold]
    exact hacq
  · rw [hstore]
    exact ⟨fun hr => ⟨_, hr, .refl _, fun _ => rfl⟩, fun hk => hk⟩

/-- A call that learns more about the Run that it holds. -/
theorem RunInv.learn (h : RunInv s) {p : Party} {x : Hold} (view : View)
    (hp : s.hold p = some x)
    (hview : ∀ run, s.store.runs.lookup x.runID = some run → run.status ≠ .canceled →
      x.view.Agrees run → view.Agrees run)
    (hstore : t.store = s.store)
    (hhold : t.hold = Function.update s.hold p (some { x with view := view })) :
    RunInv t ∧ s.store.Evolves t.store := by
  refine ⟨⟨?_, ?_⟩, ?_⟩
  · rw [hstore]
    exact h.ok
  · rw [hstore, hhold]
    exact h.owned.learn view hp hview
  · rw [hstore]
    exact .refl _

/-! ### Steps of calls -/

theorem RunInv.worked (h : RunInv s) {w : Nat} {pc : ExecPc} {e : Effect}
    (hleft : (s.workers w).fenceLeft s.store = true) (hmove : (s.workers w).Move s.store pc e) :
    RunInv (s.worked w pc e) ∧ s.store.Evolves (s.worked w pc e).store := by
  have hhold := s.hold_worked w pc e
  have hstore : (s.worked w pc e).store = e.store := rfl
  cases hmove with
  | silent store _ hold =>
      exact h.frame (hstore ▸ store ▸ .refl _) (hold_update hhold hold)
  | @claim run token f _ hpc hclaim =>
      have hlt : s.store.fence run.id < maxFence := by
        simp only [Worker.fenceLeft, hpc] at hleft
        exact of_decide_eq_true hleft
      exact h.claim hlt hclaim hhold
  | @reload run run' f _ hpc hrun store =>
      have hp : s.hold (.worker w) = some ⟨run.id, f, .unknown⟩ := by
        simp [State.hold, hpc, ExecPc.hold]
      apply h.learn (.exact run') hp _ store
      · rw [hhold, ExecPc.hold, h.ok.id hrun]
      · intro r hr _ _
        exact Option.some.inj (hrun.symm.trans hr)
  | @enter run v f _ hold _ limit store =>
      have hp : s.hold (.worker w) = some ⟨run.id, f, .exact run⟩ := hold
      apply h.learn (.limited v) hp _ store
      · have hid : v.id = run.id := by rw [limit.eq]
        rw [hhold, ExecPc.hold, hid]
      · intro r _ _ hr
        obtain rfl : run = r := hr
        exact limit
  | @attempt run run' f now _ hpc hnext hwrite =>
      have hp : s.hold (.worker w) = some ⟨run.id, f, .limited run⟩ := by
        simp [State.hold, hpc, ExecPc.hold]
      obtain ⟨-, -, hrunning, -, -, hreq⟩ := Run.nextAttempt_ok hnext
      obtain ⟨existing, he, hc, -, hf, hm⟩ := Memory.updateRunFenced_ok hwrite
      -- the fence is current, so the holder's view is the stored record
      obtain ⟨hsucc, hkeep⟩ := h.accepted hp (.attempt now hnext) hreq.id he hc hf
      rw [hreq.id] at he hf hm
      rw [hkeep] at hm
      refine h.write (hf ▸ hp) he hsucc hm hhold (.inr ⟨?_, .inr hrunning⟩)
      simp [ExecPc.hold, hreq.id, hf]
  | @invoke run f _ hpc store =>
      refine h.frame (hstore ▸ store ▸ .refl _) (hold_update hhold (.inl ?_))
      simp [State.hold, hpc, ExecPc.hold]
  | @finish _ run run' f _ hold _ hadv hwrite hafter =>
      have hp : s.hold (.worker w) = some ⟨run.id, f, .exact run⟩ := hold
      have hid : run'.id = run.id := hadv.sameRequest.id
      obtain ⟨existing, he, hc, -, hf, hm⟩ := Memory.updateRunFenced_ok hwrite
      obtain ⟨hsucc, hkeep⟩ := h.accepted hp hadv hid he hc hf
      rw [hid] at he hf hm
      rw [hkeep] at hm
      exact h.write (hf ▸ hp) he hsucc hm hhold (.inl hafter)

theorem RunInv.handled (h : RunInv s) {n : Nat} {o : SubmitOracle} {pc : SubmitPc} {e : Effect}
    {created : Option (String × Run)} (hfresh : (s.submits n).fresh o s.store = true)
    (hmove : (s.submits n).Move o s.store pc e created) :
    RunInv (s.handled n pc e created) ∧ s.store.Evolves (s.handled n pc e created).store := by
  have hhold := s.hold_handled n pc e created
  have hstore : (s.handled n pc e created).store = e.store := rfl
  cases hmove with
  | silent store hold => exact h.frame (hstore ▸ store ▸ .refl _) (hold_update hhold hold)
  | @create key run run' _ hdraft hcreate hold =>
      obtain ⟨hid, hqueued, hattempt⟩ := hdraft.new
      obtain ⟨hnamed, habs⟩ := hdraft.fresh hfresh
      rw [← hid] at hnamed habs
      obtain ⟨hfalse, -⟩ | ⟨-, hkey, hm, p, r, rfl⟩ := Memory.createRun_ok hcreate
      · cases hfalse
      rw [hold] at hhold
      refine h.create ?_ ?_ ?_ ?_ hkey hm (.inr ⟨.request n, hhold⟩)
      exacts [hnamed, habs, hqueued, hattempt]
  | @fail run run' cause _ hold hfail hupdate hafter =>
      have hp : s.hold (.request n) = some ⟨run.id, 0, .exact run⟩ := hold
      have hadv : (View.exact run).Advance run' := .fail (some cause) o.now hfail
      have hid : run'.id = run.id := hadv.sameRequest.id
      obtain ⟨existing, he, hc, hf, hm⟩ := Memory.updateRun_ok hupdate
      obtain ⟨hsucc, hkeep⟩ := h.accepted hp hadv hid he hc hf
      rw [hid] at he hf hm
      rw [hkeep] at hm
      exact h.write (hf ▸ hp) he hsucc hm hhold (.inl hafter)

theorem RunInv.managed (h : RunInv s) {c : Nat} {o : ManagerOracle} {pc : ManagerPc}
    {e : ManagerEffect} (hfresh : (s.managers c).fresh o s.store = true)
    (hmove : (s.managers c).Move o s.store e) :
    RunInv (s.managed c pc e) ∧ s.store.Evolves (s.managed c pc e).store := by
  have hhold : (s.managed c pc e).hold = s.hold := by
    funext p
    rcases p with n | n <;> rfl
  cases hmove with
  | silent runs => exact h.frame runs fun p => .inl (congrFun hhold p)
  | cancel store => exact h.cancel store hhold
  | @create candidate next input parentRunID step run hpc _ hcreate =>
      obtain ⟨hfalse, -⟩ | ⟨-, hkey, hm, p, r, rfl⟩ := Memory.createRun_ok hcreate
      · cases hfalse
      have hid : o.newID ≠ "" ∧ s.store.runs.lookup o.newID = none := by
        simpa [Manager.fresh, hpc] using hfresh
      exact h.create hid.1 hid.2 rfl rfl hkey hm (.inl hhold)

/-! ### Every step -/

theorem RunInv.step {a : Action} (h : RunInv s) (ha : step s a = some t) :
    RunInv t ∧ s.store.Evolves t.store := by
  cases systemMove_of_step ha with
  | other runs _ workers submits =>
      refine h.frame runs fun p => .inl ?_
      rcases p with n | n
      · simp [State.hold, workers]
      · simp [State.hold, submits]
  | @worker _ w worker pc =>
      refine h.frame (.refl _) (hold_update (s.hold_setWorker w worker) ?_)
      exact pc.imp (congrArg ExecPc.hold) (congrArg ExecPc.hold)
  | worked left act => exact h.worked left (Worker.execute_move act)
  | @request _ n request pc =>
      exact h.frame (.refl _) (hold_update (s.hold_request n request) (.inr pc))
  | handled fresh move => exact h.handled fresh move
  | managed fresh act => exact h.managed fresh (Manager.act_move act)
  | called => exact h.frame (.refl _) fun p => .inl (by rcases p with n | n <;> rfl)
  | created create =>
      obtain ⟨-, -, rfl⟩ := Memory.createWorkflow_ok create
      exact h.frame ⟨rfl, rfl, rfl⟩ fun p => .inl (by rcases p with n | n <;> rfl)
  | canceled cancel => exact h.cancel cancel rfl
  | recovered left recover => exact h.recover left recover rfl

theorem runInv_runs {P : State → Action → Prop} (h : Runs step P init s) : RunInv s :=
  h.invariant runInv_init fun hu _ ha => (hu.step ha).1

theorem Evolves_runs {P : State → Action → Prop} (hs : RunInv s) (h : Runs step P s t) :
    s.store.Evolves t.store :=
  h.related (I := RunInv) (R := fun s t => s.store.Evolves t.store) hs
    (fun hu _ ha => (hu.step ha).1) (fun u => .refl u.store) (fun h₁ h₂ => h₁.trans h₂)
    fun hu _ ha => (hu.step ha).2

/-! ### Terminal Runs -/

/-- **Terminal states are absorbing.**  Once a stored Run is succeeded, failed or
canceled, no later action of any call changes its record. -/
theorem terminal_absorbing {id : String} {run : Run} (hs : Reachable s)
    (hrun : s.store.runs.lookup id = some run) (hterm : run.IsTerminal)
    (ht : Runs step Free s t) : t.store.runs.lookup id = some run := by
  obtain ⟨run', hrun', -, hsame⟩ := (Evolves_runs (runInv_runs hs) ht).runs hrun
  rw [hrun', hsame hterm]

/-- A client registers an Agent and submits one Run for it. -/
def submitRun (maxAttempts : Int) : List Action :=
  [.registry (AList.insert "agent_1" { id := "agent_1" } ∅),
    .request 0 maxAttempts "req_1" { agentID := "agent_1", input := "hello" } "",
    .handle 0 {}, .handle 0 { newID := "run_1" }, .handle 0 {}, .handle 0 {}]

def demoEngine : Engine := { maxAttempts := 3, runtimes := [demoRuntime] }

/-- The Run is delivered to worker `w`, which takes `n` actions. -/
def workOn (w n : Nat) (o : Oracle) : List Action :=
  .deliver w demoEngine "run_1" :: List.replicate n (.work w o)

/-- A Run that has succeeded is neither canceled nor recovered nor executed again. -/
theorem terminal_absorbing_succeeded :
    ∃ s t run, Reachable s ∧ s.store.runs.lookup "run_1" = some run ∧ run.status = .succeeded ∧
      exec step s ([.cancelRun "run_1" 9, .recoverRun "run_1" 9] ++ workOn 1 1 {}) = some t ∧
      t.store.runs.lookup "run_1" = some run := by
  obtain ⟨s, hs, hstatus, hnext⟩ :
      ∃ s, exec step init (submitRun 3 ++ workOn 0 15 { returned := ⟨.ok "done", false⟩ }) = some s ∧
        (s.store.runs.lookup "run_1").map Run.status = some .succeeded ∧
        (exec step s ([.cancelRun "run_1" 9, .recoverRun "run_1" 9] ++ workOn 1 1 {})).isSome := by
    refine exists_of_any ?_
    decide +kernel
  obtain ⟨run, hrun, hsucceeded⟩ := Option.map_eq_some_iff.mp hstatus
  obtain ⟨t, ht⟩ := Option.isSome_iff_exists.mp hnext
  have hreach : Reachable s := runs_exec (fun _ _ => trivial) hs
  exact ⟨s, t, run, hreach, hrun, hsucceeded, ht,
    terminal_absorbing hreach hrun (.inl hsucceeded) (runs_exec (fun _ _ => trivial) ht)⟩

/-! ### Writes of executions -/

/-- **Executions lose no update.**  Whenever an action of an execution changes a stored Run, in any
reachable state, it stores a transition of the very record that it replaces, which is still
active; and nobody else can write to the Run with its fence. -/
theorem execution_writes_current {w : Nat} {o : Oracle} {id : String} (hs : Reachable s)
    (hstep : step s (.work w o) = some t)
    (hchanged : t.store.runs.lookup id ≠ s.store.runs.lookup id) :
    ∃ x run run', s.hold (.worker w) = some x ∧ x.runID = id ∧ x.fence = s.store.fence id ∧
      s.store.runs.lookup id = some run ∧ run.IsActive ∧ x.view.Agrees run ∧
      x.view.Advance run' ∧ t.store.runs.lookup id = some run' ∧
      ∀ p y, s.hold p = some y → y.runID = id → y.fence = x.fence → p = .worker w := by
  have hinv := runInv_runs hs
  obtain ⟨pc, e, hmove, rfl⟩ : ∃ pc e, (s.workers w).Move s.store pc e ∧ t = s.worked w pc e := by
    simp only [step] at hstep
    split at hstep
    · obtain ⟨r, hr, rfl⟩ := Option.map_eq_some_iff.mp hstep
      exact ⟨_, _, Worker.execute_move hr, rfl⟩
    · cases hstep
  change e.store.runs.lookup id ≠ _ at hchanged
  obtain ⟨x, run', hold, hid, hadv, hwrite⟩ : ∃ x run', s.hold (.worker w) = some x ∧
      run'.id = x.runID ∧ x.view.Advance run' ∧
      s.store.updateRunFenced run' x.fence = .ok e.store := by
    cases hmove with
    | silent store | reload _ _ store | enter _ _ _ store | invoke _ store =>
        exact absurd (by rw [store]) hchanged
    | claim _ hclaim =>
        obtain ⟨existing, -, -, -, hm⟩ := Memory.claimRunExecution_ok hclaim
        exact absurd (by rw [hm]) hchanged
    | attempt hpc hnext hwrite =>
        exact ⟨_, _, congrArg ExecPc.hold hpc, (Run.nextAttempt_ok hnext).2.2.2.2.2.id,
          .attempt _ hnext, hwrite⟩
    | finish hold _ hadv hwrite => exact ⟨_, _, hold, hadv.sameRequest.id, hadv, hwrite⟩
  obtain ⟨run, hrun, hc, -, hf, hm⟩ := Memory.updateRunFenced_ok hwrite
  obtain ⟨hsucc, hkeep⟩ := hinv.accepted (v := { id := x.runID }) hold hadv hid hrun hc hf
  rw [hkeep] at hm
  obtain rfl : id = run'.id := by
    by_contra hne
    rw [hm, Table.lookup_insert_eq, if_neg hne] at hchanged
    exact hchanged rfl
  rw [hid] at hrun hf ⊢
  rcases hinv.owned.current hold hf.symm hrun with hcanceled | ⟨-, hagrees⟩
  · exact absurd hcanceled hc
  refine ⟨x, run, run', hold, rfl, hf.symm, hrun, hsucc.active, hagrees, hadv, ?_, ?_⟩
  · rw [State.worked, hm, ← hid, Table.lookup_insert_eq, if_pos rfl]
  · exact fun p y hy hrunID hfence => hinv.owned.unique hy hold hrunID hfence

/-- A worker stores the first attempt. -/
theorem execution_writes_current_first :
    ∃ s t x run, exec step init (submitRun 3 ++ workOn 0 7 {}) = some s ∧
      step s (.work 0 {}) = some t ∧ s.hold (.worker 0) = some x ∧
      s.store.runs.lookup "run_1" = some run ∧ x.view.Agrees run := by
  obtain ⟨s, hs, hp⟩ : ∃ s, exec step init (submitRun 3 ++ workOn 0 7 {}) = some s ∧
      (step s (.work 0 {})).any (fun t =>
        t.store.runs.lookup "run_1" ≠ s.store.runs.lookup "run_1") = true := by
    refine exists_of_any ?_
    decide +kernel
  obtain ⟨t, ht, hchanged⟩ := (Option.any_eq_true _ _).mp hp
  obtain ⟨x, run, -, hold, -, -, hrun, -, hagrees, -⟩ := execution_writes_current
    (runs_exec (fun _ _ => trivial) hs) ht (of_decide_eq_true hchanged)
  exact ⟨s, t, x, run, hs, ht, hold, hrun, hagrees⟩

end AgentMesh
