/-
AgentMesh/Acknowledge.lean

What a returned `nil` says about the Run.

A queue drops a message when `execute` returns `nil`, so `nil` should mean that
the Run has ended.  `execute` has about ten ways to return `nil`; for all but
two of them this holds in every interleaving.  The two are the checks of
`runCtx.Err()` at the head of the attempt loop and after an attempt.  They take
a done `runCtx` for a canceled Run, but `runCtx` is also done when the parent
context is canceled or the lease is lost; the checks that tell these apart come
earlier (or, for the parent context at the head of the loop, not at all).

`MistakesShutdown` is this situation.  In every run without it, `nil` means that
the stored Run is terminal; each step with it returns `nil` for a Run that is
still queued or running.
-/
import AgentMesh.RunSafety

namespace AgentMesh

open Machine

/-! ### Ended and canceled Runs -/

/-- The stored Run is in a terminal status. -/
def Memory.Ended (m : Memory) (id : String) : Prop :=
  ∃ run, m.runs.lookup id = some run ∧ run.IsTerminal

def Memory.Canceled (m : Memory) (id : String) : Prop :=
  ∃ run, m.runs.lookup id = some run ∧ run.status = .canceled

section Memory

variable {m m' : Memory} {id : String} {run : Run} {f token : Int} {err : Err}

theorem Memory.Canceled.ended (h : m.Canceled id) : m.Ended id := by
  obtain ⟨run, hrun, hc⟩ := h
  exact ⟨run, hrun, .inr (.inr hc)⟩

theorem Memory.Ended.evolves (h : m.Ended id) (hm : m.Evolves m') : m'.Ended id := by
  obtain ⟨run, hrun, hterm⟩ := h
  obtain ⟨run', hrun', -, hsame⟩ := hm.runs hrun
  exact ⟨run', hrun', hsame hterm ▸ hterm⟩

theorem Memory.Canceled.evolves (h : m.Canceled id) (hm : m.Evolves m') : m'.Canceled id := by
  obtain ⟨run, hrun, hc⟩ := h
  obtain ⟨run', hrun', -, hsame⟩ := hm.runs hrun
  exact ⟨run', hrun', hsame (.inr (.inr hc)) ▸ hc⟩

theorem Memory.updateRunFenced_canceled (h : m.updateRunFenced run f = .error err)
    (herr : err.is .runCanceled = true) : m.Canceled run.id := by
  rw [Memory.updateRunFenced] at h
  split at h
  · obtain rfl := Except.error.inj h
    simp at herr
  · rename_i existing he
    split at h
    · exact ⟨existing, he, ‹_›⟩
    · split at h
      · obtain rfl := Except.error.inj h
        simp at herr
      · cases h

/-- A claim that is refused as canceled or not executable finds the Run ended. -/
theorem Memory.claimRunExecution_ended (hm : m.RunsOk)
    (h : m.claimRunExecution id token = .error err)
    (herr : (err.is .runCanceled || err.is .runNotExecutable) = true) : m.Ended id := by
  rw [Memory.claimRunExecution] at h
  split at h
  · obtain rfl := Except.error.inj h
    simp at herr
  · rename_i existing he
    split at h
    · exact Memory.Canceled.ended ⟨existing, he, ‹_›⟩
    · split at h
      · rename_i hc hs
        refine ⟨existing, he, ?_⟩
        have hunset := hm.status he
        rw [Run.IsTerminal]
        cases hstatus : existing.status <;> simp_all
      · cases h

end Memory

/-! ### Facts by control point -/

/-- The ID of the local variable `run`. -/
def ExecPc.about : ExecPc → Option String
  | .idle | .load | .done _ => none
  | .deadLetterLoaded run | .acquire run | .claim run _ | .reload run _ | .loadAgent run _
  | .loopLease run _ | .loopRunCtx run _ | .persistAttempt run _ | .invoke run _ | .running run _
  | .afterLease run _ _ | .afterCtx run _ _ | .afterRunCtx run _ _ | .persistSucceeded run _ _
  | .publishSucceeded run | .persistFailed run _ _ | .publishFailed run _ | .deadLetter run _
  | .backoff run _ | .backoffLease run _ | .backoffCtx run _ => some run.id

/-- What a control point says about the stored Run and about the contexts. -/
def Worker.Knows (w : Worker) (m : Memory) : Prop :=
  match w.pc with
  | .deadLetterLoaded _ | .publishSucceeded _ | .publishFailed _ _ | .deadLetter _ _
  | .done none => m.Ended w.runID
  -- in the back-off a done context is observed first and told apart afterwards
  | .backoffLease _ _ => w.runCtxDone = true
  | .backoffCtx _ _ => w.ctxDone = true ∨ m.Canceled w.runID
  | _ => True

/-- What holds of a call of `execute` between its actions. -/
structure Worker.Sound (w : Worker) (m : Memory) : Prop where
  about : ∀ id, w.pc.about = some id → id = w.runID
  cause : w.runCtxDone = true → w.ctxDone = true ∨ w.leaseErr.isSome = true ∨ m.Canceled w.runID
  knows : w.Knows m

/-- The call is about to check `runCtx.Err()` alone. -/
def Worker.checksRunCtx (w : Worker) : Bool :=
  match w.pc with
  | .loopRunCtx _ _ | .afterRunCtx _ _ _ => true
  | _ => false

/-- The call is about to take a shutdown or a lost lease for a canceled Run. -/
def Worker.MistakesShutdown (w : Worker) (m : Memory) : Prop :=
  w.checksRunCtx = true ∧ w.runCtxDone = true ∧ (w.ctxDone = true ∨ w.leaseErr.isSome = true) ∧
    ¬ m.Ended w.runID

section Execute

variable {w : Worker} {o : Oracle} {m : Memory} {pc next : ExecPc} {e : Effect} {run : Run}

/-- A done `runCtx` that is neither a shutdown nor a lost lease is a canceled Run. -/
theorem Worker.Sound.ended_of_runCtx (h : w.Sound m) (hok : ¬ w.MistakesShutdown m)
    (hchecks : w.checksRunCtx = true) (hdone : w.runCtxDone = true) : m.Ended w.runID := by
  by_contra hend
  rcases h.cause hdone with hctx | hlease | hc
  · exact hok ⟨hchecks, hdone, .inl hctx, hend⟩
  · exact hok ⟨hchecks, hdone, .inr hlease, hend⟩
  · exact hend hc.ended

/-- Why `runCtx` is done stays true, since a canceled Run stays canceled. -/
theorem Worker.Sound.cause_evolves {m' : Memory} (h : w.Sound m) (hev : m.Evolves m')
    (hdone : w.runCtxDone = true) :
    w.ctxDone = true ∨ w.leaseErr.isSome = true ∨ m'.Canceled w.runID := by
  rcases h.cause hdone with hctx | hlease | hc
  · exact .inl hctx
  · exact .inr (.inl hlease)
  · exact .inr (.inr (hc.evolves hev))

/-- A call that has returned an error knows nothing. -/
theorem Worker.Sound.failed (h : w.Sound m) (hev : m.Evolves e.store) {err : Err}
    (hpc : pc = .done (some err)) : Worker.Sound { w with pc := pc } e.store := by
  subst hpc
  exact ⟨fun id hid => (by cases hid), h.cause_evolves hev, trivial⟩

theorem Worker.Sound.returned (h : w.Sound m) (hev : m.Evolves e.store)
    (hend : m.Ended w.runID) : Worker.Sound { w with pc := .done none } e.store :=
  ⟨fun id hid => (by cases hid), h.cause_evolves hev, hend.evolves hev⟩

/-- A call that goes on with the same Run. -/
theorem Worker.Sound.goes_on (h : w.Sound m) (hev : m.Evolves e.store) {id : String}
    (hid : id = w.runID) (hpc : pc.about = some id)
    (hknows : Worker.Knows { w with pc := pc } e.store) :
    Worker.Sound { w with pc := pc } e.store := by
  refine ⟨?_, h.cause_evolves hev, hknows⟩
  intro id' hid'
  rw [← hid]
  exact Option.some.inj (hid'.symm.trans hpc)

theorem Worker.Sound.checked (h : w.Sound m) (hev : m.Evolves e.store)
    (hcheck : checkLease w run m next = (pc, e)) (hid : run.id = w.runID)
    (hnext : next.about = some run.id)
    (hknows : w.leaseErr = none → Worker.Knows { w with pc := next } e.store) :
    Worker.Sound { w with pc := pc } e.store := by
  rw [checkLease] at hcheck
  split at hcheck
  · obtain ⟨rfl, rfl⟩ := Prod.mk.inj hcheck
    exact h.failed hev rfl
  · rename_i hnone
    obtain ⟨rfl, rfl⟩ := Prod.mk.inj hcheck
    exact h.goes_on hev hid hnext (hknows hnone)

/-- A fenced write that is refused because the Run was canceled returns `nil`. -/
theorem Worker.Sound.wrote (h : w.Sound m) (hev : m.Evolves e.store) {f : Int} {context : String}
    (hwrite : writeFenced m run f context next = (pc, e)) (hid : run.id = w.runID)
    (hnext : next.about = some run.id)
    (hknows : m.updateRunFenced run f = .ok e.store → Worker.Knows { w with pc := next } e.store) :
    Worker.Sound { w with pc := pc } e.store := by
  rw [writeFenced] at hwrite
  split at hwrite
  · rename_i err herr
    split at hwrite
    · rename_i hc
      obtain ⟨rfl, rfl⟩ := Prod.mk.inj hwrite
      exact h.returned hev (hid ▸ (Memory.updateRunFenced_canceled herr hc).ended)
    · obtain ⟨rfl, rfl⟩ := Prod.mk.inj hwrite
      exact h.failed hev rfl
  · rename_i m' hm'
    obtain ⟨rfl, rfl⟩ := Prod.mk.inj hwrite
    exact h.goes_on hev hid hnext (hknows hm')

/-- After an accepted write of a terminal record the stored Run has ended. -/
theorem Memory.Ended.of_write {m' : Memory} {f : Int} (h : m.updateRunFenced run f = .ok m')
    (hterm : run.IsTerminal) : m'.Ended run.id := by
  obtain ⟨existing, -, -, -, -, rfl⟩ := Memory.updateRunFenced_ok h
  exact ⟨Memory.keepLineage existing run, by simp, hterm⟩

/-- Each action of `execute` establishes what its control point says. -/
theorem Worker.Sound.execute (h : w.Sound m) (hm : m.RunsOk) (hok : ¬ w.MistakesShutdown m)
    (he : w.execute o m = some (pc, e)) (hev : m.Evolves e.store) :
    Worker.Sound { w with pc := pc } e.store := by
  have habout := h.about
  have hknows := h.knows
  rw [Worker.Knows] at hknows
  cases hpc : w.pc <;> simp only [hpc, ExecPc.about, Option.some.injEq, forall_eq'] at habout hknows
  all_goals simp only [Worker.execute, hpc, Option.some.injEq, reduceCtorEq] at he
  case load =>
    split at he
    · obtain ⟨rfl, rfl⟩ := Prod.mk.inj (Option.some.inj he)
      exact h.failed hev rfl
    · rename_i run hrun
      have hrun := Memory.getRun_ok.mp hrun
      have hid := hm.id hrun
      split at he
      · obtain ⟨rfl, rfl⟩ := Prod.mk.inj (Option.some.inj he)
        exact h.returned hev ⟨run, hrun, .inl ‹_›⟩
      · obtain ⟨rfl, rfl⟩ := Prod.mk.inj (Option.some.inj he)
        exact h.goes_on hev hid rfl ⟨run, hrun, .inr (.inl ‹_›)⟩
      · obtain ⟨rfl, rfl⟩ := Prod.mk.inj (Option.some.inj he)
        exact h.returned hev ⟨run, hrun, .inr (.inr ‹_›)⟩
      · obtain ⟨rfl, rfl⟩ := Prod.mk.inj (Option.some.inj he)
        exact h.goes_on hev hid rfl trivial
  case deadLetterLoaded | deadLetter =>
    split at he
    · obtain ⟨rfl, rfl⟩ := Prod.mk.inj (Option.some.inj he)
      exact h.failed hev rfl
    · obtain ⟨rfl, rfl⟩ := Prod.mk.inj (Option.some.inj he)
      exact h.returned hev hknows
  case acquire run =>
    split at he
    · obtain ⟨rfl, rfl⟩ := Prod.mk.inj (Option.some.inj he)
      exact h.failed hev rfl
    · obtain ⟨rfl, rfl⟩ := Prod.mk.inj (Option.some.inj he)
      exact h.failed hev rfl
    · obtain ⟨rfl, rfl⟩ := Prod.mk.inj (Option.some.inj he)
      exact h.goes_on hev habout rfl trivial
  case claim run token =>
    split at he
    · rename_i err herr
      split at he
      · rename_i hend
        obtain ⟨rfl, rfl⟩ := Prod.mk.inj (Option.some.inj he)
        exact h.returned hev (habout ▸ Memory.claimRunExecution_ended hm herr hend)
      · obtain ⟨rfl, rfl⟩ := Prod.mk.inj (Option.some.inj he)
        exact h.failed hev rfl
    · obtain ⟨rfl, rfl⟩ := Prod.mk.inj (Option.some.inj he)
      exact h.goes_on hev habout rfl trivial
  case reload run f =>
    split at he
    · obtain ⟨rfl, rfl⟩ := Prod.mk.inj (Option.some.inj he)
      exact h.failed hev rfl
    · rename_i run' hrun
      have hrun := Memory.getRun_ok.mp hrun
      split at he
      · obtain ⟨rfl, rfl⟩ := Prod.mk.inj (Option.some.inj he)
        exact h.returned hev (habout ▸ ⟨run', hrun, .inr (.inr ‹_›)⟩)
      · obtain ⟨rfl, rfl⟩ := Prod.mk.inj (Option.some.inj he)
        exact h.goes_on hev ((hm.id hrun).trans habout) rfl trivial
  case loadAgent run f =>
    repeat' split at he
    all_goals
      obtain ⟨rfl, rfl⟩ := Prod.mk.inj (Option.some.inj he)
      exact h.goes_on hev habout rfl trivial
  case loopLease | afterLease => exact h.checked hev he habout rfl fun _ => trivial
  -- the two checks of `runCtx` alone, where only a canceled Run may return `nil`
  case loopRunCtx | afterRunCtx =>
    split at he
    · rename_i hdone
      obtain ⟨rfl, rfl⟩ := Prod.mk.inj (Option.some.inj he)
      exact h.returned hev (h.ended_of_runCtx hok (by simp [Worker.checksRunCtx, hpc]) hdone)
    · repeat' split at he
      all_goals
        obtain ⟨rfl, rfl⟩ := Prod.mk.inj (Option.some.inj he)
        exact h.goes_on hev habout rfl trivial
  case persistAttempt run f =>
    split at he
    · obtain ⟨rfl, rfl⟩ := Prod.mk.inj (Option.some.inj he)
      exact h.failed hev rfl
    · rename_i run' hnext
      obtain ⟨-, -, -, -, -, hreq⟩ := Run.nextAttempt_ok hnext
      exact h.wrote hev (Option.some.inj he) (hreq.id.trans habout) rfl fun _ => trivial
  case invoke | running =>
    obtain ⟨rfl, rfl⟩ := Prod.mk.inj he
    exact h.goes_on hev habout rfl trivial
  case afterCtx run f out =>
    split at he
    · obtain ⟨rfl, rfl⟩ := Prod.mk.inj (Option.some.inj he)
      exact h.failed hev rfl
    · obtain ⟨rfl, rfl⟩ := Prod.mk.inj (Option.some.inj he)
      exact h.goes_on hev habout rfl trivial
  case persistSucceeded run f output =>
    split at he
    · obtain ⟨rfl, rfl⟩ := Prod.mk.inj (Option.some.inj he)
      exact h.failed hev rfl
    · rename_i run' hs
      obtain ⟨-, hrun'⟩ := Run.succeed_ok hs
      have hid : run'.id = w.runID := by rw [hrun']; exact habout
      apply h.wrote hev (Option.some.inj he) hid rfl
      intro hw
      exact hid ▸ Memory.Ended.of_write hw (.inl (by rw [hrun']))
  case publishSucceeded run =>
    obtain ⟨rfl, rfl⟩ := Prod.mk.inj he
    exact h.returned hev hknows
  case persistFailed run f cause =>
    split at he
    · obtain ⟨rfl, rfl⟩ := Prod.mk.inj (Option.some.inj he)
      exact h.failed hev rfl
    · rename_i run' hf
      obtain ⟨-, err, -, hrun'⟩ := Run.fail_ok hf
      have hid : run'.id = w.runID := by rw [hrun']; exact habout
      apply h.wrote hev (Option.some.inj he) hid rfl
      intro hw
      exact hid ▸ Memory.Ended.of_write hw (.inr (.inl (by rw [hrun'])))
  case publishFailed run cause =>
    obtain ⟨rfl, rfl⟩ := Prod.mk.inj he
    exact h.goes_on hev habout rfl (hknows.evolves hev)
  case backoff run f =>
    split at he
    · obtain ⟨rfl, rfl⟩ := Prod.mk.inj (Option.some.inj he)
      exact h.goes_on hev habout rfl trivial
    · split at he
      · rename_i hdone
        obtain ⟨rfl, rfl⟩ := Prod.mk.inj (Option.some.inj he)
        exact h.goes_on hev habout rfl hdone
      · cases he
  case backoffLease run f =>
    apply h.checked hev he habout rfl
    intro hnone
    -- the lease is there, so the context was canceled or the Run was
    rcases h.cause hknows with hctx | hlease | hc
    · exact .inl hctx
    · simp [hnone] at hlease
    · exact .inr (hc.evolves hev)
  case backoffCtx run f =>
    split at he
    · obtain ⟨rfl, rfl⟩ := Prod.mk.inj (Option.some.inj he)
      exact h.failed hev rfl
    · rename_i hctx
      obtain ⟨rfl, rfl⟩ := Prod.mk.inj (Option.some.inj he)
      exact h.returned hev (hknows.resolve_left hctx).ended

end Execute

/-! ### Announced cancellations -/

section Events

variable {m : Memory}

/-- `execute` announces no cancellation. -/
theorem Worker.execute_events {w : Worker} {o : Oracle} {pc : ExecPc} {e : Effect}
    (he : w.execute o m = some (pc, e)) : ∀ ev ∈ e.events, ev.type ≠ "run.canceled" := by
  cases hpc : w.pc <;>
    simp only [Worker.execute, hpc, checkLease, writeFenced, Option.some.injEq, reduceCtorEq] at he
  all_goals repeat' split at he
  all_goals cases he <;> simp [publishRun]

/-- A request announces no cancellation. -/
theorem Submit.handle_events {h : Submit} {o : SubmitOracle} {pc : SubmitPc} {e : Effect}
    {created : Option (String × Run)} (hh : h.handle o m = some (pc, e, created)) :
    ∀ ev ∈ e.events, ev.type ≠ "run.canceled" := by
  cases hpc : h.pc <;> simp only [Submit.handle, hpc, Option.some.injEq, reduceCtorEq] at hh
  all_goals repeat' split at hh
  all_goals
    cases hh
    simp [publishRun, publishAgentChildRun]

end Events

/-! ### The invariant -/

structure AckInv (s : State) : Prop where
  runs : RunInv s
  sound : ∀ w, (s.workers w).Sound s.store
  canceling : ∀ run ∈ s.canceling, s.store.Canceled run.id
  events : ∀ event ∈ s.events, event.type = "run.canceled" → s.store.Canceled event.runID

/-- Every action that does not mistake a shutdown for a cancellation. -/
def KeepsRuns (s : State) (a : Action) : Prop :=
  ∀ w o, a = .work w o → ¬ (s.workers w).MistakesShutdown s.store

variable {s t : State} {a : Action}

theorem ackInv_init : AckInv init where
  runs := runInv_init
  sound w := ⟨by simp [init, ExecPc.about], by simp [init], trivial⟩
  canceling := by simp [init]
  events := by simp [init]

/-- A visible cancellation is stored. -/
theorem AckInv.canceled_of_visible (h : AckInv s) {id : String} (hv : s.cancelVisible id = true) :
    s.store.Canceled id := by
  simp only [State.cancelVisible, Bool.or_eq_true, Option.any_eq_true_iff_get,
    List.any_eq_true, Bool.and_eq_true, decide_eq_true_eq] at hv
  rcases hv with (⟨hsome, hc⟩ | ⟨run, hrun, rfl⟩) | ⟨event, hevent, rfl, htype⟩
  · exact ⟨_, Option.some_get hsome |>.symm, hc⟩
  · exact h.canceling run hrun
  · exact h.events event hevent htype

theorem Worker.Knows.evolves {w : Worker} {m m' : Memory} (h : w.Knows m) (hm : m.Evolves m') :
    w.Knows m' := by
  rw [Worker.Knows] at h ⊢
  cases hpc : w.pc <;> simp only [hpc] at h ⊢
  case deadLetterLoaded | publishSucceeded | publishFailed | deadLetter => exact h.evolves hm
  case backoffLease => exact h
  case backoffCtx => exact h.imp_right fun hc => hc.evolves hm
  case done err =>
    cases err with
    | none => exact h.evolves hm
    | some err => trivial

theorem Worker.Sound.evolves {w : Worker} {m m' : Memory} (h : w.Sound m) (hm : m.Evolves m') :
    w.Sound m' :=
  ⟨h.about, h.cause_evolves hm, h.knows.evolves hm⟩

section Contexts

variable {w : Worker} {m m' : Memory}

/-- What a call knows survives a shutdown, a lost lease and a canceled `runCtx`. -/
theorem Worker.Knows.shutdown (h : w.Knows m) : Worker.Knows { w with ctxDone := true } m := by
  rw [Worker.Knows] at h ⊢
  split
  all_goals simp_all

theorem Worker.Knows.canceled (h : w.Knows m) : Worker.Knows { w with runCtxDone := true } m := by
  rw [Worker.Knows] at h ⊢
  split
  all_goals simp_all

theorem Worker.Knows.lost {err : Option Err} (h : w.Knows m) :
    Worker.Knows { w with leaseErr := err } m := h

theorem Memory.Canceled.of_cancelRun {id : String} {now : Time} {run : Run} (hm : m.RunsOk)
    (h : m.cancelRun id now = .ok (m', run)) : m'.Canceled run.id := by
  obtain ⟨existing, he, hc, rfl⟩ := Memory.cancelRun_ok h
  obtain ⟨-, hrun⟩ := Run.cancel_ok hc
  have hid : existing.id = id := hm.id he
  exact ⟨run, by rw [hrun, Table.lookup_insert_eq, if_pos hid], by rw [hrun]⟩

theorem Manager.Move.canceled {c : Manager} {o : ManagerOracle} {e : ManagerEffect} {run : Run}
    (h : c.Move o m e) (hm : m.RunsOk) (hrun : e.canceled = some run) :
    e.store.Canceled run.id := by
  cases h with
  | silent _ hnone => simp [hnone] at hrun
  | cancel store hsome =>
      obtain rfl := Option.some.inj (hsome.symm.trans hrun)
      exact .of_cancelRun hm store
  | create _ _ _ hnone => simp [hnone] at hrun

end Contexts

theorem sound_update {w : Nat} {worker : Worker} {m : Memory} (h : ∀ n, (s.workers n).Sound m)
    (hw : worker.Sound m) (n : Nat) : (Function.update s.workers w worker n).Sound m := by
  by_cases hn : n = w
  · subst hn
    simpa using hw
  · simpa [hn] using h n

theorem AckInv.step (h : AckInv s) (hok : KeepsRuns s a) (ha : step s a = some t) : AckInv t := by
  -- what was known before is still true, since Runs that have ended stay as they are
  obtain ⟨hruns, hev⟩ := h.runs.step ha
  have hsound : ∀ n, (s.workers n).Sound t.store := fun n => (h.sound n).evolves hev
  have hcanceling : ∀ run ∈ s.canceling, t.store.Canceled run.id := fun run hrun =>
    (h.canceling run hrun).evolves hev
  have hevents : ∀ event ∈ s.events, event.type = "run.canceled" → t.store.Canceled event.runID :=
    fun event hevent htype => (h.events event hevent htype).evolves hev
  have hsame : ∀ {c config pc}, s.call c config pc = some t → AckInv t := by
    intro c config pc hc
    rw [State.call] at hc
    split at hc
    · obtain rfl := Option.some.inj hc
      exact ⟨hruns, hsound, hcanceling, hevents⟩
    · cases hc
  cases a <;> simp only [AgentMesh.step] at ha
  case registry | crash =>
    obtain rfl := Option.some.inj ha
    exact ⟨hruns, hsound, hcanceling, hevents⟩
  case deliver w engine runID =>
    split at ha
    · obtain rfl := Option.some.inj ha
      refine ⟨hruns, sound_update hsound ⟨?_, ?_, trivial⟩, hcanceling, hevents⟩
      · simp [ExecPc.about]
      · simp
    · cases ha
  case work w o =>
    split at ha
    · obtain ⟨⟨pc, e⟩, he, rfl⟩ := Option.map_eq_some_iff.mp ha
      refine ⟨hruns, sound_update hsound ?_, hcanceling, ?_⟩
      · exact (h.sound w).execute h.runs.ok (hok w o rfl) he hev
      · intro event hevent htype
        rcases List.mem_append.mp hevent with hevent | hevent
        · exact hevents event hevent htype
        · exact absurd htype (Worker.execute_events he event hevent)
    · cases ha
  -- each way in which `runCtx` can be done has its cause
  case shutdown w =>
    obtain rfl := Option.some.inj ha
    refine ⟨hruns, sound_update hsound ?_, hcanceling, hevents⟩
    exact ⟨(hsound w).about, fun _ => .inl rfl, (hsound w).knows.shutdown⟩
  case propagate w =>
    split at ha
    · rename_i hctx
      obtain rfl := Option.some.inj ha
      refine ⟨hruns, sound_update hsound ?_, hcanceling, hevents⟩
      exact ⟨(hsound w).about, fun _ => .inl hctx, (hsound w).knows.canceled⟩
    · cases ha
  case renewalFails w err =>
    split at ha
    · obtain rfl := Option.some.inj ha
      refine ⟨hruns, sound_update hsound ?_, hcanceling, hevents⟩
      exact ⟨(hsound w).about, fun _ => .inr (.inl rfl), (hsound w).knows.lost⟩
    · cases ha
  case keeperCancels w =>
    split at ha
    · rename_i hlease
      obtain rfl := Option.some.inj ha
      refine ⟨hruns, sound_update hsound ?_, hcanceling, hevents⟩
      exact ⟨(hsound w).about, fun _ => .inr (.inl hlease), (hsound w).knows.canceled⟩
    · cases ha
  case observesCancel w =>
    split at ha
    · rename_i hvisible
      obtain rfl := Option.some.inj ha
      have hc := h.canceled_of_visible (Bool.and_eq_true_iff.mp hvisible).2
      refine ⟨hruns, sound_update hsound ?_, hcanceling, hevents⟩
      exact ⟨(hsound w).about, fun _ => .inr (.inr hc), (hsound w).knows.canceled⟩
    · cases ha
  case cancelRun id now =>
    split at ha
    · obtain rfl := Option.some.inj ha
      exact h
    · rename_i m run hcancel
      obtain rfl := Option.some.inj ha
      refine ⟨hruns, hsound, ?_, hevents⟩
      intro run' hrun'
      rcases List.mem_append.mp hrun' with hrun' | hrun'
      · exact hcanceling run' hrun'
      · obtain rfl := List.mem_singleton.mp hrun'
        exact Memory.Canceled.of_cancelRun h.runs.ok hcancel
  case announceCanceled index =>
    obtain ⟨run, hrun, rfl⟩ := Option.map_eq_some_iff.mp ha
    refine ⟨hruns, hsound, ?_, ?_⟩
    · intro run' hrun'
      exact hcanceling run' (List.mem_of_mem_eraseIdx hrun')
    · intro event hevent htype
      rcases List.mem_append.mp hevent with hevent | hevent
      · exact hevents event hevent htype
      · obtain rfl := List.mem_singleton.mp hevent
        exact hcanceling run (List.mem_of_getElem? hrun)
  case recoverRun id token =>
    split at ha
    · split at ha
      all_goals obtain rfl := Option.some.inj ha
      all_goals exact ⟨hruns, hsound, hcanceling, hevents⟩
    · cases ha
  case request | agentCall =>
    split at ha
    · obtain rfl := Option.some.inj ha
      exact ⟨hruns, hsound, hcanceling, hevents⟩
    · cases ha
  case handle n o =>
    split at ha
    · obtain ⟨⟨pc, e, created⟩, he, rfl⟩ := Option.map_eq_some_iff.mp ha
      refine ⟨hruns, hsound, hcanceling, ?_⟩
      intro event hevent htype
      rcases List.mem_append.mp hevent with hevent | hevent
      · exact hevents event hevent htype
      · exact absurd htype (Submit.handle_events he event hevent)
    · cases ha
  case createWorkflow workflow now =>
    split at ha
    all_goals obtain rfl := Option.some.inj ha
    all_goals exact ⟨hruns, hsound, hcanceling, hevents⟩
  case startWorkflow | cancelWorkflow => exact hsame ha
  case reconcile c config id =>
    split at ha
    · exact hsame ha
    · cases ha
  case manage c o =>
    split at ha
    · obtain ⟨⟨pc, e⟩, he, rfl⟩ := Option.map_eq_some_iff.mp ha
      refine ⟨hruns, hsound, ?_, hevents⟩
      intro run' hrun'
      rcases List.mem_append.mp hrun' with hrun' | hrun'
      · exact hcanceling run' hrun'
      · exact (Manager.act_move he).canceled h.runs.ok (Option.mem_toList.mp hrun')
    · cases ha

/-! ### Acknowledgement -/

/-- A call that mistakes a shutdown returns `nil` and leaves the store as it is. -/
theorem Worker.MistakesShutdown.returns {w : Worker} {o : Oracle} {m : Memory} {pc : ExecPc}
    {e : Effect} (h : w.MistakesShutdown m) (he : w.execute o m = some (pc, e)) :
    pc = .done none ∧ e.store = m := by
  obtain ⟨hchecks, hdone, -⟩ := h
  rw [Worker.checksRunCtx] at hchecks
  split at hchecks
  · rename_i hpc
    simp only [Worker.execute, hpc, hdone, if_true, Option.some.injEq] at he
    cases he
    exact ⟨rfl, rfl⟩
  · rename_i hpc
    simp only [Worker.execute, hpc, hdone, if_true, Option.some.injEq] at he
    cases he
    exact ⟨rfl, rfl⟩
  · cases hchecks

/-- **Acknowledgement implies completion**, as long as no call takes a shutdown or
a lost lease for a canceled Run: then a call that has returned `nil` leaves its
stored Run succeeded, failed or canceled.  Each such mistake, on the other
hand, returns `nil` for a Run that has not ended. -/
theorem acknowledged_runs_ended (s : State) (w : Nat) :
    (Runs step KeepsRuns init s → (s.workers w).pc = .done none →
      s.store.Ended (s.workers w).runID) ∧
    (∀ o t, step s (.work w o) = some t → (s.workers w).MistakesShutdown s.store →
      (t.workers w).pc = .done none ∧ ¬ t.store.Ended (t.workers w).runID) := by
  refine ⟨?_, ?_⟩
  · intro hs hpc
    have hinv : AckInv s := hs.invariant ackInv_init fun hu hP ha => hu.step hP ha
    have hknows := (hinv.sound w).knows
    simpa only [Worker.Knows, hpc] using hknows
  · intro o t ha hm
    simp only [step] at ha
    split at ha
    · obtain ⟨⟨pc, e⟩, he, rfl⟩ := Option.map_eq_some_iff.mp ha
      obtain ⟨rfl, hstore⟩ := hm.returns he
      have hend : ¬ e.store.Ended (s.workers w).runID := hstore ▸ hm.2.2.2
      simpa [State.worked] using hend
    · cases ha

def ExecPc.acknowledged : ExecPc → Bool
  | .done none => true
  | _ => false

theorem ExecPc.eq_done {pc : ExecPc} (h : pc.acknowledged = true) : pc = .done none := by
  unfold ExecPc.acknowledged at h
  split at h
  · rfl
  · cases h

/-- A call that executes the Run to its end without interruption. -/
theorem acknowledged_runs_ended_succeeded :
    ∃ s, Runs step KeepsRuns init s ∧ (s.workers 0).pc = .done none ∧
      s.store.Ended (s.workers 0).runID := by
  obtain ⟨s, hs, hpc⟩ :
      ∃ s, exec (guarded step fun s a => match a with
            | .work w _ => !(s.workers w).runCtxDone
            | _ => true) init (submitRun 3 ++ workOn 0 15 {}) = some s ∧
        (s.workers 0).pc.acknowledged = true := by
    refine exists_of_any ?_
    decide +kernel
  have hruns : Runs step KeepsRuns init s := by
    refine runs_exec_guarded ?_ hs
    intro u a h w o ha hm
    subst ha
    simp [hm.2.1] at h
  have hdone := ExecPc.eq_done hpc
  exact ⟨s, hruns, hdone, (acknowledged_runs_ended s 0).1 hruns hdone⟩

/-- A shutdown while a call loads its Run: the call returns `nil`, and the Run
stays queued. -/
theorem shutdown_acknowledges_queued :
    ∃ s run, Reachable s ∧ (s.workers 0).pc = .done none ∧ (s.workers 0).runID = "run_1" ∧
      s.store.runs.lookup "run_1" = some run ∧ run.status = .queued ∧
      ¬ s.store.Ended (s.workers 0).runID := by
  obtain ⟨s, hs, hpc, hid, hstatus⟩ :
      ∃ s, exec step init (submitRun 3 ++ workOn 0 5 {} ++
          [.shutdown 0, .propagate 0, .work 0 {}, .work 0 {}]) = some s ∧
        (s.workers 0).pc.acknowledged = true ∧ (s.workers 0).runID = "run_1" ∧
        (s.store.runs.lookup "run_1").map Run.status = some .queued := by
    refine exists_of_any ?_
    decide +kernel
  obtain ⟨run, hrun, hqueued⟩ := Option.map_eq_some_iff.mp hstatus
  refine ⟨s, run, runs_exec (fun _ _ => trivial) hs, ExecPc.eq_done hpc, hid, hrun, hqueued, ?_⟩
  rintro ⟨run', hrun', hterm⟩
  rw [hid, hrun] at hrun'
  obtain rfl := Option.some.inj hrun'
  exact Run.IsActive.not_terminal (.inl hqueued) hterm

end AgentMesh
