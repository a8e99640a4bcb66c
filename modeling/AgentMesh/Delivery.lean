/-
AgentMesh/Delivery.lean

What an uninterrupted delivery does to a Run.

The Run may be in any state that earlier executions left behind.  The call gets
its lease, nobody cancels or competes, the store and the queue answer; the
runtime may succeed, fail, panic or time out as it likes.  Then the call ends,
and the question is with what.

`Solo` is one call of `execute` alone with the store; `solo_lift` carries its
runs over to the system.  The attempt loop ends because each round that goes on
counts an attempt below the limit.  From there the Run succeeds, or it fails and
is dead-lettered, except in one case: the Run enters the loop with no attempts
left (`OutOfAttempts`).  An execution that was interrupted in its last attempt
leaves a Run in exactly that state: running, with all attempts counted.
-/
import AgentMesh.RunSafety

namespace AgentMesh

open Machine

/-! ### A call alone with the store -/

/-- A call of `execute`, the store, and the dead letters. -/
structure Solo where
  worker : Worker
  store : Memory
  deadLetters : List String

def Solo.step (c : Solo) (o : Oracle) : Option Solo :=
  if c.worker.fenceLeft c.store then
    (c.worker.execute o c.store).map fun r =>
      ⟨{ c.worker with pc := r.1 }, r.2.store, c.deadLetters ++ r.2.deadLetters⟩
  else none

/-- What worker `w` and the store of a state look like alone. -/
def State.solo (s : State) (w : Nat) : Solo := ⟨s.workers w, s.store, s.deadLetters⟩

theorem solo_step_lift {s : State} {w : Nat} {o : Oracle} {c : Solo}
    (h : (s.solo w).step o = some c) : ∃ t, step s (.work w o) = some t ∧ t.solo w = c := by
  by_cases hleft : (s.workers w).fenceLeft s.store = true
  · simp only [Solo.step, State.solo, hleft, if_true] at h
    obtain ⟨r, hr, rfl⟩ := Option.map_eq_some_iff.mp h
    exact ⟨s.worked w r.1 r.2, by simp [step, hleft, hr], by simp [State.solo, State.worked]⟩
  · simp [Solo.step, State.solo, hleft] at h

/-- Runs of a call alone are runs of the system in which nobody else moves. -/
theorem solo_lift {s : State} {w : Nat} {os : List Oracle} {c : Solo}
    (h : exec Solo.step (s.solo w) os = some c) :
    ∃ t, exec step s (os.map (.work w)) = some t ∧ t.solo w = c := by
  induction os generalizing s with
  | nil => exact ⟨s, rfl, Option.some.inj h⟩
  | cons o os ih =>
      obtain ⟨c', hc', hrest⟩ := Option.bind_eq_some_iff.mp h
      obtain ⟨u, hu, rfl⟩ := solo_step_lift hc'
      obtain ⟨t, ht, htc⟩ := ih hrest
      exact ⟨t, by simp [hu, ht], htc⟩

/-! ### Deliveries that nothing interrupts -/

/-- The coordinator grants the lease, the queue takes dead letters, the retry
timer fires.  What the runtime returns and what the clock shows is open. -/
structure Oracle.Uninterrupted (o : Oracle) : Prop where
  granted : ∃ token, o.acquired = .granted token
  deadLetter : o.deadLetter = none
  timer : o.timer = true

/-- The actions from the `i`-th on lead to a configuration with `Q`. -/
def Finishes (choices : Nat → Oracle) (i : Nat) (c : Solo) (Q : Solo → Prop) : Prop :=
  ∃ n c', exec Solo.step c ((List.range' i n).map choices) = some c' ∧ Q c'

section Finishes

variable {choices : Nat → Oracle} {i : Nat} {c c' : Solo} {Q : Solo → Prop}

theorem Finishes.here (h : Q c) : Finishes choices i c Q := ⟨0, c, rfl, h⟩

theorem Finishes.next (hc : c.step (choices i) = some c')
    (h : Finishes choices (i + 1) c' Q) : Finishes choices i c Q := by
  obtain ⟨n, c'', hc'', hQ⟩ := h
  exact ⟨n + 1, c'', by simp [List.range'_succ, hc, hc''], hQ⟩

end Finishes

/-- A call of `execute` at a control point, with its contexts intact. -/
def Solo.at (engine : Engine) (id : String) (pc : ExecPc) (m : Memory) (d : List String) : Solo :=
  ⟨{ engine := engine, runID := id, pc := pc }, m, d⟩

/-- The call has returned, and the Run has succeeded, or has failed and is dead-lettered. -/
def Solo.Finished (id : String) (c : Solo) : Prop :=
  c.worker.pc = .done none ∧ ∃ run, c.store.runs.lookup id = some run ∧
    (run.status = .succeeded ∨ run.status = .failed ∧ id ∈ c.deadLetters)

/-- The call holds the current fence of a Run that is not canceled. -/
structure Memory.Grants (m : Memory) (id : String) (f : Int) : Prop where
  stored : ∃ run, m.runs.lookup id = some run ∧ run.status ≠ .canceled
  fence : m.fence id = f
  positive : 0 < f

section Loop

variable {choices : Nat → Oracle} {engine : Engine} {id : String} {m : Memory} {d : List String}
variable {run run' : Run} {f : Int} {i : Nat}

/-- A write with the current fence is accepted. -/
theorem Memory.Grants.write (h : m.Grants id f) (hid : run.id = id)
    (hs : run.status ≠ .canceled) :
    ∃ m', m.updateRunFenced run f = .ok m' ∧ m'.Grants id f ∧
      ∃ r, m'.runs.lookup id = some r ∧ r.status = run.status := by
  obtain ⟨existing, he, hc⟩ := h.stored
  have hfence := h.fence
  have hpos := h.positive
  subst hid
  have hlookup : AList.lookup run.id (m.runs.insert run.id (Memory.keepLineage existing run))
      = some (Memory.keepLineage existing run) := AList.lookup_insert _
  refine ⟨{ m with runs := m.runs.insert run.id (Memory.keepLineage existing run) }, ?_,
    ⟨⟨_, hlookup, hs⟩, hfence, hpos⟩, _, hlookup, rfl⟩
  simp [Memory.updateRunFenced, he, hc, hfence, not_le.mpr hpos]

/-- One action of the call. -/
theorem Finishes.act {pc : ExecPc} {Q : Solo → Prop} (pc' : ExecPc) (e : Effect)
    (he : Worker.execute { engine := engine, runID := id, pc := pc } (choices i) m = some (pc', e))
    (hleft : Worker.fenceLeft { engine := engine, runID := id, pc := pc } m = true)
    (h : Finishes choices (i + 1) (.at engine id pc' e.store (d ++ e.deadLetters)) Q) :
    Finishes choices i (.at engine id pc m d) Q := by
  refine .next ?_ h
  simp only [Solo.step, Solo.at, hleft, if_true, he]
  rfl

/-- `Succeed` and its write end the call. -/
theorem finishes_succeeded {output : String} (hm : m.Grants id f) (hid : run.id = id)
    (hs : run.status = .running) :
    Finishes choices i (.at engine id (.persistSucceeded run f output) m d) (Solo.Finished id) := by
  rcases hrun' : run.succeed output (choices i).now with err | run'
  · simp [Run.succeed, hs] at hrun'
  obtain ⟨-, heq⟩ := Run.succeed_ok hrun'
  have hid' : run'.id = id := by rw [heq]; exact hid
  have hstatus : run'.status = .succeeded := by rw [heq]
  obtain ⟨m', hw, -, r, hr, hrs⟩ := hm.write hid' (by simp [hstatus])
  refine .act (.publishSucceeded run') { store := m' }
    (by simp only [Worker.execute, hrun', writeFenced, hw]) rfl ?_
  refine .act (.done none) _ rfl rfl (.here ?_)
  exact ⟨rfl, r, hr, .inl (hrs.trans hstatus)⟩

/-- `failRun` ends the call. -/
theorem finishes_failed {cause : Err} (hc : ∀ i, (choices i).Uninterrupted) (hm : m.Grants id f)
    (hid : run.id = id) (hs : run.IsActive) :
    Finishes choices i (.at engine id (.persistFailed run f cause) m d) (Solo.Finished id) := by
  rcases hrun' : run.fail (some cause) (choices i).now with err | run'
  · rw [Run.IsActive] at hs
    rcases hs with hs | hs <;> simp [Run.fail, hs] at hrun'
  obtain ⟨-, err, -, heq⟩ := Run.fail_ok hrun'
  have hstatus : run'.status = .failed := by rw [heq]
  have hid' : run'.id = id := by rw [heq]; exact hid
  obtain ⟨m', hw, -, r, hr, hrs⟩ := hm.write hid' (by simp [hstatus])
  refine .act (.publishFailed run' cause) { store := m' }
    (by simp only [Worker.execute, hrun', writeFenced, hw]) rfl ?_
  refine .act (.deadLetter run' cause) _ rfl rfl ?_
  refine .act (.done none) { store := m', deadLetters := [run'.id] }
    (by simp only [Worker.execute, (hc _).deadLetter]) rfl (.here ?_)
  exact ⟨rfl, r, hr, .inr ⟨hrs.trans hstatus, by simp [Solo.at, hid']⟩⟩

/-- A Run that may still be attempted is. -/
theorem Run.nextAttempt_of_active (hs : run.IsActive) (hex : ¬ run.Exhausted) (now : Time) :
    ∃ run', run.nextAttempt now = .ok run' := by
  rw [Run.nextAttempt]
  rcases hs with hs | hs
  · simp [hs, Run.start, hex]
  · simp [hs, Run.retry, hex]

/-- The attempt loop ends: each round that goes on counts an attempt below the limit. -/
theorem finishes_loop (hc : ∀ i, (choices i).Uninterrupted) (k : Nat) :
    ∀ {run : Run} {m : Memory} {d : List String} {i : Nat}, m.Grants id f → run.id = id →
      run.IsActive → 0 ≤ run.attempt → ¬ run.Exhausted →
      (run.maxAttempts - run.attempt).toNat ≤ k →
      Finishes choices i (.at engine id (.loopLease run f) m d) (Solo.Finished id) := by
  induction k using Nat.strong_induction_on with
  | _ k ih =>
    intro run m d i hm hid hact hnonneg hex hk
    -- both checks at the head of the loop pass, and the attempt is stored
    refine .act (.loopRunCtx run f) _ rfl rfl ?_
    refine .act (.persistAttempt run f) _ rfl rfl ?_
    obtain ⟨run', hnext⟩ := Run.nextAttempt_of_active hact hex (choices (i + 1 + 1)).now
    obtain ⟨-, -, hrunning, hatt, hmax, hreq⟩ := Run.nextAttempt_ok hnext
    have hid' : run'.id = id := hreq.id.trans hid
    obtain ⟨m', hw, hm', -⟩ := hm.write hid' (by simp [hrunning])
    refine .act (.invoke run' f) { store := m' }
      (by simp only [Worker.execute, hnext, writeFenced, hw]) rfl ?_
    -- the runtime returns, and the three checks after it pass
    refine .act (.running run' f) _ rfl rfl ?_
    refine .act (.afterLease run' f _) _ rfl rfl ?_
    refine .act (.afterCtx run' f _) _ rfl rfl ?_
    refine .act (.afterRunCtx run' f _) _ rfl rfl ?_
    generalize attemptOutcome _ _ _ = outcome
    rcases outcome with err | output
    · by_cases hlast : run'.attempt ≥ run'.maxAttempts
      · -- the last attempt has failed
        refine .act (.persistFailed run' f err) { store := m' }
          (by simp [Worker.execute, hlast]) rfl ?_
        exact finishes_failed hc hm' hid' (.inr hrunning)
      · -- one attempt less is left after the back-off
        refine .act (.backoff run' f)
          { store := m', events := [publishRun run' "run.retrying" run'.attempt] }
          (by simp [Worker.execute, hlast]) rfl ?_
        refine .act (.loopLease run' f) { store := m' }
          (by simp [Worker.execute, (hc _).timer]) rfl ?_
        refine ih (run'.maxAttempts - run'.attempt).toNat (by omega) hm' hid' (.inr hrunning)
          (by omega) (fun hex' => hlast hex'.2) le_rfl
    · refine .act (.persistSucceeded run' f output) _ rfl rfl ?_
      exact finishes_succeeded hm' hid' hrunning

end Loop

/-! ### The whole call -/

/-- The call can run the Agent, and the Run has no attempts left. -/
def OutOfAttempts (m : Memory) (engine : Engine) (run : Run) : Prop :=
  (∃ agent name, m.getAgent run.agentID = .ok agent ∧
    resolveRuntime engine.runtimes agent = .ok name) ∧ (run.withLimit engine).Exhausted

/-- The call has returned an error and left the Run as it was. -/
def Solo.GivesUp (id : String) (run : Run) (c : Solo) : Prop :=
  (∃ err, c.worker.pc = .done (some err)) ∧ c.store.runs.lookup id = some run

section Call

variable {choices : Nat → Oracle} {engine : Engine} {id : String} {m : Memory} {d : List String}
variable {run : Run}

/-- A Run without attempts left makes the call return an error. -/
theorem givesUp_exhausted {v : Run} {f : Int} {i : Nat} (hact : v.IsActive) (hex : v.Exhausted)
    (hrun : m.runs.lookup id = some run) :
    Finishes choices i (.at engine id (.loopLease v f) m d) (Solo.GivesUp id run) := by
  refine .act (.loopRunCtx v f) _ rfl rfl ?_
  refine .act (.persistAttempt v f) _ rfl rfl ?_
  refine .act (.done (some v.exhaustedError)) { store := m } ?_ rfl (.here ⟨⟨_, rfl⟩, hrun⟩)
  rcases hact with hs | hs
  · simp [Worker.execute, Run.nextAttempt, Run.start, hs, hex]
  · simp [Worker.execute, Run.nextAttempt, Run.retry, hs, hex]

/-- The call claims the Run and reloads it. -/
theorem finishes_claim {Q : Solo → Prop} (hc : ∀ i, (choices i).Uninterrupted) (hm : m.RunsOk)
    (hrun : m.runs.lookup id = some run) (hact : run.IsActive) (hleft : m.fence id < maxFence)
    (h : ∀ f, 0 < f → Finishes choices 4
      (.at engine id (.loadAgent run f) { m with runFences := m.runFences.insert id f } d) Q) :
    Finishes choices 0 (.at engine id .load m d) Q := by
  have hid : run.id = id := hm.id hrun
  have hget : m.getRun id = .ok run := Memory.getRun_ok.mpr hrun
  have hcanceled : run.status ≠ .canceled := by
    rcases hact with hs | hs <;> simp [hs]
  refine .act (.acquire run) { store := m } ?_ rfl ?_
  · rcases hact with hs | hs <;> simp [Worker.execute, hget, hs]
  obtain ⟨token, htoken⟩ := (hc (0 + 1)).granted
  refine .act (.claim run token) { store := m } (by simp only [Worker.execute, htoken]) rfl ?_
  have hlt := Memory.lt_nextFence (hm.fence_nonneg id) hleft token
  have hclaim : m.claimRunExecution run.id token
      = .ok ({ m with runFences := m.runFences.insert id (Memory.nextFence (m.fence id) token) },
          Memory.nextFence (m.fence id) token) := by
    subst hid
    rcases hact with hs | hs <;> simp [Memory.claimRunExecution, hrun, hs]
  refine .act (.reload run _) { store := _ } (by simp only [Worker.execute, hclaim]; rfl) ?_ ?_
  · simpa [Worker.fenceLeft, hid] using hleft
  refine .act (.loadAgent run _) { store := _ } ?_ rfl
    (by simpa using h _ ((hm.fence_nonneg id).trans_lt hlt))
  subst hid
  simp [Worker.execute, Memory.getRun, hrun, hcanceled]

/-- An uninterrupted call finishes an active Run, or gives it up for want of attempts. -/
theorem finishes_call (hc : ∀ i, (choices i).Uninterrupted) (hm : m.RunsOk)
    (hrun : m.runs.lookup id = some run) (hact : run.IsActive) (hleft : m.fence id < maxFence) :
    (OutOfAttempts m engine run ∧
      Finishes choices 0 (.at engine id .load m d) (Solo.GivesUp id run)) ∨
    (¬ OutOfAttempts m engine run ∧
      Finishes choices 0 (.at engine id .load m d) (Solo.Finished id)) := by
  have hid : run.id = id := hm.id hrun
  have hcanceled : run.status ≠ .canceled := by
    rcases hact with hs | hs <;> simp [hs]
  have hgrants : ∀ f, 0 < f → Memory.Grants { m with runFences := m.runFences.insert id f } id f :=
    fun f hf => ⟨⟨run, hrun, hcanceled⟩, Memory.fence_insert_self m id f, hf⟩
  have hagents : ∀ f, Memory.getAgent { m with runFences := m.runFences.insert id f } run.agentID
      = m.getAgent run.agentID := fun _ => rfl
  rcases hagent : m.getAgent run.agentID with err | agent
  · -- the Agent is gone: the Run fails
    refine .inr ⟨?_, finishes_claim hc hm hrun hact hleft ?_⟩
    · rintro ⟨⟨agent', name, hok, -⟩, -⟩
      simp [hagent] at hok
    · intro f hf
      exact .act (.persistFailed run f (err.wrap "agent not found: ")) { store := _ }
        (by simp only [Worker.execute, hagents, hagent]) rfl
        (finishes_failed hc (hgrants f hf) hid hact)
  rcases hruntime : resolveRuntime engine.runtimes agent with err | name
  · -- the Agent has no runtime: the Run fails
    refine .inr ⟨?_, finishes_claim hc hm hrun hact hleft ?_⟩
    · rintro ⟨⟨agent', name, hok, hok'⟩, -⟩
      obtain rfl := Except.ok.inj (hagent.symm.trans hok)
      simp [hruntime] at hok'
    · intro f hf
      exact .act
        (.persistFailed run f (err.wrap ("resolve runtime for agent " ++ agent.id ++ ": ")))
        { store := _ } (by simp only [Worker.execute, hagents, hagent, hruntime]) rfl
        (finishes_failed hc (hgrants f hf) hid hact)
  -- the Run enters the attempt loop
  have henter : ∀ {Q : Solo → Prop}, (∀ f, 0 < f → Finishes choices (4 + 1)
      (.at engine id (.loopLease (run.withLimit engine) f)
        { m with runFences := m.runFences.insert id f } d) Q) →
      Finishes choices 0 (.at engine id .load m d) Q := fun h =>
    finishes_claim hc hm hrun hact hleft fun f hf =>
      .act (.loopLease (run.withLimit engine) f)
        { store := { m with runFences := m.runFences.insert id f } }
        (by simp only [Worker.execute, hagents, hagent, hruntime]) rfl (by simpa using h f hf)
  by_cases hex : (run.withLimit engine).Exhausted
  · exact .inl ⟨⟨⟨agent, name, hagent, hruntime⟩, hex⟩,
      henter fun f _ => givesUp_exhausted hact hex hrun⟩
  · exact .inr ⟨fun hout => hex hout.2, henter fun f hf =>
      finishes_loop hc _ (hgrants f hf) hid hact (hm.counted hrun).nonneg hex le_rfl⟩

end Call

/-- The Run has succeeded, or has failed and is dead-lettered. -/
def State.Finished (s : State) (id : String) : Prop :=
  ∃ run, s.store.runs.lookup id = some run ∧
    (run.status = .succeeded ∨ run.status = .failed ∧ id ∈ s.deadLetters)

/-- **An uninterrupted delivery finishes the Run, exactly if the Run is not out of
attempts.**  From every reachable state with a queued or running Run, and for
all outcomes of the runtime, a call of `execute` that nothing interrupts
returns; the Run has then succeeded, or has failed and is dead-lettered, if and
only if the call did not find it out of attempts.  If it did, it returns an
error and leaves the Run as it was. -/
theorem delivery_finishes {s : State} {w : Nat} {id : String} {run : Run} (engine : Engine)
    (hs : Reachable s) (hfree : (s.workers w).pc.isOver = true)
    (hrun : s.store.runs.lookup id = some run) (hact : run.IsActive)
    (hleft : s.store.fence id < maxFence) (choices : Nat → Oracle)
    (hc : ∀ i, (choices i).Uninterrupted) :
    ∃ n t result, exec step s (.deliver w engine id :: ((List.range n).map choices).map (.work w))
        = some t ∧ (t.workers w).pc = .done result ∧
      (t.Finished id ↔ ¬ OutOfAttempts s.store engine run) ∧
      (OutOfAttempts s.store engine run →
        result.isSome = true ∧ t.store.runs.lookup id = some run) := by
  have hok := (runInv_runs hs).ok
  -- the call starts with its contexts intact
  have hstart : (s.setWorker w { engine := engine, runID := id, pc := .load }).solo w
      = .at engine id .load s.store s.deadLetters := by
    simp [State.solo, State.setWorker, Solo.at]
  have hrunAll : ∀ {n c}, exec Solo.step (.at engine id .load s.store s.deadLetters)
      ((List.range' 0 n).map choices) = some c →
      ∃ t, exec step s (.deliver w engine id :: ((List.range n).map choices).map (.work w))
        = some t ∧ t.solo w = c := by
    intro n c h
    rw [← hstart] at h
    obtain ⟨t, ht, htc⟩ := solo_lift h
    refine ⟨t, ?_, htc⟩
    rw [exec_cons]
    simp only [step, hfree, if_true, Option.bind_some]
    rw [List.range_eq_range']
    exact ht
  rcases @finishes_call choices engine id s.store s.deadLetters run hc hok hrun hact hleft with
    ⟨hout, n, c, hexec, ⟨err, hpc⟩, hsame⟩ | ⟨hout, n, c, hexec, hpc, r, hr, hend⟩
  · obtain ⟨t, ht, rfl⟩ := hrunAll hexec
    refine ⟨n, t, some err, ht, hpc, ⟨?_, fun h => absurd hout h⟩, fun _ => ⟨rfl, hsame⟩⟩
    rintro ⟨r, hr, hend⟩
    obtain rfl := Option.some.inj (hsame.symm.trans hr)
    rcases hact with hs | hs <;> simp [hs] at hend
  · obtain ⟨t, ht, rfl⟩ := hrunAll hexec
    exact ⟨n, t, none, ht, hpc, ⟨fun _ => hout, fun _ => ⟨r, hr, hend⟩⟩, fun h => absurd h hout⟩

/-- A queued Run is finished by an uninterrupted delivery, whatever the runtime does. -/
theorem delivery_finishes_queued :
    ∃ s run, Reachable s ∧ s.store.runs.lookup "run_1" = some run ∧ run.status = .queued ∧
      ∀ choices : Nat → Oracle, (∀ i, (choices i).Uninterrupted) →
        ∃ n t, exec step s
            (.deliver 0 demoEngine "run_1" :: ((List.range n).map choices).map (.work 0)) = some t ∧
          t.Finished "run_1" := by
  obtain ⟨s, hs, hrun, hfree, hleft⟩ :
      ∃ s, exec step init (submitRun 3) = some s ∧
        (s.store.runs.lookup "run_1").map (fun run => (run.status, run.attempt, run.maxAttempts))
          = some (.queued, 0, 3) ∧
        (s.workers 0).pc.isOver = true ∧ s.store.fence "run_1" < maxFence := by
    refine exists_of_any ?_
    decide +kernel
  obtain ⟨run, hrun, hfields⟩ := Option.map_eq_some_iff.mp hrun
  simp only [Prod.mk.injEq] at hfields
  obtain ⟨hqueued, hattempt, hmax⟩ := hfields
  have hreach : Reachable s := runs_exec (fun _ _ => trivial) hs
  refine ⟨s, run, hreach, hrun, hqueued, ?_⟩
  intro choices hc
  obtain ⟨n, t, -, ht, -, hiff, -⟩ := delivery_finishes demoEngine hreach hfree hrun
    (.inl hqueued) hleft choices hc
  refine ⟨n, t, ht, hiff.mpr ?_⟩
  intro hout
  have hex := hout.2
  simp [Run.Exhausted, Run.withLimit, hmax, hattempt] at hex

/-- A Run with one attempt, interrupted by a shutdown while it runs. -/
def interrupted : List Action :=
  submitRun 1 ++ workOn 0 9 {} ++ [.shutdown 0] ++
    List.replicate 3 (.work 0 { returned := ⟨.error Sentinel.contextCanceled.err, false⟩ })

/-- The error that a call has returned. -/
def ExecPc.error : ExecPc → Option Err
  | .done err => err
  | _ => none

/-- The next delivery of the interrupted Run finds all its attempts counted: it
returns an error, and the Run stays running. -/
theorem interrupted_run_sticks :
    ∃ s t run, Reachable s ∧ s.store.runs.lookup "run_1" = some run ∧ run.status = .running ∧
      run.attempt = 1 ∧ run.maxAttempts = 1 ∧ exec step s (workOn 1 8 {}) = some t ∧
      (t.workers 1).pc.error = some (errorf "run has exhausted 1 attempts") ∧
      t.store.runs.lookup "run_1" = some run ∧ ¬ t.Finished "run_1" := by
  obtain ⟨s, hs, hfields, hnext⟩ :
      ∃ s, exec step init interrupted = some s ∧
        (s.store.runs.lookup "run_1").map (fun run => (run.status, run.attempt, run.maxAttempts))
          = some (.running, 1, 1) ∧
        ((exec step s (workOn 1 8 {})).any fun t =>
          (t.workers 1).pc.error = some (errorf "run has exhausted 1 attempts")
            ∧ t.store.runs.lookup "run_1" = s.store.runs.lookup "run_1") = true := by
    refine exists_of_any ?_
    decide +kernel
  obtain ⟨run, hrun, hfields⟩ := Option.map_eq_some_iff.mp hfields
  simp only [Prod.mk.injEq] at hfields
  obtain ⟨hrunning, hattempt, hmax⟩ := hfields
  obtain ⟨t, ht, herr, hsame⟩ := exists_of_any hnext
  rw [hrun] at hsame
  refine ⟨s, t, run, runs_exec (fun _ _ => trivial) hs, hrun, hrunning, hattempt, hmax, ht, herr,
    hsame, ?_⟩
  rintro ⟨r, hr, hend⟩
  obtain rfl := Option.some.inj (hsame.symm.trans hr)
  simp [hrunning] at hend

end AgentMesh
