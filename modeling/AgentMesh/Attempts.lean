/-
AgentMesh/Attempts.lean

How often a runtime is invoked for a Run.

Each worker counts attempts on a copy of the Run, and copies go stale.  What
ties the invocations to the stored counter is that an attempt is stored before
the runtime is invoked: the invocations so far, together with the workers that
have stored an attempt and are about to invoke, never outnumber the stored
attempts and the attempts that recoveries have taken back.  The invariant
counts any finite set of such workers.

`AttemptStep` is what an action can do to the four numbers.
-/
import AgentMesh.RunSafety

namespace AgentMesh

open Machine

/-- The stored attempt counter of a Run. -/
def Memory.attempt (m : Memory) (id : String) : Int :=
  ((m.runs.lookup id).map Run.attempt).getD 0

/-- The Run that a worker is about to hand to the runtime. -/
def State.invoking (s : State) (w : Nat) : Option String := (s.workers w).pc.invoking

/-! ### What an action does to the counts -/

inductive AttemptStep (s t : State) : Prop
  /-- The counts stay, and workers may only stop to be about to invoke. -/
  | quiet (invocations : t.invocations = s.invocations) (recoveries : t.recoveries = s.recoveries)
      (attempt : ∀ id, t.store.attempt id = s.store.attempt id)
      (invoking : ∀ w, t.invoking w = s.invoking w ∨ t.invoking w = none)
  /-- A worker stores an attempt and is about to invoke the runtime. -/
  | attempt (w : Nat) (id : String) (invocations : t.invocations = s.invocations)
      (recoveries : t.recoveries = s.recoveries)
      (attempt : ∀ id', t.store.attempt id' = s.store.attempt id' + if id' = id then 1 else 0)
      (invoking : t.invoking = Function.update s.invoking w (some id))
  /-- A worker invokes the runtime. -/
  | invoke (w : Nat) (id : String) (invocations : t.invocations = s.invocations ++ [id])
      (recoveries : t.recoveries = s.recoveries)
      (attempt : ∀ id', t.store.attempt id' = s.store.attempt id')
      (before : s.invoking w = some id) (invoking : t.invoking = Function.update s.invoking w none)
  /-- A recovery takes an attempt back. -/
  | recover (id : String) (invocations : t.invocations = s.invocations)
      (recoveries : t.recoveries = s.recoveries ++ [id])
      (attempt : ∀ id', t.store.attempt id' = s.store.attempt id' - if id' = id then 1 else 0)
      (invoking : t.invoking = s.invoking)

section Counts

variable {m : Memory} {id : String} {run run' : Run}

theorem Memory.attempt_eq (h : m.runs.lookup id = some run) : m.attempt id = run.attempt := by
  simp [Memory.attempt, h]

theorem Memory.attempt_put (m : Memory) (id id' : String) (run' : Run) :
    Memory.attempt { m with runs := m.runs.insert id run' } id'
      = if id' = id then run'.attempt else m.attempt id' := by
  rw [Memory.attempt, Table.lookup_insert_eq]
  split
  · rfl
  · rfl

theorem Memory.attempt_put_add (h : m.runs.lookup id = some run) {k : Int}
    (hk : run'.attempt = run.attempt + k) (id' : String) :
    Memory.attempt { m with runs := m.runs.insert id run' } id'
      = m.attempt id' + if id' = id then k else 0 := by
  rw [Memory.attempt_put]
  split
  · rename_i hid
    rw [hid, Memory.attempt_eq h, hk]
  · simp

/-- A replaced record with the same counter. -/
theorem Memory.attempt_put_same (h : m.runs.lookup id = some run)
    (hk : run'.attempt = run.attempt) (id' : String) :
    Memory.attempt { m with runs := m.runs.insert id run' } id' = m.attempt id' := by
  simpa using Memory.attempt_put_add h (k := 0) (by simpa using hk) id'

theorem Memory.attempt_write (h : m.runs.lookup run'.id = some run)
    (hk : run'.attempt = run.attempt) (id' : String) :
    Memory.attempt { m with
      runs := m.runs.insert run'.id (Memory.keepLineage run run') } id' = m.attempt id' :=
  Memory.attempt_put_same h (by exact hk) id'

theorem Memory.attempt_create (h : m.runs.lookup run.id = none) (ha : run.attempt = 0)
    (key id' : String) : (m.storeRun run key).attempt id' = m.attempt id' := by
  have hput : (m.storeRun run key).attempt id'
      = Memory.attempt { m with runs := m.runs.insert run.id run } id' := rfl
  rw [hput, Memory.attempt_put]
  split
  · rename_i hid
    rw [hid, Memory.attempt, h, ha]
    rfl
  · rfl

theorem Memory.SameRuns.attempt {m' : Memory} (h : m.SameRuns m') (id : String) :
    m'.attempt id = m.attempt id := by
  rw [Memory.attempt, h.runs, Memory.attempt]

/-- Only an attempt counts up: the transitions from an exact view end the Run. -/
theorem View.Advance.attempt_eq (h : (View.exact run).Advance run') :
    run'.attempt = run.attempt := by
  cases h with
  | succeed output now h =>
      obtain ⟨-, rfl⟩ := Run.succeed_ok h
      rfl
  | fail cause now h =>
      obtain ⟨-, err, -, rfl⟩ := Run.fail_ok h
      rfl

end Counts

variable {s t : State}

theorem State.invoking_worked (s : State) (w : Nat) (pc : ExecPc) (e : Effect) :
    (s.worked w pc e).invoking = Function.update s.invoking w pc.invoking := by
  funext n
  by_cases hn : n = w
  · subst hn
    simp [State.invoking, State.worked]
  · simp [State.invoking, State.worked, hn]

/-- A write from an exact view of the Run keeps its counter. -/
theorem RunInv.attempt_accepted (h : RunInv s) {p : Party} {run existing run' : Run} {f : Int}
    (hp : s.hold p = some ⟨run.id, f, .exact run⟩) (hadv : (View.exact run).Advance run')
    (he : s.store.runs.lookup run'.id = some existing) (hc : existing.status ≠ .canceled)
    (hf : s.store.fence run'.id = f) : run'.attempt = existing.attempt := by
  have hid : run'.id = run.id := hadv.sameRequest.id
  rw [hid] at he hf
  rcases h.owned.current hp hf.symm he with hcan | ⟨-, hagree⟩
  · exact absurd hcan hc
  · obtain rfl : run = existing := hagree
    exact hadv.attempt_eq

theorem attemptStep_worked (h : RunInv s) {w : Nat} {pc : ExecPc} {e : Effect}
    (hmove : (s.workers w).Move s.store pc e) : AttemptStep s (s.worked w pc e) := by
  have hinvoking := s.invoking_worked w pc e
  have hstore : (s.worked w pc e).store = e.store := rfl
  have hsome : ∀ {l}, e.invocations = l → (s.worked w pc e).invocations = s.invocations ++ l :=
    fun hl => by rw [← hl]; rfl
  have hnone : e.invocations = [] → (s.worked w pc e).invocations = s.invocations :=
    fun hl => by simpa using hsome hl
  -- a worker that is not about to invoke the runtime afterwards
  have hframe : pc.invoking = none → ∀ n, (s.worked w pc e).invoking n = s.invoking n ∨
      (s.worked w pc e).invoking n = none := by
    intro hpc n
    rw [hinvoking, hpc]
    by_cases hn : n = w
    · subst hn
      exact .inr (by simp)
    · exact .inl (by simp [hn])
  cases hmove with
  | silent store invocations _ _ hafter =>
      exact .quiet (hnone invocations) rfl (fun id => by rw [hstore, store]) (hframe hafter)
  | claim _ store invocations =>
      obtain ⟨-, -, -, -, hm⟩ := Memory.claimRunExecution_ok store
      exact .quiet (hnone invocations) rfl (fun id => by rw [hstore, hm]; rfl) (hframe rfl)
  | reload _ _ store invocations =>
      exact .quiet (hnone invocations) rfl (fun id => by rw [hstore, store]) (hframe rfl)
  | enter _ _ _ store invocations =>
      exact .quiet (hnone invocations) rfl (fun id => by rw [hstore, store]) (hframe rfl)
  | @attempt run run' f now _ hpc hnext hwrite invocations =>
      have hp : s.hold (.worker w) = some ⟨run.id, f, .limited run⟩ := by
        simp [State.hold, hpc, ExecPc.hold]
      obtain ⟨-, -, hrunning, -, -, hreq⟩ := Run.nextAttempt_ok hnext
      obtain ⟨existing, he, hc, -, hf, hm⟩ := Memory.updateRunFenced_ok hwrite
      obtain ⟨hsucc, hkeep⟩ := h.accepted hp (.attempt now hnext) hreq.id he hc hf
      rw [hkeep] at hm
      -- the view of the holder is the stored record, so the stored counter goes up by one
      have hatt : run'.attempt = existing.attempt + 1 := by
        rcases hsucc.next with ⟨-, hatt⟩ | ⟨hterm, -⟩
        · exact hatt
        · exact absurd hterm (Run.IsActive.not_terminal (.inr hrunning))
      exact .attempt w run'.id (hnone invocations) rfl
        (fun id' => by rw [hstore, hm]; exact Memory.attempt_put_add he hatt id') hinvoking
  | @invoke run f _ hpc store invocations =>
      exact .invoke w run.id (hsome invocations) rfl (fun id => by rw [hstore, store])
        (by simp [State.invoking, hpc, ExecPc.invoking]) hinvoking
  | @finish _ run run' f _ hold _ hadv hwrite _ hstopped invocations =>
      obtain ⟨existing, he, hc, -, hf, hm⟩ := Memory.updateRunFenced_ok hwrite
      have hatt := h.attempt_accepted (p := .worker w) hold hadv he hc hf
      refine .quiet (hnone invocations) rfl ?_ (hframe hstopped)
      intro id'
      rw [hstore, hm]
      exact Memory.attempt_write he hatt id'

theorem attemptStep_handled (h : RunInv s) {n : Nat} {o : SubmitOracle} {pc : SubmitPc} {e : Effect}
    {created : Option (String × Run)} (hfresh : (s.submits n).fresh o s.store = true)
    (hmove : (s.submits n).Move o s.store pc e created) :
    AttemptStep s (s.handled n pc e created) := by
  have hstore : (s.handled n pc e created).store = e.store := rfl
  refine .quiet rfl rfl ?_ fun _ => .inl rfl
  intro id'
  cases hmove with
  | silent store => rw [hstore, store]
  | @create key run run' _ hdraft hcreate =>
      obtain ⟨hid, -, hattempt⟩ := hdraft.new
      have habs := (hdraft.fresh hfresh).2
      rw [← hid] at habs
      obtain ⟨hfalse, -⟩ | ⟨-, -, hm, p, r, rfl⟩ := Memory.createRun_ok hcreate
      · cases hfalse
      rw [hstore, hm]
      refine Memory.attempt_create ?_ ?_ key id'
      exacts [habs, hattempt]
  | @fail run run' cause _ hold hfail hupdate =>
      obtain ⟨existing, he, hc, hf, hm⟩ := Memory.updateRun_ok hupdate
      have hatt :=
        h.attempt_accepted (p := .request n) hold (.fail (some cause) o.now hfail) he hc hf
      rw [hstore, hm]
      exact Memory.attempt_write he hatt id'

theorem Memory.attempt_cancel {m m' : Memory} {id : String} {now : Time} {run : Run}
    (h : m.cancelRun id now = .ok (m', run)) (id' : String) : m'.attempt id' = m.attempt id' := by
  obtain ⟨existing, he, hc, rfl⟩ := Memory.cancelRun_ok h
  obtain ⟨-, hrun⟩ := Run.cancel_ok hc
  exact Memory.attempt_put_same he (by rw [hrun]) id'

theorem attemptStep_managed {c : Nat} {o : ManagerOracle} {pc : ManagerPc} {e : ManagerEffect}
    (hfresh : (s.managers c).fresh o s.store = true) (hmove : (s.managers c).Move o s.store e) :
    AttemptStep s (s.managed c pc e) := by
  have hstore : (s.managed c pc e).store = e.store := rfl
  refine .quiet rfl rfl ?_ fun _ => .inl rfl
  intro id'
  cases hmove with
  | silent runs => exact runs.attempt id'
  | cancel store => exact Memory.attempt_cancel store id'
  | @create candidate next input parentRunID step run hpc _ hcreate =>
      obtain ⟨hfalse, -⟩ | ⟨-, -, hm, p, r, rfl⟩ := Memory.createRun_ok hcreate
      · cases hfalse
      have hid : o.newID ≠ "" ∧ s.store.runs.lookup o.newID = none := by
        simpa [Manager.fresh, hpc] using hfresh
      rw [hstore, hm]
      exact Memory.attempt_create hid.2 rfl _ id'

theorem attemptStep_recover {id : String} {token : Int} (h : RunInv s)
    (hrecover : s.store.recoverRun id token = .ok (t.store, true))
    (hinvocations : t.invocations = s.invocations)
    (hrecoveries : t.recoveries = s.recoveries ++ [id])
    (hinvoking : t.invoking = s.invoking) : AttemptStep s t := by
  obtain ⟨hfalse, -⟩ | ⟨-, run, hrun, hs, hstore⟩ := Memory.recoverRun_ok hrecover
  · cases hfalse
  -- a running Run has counted an attempt, which the recovery takes back
  have hstarted := (h.ok.counted hrun).started hs
  have hatt : run.requeue.attempt = run.attempt + -1 := by
    simp only [Run.requeue, if_pos (show 0 < run.attempt by omega)]
    rfl
  refine .recover id hinvocations hrecoveries ?_ hinvoking
  intro id'
  have hput := Memory.attempt_put_add hrun hatt id'
  have hsame : t.store.attempt id'
      = Memory.attempt { s.store with runs := s.store.runs.insert id run.requeue } id' := by
    rw [hstore]
    rfl
  rw [hsame, hput]
  split <;> rfl

theorem attemptStep_of_step {a : Action} (h : RunInv s) (ha : step s a = some t) :
    AttemptStep s t := by
  cases systemMove_of_step ha with
  | other runs _ workers _ _ invocations recoveries =>
      refine .quiet invocations recoveries runs.attempt fun w => .inl ?_
      simp [State.invoking, workers]
  | @worker _ w worker pc =>
      refine .quiet rfl rfl (fun _ => rfl) ?_
      intro n
      by_cases hn : n = w
      · subst hn
        rcases pc with hpc | hpc
        · exact .inl (by simp [State.invoking, State.setWorker, hpc])
        · exact .inr (by simp [State.invoking, State.setWorker, hpc, ExecPc.invoking])
      · exact .inl (by simp [State.invoking, State.setWorker, hn])
  | worked _ act => exact attemptStep_worked h (Worker.execute_move act)
  | request => exact .quiet rfl rfl (fun _ => rfl) fun _ => .inl rfl
  | handled fresh move => exact attemptStep_handled h fresh move
  | called => exact .quiet rfl rfl (fun _ => rfl) fun _ => .inl rfl
  | managed fresh act => exact attemptStep_managed fresh (Manager.act_move act)
  | created create =>
      obtain ⟨-, -, rfl⟩ := Memory.createWorkflow_ok create
      exact .quiet rfl rfl (fun _ => rfl) fun _ => .inl rfl
  | canceled cancel => exact .quiet rfl rfl (Memory.attempt_cancel cancel) fun _ => .inl rfl
  | recovered _ recover => exact attemptStep_recover h recover rfl rfl rfl

/-! ### The count -/

/-- Invocations so far and workers about to invoke, against stored attempts and
recoveries. -/
def Counted (s : State) : Prop :=
  ∀ (id : String) (S : Finset Nat), (∀ w ∈ S, s.invoking w = some id) →
    (s.invocations.count id : Int) + S.card ≤ s.store.attempt id + s.recoveries.count id

theorem counted_init : Counted init := by
  intro id S hS
  have hempty : S = ∅ := Finset.eq_empty_of_forall_notMem fun w hw => by
    have := hS w hw
    simp [State.invoking, init, ExecPc.invoking] at this
  simp [hempty, init, Memory.attempt]

theorem counted_step (h : Counted s) (hst : AttemptStep s t) : Counted t := by
  intro id S hS
  cases hst with
  | quiet invocations recoveries attempt invoking =>
      rw [invocations, recoveries, attempt]
      apply h id S
      intro w hw
      rcases invoking w with hw' | hw'
      · rw [← hw', hS w hw]
      · simp [hS w hw] at hw'
  | attempt w id' invocations recoveries attempt invoking =>
      rw [invocations, recoveries, attempt]
      -- the other workers of `S` were about to invoke before
      have hrest := h id (S.erase w) fun n hn => by
        have hne := Finset.ne_of_mem_erase hn
        have := hS n (Finset.mem_of_mem_erase hn)
        simpa [invoking, hne] using this
      by_cases hw : w ∈ S
      · obtain rfl : id' = id := by
          have := hS w hw
          simpa [invoking] using this
        have hcard := Finset.card_erase_add_one hw
        simp only [if_pos]
        omega
      · rw [Finset.erase_eq_of_notMem hw] at hrest
        split <;> omega
  | invoke w id' invocations recoveries attempt before invoking =>
      rw [invocations, recoveries, attempt, List.count_append]
      have hw : w ∉ S := fun hw => by
        have := hS w hw
        simp [invoking] at this
      have hS' : ∀ n ∈ S, s.invoking n = some id := fun n hn => by
        have hne : n ≠ w := fun hnw => hw (hnw ▸ hn)
        have := hS n hn
        simpa [invoking, hne] using this
      by_cases hid : id' = id
      · -- the worker moves from the ones about to invoke to the invocations
        subst hid
        have := h id' (insert w S) fun n hn => by
          rcases Finset.mem_insert.mp hn with rfl | hn
          · exact before
          · exact hS' n hn
        rw [Finset.card_insert_of_notMem hw] at this
        simp only [List.count_singleton_self]
        push_cast at this ⊢
        omega
      · have := h id S hS'
        simp only [List.count_singleton, beq_iff_eq, hid, if_false]
        push_cast
        omega
  | recover id' invocations recoveries attempt invoking =>
      rw [invocations, recoveries, attempt, List.count_append]
      have := h id S fun w hw => by rw [← invoking, hS w hw]
      by_cases hid : id = id'
      · subst hid
        simp only [List.count_singleton_self, if_pos]
        push_cast
        omega
      · rw [if_neg hid]
        push_cast
        omega

/-- **Bounded invocations.**  The runtime is invoked for a Run at most as often as
its attempt limit and the recoveries of the Run allow, and the stored attempt
counter stays within the limit. -/
theorem invocations_bounded {id : String} {run : Run} (hs : Reachable s)
    (hrun : s.store.runs.lookup id = some run) (hmax : 1 ≤ run.maxAttempts) :
    (s.invocations.count id : Int) ≤ run.maxAttempts + s.recoveries.count id ∧
      run.attempt ≤ run.maxAttempts := by
  have hinv : RunInv s ∧ Counted s :=
    hs.invariant (I := fun s => RunInv s ∧ Counted s) ⟨runInv_init, counted_init⟩ fun hu _ ha =>
      ⟨(hu.1.step ha).1, counted_step hu.2 (attemptStep_of_step hu.1 ha)⟩
  have hbound := (hinv.1.ok.counted hrun).bounded hmax
  have hcount := hinv.2 id ∅ (by simp)
  rw [Memory.attempt_eq hrun] at hcount
  simp only [Finset.card_empty] at hcount
  refine ⟨?_, hbound⟩
  push_cast at hcount
  omega

/-- The bound is reached: a Run with one attempt is invoked, recovered while it
runs, and invoked again. -/
theorem invocations_bounded_recovered :
    ∃ s run, Reachable s ∧ s.store.runs.lookup "run_1" = some run ∧ run.maxAttempts = 1 ∧
      s.invocations.count "run_1" = 2 ∧ s.recoveries.count "run_1" = 1 ∧
      (s.invocations.count "run_1" : Int) ≤ run.maxAttempts + s.recoveries.count "run_1" := by
  obtain ⟨s, hs, hmax, hinvoked, hrecovered⟩ :
      ∃ s, exec step init (submitRun 1 ++ workOn 0 9 {} ++ [.recoverRun "run_1" 0] ++ workOn 1 9 {})
          = some s ∧
        (s.store.runs.lookup "run_1").map Run.maxAttempts = some 1 ∧
        s.invocations.count "run_1" = 2 ∧ s.recoveries.count "run_1" = 1 := by
    refine exists_of_any ?_
    decide +kernel
  obtain ⟨run, hrun, hone⟩ := Option.map_eq_some_iff.mp hmax
  have hreach : Reachable s := runs_exec (fun _ _ => trivial) hs
  exact ⟨s, run, hreach, hrun, hone, hinvoked, hrecovered,
    (invocations_bounded hreach hrun hone.ge).1⟩

end AgentMesh
