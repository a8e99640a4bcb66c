/-
AgentMesh/Records.lean

The fields of a stored Run agree with its status.

A record is written by many hands: the request that creates the Run and fails
it when the queue refuses it, executions that store their own copy of it, a
cancellation, and a recovery that edits single fields.  `Run.Write` names the
writes once.  `RunInv.record` says that a step of the system leaves a record
as it is, creates it, or makes one of these writes to it; what holds of new
Runs and survives every write therefore holds of every stored Run, in any
interleaving.  `Run.WellFormed` is such a property.

No step looks at the order of the times that it is given, and neither does
anything here: the clock may stand still or go backwards.
-/
import AgentMesh.RunSafety

namespace AgentMesh

open Machine

/-! ### Writes -/

/-- A Run as it is created: nothing has happened to it yet. -/
structure Run.IsNew (run : Run) : Prop where
  status : run.status = .queued
  startedAt : run.startedAt = none
  completedAt : run.completedAt = none
  output : run.output = ""
  error : run.error = ""
  durationMS : run.durationMS = 0

/-- What a stored record can be replaced with. -/
inductive Run.Write (run : Run) : Run → Prop
  /-- A holder stores its copy, which it has moved on. -/
  | advance {view : View} {run' : Run} (agrees : view.Agrees run) (advance : view.Advance run') :
      Write run run'
  | cancel {run' : Run} (now : Time) (cancel : run.cancel now = .ok run') : Write run run'
  | requeue (running : run.status = .running) : Write run run.requeue

theorem Submit.Drafts.isNew {h : Submit} {o : SubmitOracle} {key : String} {run : Run}
    (hd : h.Drafts o key run) : run.IsNew := by
  cases hd with
  | run _ attach =>
      obtain ⟨p, r, rfl⟩ := attachParent_ok attach
      exact ⟨rfl, rfl, rfl, rfl, rfl, rfl⟩
  | child _ attach =>
      obtain ⟨p, r, rfl⟩ := Run.attachTo_ok attach
      exact ⟨rfl, rfl, rfl, rfl, rfl, rfl⟩

/-- Where a record of the store `m'` comes from, if the store was `m` before. -/
structure Memory.Origin (m m' : Memory) : Prop where
  record : ∀ {id : String} {run' : Run}, m'.runs.lookup id = some run' →
    m.runs.lookup id = some run' ∨ run'.IsNew ∨
      ∃ run, m.runs.lookup id = some run ∧ run.Write run'

section Origins

variable {m m' : Memory} {id key : String} {run run' : Run}

theorem Memory.Origin.of_runs_eq (h : m'.runs = m.runs) : m.Origin m' := by
  refine ⟨fun hrun' => ?_⟩
  rw [h] at hrun'
  exact .inl hrun'

theorem Memory.Origin.put (hrun : m.runs.lookup id = some run) (hw : run.Write run')
    (h : m'.runs = m.runs.insert id run') : m.Origin m' := by
  refine ⟨fun hr => ?_⟩
  rw [h, Table.lookup_insert_eq] at hr
  split at hr
  · rename_i hid
    obtain rfl := Option.some.inj hr
    exact .inr (.inr ⟨run, hid ▸ hrun, hw⟩)
  · exact .inl hr

theorem Memory.Origin.create {isNew : Bool} (hnew : run.IsNew)
    (h : m.createRun run key = .ok (m', run', isNew)) : m.Origin m' := by
  obtain ⟨-, rfl, -⟩ | ⟨-, -, hm', p, r, rfl⟩ := Memory.createRun_ok h
  · exact .of_runs_eq rfl
  · refine ⟨fun hr' => ?_⟩
    rw [hm', Memory.storeRun, Table.lookup_insert_eq] at hr'
    split at hr'
    · obtain rfl := Option.some.inj hr'
      -- the store may have replaced the lineage, and nothing else
      exact .inr (.inl ⟨hnew.status, hnew.startedAt, hnew.completedAt, hnew.output, hnew.error,
        hnew.durationMS⟩)
    · exact .inl hr'

theorem Memory.Origin.cancel {now : Time} (h : m.cancelRun id now = .ok (m', run)) :
    m.Origin m' := by
  obtain ⟨existing, he, hc, rfl⟩ := Memory.cancelRun_ok h
  exact .put he (.cancel now hc) rfl

theorem Memory.Origin.recover {token : Int} {recovered : Bool}
    (h : m.recoverRun id token = .ok (m', recovered)) : m.Origin m' := by
  obtain ⟨-, rfl⟩ | ⟨-, existing, he, hs, rfl⟩ := Memory.recoverRun_ok h
  · exact .of_runs_eq rfl
  · exact .put he (.requeue hs) rfl

end Origins

/-! ### Steps -/

section Steps

variable {s t : State}

/-- A write that the store accepts from a holder: the copy of the holder agrees
with the record that it replaces. -/
theorem RunInv.origin_write (h : RunInv s) {p : Party} {v run run' : Run} {view : View} {f : Int}
    {m' : Memory} (hp : s.hold p = some ⟨v.id, f, view⟩) (hadv : view.Advance run')
    (hid : run'.id = v.id) (hrun : s.store.runs.lookup run'.id = some run)
    (hc : run.status ≠ .canceled) (hf : s.store.fence run'.id = f)
    (hm : m'.runs = s.store.runs.insert run'.id (Memory.keepLineage run run')) :
    s.store.Origin m' := by
  obtain ⟨-, hkeep⟩ := h.accepted hp hadv hid hrun hc hf
  rw [hkeep] at hm
  refine .put hrun ?_ hm
  rw [hid] at hrun hf
  rcases h.owned.current hp hf.symm hrun with hcanceled | ⟨-, hagrees⟩
  · exact absurd hcanceled hc
  · exact .advance hagrees hadv

theorem RunInv.origin_worked (h : RunInv s) {w : Nat} {pc : ExecPc} {e : Effect}
    (hmove : (s.workers w).Move s.store pc e) : s.store.Origin e.store := by
  cases hmove with
  | silent store | reload _ _ store | enter _ _ _ store | invoke _ store =>
      exact .of_runs_eq (congrArg Memory.runs store)
  | claim _ hclaim =>
      obtain ⟨existing, -, -, -, hm⟩ := Memory.claimRunExecution_ok hclaim
      exact .of_runs_eq (by rw [hm])
  | @attempt run run' f now _ hpc hnext hwrite =>
      have hp : s.hold (.worker w) = some ⟨run.id, f, .limited run⟩ := by
        simp [State.hold, hpc, ExecPc.hold]
      obtain ⟨-, -, -, -, -, hreq⟩ := Run.nextAttempt_ok hnext
      obtain ⟨existing, he, hc, -, hf, hm⟩ := Memory.updateRunFenced_ok hwrite
      exact h.origin_write hp (.attempt now hnext) hreq.id he hc hf
        (congrArg Memory.runs hm)
  | @finish _ run run' f _ hold _ hadv hwrite =>
      obtain ⟨existing, he, hc, -, hf, hm⟩ := Memory.updateRunFenced_ok hwrite
      exact h.origin_write (p := .worker w) hold hadv hadv.sameRequest.id he hc hf
        (congrArg Memory.runs hm)

theorem RunInv.origin_handled (h : RunInv s) {n : Nat} {o : SubmitOracle} {pc : SubmitPc}
    {e : Effect} {created : Option (String × Run)}
    (hmove : (s.submits n).Move o s.store pc e created) : s.store.Origin e.store := by
  cases hmove with
  | silent store => exact .of_runs_eq (congrArg Memory.runs store)
  | create draft store => exact .create draft.isNew store
  | @fail run run' cause _ hold hfail hupdate =>
      have hadv : (View.exact run).Advance run' := .fail (some cause) o.now hfail
      obtain ⟨existing, he, hc, hf, hm⟩ := Memory.updateRun_ok hupdate
      exact h.origin_write (p := .request n) hold hadv hadv.sameRequest.id he hc hf
        (congrArg Memory.runs hm)

/-- A step leaves a record alone, creates it, or makes one of the writes to it. -/
theorem RunInv.record {a : Action} (h : RunInv s) (ha : AgentMesh.step s a = some t) :
    s.store.Origin t.store := by
  cases systemMove_of_step ha with
  | other runs => exact .of_runs_eq runs.runs
  | worker | request | called => exact .of_runs_eq rfl
  | worked _ act => exact h.origin_worked (Worker.execute_move act)
  | handled _ move => exact h.origin_handled move
  | managed _ act =>
      cases Manager.act_move act with
      | silent runs => exact .of_runs_eq runs.runs
      | cancel store => exact .cancel store
      | create _ _ store => exact .create ⟨rfl, rfl, rfl, rfl, rfl, rfl⟩ store
  | created create =>
      obtain ⟨-, -, rfl⟩ := Memory.createWorkflow_ok create
      exact .of_runs_eq rfl
  | canceled cancel => exact .cancel cancel
  | recovered _ recover => exact .recover recover

/-- The rule for properties of single records: new Runs have it, and every write to a
well counted record keeps it. -/
theorem runs_records {P : Run → Prop} (hnew : ∀ {run}, run.IsNew → P run)
    (hwrite : ∀ {run run'}, run.WellCounted → P run → run.Write run' → P run')
    (hs : Reachable s) {id : String} {run : Run} (hrun : s.store.runs.lookup id = some run) :
    P run := by
  have hinv : RunInv s ∧ ∀ {id run}, s.store.runs.lookup id = some run → P run := by
    refine hs.invariant (I := fun s => RunInv s ∧
      ∀ {id run}, s.store.runs.lookup id = some run → P run) ⟨runInv_init, ?_⟩ ?_
    · intro id run hrun
      simp [init] at hrun
    · rintro s t a ⟨hi, hP⟩ - ha
      refine ⟨(hi.step ha).1, ?_⟩
      intro id run' hrun'
      rcases (hi.record ha).record hrun' with hsame | hn | ⟨run, hrun, hw⟩
      · exact hP hsame
      · exact hnew hn
      · exact hwrite (hi.ok.counted hrun) (hP hrun) hw
  exact hinv.2 hrun

end Steps

/-! ### Well-formed records -/

/-- The fields of a Run agree with its status. -/
structure Run.WellFormed (run : Run) : Prop where
  queued : run.status = .queued → run.startedAt = none ∧ run.completedAt = none
  running : run.status = .running →
    run.startedAt.isSome ∧ run.completedAt = none ∧ 1 ≤ run.attempt
  completed : run.completedAt.isSome ↔ run.IsTerminal
  output : run.status ≠ .succeeded → run.output = ""
  error : run.status ≠ .failed → run.error = ""
  duration : 0 ≤ run.durationMS
  elapsed : run.IsActive → run.durationMS = 0

section Records

variable {run run' : Run} {now : Time}

/-- A completion before the start counts as no time at all. -/
theorem Run.durationMilliseconds_nonneg (run : Run) (completedAt : Time) :
    0 ≤ run.durationMilliseconds completedAt := by
  rw [Run.durationMilliseconds]
  split
  · exact le_refl 0
  · rename_i h
    have hmax : (0 : Int) ≤ maxDuration := by decide
    have hsub := sub_nonneg.mpr (not_lt.mp (not_or.mp h).2)
    exact Int.ediv_nonneg (le_min hsub hmax) (by decide)

theorem Run.IsNew.wellFormed (h : run.IsNew) : run.WellFormed where
  queued _ := ⟨h.startedAt, h.completedAt⟩
  running hs := by simp [h.status] at hs
  completed := by simp [h.completedAt, Run.IsTerminal, h.status]
  output _ := h.output
  error _ := h.error
  duration := h.durationMS.ge
  elapsed _ := h.durationMS

/-- A Run that has ended: its completion and its duration are set together. -/
theorem Run.WellFormed.of_ended (hterm : run'.IsTerminal) (hat : run'.completedAt = some now)
    (hms : run'.durationMS = run.durationMilliseconds now)
    (hout : run'.status ≠ .succeeded → run'.output = "")
    (herr : run'.status ≠ .failed → run'.error = "") : run'.WellFormed where
  queued hs := by simp [Run.IsTerminal, hs] at hterm
  running hs := by simp [Run.IsTerminal, hs] at hterm
  completed := by simp [hat, hterm]
  output := hout
  error := herr
  duration := hms ▸ run.durationMilliseconds_nonneg now
  elapsed hact := absurd hterm hact.not_terminal

/-- A Run that an attempt starts on. -/
theorem Run.WellFormed.attempted (h : run.WellFormed) (hnonneg : 0 ≤ run.attempt)
    (hn : run.nextAttempt now = .ok run') : run'.WellFormed := by
  rw [Run.nextAttempt] at hn
  split at hn
  · obtain ⟨hs, -, rfl⟩ := Run.start_ok hn
    obtain ⟨-, hnone⟩ := h.queued hs
    exact
      { queued := fun hq => by simp at hq
        running := fun _ => ⟨rfl, hnone, by simp; omega⟩
        completed := by simp [hnone, Run.IsTerminal]
        output := fun _ => h.output (by simp [hs])
        error := fun _ => h.error (by simp [hs])
        duration := h.duration
        elapsed := fun _ => h.elapsed (.inl hs) }
  · obtain ⟨hs, -, rfl⟩ := Run.retry_ok hn
    obtain ⟨hstarted, hnone, -⟩ := h.running hs
    exact
      { queued := fun hq => by simp [hs] at hq
        running := fun _ => ⟨hstarted, hnone, by simp; omega⟩
        completed := h.completed
        output := h.output
        error := h.error
        duration := h.duration
        elapsed := h.elapsed }

/-- The form of a record does not depend on its attempt limit. -/
theorem Run.WellFormed.withMaxAttempts (h : run.WellFormed) (limit : Int) :
    Run.WellFormed { run with maxAttempts := limit } where
  queued := h.queued
  running := h.running
  completed := h.completed
  output := h.output
  error := h.error
  duration := h.duration
  elapsed := h.elapsed

theorem Run.WellFormed.requeue (h : run.WellFormed) (hs : run.status = .running) :
    run.requeue.WellFormed := by
  obtain ⟨-, hnone, -⟩ := h.running hs
  exact
    { queued := fun _ => ⟨rfl, hnone⟩
      running := fun hr => by simp [Run.requeue] at hr
      completed := by simp [Run.requeue, hnone, Run.IsTerminal]
      output := fun _ => h.output (by simp [hs])
      error := fun _ => h.error (by simp [hs])
      duration := le_refl 0
      elapsed := fun _ => rfl }

theorem Run.WellFormed.write (h : run.WellFormed) (hc : run.WellCounted) (hw : run.Write run') :
    run'.WellFormed := by
  cases hw with
  | requeue hs => exact h.requeue hs
  | cancel now hcancel =>
      obtain ⟨-, rfl⟩ := Run.cancel_ok hcancel
      exact Run.WellFormed.of_ended (.inr (.inr rfl)) rfl rfl (fun _ => rfl) fun _ => rfl
  | advance agrees advance =>
      cases advance with
      | @attempt v _ now hnext =>
          -- the holder may have filled in a missing attempt limit
          obtain ⟨heq, -⟩ : v.LimitOf run := agrees
          have hv : v.WellFormed := by
            rw [heq]
            exact h.withMaxAttempts v.maxAttempts
          have hattempt : v.attempt = run.attempt := by rw [heq]
          exact hv.attempted (hattempt ▸ hc.nonneg) hnext
      | @succeed v _ output now hs =>
          obtain rfl : v = run := agrees
          obtain ⟨-, rfl⟩ := Run.succeed_ok hs
          exact Run.WellFormed.of_ended (.inl rfl) rfl rfl (fun hne => absurd rfl hne) fun _ => rfl
      | @fail v _ cause now hf =>
          obtain rfl : v = run := agrees
          obtain ⟨-, err, -, rfl⟩ := Run.fail_ok hf
          exact Run.WellFormed.of_ended (.inr (.inl rfl)) rfl rfl (fun _ => rfl)
            fun hne => absurd rfl hne

end Records

/-- **Run records are well formed.**  In every state that the system reaches, under any
interleaving of its calls and with any clock, the fields of every stored Run agree with its
status. -/
theorem records_wellFormed {s : State} (hs : Reachable s) {id : String} {run : Run}
    (hrun : s.store.runs.lookup id = some run) : run.WellFormed :=
  runs_records Run.IsNew.wellFormed (fun hc h hw => h.write hc hw) hs hrun

/-- A Run that is recovered from its first execution, and succeeds in its second one by a
clock that has been set back. -/
theorem records_wellFormed_recovered :
    ∃ s run, Reachable s ∧ s.recoveries = ["run_1"] ∧
      s.store.runs.lookup "run_1" = some run ∧ run.status = .succeeded ∧
      run.completedAt = some (-20) ∧ run.WellFormed := by
  obtain ⟨s, hs, hrecovered, hrun⟩ :
      ∃ s, exec step init (submitRun 3 ++ workOn 0 8 { now := 5 } ++ [.recoverRun "run_1" 9] ++
          workOn 1 15 { now := -20, returned := ⟨.ok "done", false⟩ }) = some s ∧
        s.recoveries = ["run_1"] ∧
        (s.store.runs.lookup "run_1").map (fun run => (run.status, run.completedAt))
          = some (.succeeded, some (-20)) := by
    refine exists_of_any ?_
    decide +kernel
  obtain ⟨run, hlookup, hfields⟩ := Option.map_eq_some_iff.mp hrun
  obtain ⟨hstatus, hat⟩ := Prod.mk.inj hfields
  have hreach : Reachable s := runs_exec (fun _ _ => trivial) hs
  exact ⟨s, run, hreach, hrecovered, hlookup, hstatus, hat, records_wellFormed hreach hlookup⟩

end AgentMesh
