/-
AgentMesh/Visibility.lean

Cancellation as the readers of the cache see it.

A method of `Cached` writes to the cache after its repository call, and another
call can go between the two.  A `GetRun` that read a queued Run may write it
back when the Run has been canceled and the caller of `CancelRun` has its
answer; from then on the cache answers with the queued Run
(`late_set_hides_cancel`).

As long as no call writes an uncanceled record of a Run that the repository has
as canceled, a `GetRun` that starts after a successful `CancelRun` has returned
finds the Run canceled (`cancel_visible`).
-/
import AgentMesh.Cached

namespace AgentMesh

open Machine

/-! ### What the repository does -/

/-- Every Run is stored under its own ID, and no ID is empty. -/
structure Memory.Named (m : Memory) : Prop where
  id : ∀ {id run}, m.runs.lookup id = some run → run.id = id
  ne : ∀ {id run}, m.runs.lookup id = some run → id ≠ ""

def Memory.isCanceled (m : Memory) (id : String) : Bool :=
  (m.runs.lookup id).any fun run => run.status = .canceled

/-- What a method may do to the stored Runs: store one under its ID, where no canceled Run is. -/
inductive Memory.Puts (m m' : Memory) : Prop
  | same (hruns : m'.runs = m.runs)
  | put {run : Run} (hid : run.id ≠ "") (hopen : m.isCanceled run.id = false)
      (hruns : m'.runs = m.runs.insert run.id run)

section Repository

variable {m m' : Memory} {id key : String} {run : Run} {op : RunOp}

theorem Memory.isCanceled_of_lookup (h : m.runs.lookup id = some run) :
    m.isCanceled id = decide (run.status = .canceled) := by
  rw [Memory.isCanceled, h, Option.any_some]

theorem Memory.isCanceled_eq_true :
    m.isCanceled id = true ↔ ∃ run, m.runs.lookup id = some run ∧ run.status = .canceled := by
  simp [Memory.isCanceled, Option.any_eq_true]

theorem Memory.Puts.named (h : m.Puts m') (hm : m.Named) : m'.Named := by
  cases h with
  | same hruns => exact ⟨by rw [hruns]; exact hm.id, by rw [hruns]; exact hm.ne⟩
  | put hid _ hruns =>
      constructor
      · rw [hruns]
        exact Table.of_lookup_insert (P := fun id (run : Run) => run.id = id) rfl hm.id
      · rw [hruns]
        exact Table.of_lookup_insert (P := fun id (_ : Run) => id ≠ "") hid hm.ne

/-- A canceled Run stays canceled. -/
theorem Memory.Puts.isCanceled (h : m.Puts m') (hc : m.isCanceled id = true) :
    m'.isCanceled id = true := by
  cases h with
  | same hruns => rwa [Memory.isCanceled, hruns]
  | @put run _ hopen hruns =>
      have hne : id ≠ run.id := by
        rintro rfl
        rw [hopen] at hc
        cases hc
      rw [Memory.isCanceled, hruns, AList.lookup_insert_ne hne]
      exact hc

theorem Memory.createRun_puts {isNew : Bool} (hid : run.id ≠ "") (hnew : m.runs.lookup run.id = none)
    {run' : Run} (h : m.createRun run key = .ok (m', run', isNew)) : m.Puts m' := by
  rcases Memory.createRun_ok h with ⟨-, rfl, -⟩ | ⟨-, -, rfl, parent, root, hrun⟩
  · exact .same rfl
  · have hsame : run'.id = run.id := by rw [hrun]
    have hruns : (m.storeRun run' key).runs = m.runs.insert run'.id run' := rfl
    rw [← hsame] at hid hnew
    refine .put hid ?_ hruns
    rw [Memory.isCanceled, hnew]
    rfl

/-- An update of a Run that is not canceled. -/
theorem Memory.puts_update (hm : m.Named) (updated : Run) {existing : Run}
    (hlookup : m.runs.lookup updated.id = some existing) (hs : existing.status ≠ .canceled)
    (hruns : m'.runs = m.runs.insert updated.id updated) : m.Puts m' := by
  refine .put (hm.ne hlookup) ?_ hruns
  rw [Memory.isCanceled_of_lookup hlookup]
  exact decide_eq_false hs

theorem RunOp.perform_puts (hm : m.Named) (hfresh : op.fresh m = true) :
    m.Puts (op.perform m).store := by
  cases op with
  | getRun id =>
      rw [RunOp.perform, Cached.getRun]
      split <;> exact .same rfl
  | createRun run key =>
      simp only [RunOp.fresh, Bool.and_eq_true, decide_eq_true_eq, Option.isNone_iff_eq_none] at hfresh
      rw [RunOp.perform, Cached.createRun]
      rcases h : m.createRun run key with err | ⟨m', created, isNew⟩
      · exact .same rfl
      · exact Memory.createRun_puts hfresh.1 hfresh.2 h
  | createChildRun run key maxChildren =>
      simp only [RunOp.fresh, Bool.and_eq_true, decide_eq_true_eq, Option.isNone_iff_eq_none] at hfresh
      rw [RunOp.perform, Cached.createChildRun]
      rcases h : m.createChildRun run key maxChildren with err | ⟨m', created, isNew⟩
      · exact .same rfl
      · exact Memory.createRun_puts hfresh.1 hfresh.2 (Memory.createChildRun_ok h)
  | updateRun run =>
      rw [RunOp.perform, Cached.updateRun]
      rcases h : m.updateRun run with err | m'
      · exact .same rfl
      · obtain ⟨existing, hlookup, hs, -, rfl⟩ := Memory.updateRun_ok h
        exact Memory.puts_update hm (Memory.keepLineage existing run) hlookup hs rfl
  | claimRunExecution id minimumFence =>
      rw [RunOp.perform, Cached.claimRunExecution]
      rcases h : m.claimRunExecution id minimumFence with err | ⟨m', fence⟩
      · exact .same rfl
      · obtain ⟨-, -, -, -, rfl⟩ := Memory.claimRunExecution_ok h
        exact .same rfl
  | updateRunFenced run fence =>
      rw [RunOp.perform, Cached.updateRunFenced]
      rcases h : m.updateRunFenced run fence with err | m'
      · exact .same rfl
      · obtain ⟨existing, hlookup, hs, -, -, rfl⟩ := Memory.updateRunFenced_ok h
        exact Memory.puts_update hm (Memory.keepLineage existing run) hlookup hs rfl
  | cancelRun id at_ =>
      rw [RunOp.perform, Cached.cancelRun]
      rcases h : m.cancelRun id at_ with err | ⟨m', run⟩
      · exact .same rfl
      · obtain ⟨existing, hlookup, hcancel, rfl⟩ := Memory.cancelRun_ok h
        obtain ⟨hactive, hrun⟩ := Run.cancel_ok hcancel
        have hid : run.id = id := by rw [hrun, ← hm.id hlookup]
        subst hid
        exact Memory.puts_update hm run hlookup (by rcases hactive with hs | hs <;> simp [hs]) rfl
  | recoverRun id minimumFence =>
      rw [RunOp.perform, Cached.recoverRun]
      rcases h : m.recoverRun id minimumFence with err | ⟨m', recovered⟩
      · exact .same rfl
      · rcases Memory.recoverRun_ok h with ⟨-, rfl⟩ | ⟨-, existing, hlookup, hs, rfl⟩
        · exact .same rfl
        · obtain rfl := hm.id hlookup
          exact Memory.puts_update hm existing.requeue hlookup (by simp [hs]) rfl

/-- A successful cancellation leaves the Run canceled, and is written to the cache. -/
theorem Cached.cancelRun_ok (hm : m.Named) {now : Time}
    (h : (Cached.cancelRun m id now).result = .canceled run none) :
    (Cached.cancelRun m id now).store.isCanceled id = true ∧ run.status = .canceled ∧
      (Cached.cancelRun m id now).write = some (.set id run) := by
  rw [Cached.cancelRun] at h ⊢
  rcases hc : m.cancelRun id now with err | ⟨m', run'⟩
  · simp [hc] at h
  · obtain ⟨existing, hlookup, hcancel, rfl⟩ := Memory.cancelRun_ok hc
    obtain ⟨-, rfl⟩ := Run.cancel_ok hcancel
    simp only [hc, OpResult.canceled.injEq, and_true] at h
    subst h
    obtain rfl := hm.id hlookup
    refine ⟨?_, rfl, if_pos (hm.ne hlookup)⟩
    exact Memory.isCanceled_eq_true.mpr ⟨_, AList.lookup_insert _, rfl⟩

theorem Cached.getRun_result (h : (Cached.getRun m id).result = .got (.ok run)) :
    m.runs.lookup id = some run := by
  rw [Cached.getRun] at h
  split at h
  · cases h
  · rename_i run' hrun
    cases h
    exact Memory.getRun_ok.mp hrun

end Repository

/-! ### The invariant -/

/-- The action writes to the cache an uncanceled record of a Run that the repository has as
canceled. -/
def staleWrite (s : CacheState) : CacheAction → Bool
  | .act c =>
      match s.calls c with
      | some { pc := .write (.set id run) _, .. } => run.status ≠ .canceled && s.store.isCanceled id
      | _ => false
  | _ => false

/-- A call over a repository, where the given cancellations have been reported. -/
structure CallOk (m : Memory) (reported : List String) (call : Call) : Prop where
  known : call.known ⊆ reported
  got : ∀ {id run}, call.op = .getRun id → call.pc.result = some (.got (.ok run)) →
    id ∈ call.known → run.status = .canceled
  canceled : ∀ {id at_ run}, call.op = .cancelRun id at_ →
    call.pc.result = some (.canceled run none) → m.isCanceled id = true
  writes : ∀ {id at_ w run}, call.op = .cancelRun id at_ →
    call.pc = .write w (.canceled run none) → w = .set id run ∧ run.status = .canceled

structure VisibleInv (s : CacheState) : Prop where
  named : s.store.Named
  stored : ∀ id ∈ s.canceled, s.store.isCanceled id = true
  cached : ∀ id ∈ s.canceled, ∀ run, s.cache.lookup (runKey id) = some run →
    run.status = .canceled
  calls : ∀ {c call}, s.calls c = some call → CallOk s.store s.canceled call

section Steps

variable {s t : CacheState} {call : Call} {c : Nat}

theorem CallOk.mono {m m' : Memory} {reported reported' : List String} (h : CallOk m reported call)
    (hm : ∀ {id}, m.isCanceled id = true → m'.isCanceled id = true)
    (hreported : reported ⊆ reported') : CallOk m' reported' call where
  known := List.Subset.trans h.known hreported
  got := h.got
  canceled hop hresult := hm (h.canceled hop hresult)
  writes := h.writes

/-- A step that reports the end of a call, or nothing: the other calls keep what they know. -/
theorem VisibleInv.setCall {store : Memory} {cache : Table Run} (h : VisibleInv s)
    (hnamed : store.Named) (hstore : ∀ {id}, s.store.isCanceled id = true → store.isCanceled id = true)
    (hcall : CallOk store (call.reports ++ s.canceled) call)
    (hstored : ∀ id ∈ call.reports, store.isCanceled id = true)
    (hcached : ∀ id ∈ call.reports ++ s.canceled, ∀ run, cache.lookup (runKey id) = some run →
      run.status = .canceled) :
    VisibleInv ({ s with store := store, cache := cache }.setCall c call) := by
  refine ⟨hnamed, ?_, hcached, ?_⟩
  · intro id hid
    rcases List.mem_append.mp hid with hid | hid
    · exact hstored id hid
    · exact hstore (h.stored id hid)
  · intro c' call' hcall'
    simp only [CacheState.setCall, Function.update_apply] at hcall'
    split at hcall'
    · obtain rfl := Option.some.inj hcall'
      exact hcall
    · exact (h.calls hcall').mono hstore (List.subset_append_right _ _)

/-- The same where the call reports nothing and the cache is left alone. -/
theorem VisibleInv.setCall_silent {store : Memory} (h : VisibleInv s) (hnamed : store.Named)
    (hstore : ∀ {id}, s.store.isCanceled id = true → store.isCanceled id = true)
    (hsilent : call.reports = []) (hcall : CallOk store s.canceled call) :
    VisibleInv ({ s with store := store, cache := s.cache }.setCall c call) := by
  refine h.setCall hnamed hstore ?_ ?_ ?_
  · rwa [hsilent]
  · simp [hsilent]
  · rw [hsilent]
    exact h.cached

/-- A call that has no result yet. -/
theorem VisibleInv.setCall_waiting (h : VisibleInv s) (hknown : call.known ⊆ s.canceled)
    (hpc : call.pc.result = none) : VisibleInv (s.setCall c call) := by
  refine h.setCall_silent h.named (fun hc => hc) ?_ ⟨hknown, ?_, ?_, ?_⟩
  · rw [List.eq_nil_iff_forall_not_mem]
    intro id hid
    obtain ⟨at_, run, -, hdone⟩ := Call.of_mem_reports hid
    simp [hdone, CallPc.result] at hpc
  · intro id run _ hr
    simp [hpc] at hr
  · intro id at_ run _ hr
    simp [hpc] at hr
  · intro id at_ w run _ hw
    simp [hw, CallPc.result] at hpc

theorem VisibleInv.perform (h : VisibleInv s) (hcall : s.calls c = some call)
    {store : Memory} {cache : Table Run} {pc : CallPc}
    (hperform : s.perform call.op = some (store, cache, pc)) :
    VisibleInv ({ s with store := store, cache := cache }.setCall c { call with pc := pc }) := by
  rw [CacheState.perform] at hperform
  split at hperform
  case isFalse => cases hperform
  case isTrue hfresh =>
    have hputs := RunOp.perform_puts h.named hfresh
    simp only [Option.some.injEq, Prod.mk.injEq] at hperform
    obtain ⟨rfl, rfl, hpc⟩ := hperform
    -- the result that the call now has is that of the repository
    have hresult : ∀ {r}, pc.result = some r → (call.op.perform s.store).result = r := by
      intro r hr
      rw [← hpc] at hr
      split at hr <;> exact Option.some.inj hr
    have hcancel : ∀ {id at_ run}, call.op = .cancelRun id at_ →
        pc.result = some (.canceled run none) →
        (call.op.perform s.store).store.isCanceled id = true ∧
          pc = .write (.set id run) (.canceled run none) ∧ run.status = .canceled := by
      intro id at_ run hop hr
      have hr' := hresult hr
      rw [hop] at hr' ⊢
      obtain ⟨hstored, hstatus, hwrite⟩ := Cached.cancelRun_ok h.named hr'
      refine ⟨hstored, ?_, hstatus⟩
      have hwrite' : (RunOp.perform s.store (.cancelRun id at_)).write = some (.set id run) := hwrite
      rw [← hpc, hop, hwrite', hr']
    refine h.setCall_silent (hputs.named h.named) hputs.isCanceled ?_ ⟨?_, ?_, ?_, ?_⟩
    · rw [List.eq_nil_iff_forall_not_mem]
      intro id hid
      obtain ⟨at_, run, hop, hdone⟩ := Call.of_mem_reports hid
      obtain ⟨-, hwrite, -⟩ := hcancel hop (congrArg CallPc.result hdone)
      cases hdone.symm.trans hwrite
    · exact (h.calls hcall).known
    · intro id run hop hr hknown
      have hr' := hresult hr
      rw [show call.op = .getRun id from hop] at hr'
      have hstored := h.stored id ((h.calls hcall).known hknown)
      rw [Memory.isCanceled_of_lookup (Cached.getRun_result hr')] at hstored
      exact of_decide_eq_true hstored
    · intro id at_ run hop hr
      exact (hcancel hop hr).1
    · intro id at_ w run hop hw
      obtain ⟨-, hwrite, hstatus⟩ := hcancel hop (congrArg CallPc.result hw)
      cases hw.symm.trans hwrite
      exact ⟨rfl, hstatus⟩

/-- A write to the cache that is not stale, by which the call ends. -/
theorem VisibleInv.write (h : VisibleInv s) (hcall : s.calls c = some call) {w : CacheWrite}
    {result : OpResult} (hpc : call.pc = .write w result)
    (hfresh : ∀ {id run}, w = .set id run → s.store.isCanceled id = true → run.status = .canceled) :
    VisibleInv ({ s with store := s.store, cache := w.apply s.cache }.setCall c
      { call with pc := .done result }) := by
  have hok := h.calls hcall
  have hresult : call.pc.result = (CallPc.done result).result := by
    rw [hpc]
    rfl
  have hreports : ∀ {id}, id ∈ Call.reports { call with pc := .done result } →
      s.store.isCanceled id = true ∧ ∃ run, w = .set id run ∧ run.status = .canceled := by
    intro id hid
    obtain ⟨at_, run, hop, hdone⟩ := Call.of_mem_reports hid
    cases hdone
    exact ⟨hok.canceled hop hresult, run, hok.writes hop hpc⟩
  refine h.setCall h.named id ?_ (fun id hid => (hreports hid).1) ?_
  · refine ⟨List.Subset.trans hok.known (List.subset_append_right _ _), ?_, ?_, ?_⟩
    · intro id run hop hr
      exact hok.got hop (hresult.trans hr)
    · intro id at_ run hop hr
      exact hok.canceled hop (hresult.trans hr)
    · intro id at_ w' run hop hw
      cases hw
  · intro id hid run hrun
    have hstored : s.store.isCanceled id = true := by
      rcases List.mem_append.mp hid with hid | hid
      · exact (hreports hid).1
      · exact h.stored id hid
    cases w with
    | set id' run' =>
        rw [CacheWrite.apply, Table.lookup_insert_eq] at hrun
        split at hrun
        · rename_i hkey
          obtain rfl := runKey_inj.mp hkey
          obtain rfl := Option.some.inj hrun
          exact hfresh rfl hstored
        · rcases List.mem_append.mp hid with hid | hid
          · obtain ⟨-, run'', hw, -⟩ := hreports hid
            cases hw
            exact absurd rfl ‹_›
          · exact h.cached id hid run hrun
    | delete id' =>
        rcases List.mem_append.mp hid with hid | hid
        · obtain ⟨-, run'', hw, -⟩ := hreports hid
          cases hw
        · exact h.cached id hid run (Table.lookup_of_erase hrun)

theorem VisibleInv.advance (h : VisibleInv s) (hcall : s.calls c = some call)
    (hfresh : staleWrite s (.act c) = false) {store : Memory} {cache : Table Run} {pc : CallPc}
    (hadvance : s.advance call = some (store, cache, pc)) :
    VisibleInv ({ s with store := store, cache := cache }.setCall c { call with pc := pc }) := by
  have hok := h.calls hcall
  rw [CacheState.advance] at hadvance
  split at hadvance
  · split at hadvance
    · rename_i id hop
      split at hadvance
      · -- a hit
        rename_i run hrun
        simp only [Option.some.injEq, Prod.mk.injEq] at hadvance
        obtain ⟨rfl, rfl, rfl⟩ := hadvance
        refine h.setCall_silent h.named (fun hc => hc) ?_ ⟨hok.known, ?_, ?_, ?_⟩
        · simp [Call.reports, hop]
        · intro id' run' hop' hr hknown
          cases hop.symm.trans hop'
          cases hr
          exact h.cached id (hok.known hknown) run hrun
        · intro id' at_ run' hop'
          cases hop.symm.trans hop'
        · intro id' at_ w run' hop'
          cases hop.symm.trans hop'
      · simp only [Option.some.injEq, Prod.mk.injEq] at hadvance
        obtain ⟨rfl, rfl, rfl⟩ := hadvance
        exact h.setCall_waiting hok.known rfl
    · exact h.perform hcall hadvance
  · exact h.perform hcall hadvance
  · rename_i w result hpc
    simp only [Option.some.injEq, Prod.mk.injEq] at hadvance
    obtain ⟨rfl, rfl, rfl⟩ := hadvance
    refine h.write hcall hpc ?_
    rintro id run rfl hstored
    obtain ⟨op, pc, known⟩ := call
    cases hpc
    simpa [staleWrite, hcall, hstored] using hfresh
  · cases hadvance

theorem VisibleInv.step {a : CacheAction} (h : VisibleInv s) (hfresh : staleWrite s a = false)
    (hstep : cacheStep s a = some t) : VisibleInv t := by
  cases a with
  | call c op =>
      rw [cacheStep] at hstep
      split at hstep
      · obtain rfl := Option.some.inj hstep
        exact h.setCall_waiting (List.Subset.refl _) rfl
      · cases hstep
  | act c =>
      rw [cacheStep] at hstep
      split at hstep
      · cases hstep
      · rename_i call hcall
        split at hstep
        · cases hstep
        · obtain rfl := Option.some.inj hstep
          exact h.advance hcall hfresh ‹_›
  | expire id =>
      obtain rfl := Option.some.inj hstep
      refine ⟨h.named, h.stored, ?_, h.calls⟩
      intro id' hid' run hrun
      exact h.cached id' hid' run (Table.lookup_of_erase hrun)

end Steps

/-! ### Visibility -/

/-- **A `GetRun` that starts after a successful `CancelRun` has returned finds the Run
canceled**, if no call writes an uncanceled record of a canceled Run to the cache. -/
theorem cancel_visible {s : CacheState} {c : Nat} {call : Call} {id : String} {run : Run}
    (hs : Runs cacheStep (fun s a => staleWrite s a = false) {} s) (hcall : s.calls c = some call)
    (hknown : id ∈ call.known) (hfound : call.found id = some run) : run.status = .canceled := by
  have hinv : VisibleInv s :=
    hs.invariant (I := VisibleInv) ⟨⟨nofun, nofun⟩, nofun, nofun, nofun⟩ fun h => h.step
  obtain ⟨hop, hdone⟩ := Call.found_eq_some hfound
  refine (hinv.calls hcall).got hop ?_ hknown
  rw [hdone]
  rfl

/-- The Run is created, and its cache entry expires. -/
def uncachedRun : List CacheAction :=
  [.call 0 (.createRun { id := "run_1", status := .queued } ""), .act 0, .act 0, .expire "run_1"]

/-- The Run is canceled, and then read. -/
theorem cancel_visible_read :
    ∃ s call run, Runs cacheStep (fun s a => staleWrite s a = false) {} s ∧
      s.calls 1 = some call ∧ "run_1" ∈ call.known ∧ call.found "run_1" = some run ∧
      run.status = .canceled := by
  obtain ⟨s, hs, hread⟩ :
      ∃ s, exec (guarded cacheStep fun s a => !staleWrite s a) {}
          (uncachedRun ++ [.call 0 (.cancelRun "run_1" 5), .act 0, .act 0, .expire "run_1",
            .call 1 (.getRun "run_1"), .act 1, .act 1, .act 1]) = some s ∧
        (s.calls 1).any (fun call =>
          decide ("run_1" ∈ call.known) && (call.found "run_1").isSome) = true := by
    refine exists_of_any ?_
    decide +kernel
  have hruns : Runs cacheStep (fun s a => staleWrite s a = false) {} s :=
    runs_exec_guarded (fun _ _ h => by simpa using h) hs
  obtain ⟨call, hcall, hboth⟩ := (Option.any_eq_true _ _).mp hread
  rw [Bool.and_eq_true, decide_eq_true_eq, Option.isSome_iff_exists] at hboth
  obtain ⟨hknown, run, hfound⟩ := hboth
  exact ⟨s, call, run, hruns, hcall, hknown, hfound, cancel_visible hruns hcall hknown hfound⟩

/-- One reader finds no entry and loads the queued Run; the Run is canceled, which the caller
is told; the reader writes what it has loaded to the cache.  The next reader gets a queued
Run. -/
theorem late_set_hides_cancel :
    ∃ s, exec cacheStep {} (uncachedRun ++ [.call 1 (.getRun "run_1"), .act 1, .act 1,
        .call 2 (.cancelRun "run_1" 5), .act 2, .act 2, .act 1,
        .call 3 (.getRun "run_1"), .act 3]) = some s ∧
      (s.calls 3).map (fun call => (call.known, (call.found "run_1").map Run.status))
        = some (["run_1"], some .queued) ∧
      s.store.isCanceled "run_1" = true := by
  refine exists_of_any ?_
  decide +kernel

end AgentMesh
