/-
AgentMesh/AttemptKeys.lean

The idempotency keys that remote Agents get, `internal/protocol/v1/types.go` and
the request that `Engine.execute` hands to a runtime.

The key of an attempt is made from the Run ID and the attempt number.  Workers count
attempts on copies of the Run, a recovery takes an attempt back, and a worker whose
attempt was taken back may still be about to invoke.  So a number can be used again,
but only after a recovery: the requests with a number, together with the workers
about to send one, never outnumber the recoveries by more than one
(`KeysSpent.within`).

The machine is that of `Mesh`, with the Runs that were handed to a runtime.
-/
import AgentMesh.Attempts
import AgentMesh.Desk
import AgentMesh.Outbound

namespace AgentMesh

open Machine

/-! ### Keys -/

theorem toList_toString_int (n : Int) :
    (toString n).toList =
      if 0 ≤ n then Nat.toDigits 10 n.toNat else '-' :: Nat.toDigits 10 (-n).toNat := by
  show n.repr.toList = _
  rw [Int.repr_eq_if]
  split <;> simp [Nat.repr_eq_ofList_toDigits]

theorem notMem_toDigits {c : Char} (hc : c.isDigit = false) (n : Nat) : c ∉ Nat.toDigits 10 n := by
  intro hmem
  rw [Nat.isDigit_of_mem_toDigits (by decide) (by decide) hmem] at hc
  cases hc

theorem toString_int_inj {m n : Int} (h : toString m = toString n) : m = n := by
  have hdigits : ∀ {j k : Nat}, Nat.toDigits 10 j = Nat.toDigits 10 k → j = k := by
    intro j k hjk
    rw [← Nat.ofDigitChars_ten_toDigits (n := j), hjk, Nat.ofDigitChars_ten_toDigits]
  have hminus : ∀ {j k : Nat}, Nat.toDigits 10 j ≠ '-' :: Nat.toDigits 10 k :=
    fun hjk => notMem_toDigits rfl _ (hjk ▸ List.mem_cons_self)
  have hlist := congrArg String.toList h
  rw [toList_toString_int, toList_toString_int] at hlist
  split at hlist <;> split at hlist
  · have := hdigits hlist
    omega
  · exact absurd hlist hminus
  · exact absurd hlist.symm hminus
  · have := hdigits (List.cons.inj hlist).2
    omega

theorem colon_notMem_toString (n : Int) : ':' ∉ (toString n).toList := by
  rw [toList_toString_int]
  split
  · exact notMem_toDigits rfl _
  · rw [List.mem_cons, not_or]
    exact ⟨by decide, notMem_toDigits rfl _⟩

/-- A list can be taken apart at the last occurrence of an element. -/
theorem append_cons_inj_of_notMem_right {α : Type} {a : α} {l l' r r' : List α}
    (hr : a ∉ r) (hr' : a ∉ r') (h : l ++ a :: r = l' ++ a :: r') : l = l' ∧ r = r' := by
  rcases List.append_eq_append_iff.mp h with ⟨m, rfl, hm⟩ | ⟨m, rfl, hm⟩ <;>
    rcases m with - | ⟨b, m⟩
  · exact ⟨(List.append_nil l).symm, (List.cons.inj hm).2⟩
  · rw [(List.cons.inj hm).2] at hr
    exact absurd (List.mem_append_right m List.mem_cons_self) hr
  · exact ⟨List.append_nil l', (List.cons.inj hm).2.symm⟩
  · rw [(List.cons.inj hm).2] at hr'
    exact absurd (List.mem_append_right m List.mem_cons_self) hr'

theorem attemptIdempotencyKey_inj {runID runID' : String} {attempt attempt' : Int} :
    attemptIdempotencyKey runID attempt = attemptIdempotencyKey runID' attempt' ↔
      runID = runID' ∧ attempt = attempt' := by
  refine ⟨fun h => ?_, fun h => by rw [h.1, h.2]⟩
  have hlist := congrArg String.toList h
  simp only [attemptIdempotencyKey, String.toList_append, List.append_assoc] at hlist
  -- the number has no colon
  obtain ⟨hid, hnumber⟩ := append_cons_inj_of_notMem_right (colon_notMem_toString attempt)
    (colon_notMem_toString attempt') hlist
  exact ⟨String.toList_injective hid, toString_int_inj (String.toList_injective hnumber)⟩

/-! ### Requests -/

/-- The request of an attempt, as `execute` builds it. -/
def Run.executionRequest (run : Run) (agent : Agent) : ExecutionRequest where
  runID := run.id
  agent := agent
  attempt := run.attempt
  input := run.input

/-- The message that the runtime sends for it. -/
def Run.message (run : Run) (agent : Agent) : WireRequest :=
  HTTPRuntime.wireRequest (run.executionRequest agent)

/-- The Run that a worker is about to hand to the runtime. -/
def ExecPc.attempting : ExecPc → Option Run
  | .invoke run _ => some run
  | _ => none

def State.attempting (s : State) (w : Nat) : Option Run := (s.workers w).pc.attempting

/-- The Run that an action hands to the runtime. -/
def State.requested (s : State) : Action → Option Run
  | .work w _ => s.attempting w
  | _ => none

/-- The system with the Runs that were handed to a runtime, in order. -/
structure Traced where
  state : State := init
  requests : List Run := []

def tracedStep (s : Traced) (a : Action) : Option Traced :=
  (step s.state a).map fun state =>
    { state, requests := s.requests ++ (s.state.requested a).toList }

/-! ### What a step does to the requests -/

variable {s t : State} {a : Action}

/-- How many requests with a number the stored counter and the recoveries allow. -/
def State.allowance (s : State) (id : String) (number : Int) : Int :=
  s.recoveries.count id + if number ≤ s.store.attempt id then 1 else 0

/-- No step takes back what it has allowed: a recovery lowers the counter by one, and counts
itself. -/
theorem AttemptStep.allowance_le (h : AttemptStep s t) (id : String) (number : Int) :
    s.allowance id number ≤ t.allowance id number := by
  rw [State.allowance, State.allowance]
  cases h with
  | quiet invocations recoveries attempt invoking => rw [recoveries, attempt]
  | attempt w id' invocations recoveries attempt invoking =>
      rw [recoveries, attempt]
      split <;> split <;> split <;> omega
  | invoke w id' invocations recoveries attempt before invoking => rw [recoveries, attempt]
  | recover id' invocations recoveries attempt invoking =>
      rw [recoveries, attempt, List.count_append]
      by_cases hid : id = id'
      · subst hid
        rw [List.count_singleton_self]
        push_cast
        split <;> split <;> omega
      · rw [if_neg hid]
        push_cast
        split <;> split <;> omega

/-- What becomes of the workers that are about to send a request, and of the requests. -/
inductive RequestStep (s t : State) : Option Run → Prop
  | quiet (attempting : ∀ w, t.attempting w = s.attempting w ∨ t.attempting w = none) :
      RequestStep s t none
  /-- A worker has stored an attempt. -/
  | attempt (w : Nat) (run : Run) (stored : t.store.runs.lookup run.id = some run)
      (counted : s.allowance run.id run.attempt + 1 = t.allowance run.id run.attempt)
      (attempting : t.attempting = Function.update s.attempting w (some run)) :
      RequestStep s t none
  | invoke (w : Nat) (run : Run) (before : s.attempting w = some run)
      (attempting : t.attempting = Function.update s.attempting w none) :
      RequestStep s t (some run)

theorem State.attempting_worked (s : State) (w : Nat) (pc : ExecPc) (e : Effect) :
    (s.worked w pc e).attempting = Function.update s.attempting w pc.attempting := by
  funext n
  by_cases hn : n = w
  · subst hn
    simp [State.attempting, State.worked]
  · simp [State.attempting, State.worked, hn]

theorem ExecPc.attempting_of_invoking {pc : ExecPc} (h : pc.invoking = none) :
    pc.attempting = none := by
  cases pc with
  | invoke run f => cases h
  | _ => rfl

theorem requestStep_worked (h : RunInv s) {w : Nat} {pc : ExecPc} {e : Effect}
    (hmove : (s.workers w).Move s.store pc e) :
    RequestStep s (s.worked w pc e) (s.attempting w) := by
  have hattempting := s.attempting_worked w pc e
  -- a worker that is about to invoke the runtime neither before nor afterwards
  have hquiet : (s.workers w).pc.invoking = none → pc.invoking = none →
      RequestStep s (s.worked w pc e) (s.attempting w) := by
    intro hbefore hafter
    rw [show s.attempting w = none from ExecPc.attempting_of_invoking hbefore]
    refine .quiet fun n => ?_
    rw [hattempting, ExecPc.attempting_of_invoking hafter, Function.update_apply]
    split
    · exact .inr rfl
    · exact .inl rfl
  cases hmove with
  | silent _ _ _ hbefore hafter => exact hquiet hbefore hafter
  | claim hpc => exact hquiet (by rw [hpc]; rfl) rfl
  | reload hpc => exact hquiet (by rw [hpc]; rfl) rfl
  | enter _ hbefore => exact hquiet hbefore rfl
  | finish _ hbefore _ _ _ hafter => exact hquiet hbefore hafter
  | @attempt run run' f now _ hpc hnext hwrite _ =>
      have hp : s.hold (.worker w) = some ⟨run.id, f, .limited run⟩ := by
        simp [State.hold, hpc, ExecPc.hold]
      obtain ⟨-, -, hrunning, -, -, hreq⟩ := Run.nextAttempt_ok hnext
      obtain ⟨existing, he, hc, -, hf, hm⟩ := Memory.updateRunFenced_ok hwrite
      obtain ⟨hsucc, hkeep⟩ := h.accepted hp (.attempt now hnext) hreq.id he hc hf
      rw [hkeep] at hm
      have hatt : run'.attempt = existing.attempt + 1 := by
        rcases hsucc.next with ⟨-, hatt⟩ | ⟨hterm, -⟩
        · exact hatt
        · exact absurd hterm (Run.IsActive.not_terminal (.inr hrunning))
      have hstored : (s.worked w (.invoke run' f) e).store.runs.lookup run'.id = some run' := by
        show e.store.runs.lookup run'.id = some run'
        rw [hm, Table.lookup_insert_eq, if_pos rfl]
      rw [show s.attempting w = none by simp [State.attempting, hpc, ExecPc.attempting]]
      refine .attempt w run' hstored ?_ hattempting
      -- the number is the stored counter now, and was above it before
      rw [State.allowance, State.allowance, Memory.attempt_eq he, Memory.attempt_eq hstored, hatt,
        if_neg (by omega), if_pos le_rfl]
      simp [State.worked]
  | @invoke run f _ hpc =>
      have hbefore : s.attempting w = some run := by
        simp [State.attempting, hpc, ExecPc.attempting]
      rw [hbefore]
      exact .invoke w run hbefore hattempting

theorem requestStep_of_step (h : RunInv s) (ha : step s a = some t) :
    RequestStep s t (s.requested a) := by
  have hmove := systemMove_of_step ha
  cases a with
  | work w o =>
      simp only [step] at ha
      split at ha
      · obtain ⟨r, hr, rfl⟩ := Option.map_eq_some_iff.mp ha
        exact requestStep_worked h (Worker.execute_move hr)
      · cases ha
  | _ =>
      refine .quiet fun n => ?_
      cases hmove with
      | other _ _ workers => exact .inl (by rw [State.attempting, workers, State.attempting])
      | @worker _ w worker pc =>
          by_cases hn : n = w
          · subst hn
            rcases pc with hpc | hpc
            · exact .inl (by simp [State.attempting, State.setWorker, hpc])
            · exact .inr (by simp [State.attempting, State.setWorker, hpc, ExecPc.attempting])
          · exact .inl (by simp [State.attempting, State.setWorker, hn])
      | _ => exact .inl rfl

/-! ### The invariant -/

/-- The request has this ID and this number. -/
def isAttempt (id : String) (number : Int) (run : Run) : Bool := run.id = id && run.attempt = number

/-- The requests so far and the workers about to send one. -/
structure KeysSpent (s : Traced) : Prop where
  within : ∀ (id : String) (number : Int) (S : Finset Nat),
    (∀ w ∈ S, (s.state.attempting w).any (isAttempt id number) = true) →
    (s.requests.countP (isAttempt id number) : Int) + S.card ≤ s.state.allowance id number
  asked : ∀ {w : Nat} {run : Run}, s.state.attempting w = some run → s.state.store.Holds run
  sent : ∀ run ∈ s.requests, s.state.store.Holds run

theorem keysSpent_init : KeysSpent {} where
  within id number S hS := by
    have hempty : S = ∅ := Finset.eq_empty_of_forall_notMem fun w hw => by
      have hw := hS w hw
      simp [State.attempting, init, ExecPc.attempting] at hw
    simp only [hempty, List.countP_nil, Finset.card_empty, State.allowance]
    split <;> simp [init]
  asked hw := by simp [State.attempting, init, ExecPc.attempting] at hw
  sent run hrun := by cases hrun

section Within

variable {requests : List Run} {w : Nat} {run : Run} {id : String} {number : Int} {S : Finset Nat}
  (h : KeysSpent ⟨s, requests⟩) (hle : s.allowance id number ≤ t.allowance id number)
  (hS : ∀ n ∈ S, (t.attempting n).any (isAttempt id number) = true)

include h hle hS

/-- A worker has stored an attempt: there is one more about to send the request, and one more
request is allowed. -/
theorem KeysSpent.within_attempt
    (hcounted : s.allowance run.id run.attempt + 1 = t.allowance run.id run.attempt)
    (hattempting : t.attempting = Function.update s.attempting w (some run)) :
    (requests.countP (isAttempt id number) : Int) + S.card ≤ t.allowance id number := by
  have hrest := h.within id number (S.erase w) fun n hn => by
    have hn' := hS n (Finset.mem_of_mem_erase hn)
    rwa [hattempting, Function.update_of_ne (Finset.ne_of_mem_erase hn)] at hn'
  by_cases hw : w ∈ S
  · have hmatch := hS w hw
    rw [hattempting, Function.update_self, Option.any_some, isAttempt, Bool.and_eq_true,
      decide_eq_true_eq, decide_eq_true_eq] at hmatch
    obtain ⟨rfl, rfl⟩ := hmatch
    have hcard := Finset.card_erase_add_one hw
    simp only at hrest
    omega
  · rw [Finset.erase_eq_of_notMem hw] at hrest
    exact hrest.trans hle

/-- A worker sends the request: it moves from those about to send to the requests. -/
theorem KeysSpent.within_invoke (hbefore : s.attempting w = some run)
    (hattempting : t.attempting = Function.update s.attempting w none) :
    ((requests ++ [run]).countP (isAttempt id number) : Int) + S.card ≤ t.allowance id number := by
  have hne : ∀ n ∈ S, n ≠ w := by
    rintro n hn rfl
    have hn' := hS n hn
    simp [hattempting] at hn'
  have hS' : ∀ n ∈ S, (s.attempting n).any (isAttempt id number) = true := fun n hn => by
    have hn' := hS n hn
    rwa [hattempting, Function.update_of_ne (hne n hn)] at hn'
  refine le_trans ?_ hle
  rw [List.countP_append, List.countP_singleton]
  by_cases hmatch : isAttempt id number run = true
  · have hmore := h.within id number (insert w S) fun n hn => by
      rcases Finset.mem_insert.mp hn with rfl | hn
      · rw [hbefore]
        exact hmatch
      · exact hS' n hn
    rw [Finset.card_insert_of_notMem fun hw => hne w hw rfl] at hmore
    rw [if_pos hmatch]
    push_cast at hmore ⊢
    omega
  · have hsame := h.within id number S hS'
    rw [if_neg hmatch]
    simpa using hsame

end Within

theorem of_update_eq_some {f : Nat → Option Run} {w n : Nat} {x : Option Run} {run : Run}
    (h : Function.update f w x n = some run) : x = some run ∨ f n = some run := by
  rw [Function.update_apply] at h
  split at h
  · exact .inl h
  · exact .inr h

theorem KeysSpent.step {s t : Traced} (hinv : RunInv s.state) (h : KeysSpent s)
    (ha : tracedStep s a = some t) : KeysSpent t := by
  obtain ⟨state, hstep, rfl⟩ := Option.map_eq_some_iff.mp ha
  obtain ⟨-, hevolves⟩ := hinv.step hstep
  have hle := (attemptStep_of_step hinv hstep).allowance_le
  have hold : ∀ run ∈ s.requests, state.store.Holds run :=
    fun run hrun => (h.sent run hrun).evolves hevolves
  have hrequest := requestStep_of_step hinv hstep
  generalize s.state.requested a = requested at hrequest ⊢
  cases hrequest with
  | quiet hattempting =>
      have hsub : ∀ {w run}, state.attempting w = some run → s.state.attempting w = some run := by
        intro w run hw
        rcases hattempting w with hsame | hnone
        · rw [← hsame, hw]
        · rw [hnone] at hw
          cases hw
      refine ⟨?_, fun hw => (h.asked (hsub hw)).evolves hevolves, ?_⟩
      · intro id number S hS
        simp only [Option.toList_none, List.append_nil]
        refine (h.within id number S fun w hw => ?_).trans (hle id number)
        obtain ⟨run, hrun, hmatch⟩ := (Option.any_eq_true _ _).mp (hS w hw)
        exact (Option.any_eq_true _ _).mpr ⟨run, hsub hrun, hmatch⟩
      · simpa using hold
  | attempt w run hstored hcounted hattempting =>
      refine ⟨?_, ?_, by simpa using hold⟩
      · simp only [Option.toList_none, List.append_nil]
        exact fun id number S hS => h.within_attempt (hle id number) hS hcounted hattempting
      · intro n run' hn
        rcases of_update_eq_some (hattempting ▸ hn) with hrun | hn
        · obtain rfl := Option.some.inj hrun
          exact ⟨run, hstored, .refl run⟩
        · exact (h.asked hn).evolves hevolves
  | invoke w run hbefore hattempting =>
      refine ⟨?_, ?_, ?_⟩
      · exact fun id number S hS => h.within_invoke (hle id number) hS hbefore hattempting
      · intro n run' hn
        rcases of_update_eq_some (hattempting ▸ hn) with hrun | hn
        · cases hrun
        · exact (h.asked hn).evolves hevolves
      · intro run' hrun'
        rcases List.mem_append.mp hrun' with hrun' | hrun'
        · exact hold run' hrun'
        · rw [List.mem_singleton.mp hrun']
          exact (h.asked hbefore).evolves hevolves

theorem keysSpent_of_runs {s : Traced} (h : Runs tracedStep Free {} s) :
    RunInv s.state ∧ KeysSpent s := by
  refine h.invariant (I := fun s => RunInv s.state ∧ KeysSpent s) ⟨runInv_init, keysSpent_init⟩ ?_
  rintro u v a ⟨hinv, hkeys⟩ - ha
  obtain ⟨state, hstep, hv⟩ := Option.map_eq_some_iff.mp ha
  refine ⟨?_, hkeys.step hinv ha⟩
  rw [← hv]
  exact (hinv.step hstep).1

/-- The key of an attempt in the request to the Agent. -/
def Run.attemptKey (run : Run) : String := attemptIdempotencyKey run.id run.attempt

theorem countP_attemptKey (requests : List Run) (run : Run) :
    requests.countP (fun r => r.attemptKey = run.attemptKey) =
      requests.countP (isAttempt run.id run.attempt) := by
  refine List.countP_congr fun r _ => ?_
  simp only [Run.attemptKey, attemptIdempotencyKey_inj, isAttempt, decide_eq_true_eq,
    Bool.and_eq_true]

/-- **What an idempotency key stands for.**  Over every run of the system, with any number of
workers, retries, redeliveries, lost leases and recoveries: two requests with the same attempt key
are the same message, whatever became of the Agent in between; a key is sent at most once more
than the Run was recovered; and the effect key is that of the Run, the same for all its attempts
and for no other Run. -/
theorem idempotency_keys_identify {s : Traced} (h : Runs tracedStep Free {} s) :
    (∀ r ∈ s.requests, ∀ r' ∈ s.requests, ∀ agent agent' : Agent, agent.id = r.agentID →
      agent'.id = r'.agentID →
      ((r.message agent).idempotencyKey = (r'.message agent').idempotencyKey →
        r.message agent = r'.message agent') ∧
      ((r.message agent).effectIdempotencyKey = (r'.message agent').effectIdempotencyKey ↔
        r.id = r'.id)) ∧
    (∀ r ∈ s.requests, (s.requests.countP fun r' => r'.attemptKey = r.attemptKey) ≤
      1 + s.state.recoveries.count r.id) := by
  obtain ⟨-, hkeys⟩ := keysSpent_of_runs h
  refine ⟨?_, ?_⟩
  · intro r hr r' hr' agent agent' hagent hagent'
    refine ⟨fun hkey => ?_, Iff.rfl⟩
    obtain ⟨hid, hattempt⟩ := attemptIdempotencyKey_inj.mp hkey
    -- both were asked to do what the stored Run was asked to do
    obtain ⟨stored, hstored, hsame⟩ := hkeys.sent r hr
    obtain ⟨stored', hstored', hsame'⟩ := hkeys.sent r' hr'
    have hruns : r.id = r'.id := hid
    rw [hruns, hstored', Option.some.injEq] at hstored
    subst hstored
    have hagents : agent.id = agent'.id := by
      rw [hagent, hagent', ← hsame.agentID, hsame'.agentID]
    have hinput : r.input = r'.input := by rw [← hsame.input, hsame'.input]
    have hnumber : r.attempt = r'.attempt := hattempt
    simp only [Run.message, HTTPRuntime.wireRequest, Run.executionRequest, hruns, hnumber, hagents,
      hinput]
  · intro r hr
    have hbound := hkeys.within r.id r.attempt ∅ (by simp)
    rw [countP_attemptKey]
    rw [Finset.card_empty, State.allowance] at hbound
    split at hbound <;> push_cast at hbound <;> omega

/-- A Run with one attempt is invoked, recovered while it runs, and invoked again. -/
def invokedTwice : List Action :=
  submitRun 1 ++ workOn 0 9 {} ++ [.recoverRun "run_1" 0] ++ workOn 1 9 {}

theorem idempotency_keys_identify_recovered :
    ∃ s, exec tracedStep {} invokedTwice = some s ∧
      s.requests.map Run.attemptKey = ["run_1:1", "run_1:1"] ∧
      ∀ r ∈ s.requests, (s.requests.countP fun r' => r'.attemptKey = r.attemptKey) ≤
        1 + s.state.recoveries.count r.id := by
  obtain ⟨s, hs, hkeys⟩ : ∃ s, exec tracedStep {} invokedTwice = some s ∧
      s.requests.map Run.attemptKey = ["run_1:1", "run_1:1"] := by
    refine exists_of_any ?_
    decide +kernel
  exact ⟨s, hs, hkeys, (idempotency_keys_identify (runs_exec (fun _ _ => trivial) hs)).2⟩

end AgentMesh
