/-
AgentMesh/Fencing.lean

Execution fences.  Any number of executions of one Run claim it, each with
whatever token its coordinator handed out, and then write to it with the fence
that the claim returned; recoveries and cancellations of the same Run come in
between.  Nothing is assumed about the executions themselves: they write any
record they like, at any time, whether or not they still own a lease.

`Fencing.State` adds to the store the fence each execution was given and the
list of all fences issued for the Run, newest first.  The invariant says that
this list strictly decreases, that its head is the fence in the store and that
it contains every fence an execution holds.  So an accepted write carries the
newest fence, and an execution that has been overtaken never writes again.
-/
import AgentMesh.Machine
import AgentMesh.Memory

namespace AgentMesh.Fencing

open Machine

/-- The store, the fence that each execution holds, and the fences issued so far. -/
structure State where
  store : Memory
  held : Nat → Option Int
  issued : List Int

inductive Action
  /-- Execution `e` calls `ClaimRunExecution`. -/
  | claim (e : Nat) (minimumFence : Int)
  /-- Execution `e` calls `UpdateRunFenced` with the fence it was given. -/
  | write (e : Nat) (run : Run)
  | recover (minimumFence : Int)
  | cancel (at_ : Time)

/-- One call on the Run `id`.  A call that the store refuses changes nothing. -/
def step (id : String) (s : State) : Action → Option State
  | .claim e minimumFence =>
      match s.held e with
      | some _ => none
      | none =>
          match s.store.claimRunExecution id minimumFence with
          | .error _ => some s
          | .ok (store, fence) =>
              some ⟨store, Function.update s.held e (some fence), fence :: s.issued⟩
  | .write e run =>
      match s.held e with
      | none => none
      | some fence =>
          if run.id ≠ id then none
          else
            match s.store.updateRunFenced run fence with
            | .error _ => some s
            | .ok store => some { s with store := store }
  | .recover minimumFence =>
      match s.store.recoverRun id minimumFence with
      | .error _ => some s
      | .ok (_, false) => some s
      | .ok (store, true) => some { s with store := store, issued := store.fence id :: s.issued }
  | .cancel at_ =>
      match s.store.cancelRun id at_ with
      | .error _ => some s
      | .ok (store, _) => some { s with store := store }

/-- Before the first claim. -/
def init (m : Memory) : State := ⟨m, fun _ => none, []⟩

/-- The fence of the Run is still below the end of the `int64` range. -/
def Below (id : String) (s : State) (_ : Action) : Prop := s.store.fence id < 2 ^ 63 - 1

/-! ### The invariant -/

structure Inv (id : String) (s : State) : Prop where
  head : s.issued.head?.getD 0 = s.store.fence id
  descending : s.issued.Pairwise (· > ·)
  positive : ∀ f ∈ s.issued, 0 < f
  held : ∀ e f, s.held e = some f → f ∈ s.issued

variable {id : String} {s t : State} {a : Action}

theorem inv_init {m : Memory} (h : m.fence id = 0) : Inv id (init m) where
  head := h.symm
  descending := List.Pairwise.nil
  positive := by simp [init]
  held := by simp [init]

/-- The newest fence bounds all others. -/
theorem Inv.le_fence (h : Inv id s) {f : Int} (hf : f ∈ s.issued) : f ≤ s.store.fence id := by
  have hhead := h.head
  have hd := h.descending
  rcases hi : s.issued with - | ⟨g, rest⟩
  · rw [hi] at hf
    cases hf
  · rw [hi] at hf hhead hd
    simp only [List.head?_cons, Option.getD_some] at hhead
    rcases List.mem_cons.mp hf with rfl | hrest
    · exact hhead.le
    · have := List.rel_of_pairwise_cons hd hrest
      omega

theorem Inv.fence_nonneg (h : Inv id s) : 0 ≤ s.store.fence id := by
  rw [← h.head]
  rcases hi : s.issued with - | ⟨g, rest⟩
  · simp
  · exact (h.positive g (by simp [hi])).le

/-- A fence above the current one, put in front, keeps the invariant. -/
theorem Inv.issue (h : Inv id s) {f : Int} {held : Nat → Option Int} {store : Memory}
    (hlt : s.store.fence id < f) (hfence : store.fence id = f)
    (hheld : ∀ e g, held e = some g → g = f ∨ s.held e = some g) :
    Inv id ⟨store, held, f :: s.issued⟩ where
  head := by simpa using hfence.symm
  descending := by
    refine List.Pairwise.cons ?_ h.descending
    intro g hg
    have := h.le_fence hg
    omega
  positive := by
    intro g hg
    rcases List.mem_cons.mp hg with rfl | hg
    · have := h.fence_nonneg
      omega
    · exact h.positive g hg
  held := by
    intro e g hg
    rcases hheld e g hg with rfl | hg
    · exact List.mem_cons_self
    · exact List.mem_cons_of_mem _ (h.held e g hg)

/-- A change of the store that leaves the Run's fence alone keeps the invariant. -/
theorem Inv.setStore (h : Inv id s) {store : Memory} (hfence : store.fence id = s.store.fence id) :
    Inv id { s with store := store } :=
  ⟨h.head.trans hfence.symm, h.descending, h.positive, h.held⟩

theorem inv_step (h : Inv id s) (hb : Below id s a) (ha : step id s a = some t) : Inv id t := by
  -- claims and recoveries issue a fence, writes and cancellations leave it alone
  cases a with
  | claim e minimumFence =>
      simp only [step] at ha
      split at ha
      · cases ha
      · split at ha
        · obtain rfl := Option.some.inj ha
          exact h
        · rename_i store f hclaim
          obtain rfl := Option.some.inj ha
          obtain ⟨-, -, -, rfl, rfl⟩ := Memory.claimRunExecution_ok hclaim
          apply h.issue (Memory.lt_nextFence h.fence_nonneg hb _) (by simp)
          intro e' g hg
          by_cases he : e' = e
          · subst he
            left
            simpa using hg.symm
          · right
            simpa [he] using hg
  | write e run =>
      simp only [step] at ha
      split at ha
      · cases ha
      · split at ha
        · cases ha
        · split at ha
          · obtain rfl := Option.some.inj ha
            exact h
          · rename_i store hwrite
            obtain rfl := Option.some.inj ha
            obtain ⟨-, -, -, -, -, rfl⟩ := Memory.updateRunFenced_ok hwrite
            exact h.setStore rfl
  | recover minimumFence =>
      simp only [step] at ha
      split at ha
      · obtain rfl := Option.some.inj ha
        exact h
      · obtain rfl := Option.some.inj ha
        exact h
      · rename_i store hrecover
        obtain rfl := Option.some.inj ha
        obtain ⟨hfalse, -⟩ | ⟨-, existing, -, -, rfl⟩ := Memory.recoverRun_ok hrecover
        · cases hfalse
        · refine h.issue ?_ rfl fun e g hg => Or.inr hg
          simpa [Memory.fence] using Memory.lt_nextFence h.fence_nonneg hb minimumFence
  | cancel at_ =>
      simp only [step] at ha
      split at ha
      · obtain rfl := Option.some.inj ha
        exact h
      · rename_i store _ hcancel
        obtain rfl := Option.some.inj ha
        obtain ⟨-, -, -, rfl⟩ := Memory.cancelRun_ok hcancel
        exact h.setStore rfl

theorem inv_runs {m : Memory} (h0 : m.fence id = 0)
    (h : Runs (step id) (Below id) (init m) s) : Inv id s :=
  h.invariant (inv_init h0) inv_step

/-! ### Overtaken executions -/

/-- The fences issued so far stay issued, and an execution keeps the fence it holds. -/
theorem step_monotone (ha : step id s a = some t) :
    s.issued ⊆ t.issued ∧ ∀ e f, s.held e = some f → t.held e = some f := by
  cases a with
  | claim e minimumFence =>
      simp only [step] at ha
      split at ha
      · cases ha
      · rename_i hnone
        split at ha
        · obtain rfl := Option.some.inj ha
          exact ⟨fun _ hg => hg, fun _ _ hf => hf⟩
        · obtain rfl := Option.some.inj ha
          refine ⟨fun g hg => List.mem_cons_of_mem _ hg, ?_⟩
          intro e' f hf
          -- an execution claims once, so the one that claims now held nothing
          have hne : e' ≠ e := by
            rintro rfl
            rw [hnone] at hf
            cases hf
          simpa [hne] using hf
  | write e run =>
      simp only [step] at ha
      repeat' split at ha
      all_goals cases ha
      all_goals exact ⟨fun _ hg => hg, fun _ _ hf => hf⟩
  | recover minimumFence =>
      simp only [step] at ha
      split at ha
      all_goals obtain rfl := Option.some.inj ha
      · exact ⟨fun _ hg => hg, fun _ _ hf => hf⟩
      · exact ⟨fun _ hg => hg, fun _ _ hf => hf⟩
      · exact ⟨fun g hg => List.mem_cons_of_mem _ hg, fun _ _ hf => hf⟩
  | cancel at_ =>
      simp only [step] at ha
      split at ha
      all_goals obtain rfl := Option.some.inj ha
      all_goals exact ⟨fun _ hg => hg, fun _ _ hf => hf⟩

theorem runs_monotone (h : Runs (step id) (Below id) s t) :
    s.issued ⊆ t.issued ∧ ∀ e f, s.held e = some f → t.held e = some f := by
  refine h.related (I := fun _ => True)
    (R := fun s t => s.issued ⊆ t.issued ∧ ∀ e f, s.held e = some f → t.held e = some f)
    trivial (fun _ _ _ => trivial) ?_ ?_ ?_
  · exact fun _ => ⟨fun _ hg => hg, fun _ _ hf => hf⟩
  · exact fun h₁ h₂ => ⟨fun _ hg => h₂.1 (h₁.1 hg), fun e f hf => h₂.2 e f (h₁.2 e f hf)⟩
  · exact fun _ _ ha => step_monotone ha

/-- An accepted write carries the newest fence. -/
theorem Inv.write_newest (h : Inv id s) {run : Run} {f : Int} {m : Memory} (hid : run.id = id)
    (hw : s.store.updateRunFenced run f = .ok m) : s.issued.head? = some f := by
  obtain ⟨-, -, -, hpos, hfence, -⟩ := Memory.updateRunFenced_ok hw
  rw [hid, ← h.head] at hfence
  rcases hi : s.issued.head? with - | g
  · rw [hi] at hfence
    simp only [Option.getD_none] at hfence
    omega
  · rw [hi] at hfence
    exact congrArg some hfence

/-- A write with a fence that is not the newest leaves the store as it is. -/
theorem Inv.write_overtaken (h : Inv id s) {e : Nat} {f g : Int} {run : Run}
    (hf : s.held e = some f) (hg : g ∈ s.issued) (hfg : f < g)
    (ha : step id s (.write e run) = some t) : t.store = s.store := by
  simp only [step, hf] at ha
  split at ha
  · cases ha
  · rename_i hid
    split at ha
    · obtain rfl := Option.some.inj ha
      rfl
    · rename_i store hw
      exfalso
      obtain ⟨-, -, -, -, hfence, -⟩ := Memory.updateRunFenced_ok hw
      rw [not_not.mp hid] at hfence
      have := h.le_fence hg
      omega

/-! ### Fencing safety -/

/-- **Fencing safety.**  In every run from a Run that was never claimed, with
fences below the end of the `int64` range: a claim returns a fence above all
those issued before; a write is accepted only with the newest fence; and once a
fence newer than that of execution `e` has been issued, by a claim or by a
recovery, no later write of `e` changes the store. -/
theorem fencing_safety {m : Memory} (h0 : m.fence id = 0)
    (h : Runs (step id) (Below id) (init m) s) :
    (∀ minimumFence m' f, s.store.fence id < 2 ^ 63 - 1 →
        s.store.claimRunExecution id minimumFence = .ok (m', f) → ∀ g ∈ s.issued, g < f) ∧
      s.issued.Pairwise (· > ·) ∧
      (∀ e f run m', s.held e = some f → run.id = id →
        s.store.updateRunFenced run f = .ok m' → s.issued.head? = some f) ∧
      (∀ e f g, s.held e = some f → g ∈ s.issued → f < g →
        ∀ t t' run, Runs (step id) (Below id) s t → step id t (.write e run) = some t' →
          t'.store = t.store) := by
  have hinv := inv_runs h0 h
  refine ⟨?_, hinv.descending, ?_, ?_⟩
  · intro minimumFence m' f hb hclaim g hg
    obtain ⟨-, -, -, rfl, -⟩ := Memory.claimRunExecution_ok hclaim
    exact (hinv.le_fence hg).trans_lt (Memory.lt_nextFence hinv.fence_nonneg hb _)
  · intro e f run m' _ hid hw
    exact hinv.write_newest hid hw
  · intro e f g hf hg hfg t t' run ht ha
    have hmono := runs_monotone ht
    exact (inv_runs h0 (h.trans ht)).write_overtaken (hmono.2 e f hf) (hmono.1 hg) hfg ha

/-- A queued Run, claimed by two executions whose coordinators disagree, written
to by the second, and recovered. -/
def splitBrainStore : Memory :=
  { runs := AList.insert "run_1" { id := "run_1", status := .queued, maxAttempts := 3 } ∅ }

@[inherit_doc splitBrainStore]
def splitBrain : List Action :=
  [.claim 0 7, .claim 1 2,
    .write 1 { id := "run_1", status := .running, attempt := 1, maxAttempts := 3 }, .recover 4]

/-- The first execution of the split-brain run never writes again. -/
theorem fencing_safety_splitBrain :
    splitBrainStore.fence "run_1" = 0 ∧
      ∃ s, Runs (step "run_1") (Below "run_1") (init splitBrainStore) s ∧
        s.issued = [9, 8, 7] ∧ s.held 0 = some 7 ∧
        ∀ t t' run, Runs (step "run_1") (Below "run_1") s t →
          step "run_1" t (.write 0 run) = some t' → t'.store = t.store := by
  have h0 : splitBrainStore.fence "run_1" = 0 := by decide
  obtain ⟨s, hs, hissued, hheld⟩ :
      ∃ s, exec (guarded (step "run_1") fun s _ => s.store.fence "run_1" < 2 ^ 63 - 1)
          (init splitBrainStore) splitBrain = some s ∧
        s.issued = [9, 8, 7] ∧ s.held 0 = some 7 := by
    refine exists_of_any ?_
    decide
  have hruns : Runs (step "run_1") (Below "run_1") (init splitBrainStore) s :=
    runs_exec_guarded (fun _ _ h => by simpa [Below] using h) hs
  exact ⟨h0, s, hruns, hissued, hheld, fun t t' run ht ha =>
    (fencing_safety h0 hruns).2.2.2 0 7 8 hheld (by simp [hissued]) (by decide) t t' run ht ha⟩

end AgentMesh.Fencing
