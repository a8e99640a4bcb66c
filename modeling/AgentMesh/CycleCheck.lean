/-
AgentMesh/CycleCheck.lean

What the cycle check of `InitializeForCreate` guarantees.

`validateWorkflowDAG` keeps for each step the number of its dependencies that
have not been visited, and visits a step when this number has come down to
zero.  The invariant of the queue loop (`Visiting`) says that the numbers are
right and that no step is queued twice.  So the steps are visited in an order
that respects the dependencies, and if as many were visited as there are, this
is a topological order of the Workflow (`exists_topologicalOrder`).
-/
import AgentMesh.Acceptance
import AgentMesh.Dataflow

namespace AgentMesh

/-- The order visits every step once, after its dependencies. -/
def TopologicalOrder (w : Workflow) (order : List WorkflowStep) : Prop :=
  order.Perm w.steps ∧
    Dataflow.ReadyOrder WorkflowStep.id WorkflowStep.dependsOn [] order

/-! ### Dependencies and dependents -/

/-- The indices of what the step at an index depends on. -/
def dependencyIndices (ids : Table Nat) (steps : List WorkflowStep) (index : Nat) : List Nat :=
  ((steps[index]?).map fun step => step.dependsOn.map fun d => ids.getD d 0).getD []

section Dependents

variable (ids : Table Nat)

theorem getElem?_foldl_modify (index j : Nat) (dependsOn : List String)
    (dependents : List (List Nat)) :
    (dependsOn.foldl (fun dependents dependency =>
        dependents.modify (ids.getD dependency 0) (· ++ [index])) dependents)[j]? =
      dependents[j]?.map
        (· ++ List.replicate ((dependsOn.map fun d => ids.getD d 0).count j) index) := by
  induction dependsOn generalizing dependents with
  | nil => simp
  | cons d rest ih =>
      rw [List.foldl_cons, ih, List.getElem?_modify]
      rcases dependents[j]? with - | l
      · rfl
      · by_cases hd : ids.getD d 0 = j
        · simp [hd, List.replicate_succ]
        · simp [hd]

/-- A step stands among the dependents of another one as often as it depends on it. -/
theorem count_foldl_dependents (i j k : Nat) (steps : List WorkflowStep)
    (dependents : List (List Nat)) :
    ((steps.zipIdx k).foldl (fun dependents (step, index) =>
        step.dependsOn.foldl (fun dependents dependency =>
          dependents.modify (ids.getD dependency 0) (· ++ [index])) dependents)
        dependents)[j]?.map (List.count i) =
      dependents[j]?.map fun l =>
        l.count i + if k ≤ i then (dependencyIndices ids steps (i - k)).count j else 0 := by
  induction steps generalizing k dependents with
  | nil => simp [dependencyIndices]
  | cons step rest ih =>
      rw [List.zipIdx_cons, List.foldl_cons, ih, getElem?_foldl_modify, Option.map_map]
      congr 1
      funext l
      rw [Function.comp_apply, List.count_append, List.count_replicate, Nat.add_assoc]
      congr 1
      rcases Nat.lt_trichotomy i k with hik | rfl | hik
      · simp [Nat.not_le.mpr hik, Nat.ne_of_gt hik, Nat.not_le.mpr (Nat.lt_succ_of_lt hik)]
      · simp [dependencyIndices]
      · have hshift : i - k = (i - (k + 1)) + 1 := by omega
        simp [dependencyIndices, hshift, Nat.le_of_lt hik, Nat.ne_of_lt hik, Nat.succ_le_of_lt hik]

theorem count_dependentsOf (steps : List WorkflowStep) {j : Nat} (hj : j < steps.length) (i : Nat) :
    ((dependentsOf ids steps).getD j []).count i = (dependencyIndices ids steps i).count j := by
  have hcount := count_foldl_dependents ids i j 0 steps (List.replicate steps.length [])
  rw [List.getElem?_replicate_of_lt hj] at hcount
  obtain ⟨l, hl, hi⟩ := Option.map_eq_some_iff.mp (hcount.trans (Option.map_some ..))
  have hget : (dependentsOf ids steps)[j]? = some l := hl
  rw [List.getD_eq_getElem?_getD, hget, Option.getD_some, hi]
  simp

end Dependents

/-! ### The queue loop -/

/-- No index stands twice, and the degree of each one has come down to zero. -/
def Settled (indegree : List Int) (l : List Nat) : Prop :=
  l.Nodup ∧ ∀ i ∈ l, ∃ v ≤ 0, indegree[i]? = some v

theorem relax_degree (indegree : List Int) (queue dependents : List Nat) (i : Nat) :
    (relax indegree queue dependents).1[i]? =
      indegree[i]?.map fun v => v - (dependents.count i : Int) := by
  induction dependents generalizing indegree queue with
  | nil => simp [relax]
  | cons d rest ih =>
      have hmodify : ((indegree.modify d (· - 1))[i]?).map (fun v => v - (rest.count i : Int)) =
          indegree[i]?.map fun v => v - ((d :: rest).count i : Int) := by
        rw [List.getElem?_modify]
        rcases indegree[i]? with - | v
        · rfl
        · by_cases hd : d = i
          · simp only [hd, if_true, Option.map_eq_map, Option.map_some, List.count_cons_self,
              Nat.cast_add, Nat.cast_one, Option.some.injEq]
            omega
          · simp [hd]
      simp only [relax]
      split
      · rw [ih, hmodify]
      · rw [ih, hmodify]

/-- Only a step whose degree was still positive is queued. -/
theorem relax_settled {indegree : List Int} {seen queue : List Nat} (dependents : List Nat)
    (h : Settled indegree (seen ++ queue)) :
    Settled (relax indegree queue dependents).1 (seen ++ (relax indegree queue dependents).2) := by
  induction dependents generalizing indegree queue with
  | nil => exact h
  | cons d rest ih =>
      obtain ⟨hnodup, hzero⟩ := h
      have hmodify : ∀ i ∈ seen ++ queue, ∃ v ≤ 0, (indegree.modify d (· - 1))[i]? = some v := by
        intro i hi
        obtain ⟨v, hv, hget⟩ := hzero i hi
        rw [List.getElem?_modify, hget]
        by_cases hd : d = i
        · exact ⟨v - 1, by omega, by simp [hd]⟩
        · exact ⟨v, hv, by simp [hd]⟩
      simp only [relax]
      split
      · -- the degree has just become zero, so `d` was neither visited nor queued
        rename_i hlast
        have hfresh : d ∉ seen ++ queue := by
          intro hmem
          obtain ⟨v, hv, hget⟩ := hzero d hmem
          rw [List.getElem?_modify, hget] at hlast
          simp only [if_true, Option.map_eq_map, Option.map_some, Option.some.injEq] at hlast
          omega
        apply ih
        rw [← List.append_assoc]
        refine ⟨List.nodup_append.mpr ⟨hnodup, List.nodup_singleton d, ?_⟩, ?_⟩
        · rintro i hi j hj rfl
          rw [List.mem_singleton] at hj
          exact hfresh (hj ▸ hi)
        · intro i hi
          rcases List.mem_append.mp hi with hi | hi
          · exact hmodify i hi
          · rw [List.mem_singleton.mp hi]
            exact ⟨0, le_rfl, hlast⟩
      · exact ih ⟨hnodup, hmodify⟩

theorem countP_not_mem_cons {current : Nat} {done : List Nat} (h : current ∉ done) (l : List Nat) :
    l.countP (· ∉ done) = l.countP (· ∉ current :: done) + l.count current := by
  induction l with
  | nil => rfl
  | cons x rest ih =>
      by_cases hx : x = current
      · subst hx
        simp only [List.countP_cons, List.count_cons_self, ih, h, not_false_eq_true, decide_true,
          if_true, List.mem_cons_self, not_true_eq_false, decide_false, Bool.false_eq_true,
          if_false]
        omega
      · simp only [List.countP_cons, List.count_cons_of_ne hx, ih, List.mem_cons, hx, false_or]
        omega

/-- Where the queue loop stands: `done` has been visited, and the degree of a step is the
number of its dependencies that are not among them. -/
structure Visiting (deps : Nat → List Nat) (n : Nat) (done : List Nat) (indegree : List Int)
    (queue : List Nat) : Prop where
  degree : ∀ i, indegree[i]? =
    if i < n then some ((deps i).countP (· ∉ done) : Int) else none
  settled : Settled indegree (done ++ queue)

section Loop

variable {deps : Nat → List Nat} {n : Nat} {done queue : List Nat} {indegree : List Int}
  {current : Nat} {dependents : List Nat}

theorem Visiting.ready (h : Visiting deps n done indegree (current :: queue)) :
    current < n ∧ ∀ d ∈ deps current, d ∈ done := by
  obtain ⟨v, hv, hget⟩ := h.settled.2 current (by simp)
  rw [h.degree] at hget
  split at hget
  · refine ⟨‹_›, ?_⟩
    intro d hd
    have hcount : (deps current).countP (· ∉ done) = 0 := by
      have hvalue := Option.some.inj hget
      omega
    simpa using List.countP_eq_zero.mp hcount d hd
  · cases hget

theorem Visiting.visit (h : Visiting deps n done indegree (current :: queue))
    (hdependents : ∀ i, dependents.count i = (deps i).count current) :
    Visiting deps n (current :: done) (relax indegree queue dependents).1
      (relax indegree queue dependents).2 := by
  have hperm : (done ++ current :: queue).Perm ((current :: done) ++ queue) := List.perm_middle
  have hnew : current ∉ done := by
    have hnodup := hperm.nodup_iff.mp h.settled.1
    rw [List.cons_append, List.nodup_cons] at hnodup
    exact fun hmem => hnodup.1 (List.mem_append_left queue hmem)
  refine ⟨?_, relax_settled dependents
    ⟨hperm.nodup_iff.mp h.settled.1, fun i hi => h.settled.2 i (hperm.mem_iff.mpr hi)⟩⟩
  intro i
  rw [relax_degree, h.degree]
  split
  · rw [Option.map_some, hdependents, countP_not_mem_cons hnew (deps i), Nat.cast_add,
      Int.add_sub_cancel]
  · rfl

theorem Visiting.nodup (h : Visiting deps n done indegree queue) : (done ++ []).Nodup := by
  rw [List.append_nil]
  exact h.settled.1.of_append_left

/-- What the loop counts are the steps of an order that respects the dependencies. -/
theorem visitSteps_order {dependents : List (List Nat)} (fuel visited : Nat)
    (h : Visiting deps n done indegree queue)
    (hdependents : ∀ j < n, ∀ i, (dependents.getD j []).count i = (deps i).count j) :
    ∃ order, visitSteps dependents fuel indegree queue visited = visited + order.length ∧
      (done ++ order).Nodup ∧ (∀ i ∈ order, i < n) ∧ Dataflow.ReadyOrder id deps done order := by
  induction fuel generalizing done indegree queue visited with
  | zero => exact ⟨[], rfl, h.nodup, by simp, trivial⟩
  | succ fuel ih =>
      rcases queue with - | ⟨current, queue⟩
      · exact ⟨[], rfl, h.nodup, by simp, trivial⟩
      obtain ⟨hlt, hready⟩ := h.ready
      obtain ⟨order, hcount, hnodup, hbound, horder⟩ :=
        ih (visited + 1) (h.visit (hdependents current hlt))
      refine ⟨current :: order, ?_, ?_, ?_, hready, horder⟩
      · rw [List.length_cons, Nat.add_comm order.length 1, ← Nat.add_assoc, ← hcount]
        rfl
      · exact List.perm_middle.nodup_iff.mpr hnodup
      · exact List.forall_mem_cons.mpr ⟨hlt, hbound⟩

end Loop

/-! ### Accepted Workflows -/

section Accepted

variable {ids : Table Nat} {steps : List WorkflowStep}

/-- At the start nothing is visited, and a degree is the number of all dependencies. -/
theorem visiting_start (ids : Table Nat) (steps : List WorkflowStep) :
    Visiting (dependencyIndices ids steps) steps.length []
      (steps.map fun step => (step.dependsOn.length : Int))
      ((List.range steps.length).filter fun index =>
        (steps.map fun step => (step.dependsOn.length : Int))[index]? = some 0) := by
  refine ⟨?_, ?_, ?_⟩
  · intro i
    rw [List.getElem?_map]
    rcases hi : steps[i]? with - | step
    · rw [if_neg (Nat.not_lt.mpr (List.getElem?_eq_none_iff.mp hi))]
      rfl
    · rw [if_pos (List.getElem?_eq_some_iff.mp hi).1]
      simp [dependencyIndices, hi]
  · exact List.nodup_range.filter _
  · intro i hi
    have hzero := (List.mem_filter.mp hi).2
    exact ⟨0, le_rfl, of_decide_eq_true hzero⟩

theorem validateWorkflowDAG_ok (h : validateWorkflowDAG steps ids = .ok ()) :
    ∃ order : List Nat, order.Perm (List.range steps.length) ∧
      Dataflow.ReadyOrder id (dependencyIndices ids steps) [] order := by
  simp only [validateWorkflowDAG] at h
  split at h
  · cases h
  rename_i hvisited
  obtain ⟨order, hcount, hnodup, hbound, horder⟩ :=
    visitSteps_order steps.length 0 (visiting_start ids steps) fun j hj =>
      count_dependentsOf ids steps hj
  -- distinct indices below `n`, and `n` of them
  refine ⟨order, ?_, horder⟩
  have hlength : order.length = steps.length := by
    rw [hcount, Nat.zero_add] at hvisited
    exact not_not.mp hvisited
  have hsub : order.Subperm (List.range steps.length) :=
    List.Nodup.subperm hnodup fun i hi => List.mem_range.mpr (hbound i hi)
  exact hsub.perm_of_length_le (by simp [hlength])

/-- From indices to steps. -/
theorem readyOrder_steps (hids : ∀ d j, ids.lookup d = some j → ∃ a, steps[j]? = some a ∧ a.id = d)
    (hknown : ∀ a ∈ steps, ∀ d ∈ a.dependsOn, (ids.lookup d).isSome) {done order : List Nat}
    {names : List String} (hnames : ∀ j ∈ done, ∀ a, steps[j]? = some a → a.id ∈ names)
    (h : Dataflow.ReadyOrder id (dependencyIndices ids steps) done order) :
    Dataflow.ReadyOrder WorkflowStep.id WorkflowStep.dependsOn names
      (order.filterMap fun i => steps[i]?) := by
  induction order generalizing done names with
  | nil => trivial
  | cons i rest ih =>
      obtain ⟨hready, hrest⟩ := h
      rcases hi : steps[i]? with - | a
      · -- an index out of range stands for no step and for no name
        rw [List.filterMap_cons_none hi]
        refine ih ?_ hrest
        intro j hj b hb
        rcases List.mem_cons.mp hj with hj | hj
        · rw [hj, id, hi] at hb
          cases hb
        · exact hnames j hj b hb
      · rw [List.filterMap_cons_some hi]
        refine ⟨?_, ih ?_ hrest⟩
        · intro d hd
          obtain ⟨j, hj⟩ := Option.isSome_iff_exists.mp
            (hknown a (List.mem_of_getElem? hi) d hd)
          obtain ⟨b, hb, rfl⟩ := hids d j hj
          refine hnames j (hready j ?_) b hb
          have hmem : ids.getD b.id 0 ∈ dependencyIndices ids steps i := by
            rw [dependencyIndices, hi]
            exact List.mem_map_of_mem hd
          rwa [Table.getD, hj] at hmem
        · intro j hj b hb
          rcases List.mem_cons.mp hj with hj | hj
          · rw [hj, id, hi] at hb
            obtain rfl := Option.some.inj hb
            exact List.mem_cons_self
          · exact List.mem_cons_of_mem _ (hnames j hj b hb)

end Accepted

theorem filterMap_range_getElem? {α : Type*} (l : List α) :
    (List.range l.length).filterMap (fun i => l[i]?) = l := by
  induction l with
  | nil => rfl
  | cons a rest ih =>
      rw [List.length_cons, List.range_succ_eq_map, List.filterMap_cons, List.filterMap_map]
      exact congrArg (a :: ·) ih

/-- **An accepted Workflow has a topological order.** -/
theorem exists_topologicalOrder {w accepted : Workflow} {now : Time}
    (h : w.initializeForCreate now = .ok accepted) : ∃ order, TopologicalOrder accepted order := by
  obtain ⟨-, -, -, steps, ids, hnormal, hvalidate, hdag, -⟩ := initializeForCreate_iff.mp h
  obtain ⟨-, -, hids⟩ := initializeSteps_iff.mp hnormal
  obtain ⟨hvalid, haccepted⟩ := validateSteps_iff.mp hvalidate
  obtain ⟨order, hperm, horder⟩ := validateWorkflowDAG_ok hdag
  refine ⟨order.filterMap fun i => accepted.steps[i]?, ?_, readyOrder_steps ?_ ?_ (by simp) horder⟩
  · have hfilter := hperm.filterMap fun i => accepted.steps[i]?
    rwa [filterMap_range_getElem?] at hfilter
  · intro d j hj
    rw [← hids] at hj
    obtain hnone | ⟨k, rfl, hk⟩ := lookup_indexSteps hj
    · simp at hnone
    · rw [← WorkflowStep.ids_withDefault, haccepted, List.getElem?_map,
        Option.map_eq_some_iff] at hk
      obtain ⟨b, hb, hid⟩ := hk
      exact ⟨b, by rwa [Nat.zero_add], hid⟩
  · rw [← haccepted, List.forall_mem_map]
    intro a ha d hd
    obtain ⟨aggregation, hdefault⟩ := a.withDefault_eq
    rw [hdefault] at hd
    exact ((hvalid a ha).dependsOn d hd).2

end AgentMesh
