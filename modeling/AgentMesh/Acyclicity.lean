/-
AgentMesh/Acyclicity.lean

The cycle check of `InitializeForCreate` is exact.

`CycleCheck.lean` shows that the steps can be ordered if the check passes.  Here
is the converse.  A step whose dependencies are all visited is visited or queued
(`Caught`), so when the queue is empty every step that is left depends on one
that is left, and in an acyclic graph none is left.

`Visits` is the queue loop without a bound on its length.  It ends, since no step
is queued twice, and after as many rounds as there are steps at most
(`visitSteps_visits`).
-/
import AgentMesh.CycleCheck

namespace AgentMesh

open Dataflow

/-- The loop over the queue runs to its end and has then visited so many steps. -/
inductive Visits (dependents : List (List Nat)) : List Int → List Nat → Nat → Nat → Prop
  | done {indegree : List Int} {visited : Nat} : Visits dependents indegree [] visited visited
  | visit {indegree : List Int} {current visited total : Nat} {queue : List Nat}
      (rest : Visits dependents (relax indegree queue (dependents.getD current [])).1
        (relax indegree queue (dependents.getD current [])).2 (visited + 1) total) :
      Visits dependents indegree (current :: queue) visited total

/-- The index of each ID, as the first loop of `InitializeForCreate` collects it. -/
def stepIndices (steps : List WorkflowStep) : Table Nat :=
  steps.zipIdx.foldl (fun ids entry => ids.insert entry.1.id entry.2) ∅

/-- The degrees the loop starts from. -/
def startDegrees (steps : List WorkflowStep) : List Int :=
  steps.map fun step => (step.dependsOn.length : Int)

/-- The queue the loop starts from. -/
def startQueue (steps : List WorkflowStep) : List Nat :=
  (List.range steps.length).filter fun index => (startDegrees steps)[index]? = some 0

/-! ### No step is forgotten -/

/-- A step whose dependencies are all visited is visited or queued. -/
def Caught (deps : Nat → List Nat) (n : Nat) (done queue : List Nat) : Prop :=
  ∀ i < n, (∀ d ∈ deps i, d ∈ done) → i ∈ done ++ queue

/-- A step stays queued, and is queued when its last dependency is visited. -/
theorem relax_queues {indegree : List Int} {queue dependents : List Nat} {i : Nat} {v : Int}
    (hget : indegree[i]? = some v) (h : i ∈ queue ∨ 0 < v ∧ v = dependents.count i) :
    i ∈ (relax indegree queue dependents).2 := by
  induction dependents generalizing indegree queue v with
  | nil =>
      rcases h with h | ⟨hpos, hzero⟩
      · exact h
      · rw [List.count_nil] at hzero
        omega
  | cons d rest ih =>
      simp only [relax]
      by_cases hd : d = i
      · subst hd
        have hmodify : (indegree.modify d (· - 1))[d]? = some (v - 1) := by
          rw [List.getElem?_modify, hget]
          simp
        split
        · exact ih hmodify (.inl (by simp))
        · rename_i hlast
          refine ih hmodify (h.imp_right ?_)
          rintro ⟨hpos, hcount⟩
          rw [List.count_cons_self] at hcount
          have hne : v - 1 ≠ 0 := fun h0 => hlast (hmodify.trans (congrArg some h0))
          omega
      · have hmodify : (indegree.modify d (· - 1))[i]? = some v := by
          rw [List.getElem?_modify, hget]
          simp [hd]
        rw [List.count_cons_of_ne hd] at h
        split
        · exact ih hmodify (h.imp_left (List.mem_append_left _))
        · exact ih hmodify h

section Loop

variable {deps : Nat → List Nat} {n : Nat} {done queue : List Nat}
  {indegree : List Int} {current : Nat} {dependents : List Nat}

theorem Visiting.catches (h : Visiting deps n done indegree (current :: queue))
    (hcaught : Caught deps n done (current :: queue))
    (hdependents : ∀ i, dependents.count i = (deps i).count current) :
    Caught deps n (current :: done) (relax indegree queue dependents).2 := by
  intro i hi hdone
  have hget : indegree[i]? = some ((deps i).countP (· ∉ done) : Int) := by
    rw [h.degree, if_pos hi]
  by_cases hready : ∀ d ∈ deps i, d ∈ done
  · -- it was caught before
    rcases List.mem_append.mp (hcaught i hi hready) with hmem | hmem
    · exact List.mem_append_left _ (List.mem_cons_of_mem _ hmem)
    · rcases List.mem_cons.mp hmem with rfl | hmem
      · exact List.mem_append_left _ List.mem_cons_self
      · exact List.mem_append_right _ (relax_queues hget (.inl hmem))
  · -- its only open dependency is the step that is visited
    refine List.mem_append_right _ (relax_queues hget (.inr ⟨?_, ?_⟩))
    · push Not at hready
      obtain ⟨d, hd, hopen⟩ := hready
      have hpos : 0 < (deps i).countP (· ∉ done) := List.countP_pos_iff.mpr ⟨d, hd, by simpa⟩
      omega
    · rw [hdependents, Nat.cast_inj, List.count_eq_countP]
      refine List.countP_congr ?_
      intro d hd
      have hnew : current ∉ done := by
        have hnodup := (List.perm_middle.nodup_iff).mp h.settled.1
        exact fun hmem => (List.nodup_cons.mp hnodup).1 (List.mem_append_left queue hmem)
      rcases List.mem_cons.mp (hdone d hd) with rfl | hmem
      · simp [hnew]
      · have hne : d ≠ current := fun heq => hnew (heq ▸ hmem)
        simp [hmem, hne]

/-- Visited and queued steps are different steps of the Workflow. -/
theorem Visiting.length_le (h : Visiting deps n done indegree queue) :
    (done ++ queue).length ≤ n := by
  have hsub : (done ++ queue).Subperm (List.range n) := by
    refine List.Nodup.subperm h.settled.1 ?_
    intro i hi
    obtain ⟨v, -, hget⟩ := h.settled.2 i hi
    rw [h.degree] at hget
    split at hget
    · exact List.mem_range.mpr ‹_›
    · cases hget
  exact hsub.length_le.trans (List.length_range ..).le

/-- The loop ends.  Nothing is queued then, and what it has counted are the steps in `done`. -/
theorem visitSteps_visits {dependents : List (List Nat)} (fuel visited : Nat)
    (h : Visiting deps n done indegree queue)
    (hcaught : Caught deps n done queue)
    (hdependents : ∀ j < n, ∀ i, (dependents.getD j []).count i = (deps i).count j)
    (hfuel : n ≤ done.length + fuel) :
    ∃ done' indegree', Visits dependents indegree queue visited
        (visitSteps dependents fuel indegree queue visited) ∧
      visitSteps dependents fuel indegree queue visited + done.length = visited + done'.length ∧
      Visiting deps n done' indegree' [] ∧ Caught deps n done' [] := by
  induction fuel generalizing done indegree queue visited with
  | zero =>
      have hlength := h.length_le
      rw [List.length_append] at hlength
      obtain rfl : queue = [] := List.length_eq_zero_iff.mp (by omega)
      exact ⟨done, indegree, .done, rfl, h, hcaught⟩
  | succ fuel ih =>
      rcases queue with - | ⟨current, queue⟩
      · exact ⟨done, indegree, .done, rfl, h, hcaught⟩
      have hcurrent := hdependents current h.ready.1
      obtain ⟨done', indegree', hvisits, hcount, h', hcaught'⟩ := ih (visited + 1)
        (h.visit hcurrent) (h.catches hcaught hcurrent) (by rw [List.length_cons]; omega)
      refine ⟨done', indegree', .visit hvisits, ?_, h', hcaught'⟩
      show visitSteps dependents fuel _ _ (visited + 1) + done.length = _
      rw [List.length_cons] at hcount
      omega

end Loop

/-! ### The check -/

section Check

variable {steps : List WorkflowStep}

/-- What is found under an ID is the index of a step with this ID. -/
theorem foldl_indices_lookup (k : Nat) (ids : Table Nat) {d : String} {j : Nat}
    (h : ((steps.zipIdx k).foldl (fun ids entry => ids.insert entry.1.id entry.2) ids).lookup d
      = some j) :
    ids.lookup d = some j ∨ ∃ i a, j = k + i ∧ steps[i]? = some a ∧ a.id = d := by
  induction steps generalizing k ids with
  | nil => exact .inl h
  | cons step rest ih =>
      rw [List.zipIdx_cons, List.foldl_cons] at h
      rcases ih (k + 1) _ h with hids | ⟨i, a, rfl, ha, hid⟩
      · rw [Table.lookup_insert_eq] at hids
        split at hids
        · exact .inr ⟨0, step, (Option.some.inj hids).symm, rfl, ‹d = _›.symm⟩
        · exact .inl hids
      · exact .inr ⟨i + 1, a, by omega, ha, hid⟩

/-- Every ID is found. -/
theorem foldl_indices_isSome (k : Nat) (ids : Table Nat) {d : String}
    (h : (ids.lookup d).isSome ∨ ∃ a ∈ steps, a.id = d) :
    (((steps.zipIdx k).foldl (fun ids entry => ids.insert entry.1.id entry.2) ids).lookup d).isSome
      := by
  induction steps generalizing k ids with
  | nil => exact h.resolve_right (by simp)
  | cons step rest ih =>
      rw [List.zipIdx_cons, List.foldl_cons]
      apply ih
      rw [Table.lookup_insert_eq]
      rcases h with h | ⟨a, ha, hid⟩
      · refine .inl ?_
        split
        · rfl
        · exact h
      · rcases List.mem_cons.mp ha with rfl | ha
        · rw [if_pos hid.symm]
          exact .inl rfl
        · exact .inr ⟨a, ha, hid⟩

theorem stepIndices_lookup {d : String} {j : Nat} (h : (stepIndices steps).lookup d = some j) :
    ∃ a, steps[j]? = some a ∧ a.id = d := by
  rcases foldl_indices_lookup 0 ∅ h with hnone | ⟨i, a, rfl, ha, hid⟩
  · cases hnone
  · rw [Nat.zero_add]
    exact ⟨a, ha, hid⟩

theorem stepIndices_isSome {d : String} (h : ∃ a ∈ steps, a.id = d) :
    ((stepIndices steps).lookup d).isSome :=
  foldl_indices_isSome 0 ∅ (.inr h)

/-- The step at an index depends on the steps at the indices of its dependencies. -/
theorem needs_of_index {i j : Nat}
    (hrefs : ∀ a ∈ steps, ∀ d ∈ a.dependsOn, ∃ b ∈ steps, b.id = d)
    (h : Needs id (dependencyIndices (stepIndices steps) steps) (List.range steps.length) i j) :
    ∃ a b, steps[i]? = some a ∧ steps[j]? = some b ∧ b.id ∈ a.dependsOn := by
  obtain ⟨i, hi, rfl, hj⟩ := h
  rcases ha : steps[i]? with - | a
  · rw [dependencyIndices, ha] at hj
    cases hj
  · rw [dependencyIndices, ha] at hj
    obtain ⟨d, hd, rfl⟩ := List.mem_map.mp hj
    obtain ⟨j, hj⟩ := Option.isSome_iff_exists.mp
      (stepIndices_isSome (hrefs a (List.mem_of_getElem? ha) d hd))
    obtain ⟨b, hb, rfl⟩ := stepIndices_lookup hj
    refine ⟨a, b, ha, ?_, hd⟩
    rw [Table.getD, hj]
    exact hb

/-- A cycle of indices is a cycle of steps. -/
theorem acyclic_indices (hrefs : ∀ a ∈ steps, ∀ d ∈ a.dependsOn, ∃ b ∈ steps, b.id = d)
    (h : Acyclic WorkflowStep.id WorkflowStep.dependsOn steps) :
    Acyclic id (dependencyIndices (stepIndices steps) steps) (List.range steps.length) := by
  intro i hcycle
  refine h _ (hcycle.lift (fun i => ((steps[i]?).map WorkflowStep.id).getD "") ?_)
  intro i j hneeds
  obtain ⟨a, b, ha, hb, hmem⟩ := needs_of_index hrefs hneeds
  refine ⟨a, List.mem_of_getElem? ha, ?_, ?_⟩
  · show a.id = ((steps[i]?).map WorkflowStep.id).getD ""
    rw [ha]
    rfl
  · show ((steps[j]?).map WorkflowStep.id).getD "" ∈ a.dependsOn
    rw [hb]
    exact hmem

/-- In an acyclic graph the loop visits every step. -/
theorem Caught.length_eq {deps : Nat → List Nat} {n : Nat} {done : List Nat} {indegree : List Int}
    (hcaught : Caught deps n done []) (h : Visiting deps n done indegree [])
    (hacyclic : Acyclic id deps (List.range n)) (hdeps : ∀ i < n, ∀ d ∈ deps i, d < n) :
    done.length = n := by
  have hall : ∀ i ∈ List.range n, i ∈ done := by
    by_contra hleft
    push Not at hleft
    obtain ⟨i, hi, hopen⟩ := hleft
    obtain ⟨j, hj, hopen', hready⟩ := hacyclic.exists_ready (p := (· ∈ done)) hi hopen
    have hj := List.mem_range.mp hj
    have hmem := hcaught j hj fun d hd =>
      hready d hd (by rw [List.map_id]; exact List.mem_range.mpr (hdeps j hj d hd))
    rw [List.append_nil] at hmem
    exact hopen' hmem
  have hle := h.length_le
  rw [List.append_nil] at hle
  have hge : (List.range n).length ≤ done.length :=
    (List.nodup_range.subperm hall).length_le
  rw [List.length_range] at hge
  omega

/-- The steps without dependencies are the queue the loop starts from. -/
theorem caught_start (ids : Table Nat) (steps : List WorkflowStep) :
    Caught (dependencyIndices ids steps) steps.length [] (startQueue steps) := by
  intro i hi hdone
  refine List.mem_filter.mpr ⟨List.mem_range.mpr hi, decide_eq_true ?_⟩
  have hempty : dependencyIndices ids steps i = [] :=
    List.eq_nil_iff_forall_not_mem.mpr fun d hd => List.not_mem_nil (hdone d hd)
  rw [startDegrees, (visiting_start ids steps).degree, if_pos hi, hempty]
  rfl

/-- The check passes exactly when the loop ends with every step visited. -/
theorem validateWorkflowDAG_visits (ids : Table Nat) (steps : List WorkflowStep) :
    ∃ done indegree, Visits (dependentsOf ids steps) (startDegrees steps) (startQueue steps) 0
        done.length ∧
      Visiting (dependencyIndices ids steps) steps.length done indegree [] ∧
      Caught (dependencyIndices ids steps) steps.length done [] ∧
      (validateWorkflowDAG steps ids = .ok () ↔ done.length = steps.length) := by
  obtain ⟨done, indegree, hvisits, hcount, hend, hcaught⟩ :=
    visitSteps_visits steps.length 0 (visiting_start ids steps) (caught_start ids steps)
      (fun j hj => count_dependentsOf ids steps hj) (by simp)
  rw [List.length_nil, Nat.add_zero, Nat.zero_add] at hcount
  refine ⟨done, indegree, hcount ▸ hvisits, hend, hcaught, ?_⟩
  simp only [validateWorkflowDAG, hcount]
  split
  · simpa using ‹_›
  · exact ⟨fun _ => not_not.mp ‹_›, fun _ => rfl⟩

/-- Steps that pass the check can be ordered such that dependencies come first. -/
theorem exists_order_of_ok (hrefs : ∀ a ∈ steps, ∀ d ∈ a.dependsOn, ∃ b ∈ steps, b.id = d)
    (h : validateWorkflowDAG steps (stepIndices steps) = .ok ()) :
    ∃ order, order.Perm steps ∧
      ReadyOrder WorkflowStep.id WorkflowStep.dependsOn [] order := by
  obtain ⟨order, hperm, hready⟩ := validateWorkflowDAG_ok h
  refine ⟨order.filterMap fun i => steps[i]?, ?_, readyOrder_steps
    (fun d j hj => stepIndices_lookup hj)
    (fun a ha d hd => stepIndices_isSome (hrefs a ha d hd)) (by simp) hready⟩
  have hfilter := hperm.filterMap fun i => steps[i]?
  rwa [filterMap_range_getElem?] at hfilter

/-- Steps that can be ordered such that dependencies come first have no cycle. -/
theorem acyclic_of_order (hkeys : (steps.map WorkflowStep.id).Nodup) {order : List WorkflowStep}
    (hperm : order.Perm steps)
    (hready : ReadyOrder WorkflowStep.id WorkflowStep.dependsOn [] order) :
    Acyclic WorkflowStep.id WorkflowStep.dependsOn steps := by
  have h := hready.acyclic ((hperm.map WorkflowStep.id).nodup_iff.mpr hkeys)
  intro d hcycle
  refine h d (hcycle.lift id ?_)
  rintro d e ⟨a, ha, hid, he⟩
  exact ⟨a, hperm.mem_iff.mpr ha, hid, he⟩

/-- Steps without a cycle pass the check. -/
theorem ok_of_acyclic (hrefs : ∀ a ∈ steps, ∀ d ∈ a.dependsOn, ∃ b ∈ steps, b.id = d)
    (h : Acyclic WorkflowStep.id WorkflowStep.dependsOn steps) :
    validateWorkflowDAG steps (stepIndices steps) = .ok () := by
  obtain ⟨done, indegree, -, hend, hcaught, hok⟩ :=
    validateWorkflowDAG_visits (stepIndices steps) steps
  refine hok.mpr (hcaught.length_eq hend (acyclic_indices hrefs h) ?_)
  intro i hi d hd
  obtain ⟨a, b, -, hb, -⟩ := needs_of_index hrefs ⟨i, List.mem_range.mpr hi, rfl, hd⟩
  exact (List.getElem?_eq_some_iff.mp hb).1

end Check

/-- **The cycle check is exact.**  For steps with different IDs that depend on steps of the
Workflow, the loop over the queue ends, and the check passes if and only if it has visited every
step; this is the case if and only if no step depends on itself through others, and if and only
if the steps can be ordered such that every dependency comes before its dependents. -/
theorem validateWorkflowDAG_exact {steps : List WorkflowStep}
    (hkeys : (steps.map WorkflowStep.id).Nodup)
    (hrefs : ∀ a ∈ steps, ∀ d ∈ a.dependsOn, ∃ b ∈ steps, b.id = d) :
    (∃ visited, Visits (dependentsOf (stepIndices steps) steps) (startDegrees steps)
        (startQueue steps) 0 visited ∧
      (validateWorkflowDAG steps (stepIndices steps) = .ok () ↔ visited = steps.length)) ∧
    (validateWorkflowDAG steps (stepIndices steps) = .ok () ↔
      Acyclic WorkflowStep.id WorkflowStep.dependsOn steps) ∧
    (Acyclic WorkflowStep.id WorkflowStep.dependsOn steps ↔
      ∃ order, order.Perm steps ∧
        ReadyOrder WorkflowStep.id WorkflowStep.dependsOn [] order) := by
  obtain ⟨done, indegree, hvisits, -, -, hok⟩ :=
    validateWorkflowDAG_visits (stepIndices steps) steps
  refine ⟨⟨done.length, hvisits, hok⟩, ⟨?_, ok_of_acyclic hrefs⟩, ⟨?_, ?_⟩⟩
  · intro h
    obtain ⟨order, hperm, hready⟩ := exists_order_of_ok hrefs h
    exact acyclic_of_order hkeys hperm hready
  · exact fun h => exists_order_of_ok hrefs (ok_of_acyclic hrefs h)
  · rintro ⟨order, hperm, hready⟩
    exact acyclic_of_order hkeys hperm hready

/-- Two steps, one after the other. -/
theorem validateWorkflowDAG_exact_chain :
    Acyclic WorkflowStep.id WorkflowStep.dependsOn
      [{ id := "draft", agentID := "writer" },
       { id := "review", agentID := "critic", dependsOn := ["draft"] }] :=
  (validateWorkflowDAG_exact (by decide) (by decide)).2.1.mp (by decide)

end AgentMesh
