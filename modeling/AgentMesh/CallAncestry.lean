/-
AgentMesh/CallAncestry.lean

`agentCallAncestry`: the walk from the parent of an Agent call up to the root of its
lineage.

The store is taken as it is found, with any lineage: cycles, Runs that are their own
parent, parents that are missing.  `walkAncestry` is the loop with a bound on its store
reads.  Every Run that it reads is a new one, so it needs no more reads than there are
Runs (`Walking.ends`).  It returns an error exactly if the way up comes to a Run twice
or leaves the store, and otherwise what it says of the lineage is exact.

The handler of an Agent call makes the same walk, one store read in each of its
actions (`exec_ancestry`).
-/
import AgentMesh.Lineage
import AgentMesh.Submit

namespace AgentMesh

open Machine

/-! ### The walk -/

/-- The loop of `agentCallAncestry`, with at most `reads` calls of `GetRun`; `none` if it needs
more of them. -/
def walkAncestry (m : Memory) (reads : Nat) (current : Run) (depth : Int)
    (agents seenRuns : List String) : Option (Except Err (Int × List String)) :=
  if current.parentRunID = "" then some (.ok (depth, agents))
  else if current.parentRunID ∈ seenRuns then
    some (.error (errorf "Run ancestry contains a cycle"))
  else
    match reads with
    | 0 => none
    | reads + 1 =>
        match m.getRun current.parentRunID with
        | .error err => some (.error err)
        | .ok ancestor =>
            walkAncestry m reads ancestor (depth + 1) (ancestor.agentID :: agents)
              (ancestor.id :: seenRuns)

/-- `agentCallAncestry`: the depth of a call from the Run, and the Agents that take part. -/
def Memory.agentCallAncestryWithin (m : Memory) (reads : Nat) (parent : Run) :
    Option (Except Err (Int × List String)) :=
  walkAncestry m reads parent 1 [parent.agentID] [parent.id]

/-- One of these Runs is for the Agent. -/
def Memory.Involves (m : Memory) (ids : List String) (agentID : String) : Prop :=
  ∃ id ∈ ids, ∃ run, m.runs.lookup id = some run ∧ run.agentID = agentID

/-- What the lineage of a Run lets the walk return. -/
def Memory.AncestryResult (m : Memory) (start : Run) : Except Err (Int × List String) → Prop
  | .ok (depth, agents) =>
      ∃ above, Ancestry m.parentOf start.id above ∧ depth = above.length + 1 ∧
        ∀ agentID, agentID ∈ agents ↔ m.Involves (start.id :: above) agentID
  | .error _ => Revisits m.parentOf start.id ∨ Leaves m.parentOf start.id

/-- The walk has come from `start` to `current`. -/
structure Walking (m : Memory) (start current : Run) (above agents seenRuns : List String) :
    Prop where
  climb : Climb m.parentOf start.id above current.id
  found : m.runs.lookup current.id = some current
  nodup : (start.id :: above).Nodup
  stored : start.id :: above ⊆ m.runs.keys
  seen : ∀ id, id ∈ seenRuns ↔ id ∈ start.id :: above
  agents : ∀ agentID, agentID ∈ agents ↔ m.Involves (start.id :: above) agentID

section Walk

variable {m : Memory} {start current ancestor : Run} {above agents seenRuns : List String}
  {reads reads' : Nat} {depth : Int} {result : Except Err (Int × List String)}

/-! The four cases of the loop. -/

theorem walkAncestry_root (hroot : current.parentRunID = "") :
    walkAncestry m reads current depth agents seenRuns = some (.ok (depth, agents)) := by
  cases reads <;> rw [walkAncestry, if_pos hroot]

theorem walkAncestry_seen (hne : current.parentRunID ≠ "")
    (hseen : current.parentRunID ∈ seenRuns) :
    walkAncestry m reads current depth agents seenRuns
      = some (.error (errorf "Run ancestry contains a cycle")) := by
  cases reads <;> rw [walkAncestry, if_neg hne, if_pos hseen]

theorem walkAncestry_succ (hne : current.parentRunID ≠ "")
    (hnew : current.parentRunID ∉ seenRuns) :
    walkAncestry m (reads + 1) current depth agents seenRuns
      = match m.getRun current.parentRunID with
        | .error err => some (.error err)
        | .ok ancestor =>
            walkAncestry m reads ancestor (depth + 1) (ancestor.agentID :: agents)
              (ancestor.id :: seenRuns) := by
  rw [walkAncestry, if_neg hne, if_neg hnew]

theorem walking_start (hstart : m.runs.lookup start.id = some start) :
    Walking m start start [] [start.agentID] [start.id] where
  climb := .start
  found := hstart
  nodup := List.nodup_singleton _
  stored := by
    intro id hid
    rw [List.mem_singleton.mp hid]
    exact AList.mem_keys.mp (AList.lookup_isSome.mp (by rw [hstart]; rfl))
  seen _ := Iff.rfl
  agents agentID := by
    rw [List.mem_singleton]
    constructor
    · rintro rfl
      exact ⟨start.id, List.mem_singleton_self _, start, hstart, rfl⟩
    · rintro ⟨id, hid, run, hrun, rfl⟩
      rw [List.mem_singleton.mp hid, hstart] at hrun
      rw [Option.some.inj hrun]

namespace Walking

variable (h : Walking m start current above agents seenRuns)

include h

theorem parentOf (hne : current.parentRunID ≠ "") :
    m.parentOf current.id = some (some current.parentRunID) := by
  rw [Memory.parentOf_of_lookup h.found, if_neg hne]

/-- The Runs on the way are different ones, so there are not more of them than Runs. -/
theorem length_lt : above.length < m.runs.keys.length :=
  (h.nodup.subperm h.stored).length_le

/-- **The walk goes on** with a Run that it has not seen. -/
theorem up (hids : ∀ id run, m.runs.lookup id = some run → run.id = id)
    (hne : current.parentRunID ≠ "") (hnew : current.parentRunID ∉ seenRuns)
    (hfound : m.runs.lookup current.parentRunID = some ancestor) :
    Walking m start ancestor (above ++ [ancestor.id]) (ancestor.agentID :: agents)
      (ancestor.id :: seenRuns) := by
  have hid : ancestor.id = current.parentRunID := hids _ _ hfound
  rw [← hid] at hfound hnew
  have hmem : ∀ id, id ∈ start.id :: (above ++ [ancestor.id]) ↔
      id = ancestor.id ∨ id ∈ start.id :: above := by
    intro id
    rw [← List.cons_append, List.mem_append, List.mem_singleton, or_comm]
  refine ⟨h.climb.up (hid ▸ h.parentOf hne), hfound, ?_, ?_, ?_, ?_⟩
  · rw [← List.cons_append]
    refine h.nodup.append (List.nodup_singleton _) ?_
    rw [List.disjoint_singleton]
    exact fun hold => hnew ((h.seen _).mpr hold)
  · intro id hmem'
    rcases (hmem id).mp hmem' with rfl | hold
    · exact AList.mem_keys.mp (AList.lookup_isSome.mp (by rw [hfound]; rfl))
    · exact h.stored hold
  · intro id
    rw [hmem, List.mem_cons, h.seen]
  · intro agentID
    rw [List.mem_cons, h.agents]
    constructor
    · rintro (rfl | ⟨id, hold, run, hrun, hagent⟩)
      · exact ⟨ancestor.id, (hmem _).mpr (.inl rfl), ancestor, hfound, rfl⟩
      · exact ⟨id, (hmem _).mpr (.inr hold), run, hrun, hagent⟩
    · rintro ⟨id, hmem', run, hrun, hagent⟩
      rcases (hmem id).mp hmem' with rfl | hold
      · rw [hfound] at hrun
        obtain rfl := Option.some.inj hrun
        exact .inl hagent.symm
      · exact .inr ⟨id, hold, run, hrun, hagent⟩

theorem result_root (hroot : current.parentRunID = "") :
    m.AncestryResult start (.ok ((above.length : Int) + 1, agents)) := by
  have htop : Ancestry m.parentOf current.id [] :=
    .root (by rw [Memory.parentOf_of_lookup h.found, if_pos hroot])
  have hall := h.climb.ancestry htop
  rw [List.append_nil] at hall
  exact ⟨above, hall, rfl, h.agents⟩

theorem revisits (hne : current.parentRunID ≠ "") (hseen : current.parentRunID ∈ seenRuns) :
    Revisits m.parentOf start.id := by
  refine ⟨above ++ [current.parentRunID], _, h.climb.up (h.parentOf hne), ?_⟩
  rw [← List.cons_append]
  intro hnodup
  have hdisjoint := (List.nodup_append.mp hnodup).2.2
  exact hdisjoint _ ((h.seen _).mp hseen) _ (List.mem_singleton_self _) rfl

theorem leaves (hne : current.parentRunID ≠ "")
    (hnone : m.runs.lookup current.parentRunID = none) : Leaves m.parentOf start.id :=
  ⟨above, current.id, current.parentRunID, h.climb, h.parentOf hne, by
    rw [Memory.parentOf, hnone, Option.map_none]⟩

end Walking

/-- **The walk ends**, with as many reads as there are Runs that it has not come to. -/
theorem Walking.ends (hids : ∀ id run, m.runs.lookup id = some run → run.id = id)
    (h : Walking m start current above agents seenRuns)
    (hreads : m.runs.keys.length ≤ reads + above.length) :
    ∃ result, walkAncestry m reads current (above.length + 1) agents seenRuns = some result ∧
      m.AncestryResult start result := by
  induction reads generalizing current above agents seenRuns with
  | zero =>
      have hlt := h.length_lt
      omega
  | succ reads ih =>
      by_cases hroot : current.parentRunID = ""
      · exact ⟨_, walkAncestry_root hroot, h.result_root hroot⟩
      by_cases hseen : current.parentRunID ∈ seenRuns
      · exact ⟨_, walkAncestry_seen hroot hseen, .inl (h.revisits hroot hseen)⟩
      rw [walkAncestry_succ hroot hseen]
      rcases hget : m.getRun current.parentRunID with err | ancestor
      · have hnone : m.runs.lookup current.parentRunID = none := by
          rcases hlookup : m.runs.lookup current.parentRunID with - | run
          · rfl
          · rw [Memory.getRun_ok.mpr hlookup] at hget
            cases hget
        exact ⟨_, rfl, .inr (h.leaves hroot hnone)⟩
      · -- one Run more is on the way, one read less is left
        have hnext := h.up hids hroot hseen (Memory.getRun_ok.mp hget)
        have hlength : (above ++ [ancestor.id]).length = above.length + 1 := List.length_append
        have hdepth : (above.length : Int) + 1 + 1
            = ((above ++ [ancestor.id]).length : Int) + 1 := by
          rw [hlength, Int.natCast_add, Int.natCast_one]
        simp only [hdepth]
        exact ih hnext (by omega)

/-- Reads that are not needed do not matter. -/
theorem walkAncestry_mono (hle : reads ≤ reads')
    (h : walkAncestry m reads current depth agents seenRuns = some result) :
    walkAncestry m reads' current depth agents seenRuns = some result := by
  fun_induction walkAncestry m reads current depth agents seenRuns generalizing reads' with
  | case1 _ _ _ _ _ hroot =>
      rw [walkAncestry_root hroot]
      exact h
  | case2 _ _ _ _ _ hne hseen =>
      rw [walkAncestry_seen hne hseen]
      exact h
  | case3 => cases h
  | case4 _ _ _ _ hne hnew reads err hget =>
      obtain ⟨more, rfl⟩ := Nat.exists_eq_add_of_le' hle
      rw [Nat.add_succ, walkAncestry_succ hne hnew, hget]
      exact h
  | case5 _ _ _ _ hne hnew reads ancestor hget ih =>
      obtain ⟨more, rfl⟩ := Nat.exists_eq_add_of_le' hle
      rw [Nat.add_succ, walkAncestry_succ hne hnew, hget]
      exact ih (Nat.le_add_left _ _) h

end Walk

/-! ### The handler -/

/-- The actions of one handler on a store that nobody else changes. -/
def Submit.alone (h : Submit) (m : Memory) (pc : SubmitPc) (o : SubmitOracle) : Option SubmitPc :=
  (Submit.handle { h with pc := pc } o m).map Prod.fst

/-- `createAgentChildRun` after the call of `agentCallAncestry`. -/
def AgentCall.afterAncestry (call : AgentCall) (sub : Submission) (parent : Run) :
    Except Err (Int × List String) → SubmitPc
  | .error _ => .done ⟨500, none⟩
  | .ok (depth, agents) =>
      if call.maxDepth < depth then .done ⟨422, none⟩ else .callSelect call sub parent agents

theorem Submit.alone_callAncestry (h : Submit) (m : Memory) (o : SubmitOracle) (call : AgentCall)
    (sub : Submission) (parent current : Run) (depth : Int) (agents seenRuns : List String) :
    h.alone m (.callAncestry call sub parent current depth agents seenRuns) o
      = match m.getRun current.parentRunID with
        | .error _ => some (.done ⟨500, none⟩)
        | .ok ancestor =>
            some (agentCallAncestry call sub parent ancestor (depth + 1)
              (ancestor.agentID :: agents) (ancestor.id :: seenRuns)) := by
  simp only [Submit.alone, Submit.handle]
  rcases m.getRun current.parentRunID with err | ancestor
  · rfl
  · rfl

/-- The handler reads the same Runs, and goes on with what the walk returns. -/
theorem exec_ancestry {m : Memory} {reads : Nat} {current : Run} {depth : Int}
    {agents seenRuns : List String} {result : Except Err (Int × List String)}
    (hwalk : walkAncestry m reads current depth agents seenRuns = some result)
    (h : Submit) (call : AgentCall) (sub : Submission) (parent : Run) :
    ∃ os, os.length ≤ reads ∧
      exec (h.alone m) (agentCallAncestry call sub parent current depth agents seenRuns) os
        = some (call.afterAncestry sub parent result) := by
  fun_induction walkAncestry m reads current depth agents seenRuns with
  | case1 _ _ _ _ _ hroot =>
      obtain rfl := Option.some.inj hwalk
      exact ⟨[], Nat.zero_le _, by rw [exec_nil, agentCallAncestry, if_pos hroot]; rfl⟩
  | case2 _ _ _ _ _ hne hseen =>
      obtain rfl := Option.some.inj hwalk
      exact ⟨[], Nat.zero_le _, by rw [exec_nil, agentCallAncestry, if_neg hne, if_pos hseen]; rfl⟩
  | case3 => cases hwalk
  | case4 _ _ _ _ hne hnew reads err hget =>
      obtain rfl := Option.some.inj hwalk
      refine ⟨[{}], Nat.succ_le_succ (Nat.zero_le _), ?_⟩
      rw [agentCallAncestry, if_neg hne, if_neg hnew, exec_cons, Submit.alone_callAncestry, hget]
      rfl
  | case5 _ _ _ _ hne hnew reads ancestor hget ih =>
      obtain ⟨os, hlength, hexec⟩ := ih hwalk
      refine ⟨{} :: os, Nat.succ_le_succ hlength, ?_⟩
      rw [agentCallAncestry, if_neg hne, if_neg hnew, exec_cons, Submit.alone_callAncestry, hget]
      exact hexec

/-! ### The ancestry walk -/

/-- **The ancestry walk always ends.**  In every store that has each Run under its ID, from every
Run in it, and with whatever lineage: as many store reads as there are Runs are enough.  The walk
returns an error exactly if the way up comes to a Run twice or leaves the store.  Otherwise it
returns the length of the lineage up to its root, and exactly the Agents of the Runs on it.  The
handler of an Agent call decides by what the walk returns. -/
theorem ancestry_walk_ends {m : Memory}
    (hids : ∀ id run, m.runs.lookup id = some run → run.id = id)
    {start : Run} (hstart : m.runs.lookup start.id = some start) :
    ∃ result,
      (∀ reads, m.runs.keys.length ≤ reads → m.agentCallAncestryWithin reads start = some result) ∧
      ((∃ err, result = .error err) ↔
        Revisits m.parentOf start.id ∨ Leaves m.parentOf start.id) ∧
      (∀ depth agents, result = .ok (depth, agents) →
        ∃ above, Ancestry m.parentOf start.id above ∧ depth = above.length + 1 ∧
          ∀ agentID, agentID ∈ agents ↔ m.Involves (start.id :: above) agentID) ∧
      ∀ (h : Submit) call sub, ∃ os, os.length ≤ m.runs.keys.length ∧
        exec (h.alone m) (agentCallAncestry call sub start start 1 [start.agentID] [start.id]) os
          = some (call.afterAncestry sub start result) := by
  obtain ⟨result, hwalk, hresult⟩ :=
    (walking_start hstart).ends hids (Nat.le_add_right m.runs.keys.length 0)
  refine ⟨result, fun reads hreads => walkAncestry_mono hreads hwalk, ⟨?_, ?_⟩, ?_, ?_⟩
  · rintro ⟨err, rfl⟩
    exact hresult
  · intro hfails
    rcases result with err | ⟨depth, agents⟩
    · exact ⟨err, rfl⟩
    · obtain ⟨above, hanc, -⟩ := hresult
      exact absurd hfails (not_or.mpr ⟨hanc.not_revisits, hanc.not_leaves⟩)
  · rintro depth agents rfl
    exact hresult
  · exact fun h call sub => exec_ancestry hwalk h call sub start

/-- A Run whose parent is on a cycle of two. -/
def tangledRun : Run := { id := "run_1", agentID := "a", parentRunID := "run_2" }

def tangledStore : Memory where
  runs := AList.insert "run_1" tangledRun
    (AList.insert "run_2" { id := "run_2", agentID := "b", parentRunID := "run_3" }
      (AList.insert "run_3" { id := "run_3", agentID := "c", parentRunID := "run_2" } ∅))

theorem ancestry_walk_ends_tangled :
    tangledStore.agentCallAncestryWithin 3 tangledRun
        = some (.error (errorf "Run ancestry contains a cycle")) ∧
      (Revisits tangledStore.parentOf "run_1" ∨ Leaves tangledStore.parentOf "run_1") := by
  have hids : ∀ id run, tangledStore.runs.lookup id = some run → run.id = id := by
    intro id run hrun
    simp only [tangledStore, Table.lookup_insert_eq] at hrun
    split_ifs at hrun with h₁ h₂ h₃
    · rw [← Option.some.inj hrun, h₁]; rfl
    · rw [← Option.some.inj hrun, h₂]
    · rw [← Option.some.inj hrun, h₃]
    · cases hrun
  obtain ⟨result, hwalk, herror, -⟩ := @ancestry_walk_ends tangledStore hids tangledRun rfl
  have hcomputed : tangledStore.agentCallAncestryWithin 3 tangledRun
      = some (.error (errorf "Run ancestry contains a cycle")) := by decide
  have hresult := Option.some.inj ((hwalk 3 (by decide)).symm.trans hcomputed)
  exact ⟨hcomputed, herror.mp ⟨_, hresult⟩⟩

end AgentMesh
