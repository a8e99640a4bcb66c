/-
AgentMesh/Listings.lean

The listings of the Memory store, with the freedom that Go leaves them.

The store iterates over a map, whose order is random, and gives the records to
`sort.Slice`, which is not stable.  A table of the model has its entries in some
order; here that order is the one in which the map is iterated, two stores with
the same records may differ in it (`Memory.SameRecords`), and the sort is a
parameter.  The listings of `Memory` are these with one particular sort.

Most comparisons end with the ID, and IDs are distinct: there is one way to sort
the records.  `ListRuns` compares creation times alone.  So the listings do not
depend on the order of iteration and on the sort if and only if no two Runs were
created at the same time (`listings_agree_iff`).
-/
import AgentMesh.Router

namespace AgentMesh

open Sorting

/-! ### Listings -/

/-- The comparison of `sortAgents`, `ListChildRuns` and `ListWorkflows`. -/
def createdEarlier {α : Type} (createdAt : α → Time) (id : α → String) (a b : α) : Bool :=
  if createdAt a = createdAt b then id a < id b else createdAt a < createdAt b

/-- The comparison of `ListApprovals`. -/
def createdLater (a b : Approval) : Bool :=
  if a.createdAt = b.createdAt then a.id < b.id else b.createdAt < a.createdAt

def ApprovalStatus.text : ApprovalStatus → String
  | .unset => ""
  | .pending => "pending"
  | .approved => "approved"
  | .rejected => "rejected"
  | .consumed => "consumed"

namespace Listing

variable (sorter : Sorter) (m : Memory)

/-- The condition of the loop of `FindAgents`, on a filter in canonical form. -/
def admits (filter : AgentFilter) (agent : Agent) : Bool :=
  if (filter.runtime ≠ "" ∧ agent.runtime ≠ filter.runtime)
      ∨ (filter.protocol ≠ "" ∧ agent.protocol ≠ filter.protocol) then false
  else if filter.capability ≠ "" ∧ filter.capability ∉ agent.capabilities then false
  else true

def findAgents (filter : AgentFilter) : Except Err (List Agent) :=
  match Memory.normalizeFilter filter with
  | .error err => .error err
  | .ok filter =>
      .ok (sorter.sort (createdEarlier Agent.createdAt Agent.id)
        ((m.agents.entries.map fun entry => entry.2).filter (admits filter)))

def listRuns : List Run :=
  sorter.sort (fun a b => a.createdAt < b.createdAt) (m.runs.entries.map fun entry => entry.2)

def listChildRuns (parentRunID : String) : Except Err (List Run) :=
  match m.runs.lookup parentRunID with
  | none => .error Sentinel.notFound.err
  | some _ =>
      .ok (sorter.sort (createdEarlier Run.createdAt Run.id)
        ((m.runs.entries.map fun entry => entry.2).filter fun run =>
          run.parentRunID = parentRunID))

def listWorkflows : List Workflow :=
  sorter.sort (createdEarlier Workflow.createdAt Workflow.id)
    (m.workflows.entries.map fun entry => entry.2)

def listPendingRuns : List PendingRun :=
  sorter.sort (fun a b => a.id < b.id) (m.runs.entries.filterMap fun entry =>
    if entry.2.IsActive then some ⟨entry.1, entry.2.status⟩ else none)

def listApprovals (status : String) (limit : Int) : List Approval :=
  let result := sorter.sort createdLater
    ((m.approvals.entries.map fun entry => entry.2).filter fun approval =>
      status = "" ∨ approval.status.text = status)
  if 0 < limit ∧ limit < result.length then result.take limit.toNat else result

end Listing

/-! ### Stores with the same records -/

/-- The records are the same; their order is that of the iteration. -/
structure Memory.SameRecords (m m' : Memory) : Prop where
  agents : m.agents.entries.Perm m'.agents.entries
  runs : m.runs.entries.Perm m'.runs.entries
  workflows : m.workflows.entries.Perm m'.workflows.entries
  approvals : m.approvals.entries.Perm m'.approvals.entries

/-- The records of each kind have distinct IDs. -/
structure Memory.DistinctIDs (m : Memory) : Prop where
  agents : (m.agents.entries.map fun entry => entry.2.id).Nodup
  runs : (m.runs.entries.map fun entry => entry.2.id).Nodup
  workflows : (m.workflows.entries.map fun entry => entry.2.id).Nodup
  approvals : (m.approvals.entries.map fun entry => entry.2.id).Nodup

/-- No two Runs were created at the same time. -/
def Memory.DistinctTimes (m : Memory) : Prop :=
  ∀ a ∈ m.runs.entries, ∀ b ∈ m.runs.entries, a.2.createdAt = b.2.createdAt → a.2 = b.2

instance (m : Memory) : Decidable m.DistinctTimes :=
  inferInstanceAs (Decidable (∀ a ∈ _, ∀ b ∈ _, _))

/-- Every listing returns the same for both stores. -/
structure Listing.Agree (sorter sorter' : Sorter) (m m' : Memory) : Prop where
  findAgents : ∀ filter, Listing.findAgents sorter m filter = Listing.findAgents sorter' m' filter
  listRuns : Listing.listRuns sorter m = Listing.listRuns sorter' m'
  listChildRuns : ∀ id, Listing.listChildRuns sorter m id = Listing.listChildRuns sorter' m' id
  listWorkflows : Listing.listWorkflows sorter m = Listing.listWorkflows sorter' m'
  listPendingRuns : Listing.listPendingRuns sorter m = Listing.listPendingRuns sorter' m'
  listApprovals : ∀ status limit, Listing.listApprovals sorter m status limit
    = Listing.listApprovals sorter' m' status limit

/-! ### Comparisons -/

section Comparisons

variable {α : Type} {createdAt : α → Time} {id : α → String} {l l' : List α}

theorem createdEarlier_compares (createdAt : α → Time) (id : α → String) (l : List α) :
    Compares (createdEarlier createdAt id) (fun a => toLex (createdAt a, id a)) l := by
  intro a _ b _
  rw [toLex_lt_iff, createdEarlier]
  by_cases heq : createdAt a = createdAt b
  · simp [heq]
  · simp [heq]

theorem createdLater_compares (l : List Approval) :
    Compares createdLater (fun a => toLex (-a.createdAt, a.id)) l := by
  intro a _ b _
  rw [toLex_lt_iff, createdLater]
  by_cases heq : a.createdAt = b.createdAt
  · simp [heq]
  · simp [heq, neg_lt_neg_iff]

theorem pendingID_compares (l : List PendingRun) :
    Compares (fun a b : PendingRun => decide (a.id < b.id)) PendingRun.id l :=
  fun _ _ _ _ => decide_eq_true_iff

/-- `ListRuns` compares the creation times alone. -/
theorem runTime_compares (l : List Run) :
    Compares (fun a b : Run => decide (a.createdAt < b.createdAt)) Run.createdAt l :=
  fun _ _ _ _ => decide_eq_true_iff

/-- Creation time and ID tell records with distinct IDs apart. -/
theorem eq_of_created_eq {κ : Type} {time : α → κ} (hids : (l.map id).Nodup) :
    ∀ a ∈ l, ∀ b ∈ l, toLex (time a, id a) = toLex (time b, id b) → a = b :=
  fun _ ha _ hb hkey =>
    List.inj_on_of_nodup_map hids ha hb (Prod.mk.inj (toLex.injective hkey)).2

end Comparisons

/-! ### Independence of the order -/

section Independence

variable {m m' : Memory} {sorter sorter' : Sorter}

/-- The records of a table, in two orders of iteration. -/
theorem perm_records {V : Type} {t t' : Table V} (h : t.entries.Perm t'.entries) :
    (t.entries.map fun entry => entry.2).Perm (t'.entries.map fun entry => entry.2) :=
  h.map fun entry => entry.2

theorem nodup_filter_records {V : Type} {t : Table V} {id : V → String}
    (h : (t.entries.map fun entry => id entry.2).Nodup) (p : V → Bool) :
    (((t.entries.map fun entry => entry.2).filter p).map id).Nodup := by
  have hsublist := (List.filter_sublist (p := p) (l := t.entries.map fun entry => entry.2)).map id
  rw [List.map_map] at hsublist
  exact hsublist.nodup h

/-- The ID of a pending Run is its key in the table. -/
theorem nodup_pending (m : Memory) : ((m.runs.entries.filterMap fun entry =>
    if entry.2.IsActive then some (PendingRun.mk entry.1 entry.2.status) else none).map
      PendingRun.id).Nodup := by
  have hkeys : (m.runs.entries.filterMap fun entry =>
      if entry.2.IsActive then some (PendingRun.mk entry.1 entry.2.status) else none).map
        PendingRun.id = (m.runs.entries.filter fun entry => entry.2.IsActive).map Sigma.fst := by
    rw [List.map_filterMap, ← List.filterMap_eq_map, List.filterMap_filter]
    refine List.filterMap_congr fun entry _ => ?_
    by_cases hactive : entry.2.IsActive
    · simp [hactive]
    · simp [hactive]
  rw [hkeys]
  exact (List.filter_sublist.map Sigma.fst).nodup m.runs.nodupKeys

/-- Records with distinct IDs are listed in one order, whichever of them are listed. -/
theorem sort_created {V : Type} {t t' : Table V} {createdAt : V → Time} {id : V → String}
    (hids : (t.entries.map fun entry => id entry.2).Nodup) (h : t.entries.Perm t'.entries)
    (p : V → Bool) (sorter sorter' : Sorter) :
    sorter.sort (createdEarlier createdAt id) ((t.entries.map fun entry => entry.2).filter p)
      = sorter'.sort (createdEarlier createdAt id)
        ((t'.entries.map fun entry => entry.2).filter p) :=
  sorter.sort_congr sorter' (createdEarlier_compares createdAt id _)
    (eq_of_created_eq (nodup_filter_records hids p)) ((perm_records h).filter p)

/-- The listings that look at IDs last. -/
theorem Listing.Agree.of_listRuns (hids : m.DistinctIDs) (hsame : m.SameRecords m')
    (hruns : Listing.listRuns sorter m = Listing.listRuns sorter' m') :
    Listing.Agree sorter sorter' m m' where
  findAgents filter := by
    rw [Listing.findAgents, Listing.findAgents]
    rcases Memory.normalizeFilter filter with err | filter
    · rfl
    · exact congrArg Except.ok (sort_created hids.agents hsame.agents _ sorter sorter')
  listRuns := hruns
  listChildRuns parentRunID := by
    rw [Listing.listChildRuns, Listing.listChildRuns, AList.perm_lookup hsame.runs]
    rcases m'.runs.lookup parentRunID with - | parent
    · rfl
    · exact congrArg Except.ok (sort_created hids.runs hsame.runs _ sorter sorter')
  listWorkflows := by
    have hsort : sorter.sort (createdEarlier Workflow.createdAt Workflow.id) _ = sorter'.sort _ _ :=
      sort_created hids.workflows hsame.workflows (fun _ => true) sorter sorter'
    rwa [List.filter_true, List.filter_true] at hsort
  listPendingRuns := by
    rw [Listing.listPendingRuns, Listing.listPendingRuns]
    refine sorter.sort_congr sorter' (pendingID_compares _) ?_ (hsame.runs.filterMap _)
    exact fun a ha b hb => List.inj_on_of_nodup_map (nodup_pending m) ha hb
  listApprovals status limit := by
    have hsort := sorter.sort_congr sorter' (createdLater_compares _)
      (eq_of_created_eq (nodup_filter_records hids.approvals
        fun approval => decide (status = "" ∨ approval.status.text = status)))
      ((perm_records hsame.approvals).filter _)
    rw [Listing.listApprovals, Listing.listApprovals, hsort]

/-- **When listings do not depend on the order of iteration.**  Each of the listings returns the
same for any two stores with the same records, in any two orders of iteration and with any two
sorts, if and only if no two Runs were created at the same time. -/
theorem listings_agree_iff {m : Memory} (hids : m.DistinctIDs) :
    (∀ m', m.SameRecords m' → ∀ sorter sorter', Listing.Agree sorter sorter' m m') ↔
      m.DistinctTimes := by
  have hnodup : (m.runs.entries.map fun entry => entry.2).Nodup := by
    have hruns := nodup_filter_records hids.runs fun _ => true
    rw [List.filter_true] at hruns
    exact hruns.of_map Run.id
  have hcompares : Compares (fun a b : Run => decide (a.createdAt < b.createdAt)) Run.createdAt
      (m.runs.entries.map fun entry => entry.2) := runTime_compares _
  have htimes : m.DistinctTimes ↔ ∀ a ∈ m.runs.entries.map fun entry => entry.2,
      ∀ b ∈ m.runs.entries.map fun entry => entry.2, a.createdAt = b.createdAt → a = b := by
    simp only [Memory.DistinctTimes, List.forall_mem_map]
  rw [htimes]
  constructor
  · intro h
    refine (sorts_agree_iff hnodup hcompares).mp fun sorter sorter' => ?_
    exact (h m ⟨.refl _, .refl _, .refl _, .refl _⟩ sorter sorter').listRuns
  · intro hinj m' hsame sorter sorter'
    exact .of_listRuns hids hsame (sorter.sort_congr sorter' hcompares hinj (perm_records hsame.runs))

end Independence

/-! ### The listings of `Memory` -/

section Memory

variable {m : Memory}

theorem createdBefore_iff {createdAt createdAt' : Time} {id id' : String} :
    Memory.createdBefore createdAt createdAt' id id' ↔
      toLex (createdAt, id) ≤ toLex (createdAt', id') := by
  rw [Prod.Lex.toLex_le_toLex, Memory.createdBefore]

/-- The sort of `Memory` gives what every other sort gives. -/
theorem sort_eq_insertionSort {V : Type} {t : Table V} {createdAt : V → Time} {id : V → String}
    (hids : (t.entries.map fun entry => id entry.2).Nodup) (p : V → Bool) (sorter : Sorter)
    {l : List V} (hl : l = (t.entries.map fun entry => entry.2).filter p) :
    sorter.sort (createdEarlier createdAt id) ((t.entries.map fun entry => entry.2).filter p)
      = l.insertionSort fun a b =>
        Memory.createdBefore (createdAt a) (createdAt b) (id a) (id b) := by
  refine sorter.sort_eq (createdEarlier_compares createdAt id _)
    (eq_of_created_eq (nodup_filter_records hids p)) ?_ ?_
  · rw [← hl]
    exact (List.perm_insertionSort _ l).symm
  · have hkey : ∀ a b : V, Memory.createdBefore (createdAt a) (createdAt b) (id a) (id b) ↔
        (fun a => toLex (createdAt a, id a)) a ≤ (fun a => toLex (createdAt a, id a)) b :=
      fun _ _ => createdBefore_iff
    exact pairwise_insertionSort_key hkey l

/-- The listings of `Memory` are these listings, where these are determined. -/
theorem Memory.listings_eq (hids : m.DistinctIDs) (sorter : Sorter) :
    (∀ filter, Listing.findAgents sorter m filter = m.findAgents filter) ∧
      (∀ id, Listing.listChildRuns sorter m id = m.listChildRuns id) ∧
      Listing.listPendingRuns sorter m = m.listPendingRuns ∧
      (m.DistinctTimes → Listing.listRuns sorter m = m.listRuns) := by
  refine ⟨?_, ?_, ?_, ?_⟩
  · intro filter
    rw [Listing.findAgents, Memory.findAgents]
    rcases Memory.normalizeFilter filter with err | filter
    · rfl
    · refine congrArg Except.ok (sort_eq_insertionSort hids.agents _ sorter ?_)
      rw [← List.filterMap_eq_filter, List.filterMap_map]
      refine List.filterMap_congr fun entry _ => ?_
      rw [Function.comp_apply, Option.guard, Listing.admits]
      split
      · rfl
      · split <;> rfl
  · intro id
    rw [Listing.listChildRuns, Memory.listChildRuns]
    rcases m.runs.lookup id with - | parent
    · rfl
    · refine congrArg Except.ok (sort_eq_insertionSort hids.runs _ sorter ?_)
      rw [← List.filterMap_eq_filter, List.filterMap_map]
      refine List.filterMap_congr fun entry _ => ?_
      simp [Option.guard]
  · refine sorter.sort_eq (pendingID_compares _) ?_
      (List.perm_insertionSort _ _).symm (pairwise_insertionSort_key (fun _ _ => Iff.rfl) _)
    exact fun a ha b hb => List.inj_on_of_nodup_map (nodup_pending m) ha hb
  · intro htimes
    refine sorter.sort_eq (runTime_compares _) ?_
      (List.perm_insertionSort _ _).symm (pairwise_insertionSort_key (fun _ _ => Iff.rfl) _)
    simpa only [List.forall_mem_map, Memory.DistinctTimes] using htimes

end Memory

/-! ### Two Runs of one moment -/

/-- A store with two Runs, in an order of iteration. -/
def twoRuns (first second : Run) : Memory where
  runs := AList.insert first.id first (AList.insert second.id second ∅)

theorem twoRuns_distinctIDs {first second : Run} (h : first.id ≠ second.id) :
    (twoRuns first second).DistinctIDs where
  agents := List.nodup_nil
  runs := by
    have habsent : first.id ∉ AList.insert second.id second (∅ : Table Run) := by
      rw [AList.mem_insert]
      exact not_or.mpr ⟨h, AList.notMem_empty _⟩
    rw [twoRuns, AList.entries_insert_of_notMem habsent]
    simp [h]
  workflows := List.nodup_nil
  approvals := List.nodup_nil

/-- Two Runs that were created one after the other are listed in this order, whatever the order of
iteration. -/
theorem listings_agree_iff_apart :
    Listing.Agree insertion insertion
      (twoRuns { id := "run_1", createdAt := 5 } { id := "run_2", createdAt := 6 })
      (twoRuns { id := "run_2", createdAt := 6 } { id := "run_1", createdAt := 5 }) := by
  have hsame : (twoRuns { id := "run_1", createdAt := 5 } { id := "run_2", createdAt := 6 }).SameRecords
      (twoRuns { id := "run_2", createdAt := 6 } { id := "run_1", createdAt := 5 }) :=
    ⟨.refl _, List.Perm.swap _ _ _, .refl _, .refl _⟩
  have hall := (listings_agree_iff (twoRuns_distinctIDs (by decide))).mpr (by decide) _ hsame
  exact hall insertion insertion

/-- Two Runs that were created at the same time are listed in the order of iteration. -/
theorem listRuns_depends_on_order :
    (twoRuns { id := "run_1", createdAt := 5 } { id := "run_2", createdAt := 5 }).DistinctIDs ∧
      (twoRuns { id := "run_1", createdAt := 5 } { id := "run_2", createdAt := 5 }).SameRecords
        (twoRuns { id := "run_2", createdAt := 5 } { id := "run_1", createdAt := 5 }) ∧
      (Listing.listRuns insertion
        (twoRuns { id := "run_1", createdAt := 5 } { id := "run_2", createdAt := 5 })).map Run.id
          = ["run_1", "run_2"] ∧
      (Listing.listRuns insertion
        (twoRuns { id := "run_2", createdAt := 5 } { id := "run_1", createdAt := 5 })).map Run.id
          = ["run_2", "run_1"] := by
  refine ⟨twoRuns_distinctIDs (by decide), ⟨.refl _, ?_, .refl _, .refl _⟩, ?_, ?_⟩
  · exact List.Perm.swap _ _ _
  · decide
  · decide

end AgentMesh
