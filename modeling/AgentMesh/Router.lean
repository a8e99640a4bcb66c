/-
AgentMesh/Router.lean

The Agent router: `Search` of `internal/discovery/service.go` and `Select` of
`internal/router/router.go`.

`Select` looks for Agents that declare every required capability, among the
healthy ones first and then among those whose health is unknown, and takes the
first unsaturated one in an order that begins with the load.  The load is a
ratio, compared by cross-multiplication in 64-bit integers, and the comparison
is given to `sort.Slice`.

The candidates have an order of their own, `RankedAgent.key`, with exact ratios.
`Select` returns the least one, whichever sort is used and in whichever order the
store lists the Agents, if and only if the comparison finds it.  It does as long
as no product overflows; when one does, it may take a more loaded Agent to be
less loaded.
-/
import AgentMesh.Memory
import AgentMesh.Sorting
import Mathlib.Data.String.Basic
import Mathlib.Data.Prod.Lex
import Mathlib.Data.Rat.Cast.Order
import Mathlib.Algebra.Order.Field.Basic

namespace AgentMesh

open Sorting

/-! ### Discovery -/

/-- `discovery.Query`. -/
structure AgentQuery where
  capability : String := ""
  runtime : String := ""
  protocol : String := ""
  health : String := ""
  limit : Int := 0
  offset : Int := 0

/-- `discovery.Result`. -/
structure AgentPage where
  items : List Agent
  total : Int
  limit : Int
  offset : Int

def maxPageSize : Int := 200

/-- An error of `Search` about its query. -/
def invalidQuery (text : String) : Err := Sentinel.invalidQuery.errWith (": " ++ text)

/-- The check of `query.Health`; an empty text asks for every Agent. -/
def normalizeHealth (health : String) : Except Err (Option HealthStatus) :=
  let health := toLower (trimSpace health)
  if health = "" then .ok none
  else if health = HealthStatus.unknown.text then .ok (some .unknown)
  else if health = HealthStatus.healthy.text then .ok (some .healthy)
  else if health = HealthStatus.unhealthy.text then .ok (some .unhealthy)
  else .error (invalidQuery "health must be unknown, healthy or unhealthy")

/-- The comparison of `Search`. -/
def createdFirst (a b : Agent) : Bool :=
  if a.createdAt = b.createdAt then a.id < b.id else a.createdAt < b.createdAt

/-- The part of the filtered Agents that the query asks for. -/
def AgentQuery.page (query : AgentQuery) (filtered : List Agent) : AgentPage :=
  let total : Int := filtered.length
  let start := if total < query.offset then total else query.offset
  let stop := if 0 < query.limit ∧ start + query.limit < total then start + query.limit else total
  { items := (filtered.take stop.toNat).drop start.toNat, total
    limit := query.limit, offset := query.offset }

section Search

variable (sorter : Sorter) (findAgents : AgentFilter → Except Err (List Agent))
  (health : String → HealthStatus)

/-- `Search`, over the repository's `FindAgents` and the health registry's `State`. -/
def search (query : AgentQuery) : Except Err AgentPage := do
  let capability ← if query.capability ≠ "" then
      (normalizeCapability query.capability).mapError fun err => invalidQuery err.text
    else .ok ""
  let runtime ← (normalizeAgentIdentifier "runtime" query.runtime).mapError
    fun err => invalidQuery err.text
  let protocol ← (normalizeAgentIdentifier "protocol" query.protocol).mapError
    fun err => invalidQuery err.text
  if query.limit < 0 ∨ maxPageSize < query.limit ∨ query.offset < 0 then
    throw (invalidQuery ("limit must be between 0 and " ++ toString maxPageSize
      ++ " and offset cannot be negative"))
  let status ← normalizeHealth query.health
  let agents ← findAgents { capability, runtime, protocol }
  return query.page (sorter.sort createdFirst
    (agents.filter fun agent => status.all fun status => health agent.id = status))

end Search

/-! ### Selection -/

/-- The product of two 64-bit integers. -/
def mul64 (a b : Int) : Int := (a * b).bmod (2 ^ 64)

structure RankedAgent where
  agent : Agent
  active : Int
  capacity : Int
  deriving DecidableEq, Repr

/-- The comparison that `rankAvailable` gives to `sort.Slice`.  The remaining slots cannot
overflow, since `active` lies between zero and `capacity`. -/
def RankedAgent.before (left right : RankedAgent) : Bool :=
  let leftLoad := mul64 left.active right.capacity
  let rightLoad := mul64 right.active left.capacity
  if leftLoad ≠ rightLoad then leftLoad < rightLoad
  else if left.agent.priority ≠ right.agent.priority then
    right.agent.priority < left.agent.priority
  else
    let leftRemaining := left.capacity - left.active
    let rightRemaining := right.capacity - right.active
    if leftRemaining ≠ rightRemaining then rightRemaining < leftRemaining
    else if left.agent.createdAt ≠ right.agent.createdAt then
      left.agent.createdAt < right.agent.createdAt
    else left.agent.id < right.agent.id

/-- The capacity of an Agent; zero stands for one. -/
def Agent.capacity (agent : Agent) : Int :=
  if agent.maxConcurrency = 0 then 1 else agent.maxConcurrency

/-- The count of an ID in the answer of `CountActiveRunsByAgent`. -/
def loadOf (loads : List (String × Nat)) (id : String) : Nat :=
  ((loads.find? fun load => load.1 = id).map Prod.snd).getD 0

def rankAvailable (sorter : Sorter) (agents : List Agent) (loads : List (String × Nat)) :
    List RankedAgent :=
  sorter.sort RankedAgent.before (agents.filterMap fun agent =>
    let active : Int := loadOf loads agent.id
    if agent.capacity ≤ active then none
    else some { agent, active, capacity := agent.capacity })

def matchingAll (agents : List Agent) (required : List String) : List Agent :=
  agents.filter fun agent => required.all fun capability => capability ∈ agent.capabilities

structure Decision where
  agent : Agent
  requiredCapabilities : List String
  health : HealthStatus
  strategy : String
  candidateCount : Int
  activeRuns : Int
  effectiveCapacity : Int
  priority : Int
  deriving DecidableEq, Repr

/-- The decision for an Agent among so many. -/
def RankedAgent.decision (selected : RankedAgent) (capabilities : List String)
    (status : HealthStatus) (strategy : String) (count : Nat) : Decision :=
  { agent := selected.agent, requiredCapabilities := capabilities, health := status, strategy
    candidateCount := count, activeRuns := selected.active
    effectiveCapacity := selected.capacity, priority := selected.agent.priority }

/-- The tiers of `Select` with their strategies. -/
def tiers : List (HealthStatus × String) :=
  [(.healthy, "healthy-load-priority-created-at-id"),
   (.unknown, "unknown-fallback-load-priority-created-at-id")]

section Select

variable (sorter : Sorter) (findAgents : AgentFilter → Except Err (List Agent))
  (health : String → HealthStatus)
  (countActive : List String → Except Err (List (String × Nat)))

/-- The loop of `Select` over the tiers. -/
def selectFrom (capabilities : List String) (sawSaturated : Bool) :
    List (HealthStatus × String) → Except Err Decision
  | [] => .error (if sawSaturated then Sentinel.noCapacity.err else Sentinel.noCandidate.err)
  | (status, strategy) :: rest =>
      match search sorter findAgents health
          { capability := capabilities.headD "", health := status.text } with
      | .error err => .error err
      | .ok page =>
          let candidates := matchingAll page.items capabilities
          if candidates = [] then selectFrom capabilities sawSaturated rest
          else
            match countActive (candidates.map Agent.id) with
            | .error err => .error (err.wrap "load matching Agents: ")
            | .ok loads =>
                match rankAvailable sorter candidates loads with
                | [] => selectFrom capabilities true rest
                | selected :: others =>
                    .ok (selected.decision capabilities status strategy (others.length + 1))

def select (required : List String) : Except Err Decision :=
  match normalizeRequirements required with
  | .error err => .error err
  | .ok capabilities =>
      selectFrom sorter findAgents health countActive capabilities false tiers

end Select

/-! ### What is to be selected -/

/-- The repository lists the Agents with a capability, in some order. -/
def Lists (findAgents : AgentFilter → Except Err (List Agent)) (agents : List Agent) : Prop :=
  ∀ c, normalizeCapability c = .ok c → ∃ found, findAgents { capability := c } = .ok found ∧
    found.Perm (agents.filter fun agent => c ∈ agent.capabilities)

/-- The counter answers with the number of active Runs of each Agent. -/
def Counts (countActive : List String → Except Err (List (String × Nat)))
    (active : String → Nat) : Prop :=
  ∀ ids, ∃ loads, countActive ids = .ok loads ∧ ∀ id ∈ ids, loadOf loads id = active id

section Spec

variable (agents : List Agent) (health : String → HealthStatus) (active : String → Nat)
  (capabilities : List String)

/-- The Agents of a tier that declare every capability. -/
def tierMatches (status : HealthStatus) : List Agent :=
  agents.filter fun agent =>
    (∀ c ∈ capabilities, c ∈ agent.capabilities) ∧ health agent.id = status

/-- Those among them that are not saturated. -/
def unsaturated (status : HealthStatus) : List Agent :=
  (tierMatches agents health capabilities status).filter fun agent =>
    (active agent.id : Int) < agent.capacity

/-- An Agent with its load. -/
def Agent.ranked (agent : Agent) : RankedAgent :=
  { agent, active := active agent.id, capacity := agent.capacity }

/-- The order of the candidates: the ratio of the load, the priority and the remaining slots
(greater ones first), the creation time and the ID. -/
def RankedAgent.key (r : RankedAgent) : ℚ ×ₗ ℤ ×ₗ ℤ ×ₗ ℤ ×ₗ String :=
  toLex ((r.active : ℚ) / r.capacity, toLex (-r.agent.priority,
    toLex (-(r.capacity - r.active), toLex (r.agent.createdAt, r.agent.id))))

/-- No product of the loads and capacities of two candidates overflows. -/
def ProductsFit (status : HealthStatus) : Prop :=
  ∀ a ∈ unsaturated agents health active capabilities status,
    ∀ b ∈ unsaturated agents health active capabilities status,
      (active a.id : Int) * b.capacity < 2 ^ 63

instance (status : HealthStatus) :
    Decidable (ProductsFit agents health active capabilities status) :=
  inferInstanceAs (Decidable (∀ a ∈ _, ∀ b ∈ _, _ < _))

/-- The Agent is the one to select: it comes from the healthy tier, or from the unknown one if
the healthy tier has no candidate, and no candidate of its tier comes before it. -/
structure Optimal (status : HealthStatus) (agent : Agent) : Prop where
  mem : agent ∈ unsaturated agents health active capabilities status
  tier : status = .healthy ∨
    status = .unknown ∧ unsaturated agents health active capabilities .healthy = []
  least : ∀ other ∈ unsaturated agents health active capabilities status,
    (agent.ranked active).key ≤ (other.ranked active).key

/-- The comparison finds the least candidate of the tier from which one is to be selected. -/
def RanksLeast : Prop :=
  ∀ status, (status = .healthy ∨
      status = .unknown ∧ unsaturated agents health active capabilities .healthy = []) →
    FindsLeast RankedAgent.before RankedAgent.key
      ((unsaturated agents health active capabilities status).map (Agent.ranked active))

end Spec

/-! ### The comparison -/

theorem mul64_eq {a b : Int} (h : 0 ≤ a * b) (h' : a * b < 2 ^ 63) : mul64 a b = a * b := by
  rw [mul64]
  refine Int.bmod_eq_of_le_mul_two ?_ ?_
  · omega
  · omega

/-- One step of a lexicographic comparison. -/
theorem toLex_lt_iff {α β : Type*} [LinearOrder α] [LT β] {a a' : α} {b b' : β} :
    toLex (a, b) < toLex (a', b') ↔ if a ≠ a' then a < a' else b < b' := by
  rw [Prod.Lex.toLex_lt_toLex]
  split
  · rename_i hne
    simp [hne]
  · rename_i heq
    simp [not_not.mp heq]

section Comparison

variable {left right : RankedAgent}

/-- Ratios are compared by cross-multiplication. -/
theorem ratio_lt_iff (hl : 0 < left.capacity) (hr : 0 < right.capacity) :
    (left.active : ℚ) / left.capacity < (right.active : ℚ) / right.capacity ↔
      left.active * right.capacity < right.active * left.capacity := by
  have hl' : (0 : ℚ) < left.capacity := by exact_mod_cast hl
  have hr' : (0 : ℚ) < right.capacity := by exact_mod_cast hr
  rw [div_lt_div_iff₀ hl' hr']
  exact_mod_cast Iff.rfl

theorem ratio_eq_iff (hl : 0 < left.capacity) (hr : 0 < right.capacity) :
    (left.active : ℚ) / left.capacity = (right.active : ℚ) / right.capacity ↔
      left.active * right.capacity = right.active * left.capacity := by
  have hl' : (left.capacity : ℚ) ≠ 0 := by exact_mod_cast hl.ne'
  have hr' : (right.capacity : ℚ) ≠ 0 := by exact_mod_cast hr.ne'
  rw [div_eq_div_iff hl' hr']
  exact_mod_cast Iff.rfl

/-- Where the products fit, the comparison is that of the keys. -/
theorem RankedAgent.before_iff (hl : 0 ≤ left.active) (hl' : left.active < left.capacity)
    (hr : 0 ≤ right.active) (hr' : right.active < right.capacity)
    (hlr : left.active * right.capacity < 2 ^ 63) (hrl : right.active * left.capacity < 2 ^ 63) :
    left.before right = true ↔ left.key < right.key := by
  have hcl : 0 < left.capacity := by omega
  have hcr : 0 < right.capacity := by omega
  rw [RankedAgent.before, mul64_eq (Int.mul_nonneg hl hcr.le) hlr,
    mul64_eq (Int.mul_nonneg hr hcl.le) hrl, RankedAgent.key, RankedAgent.key, toLex_lt_iff,
    toLex_lt_iff, toLex_lt_iff, toLex_lt_iff]
  simp only [ne_eq, ratio_eq_iff hcl hcr, ratio_lt_iff hcl hcr, neg_inj, neg_lt_neg_iff]
  repeat' split
  all_goals simp only [decide_eq_true_eq]

theorem RankedAgent.before_self (r : RankedAgent) : r.before r = false := by
  simp [RankedAgent.before]

/-- Of two candidates with different IDs one comes before the other. -/
theorem RankedAgent.before_total (h : left.agent.id ≠ right.agent.id) :
    left.before right = true ∨ right.before left = true := by
  rw [RankedAgent.before, RankedAgent.before]
  simp only [ne_comm (a := mul64 right.active left.capacity),
    ne_comm (a := right.agent.priority), ne_comm (a := right.capacity - right.active),
    ne_comm (a := right.agent.createdAt)]
  repeat' split
  all_goals simp only [decide_eq_true_eq]
  · exact lt_or_gt_of_ne ‹_›
  · exact (lt_or_gt_of_ne ‹_›).symm
  · exact (lt_or_gt_of_ne ‹_›).symm
  · exact lt_or_gt_of_ne ‹_›
  · exact lt_or_gt_of_ne h

end Comparison

/-! ### One tier -/

section Tiers

variable {sorter sorter' : Sorter} {findAgents findAgents' : AgentFilter → Except Err (List Agent)}
  {health : String → HealthStatus} {agents : List Agent} {active : String → Nat}
  {countActive countActive' : List String → Except Err (List (String × Nat))}
  {capabilities required : List String} {status : HealthStatus}

theorem normalizeHealth_text (status : HealthStatus) :
    normalizeHealth status.text = .ok (some status) := by
  cases status <;> decide

/-- A query without a limit asks for all of them. -/
theorem AgentQuery.items_page_all {query : AgentQuery} (filtered : List Agent)
    (hlimit : query.limit = 0) (hoffset : query.offset = 0) :
    (query.page filtered).items = filtered := by
  have hlength : ¬ ((filtered.length : Int) < 0) := by omega
  simp [AgentQuery.page, hlimit, hoffset, hlength]

/-- A search for a capability and a health finds the Agents that have both. -/
theorem search_eq (sorter : Sorter) (health : String → HealthStatus) (status : HealthStatus)
    (hlists : Lists findAgents agents) {c : String} (hc : normalizeCapability c = .ok c) :
    ∃ page, search sorter findAgents health { capability := c, health := status.text } = .ok page ∧
      page.items.Perm
        (agents.filter fun agent => c ∈ agent.capabilities ∧ health agent.id = status) := by
  obtain ⟨found, hfound, hperm⟩ := hlists c hc
  have hne := normalizeCapability_ne_empty hc
  have hlimit : ¬ ((0 : Int) < 0 ∨ maxPageSize < 0 ∨ (0 : Int) < 0) := by decide
  simp only [search, hne, ne_eq, not_false_eq_true, if_true, hc, normalizeAgentIdentifier_empty,
    normalizeHealth_text, Except.mapError, bind, Except.bind, hlimit, if_false, hfound, pure,
    Except.pure]
  refine ⟨_, rfl, ?_⟩
  rw [AgentQuery.items_page_all _ rfl rfl]
  refine (sorter.perm _ _).trans ((hperm.filter _).trans ?_)
  rw [List.filter_filter]
  refine .of_eq (List.filter_congr fun agent _ => ?_)
  simp [and_comm]

/-- `matchingAll` completes the search to a tier. -/
theorem matchingAll_perm {c : String} {items : List Agent} (hc : c ∈ capabilities)
    (hitems : items.Perm
      (agents.filter fun agent => c ∈ agent.capabilities ∧ health agent.id = status)) :
    (matchingAll items capabilities).Perm (tierMatches agents health capabilities status) := by
  refine (hitems.filter _).trans ?_
  rw [List.filter_filter, tierMatches]
  refine .of_eq (List.filter_congr fun agent _ => ?_)
  simp only [Bool.decide_and, ← Bool.and_assoc]
  congr 1
  rw [Bool.eq_iff_iff]
  simp only [Bool.and_eq_true, List.all_eq_true, decide_eq_true_eq]
  exact ⟨And.left, fun h => ⟨h, h c hc⟩⟩

/-- `rankAvailable` sorts the unsaturated Agents with their loads. -/
theorem rankAvailable_eq (sorter : Sorter) {candidates : List Agent}
    {loads : List (String × Nat)}
    (hcandidates : candidates.Perm (tierMatches agents health capabilities status))
    (hloads : ∀ id ∈ candidates.map Agent.id, loadOf loads id = active id) :
    ∃ l, l.Perm ((unsaturated agents health active capabilities status).map
        (Agent.ranked active)) ∧
      rankAvailable sorter candidates loads = sorter.sort RankedAgent.before l := by
  refine ⟨_, ?_, rfl⟩
  rw [unsaturated, ← List.filterMap_eq_map, ← List.filterMap_eq_filter, List.filterMap_filterMap]
  have hfilter : candidates.filterMap (fun agent =>
        if agent.capacity ≤ (loadOf loads agent.id : Int) then none
        else some { agent, active := (loadOf loads agent.id : Int), capacity := agent.capacity }) =
      candidates.filterMap fun agent =>
        (Option.guard (fun agent => (active agent.id : Int) < agent.capacity) agent).bind
          (some ∘ Agent.ranked active) := by
    refine List.filterMap_congr fun agent hagent => ?_
    rw [hloads agent.id (List.mem_map_of_mem hagent)]
    by_cases hsaturated : agent.capacity ≤ (active agent.id : Int)
    · rw [if_pos hsaturated, Option.guard, if_neg (by simpa using hsaturated)]
      rfl
    · rw [if_neg hsaturated, Option.guard, if_pos (by simpa using hsaturated)]
      rfl
  rw [hfilter]
  exact hcandidates.filterMap _

theorem normalizeRequirementsFrom_canonical {result : List String}
    (h : normalizeRequirementsFrom result required = .ok capabilities)
    (hresult : ∀ c ∈ result, normalizeCapability c = .ok c) :
    ∀ c ∈ capabilities, normalizeCapability c = .ok c := by
  induction required generalizing result with
  | nil => exact Except.ok.inj h ▸ hresult
  | cons capability rest ih =>
      rw [normalizeRequirementsFrom] at h
      split at h
      · cases h
      · rename_i normalized hnormalized
        split at h
        · exact ih h hresult
        · refine ih h ?_
          intro c hc
          rcases List.mem_append.mp hc with hc | hc
          · exact hresult c hc
          · rw [List.mem_singleton.mp hc]
            exact normalizeCapability_self hnormalized

/-- The capability that `Select` searches for is a canonical one of the requirements. -/
theorem canonical_headD (h : normalizeRequirements required = .ok capabilities) :
    capabilities.headD "" ∈ capabilities ∧
      normalizeCapability (capabilities.headD "") = .ok (capabilities.headD "") := by
  have hne := (normalizeRequirements_self h).1
  rw [normalizeRequirements] at h
  split at h
  · cases h
  · rcases capabilities with - | ⟨c, rest⟩
    · exact absurd rfl hne
    · exact ⟨List.mem_cons_self, normalizeRequirementsFrom_canonical h (by simp) c (by simp)⟩

/-- One round of the loop over the tiers. -/
theorem selectFrom_cons (sorter : Sorter) (health : String → HealthStatus)
    (status : HealthStatus) (hlists : Lists findAgents agents) (hcounts : Counts countActive active)
    (hrequired : normalizeRequirements required = .ok capabilities) (saw : Bool)
    (strategy : String) (rest : List (HealthStatus × String)) :
    (tierMatches agents health capabilities status = [] ∧
      selectFrom sorter findAgents health countActive capabilities saw ((status, strategy) :: rest)
        = selectFrom sorter findAgents health countActive capabilities saw rest) ∨
    (tierMatches agents health capabilities status ≠ [] ∧
      unsaturated agents health active capabilities status = [] ∧
      selectFrom sorter findAgents health countActive capabilities saw ((status, strategy) :: rest)
        = selectFrom sorter findAgents health countActive capabilities true rest) ∨
    ∃ l selected others,
      l.Perm ((unsaturated agents health active capabilities status).map (Agent.ranked active)) ∧
      sorter.sort RankedAgent.before l = selected :: others ∧
      selectFrom sorter findAgents health countActive capabilities saw ((status, strategy) :: rest)
        = .ok (selected.decision capabilities status strategy (others.length + 1)) := by
  obtain ⟨hmem, hcanonical⟩ := canonical_headD hrequired
  obtain ⟨page, hsearch, hitems⟩ :=
    search_eq sorter health status hlists hcanonical
  have hcandidates := matchingAll_perm hmem hitems
  obtain ⟨loads, hcount, hloads⟩ := hcounts ((matchingAll page.items capabilities).map Agent.id)
  obtain ⟨l, hl, hrank⟩ := rankAvailable_eq sorter hcandidates hloads
  simp only [selectFrom, hsearch, hcount, hrank]
  split
  · rename_i hnone
    rw [hnone] at hcandidates
    exact .inl ⟨hcandidates.nil_eq.symm, rfl⟩
  · rename_i hsome
    refine .inr ?_
    rcases hsort : sorter.sort RankedAgent.before l with - | ⟨selected, others⟩
    · refine .inl ⟨?_, ?_, rfl⟩
      · intro hnone
        rw [hnone] at hcandidates
        exact hsome hcandidates.eq_nil
      · have hperm := (sorter.perm RankedAgent.before l).trans hl
        rw [hsort] at hperm
        exact List.map_eq_nil_iff.mp hperm.nil_eq.symm
    · exact .inr ⟨l, selected, others, hl, hsort, rfl⟩

theorem mem_unsaturated {agent : Agent} :
    agent ∈ unsaturated agents health active capabilities status ↔
      agent ∈ agents ∧ (∀ c ∈ capabilities, c ∈ agent.capabilities) ∧ health agent.id = status ∧
        (active agent.id : Int) < agent.capacity := by
  rw [unsaturated, tierMatches, List.mem_filter, List.mem_filter]
  simp [and_assoc]

theorem unsaturated_eq_nil (active : String → Nat)
    (h : tierMatches agents health capabilities status = []) :
    unsaturated agents health active capabilities status = [] := by
  rw [unsaturated, h, List.filter_nil]

/-- The loop stops at the first tier with a candidate, or says why there is none. -/
theorem selectFrom_cases (sorter : Sorter) (health : String → HealthStatus)
    (hlists : Lists findAgents agents) (hcounts : Counts countActive active)
    (hrequired : normalizeRequirements required = .ok capabilities) (saw : Bool)
    (tiers : List (HealthStatus × String)) :
    (∃ passed status strategy rest l selected others,
      tiers = passed ++ (status, strategy) :: rest ∧
      (∀ tier ∈ passed, unsaturated agents health active capabilities tier.1 = []) ∧
      l.Perm ((unsaturated agents health active capabilities status).map (Agent.ranked active)) ∧
      sorter.sort RankedAgent.before l = selected :: others ∧
      selectFrom sorter findAgents health countActive capabilities saw tiers
        = .ok (selected.decision capabilities status strategy (others.length + 1))) ∨
    ((∀ tier ∈ tiers, unsaturated agents health active capabilities tier.1 = []) ∧
      selectFrom sorter findAgents health countActive capabilities saw tiers =
        .error (if saw = true ∨ ∃ tier ∈ tiers, tierMatches agents health capabilities tier.1 ≠ []
          then Sentinel.noCapacity.err else Sentinel.noCandidate.err)) := by
  induction tiers generalizing saw with
  | nil => exact .inr ⟨by simp, by simp [selectFrom]⟩
  | cons tier rest ih =>
      obtain ⟨status, strategy⟩ := tier
      rcases selectFrom_cons sorter health status hlists hcounts hrequired saw strategy rest with
        ⟨hnone, he⟩ | ⟨hsome, hfull, he⟩ | ⟨l, selected, others, hl, hsort, he⟩
      · have hfull := unsaturated_eq_nil active hnone
        rcases ih saw with ⟨passed, status', strategy', rest', l, selected, others, rfl, hpassed, h⟩
          | ⟨hpassed, he'⟩
        · exact .inl ⟨(status, strategy) :: passed, status', strategy', rest', l, selected, others,
            rfl, List.forall_mem_cons.mpr ⟨hfull, hpassed⟩, h.1, h.2.1, he.trans h.2.2⟩
        · refine .inr ⟨List.forall_mem_cons.mpr ⟨hfull, hpassed⟩, ?_⟩
          rw [he, he']
          simp only [List.exists_mem_cons_iff, hnone, ne_eq, not_true_eq_false, false_or]
      · rcases ih true with
          ⟨passed, status', strategy', rest', l, selected, others, rfl, hpassed, h⟩ | ⟨hpassed, he'⟩
        · exact .inl ⟨(status, strategy) :: passed, status', strategy', rest', l, selected, others,
            rfl, List.forall_mem_cons.mpr ⟨hfull, hpassed⟩, h.1, h.2.1, he.trans h.2.2⟩
        · refine .inr ⟨List.forall_mem_cons.mpr ⟨hfull, hpassed⟩, ?_⟩
          rw [he, he']
          simp [hsome]
      · exact .inl ⟨[], status, strategy, rest, l, selected, others, rfl, by simp, hl, hsort, he⟩

/-- `Select` takes a candidate of the first tier that has one, or says why there is none. -/
theorem select_cases (sorter : Sorter) (health : String → HealthStatus)
    (hlists : Lists findAgents agents) (hcounts : Counts countActive active)
    (hrequired : normalizeRequirements required = .ok capabilities) :
    (∃ status strategy l selected others, (status, strategy) ∈ tiers ∧
      (status = .healthy ∨
        status = .unknown ∧ unsaturated agents health active capabilities .healthy = []) ∧
      l.Perm ((unsaturated agents health active capabilities status).map (Agent.ranked active)) ∧
      sorter.sort RankedAgent.before l = selected :: others ∧
      select sorter findAgents health countActive required
        = .ok (selected.decision capabilities status strategy (others.length + 1))) ∨
    (unsaturated agents health active capabilities .healthy = [] ∧
      unsaturated agents health active capabilities .unknown = [] ∧
      select sorter findAgents health countActive required =
        .error (if tierMatches agents health capabilities .healthy ≠ [] ∨
            tierMatches agents health capabilities .unknown ≠ []
          then Sentinel.noCapacity.err else Sentinel.noCandidate.err)) := by
  simp only [select, hrequired]
  rcases selectFrom_cases sorter health hlists hcounts hrequired false tiers with
    ⟨passed, status, strategy, rest, l, selected, others, htiers, hpassed, hl, hsort, he⟩ |
    ⟨hpassed, he⟩
  · refine .inl ⟨status, strategy, l, selected, others, by simp [htiers], ?_, hl, hsort, he⟩
    rcases passed with - | ⟨first, passed⟩
    · rw [List.nil_append, tiers, List.cons.injEq, Prod.mk.injEq] at htiers
      exact .inl htiers.1.1.symm
    · rw [tiers, List.cons_append, List.cons.injEq] at htiers
      obtain ⟨rfl, hrest⟩ := htiers
      have hmem : (status, strategy) ∈
          [(HealthStatus.unknown, "unknown-fallback-load-priority-created-at-id")] := by
        rw [hrest]
        simp
      exact .inr ⟨(Prod.mk.inj (List.mem_singleton.mp hmem)).1, hpassed _ List.mem_cons_self⟩
  · refine .inr ⟨hpassed (.healthy, _) (.head _), hpassed (.unknown, _) (.tail _ (.head _)), ?_⟩
    rw [he]
    simp [tiers]

/-! ### The candidate that is selected -/

/-- The ID tells the candidates apart. -/
theorem eq_of_ranked_id (hids : (agents.map Agent.id).Nodup) :
    ∀ r ∈ (unsaturated agents health active capabilities status).map (Agent.ranked active),
      ∀ r' ∈ (unsaturated agents health active capabilities status).map (Agent.ranked active),
        r.agent.id = r'.agent.id → r = r' := by
  intro r hr r' hr' hid
  obtain ⟨a, ha, rfl⟩ := List.mem_map.mp hr
  obtain ⟨b, hb, rfl⟩ := List.mem_map.mp hr'
  rw [List.inj_on_of_nodup_map hids (mem_unsaturated.mp ha).1 (mem_unsaturated.mp hb).1 hid]

theorem eq_of_key_eq (hids : (agents.map Agent.id).Nodup) :
    ∀ r ∈ (unsaturated agents health active capabilities status).map (Agent.ranked active),
      ∀ r' ∈ (unsaturated agents health active capabilities status).map (Agent.ranked active),
        r.key = r'.key → r = r' := by
  intro r hr r' hr' hkey
  apply eq_of_ranked_id hids r hr r' hr'
  have hkey := toLex.injective hkey
  simp only [Prod.mk.injEq, toLex_inj] at hkey
  exact hkey.2.2.2.2

/-- Where no product overflows, the comparison is that of the keys. -/
theorem findsLeast_of_productsFit (hids : (agents.map Agent.id).Nodup)
    (hfit : ProductsFit agents health active capabilities status) :
    FindsLeast RankedAgent.before RankedAgent.key
      ((unsaturated agents health active capabilities status).map (Agent.ranked active)) := by
  apply Compares.findsLeast
  · intro r hr r' hr'
    obtain ⟨a, ha, rfl⟩ := List.mem_map.mp hr
    obtain ⟨b, hb, rfl⟩ := List.mem_map.mp hr'
    exact RankedAgent.before_iff (Int.natCast_nonneg _) (mem_unsaturated.mp ha).2.2.2
      (Int.natCast_nonneg _) (mem_unsaturated.mp hb).2.2.2 (hfit a ha b hb) (hfit b hb a ha)
  · exact eq_of_key_eq hids

/-- What `Select` returns is optimal. -/
theorem select_ok (sorter : Sorter) (health : String → HealthStatus)
    (hlists : Lists findAgents agents) (hcounts : Counts countActive active)
    (hrequired : normalizeRequirements required = .ok capabilities)
    (hranks : RanksLeast agents health active capabilities) {d : Decision}
    (h : select sorter findAgents health countActive required = .ok d) :
    d.requiredCapabilities = capabilities ∧
      Optimal agents health active capabilities d.health d.agent := by
  rcases select_cases sorter health hlists hcounts hrequired with
    ⟨status, strategy, l, selected, others, -, htier, hl, hsort, he⟩ | ⟨-, -, he⟩
  · obtain rfl := Except.ok.inj (he.symm.trans h)
    have hleast := sorter.head_le (hranks status htier) hl hsort
    have hmem : selected ∈ l := (sorter.perm RankedAgent.before l).mem_iff.mp (by simp [hsort])
    obtain ⟨agent, hagent, rfl⟩ := List.mem_map.mp (hl.mem_iff.mp hmem)
    refine ⟨rfl, hagent, htier, ?_⟩
    intro other hother
    exact hleast _ (List.mem_map_of_mem hother)
  · rw [h] at he
    cases he

/-- A tier whose ranking is not empty has a candidate. -/
theorem ne_nil_of_sort {l others : List RankedAgent} {selected : RankedAgent}
    (hl : l.Perm ((unsaturated agents health active capabilities status).map
      (Agent.ranked active)))
    (hsort : sorter.sort RankedAgent.before l = selected :: others) :
    unsaturated agents health active capabilities status ≠ [] := by
  intro hnone
  rw [hnone, List.map_nil] at hl
  rw [hl.eq_nil] at hsort
  exact List.cons_ne_nil _ _ (hsort.symm.trans (sorter.perm _ _).eq_nil)

/-- `Select` succeeds if there is a candidate, and otherwise tells whether there are matches. -/
theorem select_answers (sorter : Sorter) (health : String → HealthStatus)
    (hlists : Lists findAgents agents) (hcounts : Counts countActive active)
    (hrequired : normalizeRequirements required = .ok capabilities) :
    ((∃ d, select sorter findAgents health countActive required = .ok d) ∧
      (unsaturated agents health active capabilities .healthy ≠ [] ∨
        unsaturated agents health active capabilities .unknown ≠ [])) ∨
    (unsaturated agents health active capabilities .healthy = [] ∧
      unsaturated agents health active capabilities .unknown = [] ∧
      select sorter findAgents health countActive required =
        .error (if tierMatches agents health capabilities .healthy ≠ [] ∨
            tierMatches agents health capabilities .unknown ≠ []
          then Sentinel.noCapacity.err else Sentinel.noCandidate.err)) := by
  rcases select_cases sorter health hlists hcounts hrequired with
    ⟨status, strategy, l, selected, others, -, htier, hl, hsort, he⟩ | hnone
  · refine .inl ⟨⟨_, he⟩, ?_⟩
    rcases htier with rfl | ⟨rfl, -⟩
    · exact .inl (ne_nil_of_sort hl hsort)
    · exact .inr (ne_nil_of_sort hl hsort)
  · exact .inr hnone

/-- The answer depends neither on the sort nor on the order in which the store lists the Agents. -/
theorem select_unique (sorter sorter' : Sorter) (health : String → HealthStatus)
    (hids : (agents.map Agent.id).Nodup)
    (hlists : Lists findAgents agents) (hlists' : Lists findAgents' agents)
    (hcounts : Counts countActive active) (hcounts' : Counts countActive' active)
    (hrequired : normalizeRequirements required = .ok capabilities)
    (hranks : RanksLeast agents health active capabilities) :
    select sorter findAgents health countActive required =
      select sorter' findAgents' health countActive' required := by
  rcases select_cases sorter health hlists hcounts hrequired with
    ⟨status, strategy, l, selected, others, hmem, htier, hl, hsort, he⟩ | ⟨hnone, hnone', he⟩
  · rcases select_cases sorter' health hlists' hcounts' hrequired with
      ⟨status', strategy', l', selected', others', hmem', htier', hl', hsort', he'⟩ |
      ⟨hnone, hnone', -⟩
    · obtain rfl : status = status' := by
        rcases htier with rfl | ⟨rfl, hnone⟩
        · rcases htier' with rfl | ⟨rfl, hnone'⟩
          · rfl
          · exact absurd hnone' (ne_nil_of_sort hl hsort)
        · rcases htier' with rfl | ⟨rfl, -⟩
          · exact absurd hnone (ne_nil_of_sort hl' hsort')
          · rfl
      obtain rfl : strategy = strategy' := by
        have hpair := List.inj_on_of_nodup_map (f := Prod.fst) (by decide) hmem hmem' rfl
        exact (Prod.mk.inj hpair).2
      -- both have selected the least candidate, among as many
      have hperm := hsort ▸ (sorter.perm RankedAgent.before l).trans hl
      have hperm' := hsort' ▸ (sorter'.perm RankedAgent.before l').trans hl'
      have hselected := hperm.mem_iff.mp List.mem_cons_self
      have hselected' := hperm'.mem_iff.mp List.mem_cons_self
      have hsame : selected = selected' := by
        apply eq_of_key_eq hids selected hselected selected' hselected'
        apply le_antisymm
        · exact sorter.head_le (hranks status htier) hl hsort selected' hselected'
        · exact sorter'.head_le (hranks status htier) hl' hsort' selected hselected
      have hlength : others.length = others'.length := by
        have hcons := (hperm.trans hperm'.symm).length_eq
        simpa using hcons
      rw [he, he', hsame, hlength]
    · rcases htier with rfl | ⟨rfl, -⟩
      · exact absurd hnone (ne_nil_of_sort hl hsort)
      · exact absurd hnone' (ne_nil_of_sort hl hsort)
  · rcases select_cases sorter' health hlists' hcounts' hrequired with
      ⟨status', strategy', l', selected', others', hmem', htier', hl', hsort', he'⟩ | ⟨-, -, he'⟩
    · rcases htier' with rfl | ⟨rfl, -⟩
      · exact absurd hnone (ne_nil_of_sort hl' hsort')
      · exact absurd hnone' (ne_nil_of_sort hl' hsort')
    · rw [he, he']

end Tiers

/-! ### The Memory store -/

/-- The active Runs of an Agent. -/
def Memory.activeRuns (m : Memory) (id : String) : Nat :=
  m.runs.entries.countP fun entry => entry.2.IsActive ∧ entry.2.agentID = id

/-- The stored Agents. -/
def Memory.agentList (m : Memory) : List Agent :=
  m.agents.entries.map fun entry => entry.2

theorem Memory.lists (m : Memory) : Lists m.findAgents m.agentList := by
  intro c hc
  have hne := normalizeCapability_ne_empty hc
  have hfilter : normalizeFilter { capability := c } = .ok { capability := c } := by
    simp only [normalizeFilter, hne, ne_eq, not_false_eq_true, if_true, hc,
      normalizeAgentIdentifier_empty, bind, Except.bind, pure, Except.pure]
  simp only [Memory.findAgents, hfilter]
  refine ⟨_, rfl, (List.perm_insertionSort _ _).trans (.of_eq ?_)⟩
  rw [Memory.agentList, ← List.filterMap_eq_filter, List.filterMap_map]
  refine List.filterMap_congr fun entry _ => ?_
  by_cases hmem : c ∈ entry.2.capabilities
  · simp [hmem, Option.guard]
  · simp [hmem, hne, Option.guard]

theorem find?_map_pair {β : Type} (f : String → β) {ids : List String} {id : String} (h : id ∈ ids) :
    ((ids.map fun id => (id, f id)).find? fun load => load.1 = id).map Prod.snd = some (f id) := by
  induction ids with
  | nil => cases h
  | cons x rest ih =>
      rw [List.map_cons]
      by_cases hx : x = id
      · rw [List.find?_cons_of_pos (by simpa using hx), hx]
        rfl
      · rw [List.find?_cons_of_neg (by simpa using hx)]
        exact ih ((List.mem_cons.mp h).resolve_left fun heq => hx heq.symm)

theorem Memory.counts (m : Memory) :
    Counts (fun ids => .ok (m.countActiveRunsByAgent ids)) m.activeRuns := by
  intro ids
  refine ⟨_, rfl, ?_⟩
  intro id hid
  rw [loadOf, Memory.countActiveRunsByAgent, find?_map_pair _ (List.mem_dedup.mpr hid)]
  rfl

/-- Some repository lists the Agents, and some counter counts their Runs. -/
theorem exists_lists_counts (agents : List Agent) (active : String → Nat) :
    ∃ findAgents countActive, Lists findAgents agents ∧ Counts countActive active := by
  refine ⟨fun filter => .ok (agents.filter fun agent => filter.capability ∈ agent.capabilities),
    fun ids => .ok (ids.map fun id => (id, active id)), ?_, ?_⟩
  · exact fun c _ => ⟨_, rfl, .refl _⟩
  · intro ids
    refine ⟨_, rfl, ?_⟩
    intro id hid
    rw [loadOf, find?_map_pair active hid]
    rfl

/-- If every sort leads to an optimal answer, the comparison finds the least candidate. -/
theorem ranksLeast_of_optimal {health : String → HealthStatus} {agents : List Agent}
    {active : String → Nat} {capabilities required : List String}
    (hids : (agents.map Agent.id).Nodup)
    (hrequired : normalizeRequirements required = .ok capabilities)
    (h : ∀ sorter findAgents countActive, Lists findAgents agents → Counts countActive active →
      ∀ d, select sorter findAgents health countActive required = .ok d →
        Optimal agents health active capabilities d.health d.agent) :
    RanksLeast agents health active capabilities := by
  obtain ⟨findAgents, countActive, hlists, hcounts⟩ := exists_lists_counts agents active
  intro status htier
  by_cases hnone : unsaturated agents health active capabilities status = []
  · rw [hnone]
    exact ⟨⟨by simp, by simp⟩, by simp⟩
  apply findsLeast_of_heads (eq_of_key_eq hids) (fun r _ => r.before_self)
  · intro r hr r' hr' hne
    exact RankedAgent.before_total fun hid => hne (eq_of_ranked_id hids r hr r' hr' hid)
  · intro sorter
    rcases select_cases sorter health hlists hcounts hrequired with
      ⟨status', strategy, l, selected, others, -, htier', hl, hsort, he⟩ | ⟨hhealthy, hunknown, -⟩
    · obtain rfl : status' = status := by
        rcases htier with rfl | ⟨rfl, hempty⟩
        · rcases htier' with rfl | ⟨rfl, hempty⟩
          · rfl
          · exact absurd hempty hnone
        · rcases htier' with rfl | ⟨rfl, -⟩
          · exact absurd hempty (ne_nil_of_sort hl hsort)
          · rfl
      refine ⟨l, hl, selected, others, hsort, ?_⟩
      intro r hr
      obtain ⟨agent, hagent, rfl⟩ := List.mem_map.mp hr
      have hleast := (h sorter findAgents countActive hlists hcounts _ he).least agent hagent
      have hmem : selected ∈ l := (sorter.perm RankedAgent.before l).mem_iff.mp (by simp [hsort])
      obtain ⟨chosen, -, rfl⟩ := List.mem_map.mp (hl.mem_iff.mp hmem)
      exact hleast
    · rcases htier with rfl | ⟨rfl, -⟩
      · exact absurd hhealthy hnone
      · exact absurd hunknown hnone

/-- **When the router is optimal.**  For Agents with different IDs, any health and any loads, the
following is so for every sort and every order in which the store lists the Agents if and only if
the comparison finds the least candidate: what `Select` returns is the least candidate of the
healthy tier, or of the unknown tier if the healthy one has none; it returns one exactly if there
is a candidate, `ErrNoCapacity` exactly if there are matches and all are saturated, and
`ErrNoCandidate` exactly if there are none; and the answer depends neither on the sort nor on the
order in which the store lists the Agents. -/
theorem select_optimal_iff {health : String → HealthStatus} {agents : List Agent}
    {active : String → Nat} {capabilities required : List String}
    (hids : (agents.map Agent.id).Nodup)
    (hrequired : normalizeRequirements required = .ok capabilities) :
    (∀ sorter findAgents countActive, Lists findAgents agents → Counts countActive active →
      (∀ d, select sorter findAgents health countActive required = .ok d →
        d.requiredCapabilities = capabilities ∧
          Optimal agents health active capabilities d.health d.agent) ∧
      ((∃ d, select sorter findAgents health countActive required = .ok d) ↔
        unsaturated agents health active capabilities .healthy ≠ [] ∨
          unsaturated agents health active capabilities .unknown ≠ []) ∧
      (select sorter findAgents health countActive required = .error Sentinel.noCapacity.err ↔
        (tierMatches agents health capabilities .healthy ≠ [] ∨
          tierMatches agents health capabilities .unknown ≠ []) ∧
        unsaturated agents health active capabilities .healthy = [] ∧
        unsaturated agents health active capabilities .unknown = []) ∧
      (select sorter findAgents health countActive required = .error Sentinel.noCandidate.err ↔
        tierMatches agents health capabilities .healthy = [] ∧
        tierMatches agents health capabilities .unknown = []) ∧
      (∀ sorter' findAgents' countActive', Lists findAgents' agents → Counts countActive' active →
        select sorter' findAgents' health countActive' required =
          select sorter findAgents health countActive required)) ↔
    RanksLeast agents health active capabilities := by
  constructor
  · intro h
    apply ranksLeast_of_optimal hids hrequired
    intro sorter findAgents countActive hlists hcounts d hd
    exact ((h sorter findAgents countActive hlists hcounts).1 d hd).2
  intro hranks sorter findAgents countActive hlists hcounts
  refine ⟨fun d hd => select_ok sorter health hlists hcounts hrequired hranks hd, ?_⟩
  have hunique : ∀ sorter' findAgents' countActive', Lists findAgents' agents →
      Counts countActive' active → select sorter' findAgents' health countActive' required =
        select sorter findAgents health countActive required := by
    intro sorter' findAgents' countActive' hlists' hcounts'
    exact select_unique sorter' sorter health hids hlists' hlists hcounts' hcounts hrequired hranks
  rcases select_answers sorter health hlists hcounts hrequired with
    ⟨⟨d, hd⟩, hsome⟩ | ⟨hhealthy, hunknown, he⟩
  · refine ⟨⟨fun _ => hsome, fun _ => ⟨d, hd⟩⟩, ?_, ?_, hunique⟩
    · rw [hd]
      refine ⟨fun h => (by cases h), ?_⟩
      rintro ⟨-, hhealthy, hunknown⟩
      exact (hsome.elim (absurd hhealthy) (absurd hunknown))
    · rw [hd]
      refine ⟨fun h => (by cases h), ?_⟩
      rintro ⟨hhealthy, hunknown⟩
      exact (hsome.elim (absurd (unsaturated_eq_nil active hhealthy))
        (absurd (unsaturated_eq_nil active hunknown)))
  · rw [he]
    refine ⟨⟨?_, ?_⟩, ?_, ?_, he ▸ hunique⟩
    · rintro ⟨d, hd⟩
      cases hd
    · exact fun h => (h.elim (absurd hhealthy) (absurd hunknown))
    · split
      · exact ⟨fun _ => ⟨‹_›, hhealthy, hunknown⟩, fun _ => rfl⟩
      · exact ⟨fun h => absurd h (by decide), fun h => absurd h.1 ‹_›⟩
    · split
      · rename_i hsome
        refine ⟨fun h => absurd h (by decide), ?_⟩
        rintro ⟨hnone, hnone'⟩
        exact (hsome.elim (absurd hnone) (absurd hnone'))
      · rename_i hnone
        push Not at hnone
        exact ⟨fun _ => hnone, fun _ => rfl⟩

/-- A store with Agents, and an active Run for each ID in the list. -/
def routedStore (agents : List Agent) (loads : List String) : Memory where
  agents := agents.foldl (fun table agent => table.insert agent.id agent) ∅
  runs := loads.zipIdx.foldl (fun table load => table.insert (toString load.2)
    { id := toString load.2, agentID := load.1, status := .queued }) ∅

/-- `Select` over the Memory store, with every Agent healthy. -/
def Memory.select (m : Memory) (sorter : Sorter) (required : List String) : Except Err Decision :=
  AgentMesh.select sorter m.findAgents (fun _ => .healthy)
    (fun ids => .ok (m.countActiveRunsByAgent ids)) required

/-- A small Agent, and one with very many slots. -/
def crowded : Agent := { id := "crowded", capabilities := ["summarize"], maxConcurrency := 3 }

def spacious : Agent :=
  { id := "spacious", capabilities := ["summarize"], maxConcurrency := 2 ^ 62 }

/-- One slot of three in use, and one of `2 ^ 62`. -/
def evenLoad : Memory := routedStore [crowded, spacious] ["crowded", "spacious"]

/-- Two slots of three in use, and one of `2 ^ 62`. -/
def unevenLoad : Memory := routedStore [crowded, spacious] ["crowded", "crowded", "spacious"]

/-- No product overflows, and the Agent with many slots is selected. -/
theorem select_optimal_iff_spacious :
    ∃ d, evenLoad.select insertion ["Summarize"] = .ok d ∧ d.agent = spacious ∧
      Optimal evenLoad.agentList (fun _ => .healthy) evenLoad.activeRuns ["summarize"]
        d.health d.agent := by
  have hselect : evenLoad.select insertion ["Summarize"] =
      .ok ((spacious.ranked fun _ => 1).decision ["summarize"] .healthy
        "healthy-load-priority-created-at-id" 2) := by
    decide
  have hids : (evenLoad.agentList.map Agent.id).Nodup := by decide
  have hranks : RanksLeast evenLoad.agentList (fun _ => .healthy) evenLoad.activeRuns
      ["summarize"] := by
    intro status _
    apply findsLeast_of_productsFit hids
    cases status <;> decide
  have hrequired : normalizeRequirements ["Summarize"] = .ok ["summarize"] := by decide
  have hoptimal := (select_optimal_iff hids hrequired).mpr hranks insertion _ _ evenLoad.lists
    evenLoad.counts
  exact ⟨_, hselect, rfl, (hoptimal.1 _ hselect).2⟩

/-- The comparison of the two puts the more loaded one first. -/
theorem findsLeast_unevenLoad :
    FindsLeast RankedAgent.before (fun r => if r.agent = crowded then 0 else 1)
      ([spacious, crowded].map (Agent.ranked unevenLoad.activeRuns)) := by
  apply Compares.findsLeast
  · rw [Compares]
    decide
  · decide

/-- The more loaded Agent is selected, whatever the sort: `2 * 2 ^ 62` is negative in 64 bits. -/
theorem select_unevenLoad (sorter : Sorter) :
    ∃ d, unevenLoad.select sorter ["summarize"] = .ok d ∧ d.agent = crowded ∧
      (spacious.ranked unevenLoad.activeRuns).key < (crowded.ranked unevenLoad.activeRuns).key := by
  have hunsaturated : unsaturated unevenLoad.agentList (fun _ => .healthy) unevenLoad.activeRuns
      ["summarize"] .healthy = [spacious, crowded] := by
    decide
  have hkey : (spacious.ranked unevenLoad.activeRuns).key <
      (crowded.ranked unevenLoad.activeRuns).key := by
    have hspacious : spacious.ranked unevenLoad.activeRuns = ⟨spacious, 1, 2 ^ 62⟩ := by
      decide
    have hcrowded : crowded.ranked unevenLoad.activeRuns = ⟨crowded, 2, 3⟩ := by
      decide
    rw [hspacious, hcrowded]
    exact Prod.Lex.toLex_lt_toLex.mpr (.inl (by norm_num))
  rcases select_cases sorter (fun _ => .healthy) unevenLoad.lists unevenLoad.counts
      (show normalizeRequirements ["summarize"] = .ok ["summarize"] by decide) with
    ⟨status, strategy, l, selected, others, -, htier, hl, hsort, he⟩ | ⟨hnone, -⟩
  · obtain rfl : status = .healthy := by
      refine htier.resolve_right fun h => ?_
      rw [hunsaturated] at h
      exact List.cons_ne_nil _ _ h.2
    refine ⟨_, he, ?_, hkey⟩
    rw [hunsaturated] at hl
    have hle : (if selected.agent = crowded then 0 else 1) ≤ 0 :=
      sorter.head_le findsLeast_unevenLoad hl hsort (crowded.ranked unevenLoad.activeRuns)
        (by simp)
    show selected.agent = crowded
    by_contra hne
    rw [if_neg hne] at hle
    omega
  · rw [hunsaturated] at hnone
    cases hnone

/-- So it is with insertion sort, although the other Agent has the smaller key. -/
theorem select_overflows :
    ∃ d, unevenLoad.select insertion ["summarize"] = .ok d ∧ d.agent = crowded ∧
      (spacious.ranked unevenLoad.activeRuns).key < (crowded.ranked unevenLoad.activeRuns).key :=
  select_unevenLoad insertion

end AgentMesh
