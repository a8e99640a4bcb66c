/-
AgentMesh/Transparency.lean

The caching store of `internal/store/cached.go`, used by one caller at a time
over the Memory store.

`Cached.lean` has the methods on one Run; here are those on one Agent, the
methods that pass their arguments on, and the cache with its two kinds of keys.
The cache works: what is set is found until it is deleted or expires.

`CachedStore.results` are the results of a sequence of operations with entries
that expire in between, `Memory.results` those of the same operations on the
store alone.  They are the same as long as the cache has nothing but what the
store has (`Lookaside.Coherent`).  Two methods can break this.  `UpdateRun` and
`UpdateRunFenced` put the Run of the caller into the cache, where the store keeps
the lineage that it has, and `CancelRun` leaves the cache as it is if the Run has
an empty ID.  `transparent` excludes both.
-/
import AgentMesh.Lookaside
import AgentMesh.Cached
import AgentMesh.Lineage

namespace AgentMesh

/-! ### Methods on one Agent -/

def agentKey (id : String) : String := "agentmesh:agent:" ++ id

theorem agentKey_inj {id id' : String} : agentKey id = agentKey id' ↔ id = id' :=
  String.append_right_inj _

/-- The two kinds of keys differ after the common prefix of the product. -/
theorem agentKey_ne_runKey (id id' : String) : agentKey id ≠ runKey id' := by
  intro h
  have hagent : (agentKey id).toList = "agentmesh:agent:".toList ++ id.toList :=
    String.toList_append
  have hrun : (runKey id').toList = "agentmesh:run:".toList ++ id'.toList := String.toList_append
  have hchar := congrArg (fun key : String => key.toList[10]?) h
  simp only [hagent, hrun] at hchar
  exact absurd hchar (by simp)

/-- The repository after its part of a method, the result, and the write that follows. -/
structure AgentOutcome where
  store : Memory
  result : AgentResult
  write : Lookaside.Write String Agent := .keep

namespace Cached

def createAgent (absoluteURI : String → Bool) (inner : Memory) (agent : Agent) (now : Time) :
    AgentOutcome :=
  match inner.createAgent absoluteURI agent now with
  | .error err => { store := inner, result := .agent (.error err) }
  | .ok (inner, created) =>
      { store := inner, result := .agent (.ok created), write := .set created.id created }

/-- `GetAgent` where the cache has no entry. -/
def getAgent (inner : Memory) (id : String) : AgentOutcome :=
  match inner.getAgent id with
  | .error err => { store := inner, result := .agent (.error err) }
  | .ok agent => { store := inner, result := .agent (.ok agent), write := .set id agent }

/-- The entry that is deleted after an error. -/
def deleteOn (id : String) (err : Err) : Lookaside.Write String Agent :=
  if err.is .conflict || err.is .notFound then .delete id else .keep

def updateAgent (absoluteURI : String → Bool) (inner : Memory) (agent : Agent)
    (expectedVersion : Int) (now : Time) : AgentOutcome :=
  match inner.updateAgent absoluteURI agent expectedVersion now with
  | .error err =>
      { store := inner, result := .agent (.error err), write := deleteOn agent.id err }
  | .ok (inner, updated) =>
      { store := inner, result := .agent (.ok updated), write := .set updated.id updated }

def deleteAgent (inner : Memory) (id : String) (expectedVersion : Int) : AgentOutcome :=
  match inner.deleteAgent id expectedVersion with
  | .error err => { store := inner, result := .deleted (some err), write := deleteOn id err }
  | .ok inner => { store := inner, result := .deleted none, write := .delete id }

end Cached

def AgentOp.perform (absoluteURI : String → Bool) (inner : Memory) : AgentOp → AgentOutcome
  | .createAgent agent now => Cached.createAgent absoluteURI inner agent now
  | .getAgent id => Cached.getAgent inner id
  | .updateAgent agent expectedVersion now =>
      Cached.updateAgent absoluteURI inner agent expectedVersion now
  | .deleteAgent id expectedVersion => Cached.deleteAgent inner id expectedVersion

/-! ### The store with its cache -/

inductive CacheEntry
  | agent (agent : Agent)
  | run (run : Run)

def CacheEntry.asRun : CacheEntry → Option Run
  | .run value => some value
  | .agent _ => none

def CacheEntry.asAgent : CacheEntry → Option Agent
  | .agent value => some value
  | .run _ => none

/-- The write of a method on Runs in the terms of the library. -/
def cacheWrite : Option CacheWrite → Lookaside.Write String Run
  | none => .keep
  | some (.set id run) => .set id run
  | some (.delete id) => .delete id

structure CachedStore where
  inner : Memory := {}
  cache : Table CacheEntry := ∅

namespace CachedStore

variable {V : Type}

/-- The entries under one kind of keys. -/
def view (s : CachedStore) (key : String → String) (decode : CacheEntry → Option V) :
    String → Option V :=
  fun id => (s.cache.lookup (key id)).bind decode

def write (s : CachedStore) (key : String → String) (encode : V → CacheEntry) :
    Lookaside.Write String V → CachedStore
  | .keep => s
  | .set id value => { s with cache := s.cache.insert (key id) (encode value) }
  | .delete id => { s with cache := s.cache.erase (key id) }

def cachedRun (s : CachedStore) : String → Option Run := s.view runKey CacheEntry.asRun

def cachedAgent (s : CachedStore) : String → Option Agent := s.view agentKey CacheEntry.asAgent

end CachedStore

/-! ### Sequences of operations -/

inductive RepositoryOp
  | run (op : RunOp)
  | agent (op : AgentOp)
  | read (op : ReadOp)

inductive RepositoryResult
  | run (result : OpResult)
  | agent (result : AgentResult)
  | read (result : ReadResult)

/-- The Run in the answer of `GetRun`. -/
def RepositoryResult.got : RepositoryResult → Option Run
  | .run (.got (.ok found)) => some found
  | _ => none

inductive CacheEvent
  | op (op : RepositoryOp)
  | expire (key : String)

def CacheEvent.operation : CacheEvent → Option RepositoryOp
  | .op given => some given
  | .expire _ => none

section Sequences

variable (absoluteURI : String → Bool)

def Memory.answer (m : Memory) : RepositoryOp → Memory × RepositoryResult
  | .run op => ((m.perform op).1, .run (m.perform op).2)
  | .agent op => ((m.performAgent absoluteURI op).1, .agent (m.performAgent absoluteURI op).2)
  | .read op => (m, .read (m.read op))

def Memory.results (m : Memory) : List RepositoryOp → List RepositoryResult
  | [] => []
  | op :: rest => (m.answer absoluteURI op).2 :: Memory.results (m.answer absoluteURI op).1 rest

namespace CachedStore

/-- A method on a Run that does not find its answer in the cache. -/
def performRun (s : CachedStore) (op : RunOp) : CachedStore × RepositoryResult :=
  ({ s with inner := (op.perform s.inner).store }.write runKey .run
      (cacheWrite (op.perform s.inner).write),
    .run (op.perform s.inner).result)

def performAgent (s : CachedStore) (op : AgentOp) : CachedStore × RepositoryResult :=
  ({ s with inner := (op.perform absoluteURI s.inner).store }.write agentKey .agent
      (op.perform absoluteURI s.inner).write,
    .agent (op.perform absoluteURI s.inner).result)

def answer (s : CachedStore) : RepositoryOp → CachedStore × RepositoryResult
  | .run (.getRun id) =>
      match s.cachedRun id with
      | some run => (s, .run (.got (.ok run)))
      | none => s.performRun (.getRun id)
  | .run op => s.performRun op
  | .agent (.getAgent id) =>
      match (s.cachedAgent id).filter fun agent => 1 ≤ agent.version with
      | some agent => (s, .agent (.agent (.ok agent)))
      | none => s.performAgent absoluteURI (.getAgent id)
  | .agent op => s.performAgent absoluteURI op
  | .read op => (s, .read (s.inner.read op))

def results (s : CachedStore) : List CacheEvent → List RepositoryResult
  | [] => []
  | .op op :: rest => (s.answer absoluteURI op).2 :: results (s.answer absoluteURI op).1 rest
  | .expire key :: rest => results { s with cache := s.cache.erase key } rest

end CachedStore

end Sequences

/-! ### The condition -/

/-- The Run has the lineage that the store has for it. -/
def Memory.carriesLineage (m : Memory) (run : Run) : Bool :=
  (m.runs.lookup run.id).all fun existing => Memory.keepLineage existing run = run

/-- An update that is accepted has the stored lineage, and no Run with an empty ID is canceled. -/
def transparent (m : Memory) : RepositoryOp → Bool
  | .run (.updateRun run) => !(m.updateRun run).isOk || m.carriesLineage run
  | .run (.updateRunFenced run fence) => !(m.updateRunFenced run fence).isOk || m.carriesLineage run
  | .run (.cancelRun id at_) => id ≠ "" || !(m.cancelRun id at_).isOk
  | _ => true

def conforms (absoluteURI : String → Bool) (m : Memory) : List RepositoryOp → Bool
  | [] => true
  | op :: rest => transparent m op && conforms absoluteURI (m.answer absoluteURI op).1 rest

/-! ### What a method does to the store and tells the cache -/

theorem Table.set_tells {V : Type} (table : Table V) (id : String) (value : V) :
    (Lookaside.Write.set id value).Tells (fun id' => table.lookup id')
      fun id' => (table.insert id value).lookup id' :=
  ⟨AList.lookup_insert _, fun _ hne => AList.lookup_insert_ne hne⟩

section Runs

variable {m m' : Memory} {run run' : Run} {id key : String} {op : RunOp}

/-- The methods answer as the store does. -/
theorem RunOp.perform_eq (m : Memory) (op : RunOp) :
    ((op.perform m).store, (op.perform m).result) = m.perform op := by
  cases op with
  | getRun id =>
      rw [RunOp.perform, Cached.getRun, Memory.perform]
      rcases m.getRun id with err | run <;> rfl
  | createRun run key =>
      rw [RunOp.perform, Cached.createRun, Memory.perform]
      rcases m.createRun run key with err | ⟨m', run', isNew⟩ <;> rfl
  | createChildRun run key maxChildren =>
      rw [RunOp.perform, Cached.createChildRun, Memory.perform]
      rcases m.createChildRun run key maxChildren with err | ⟨m', run', isNew⟩ <;> rfl
  | updateRun run =>
      rw [RunOp.perform, Cached.updateRun, Memory.perform]
      rcases m.updateRun run with err | m' <;> rfl
  | claimRunExecution id minimumFence =>
      rw [RunOp.perform, Cached.claimRunExecution, Memory.perform]
      rcases m.claimRunExecution id minimumFence with err | ⟨m', fence⟩ <;> rfl
  | updateRunFenced run fence =>
      rw [RunOp.perform, Cached.updateRunFenced, Memory.perform]
      rcases m.updateRunFenced run fence with err | m' <;> rfl
  | cancelRun id at_ =>
      rw [RunOp.perform, Cached.cancelRun, Memory.perform]
      rcases m.cancelRun id at_ with err | ⟨m', run⟩ <;> rfl
  | recoverRun id minimumFence =>
      rw [RunOp.perform, Cached.recoverRun, Memory.perform]
      rcases m.recoverRun id minimumFence with err | ⟨m', recovered⟩ <;> rfl

/-- The Runs of the store by their IDs. -/
def Memory.runsOf (m : Memory) : String → Option Run := fun id => m.runs.lookup id

theorem Memory.runsOf_insert (h : m'.runs = m.runs.insert id run) :
    (Lookaside.Write.set id run).Tells m.runsOf m'.runsOf := by
  have hlookup : m'.runsOf = fun id' => (m.runs.insert id run).lookup id' := by
    funext id'
    rw [Memory.runsOf, h]
  rw [hlookup]
  exact Table.set_tells m.runs id run

theorem Cached.created_tells {isNew : Bool} (hm : m.Indexed)
    (h : m.createRun run key = .ok (m', run', isNew)) :
    (Lookaside.Write.set run'.id run').Tells m.runsOf m'.runsOf := by
  obtain ⟨runID, hbound, rfl, rfl, -⟩ | ⟨-, -, rfl, -⟩ := Memory.createRun_cases h
  · obtain ⟨bound, hrun⟩ := hm.keys key runID (Memory.boundTo_eq_some hbound)
    rw [Table.getD, hrun, Option.getD_some]
    refine Lookaside.Write.tells_set ?_
    rw [hm.id hrun]
    exact hrun
  · exact Memory.runsOf_insert rfl

theorem Cached.updated_tells {answer : Except Err Memory}
    (h : ∀ m', answer = .ok m' → m'.runs = m.runs.insert run.id run) :
    (cacheWrite (Cached.updated m run answer).write).Tells m.runsOf
      (Cached.updated m run answer).store.runsOf := by
  rcases answer with err | m'
  · show (cacheWrite (if _ then _ else _)).Tells m.runsOf m.runsOf
    split
    · exact fun _ _ => rfl
    · exact rfl
  · exact Memory.runsOf_insert (h m' rfl)

/-- The Run that is stored is the one of the caller. -/
theorem Memory.keepLineage_of_carries {existing : Run} (hrun : m.runs.lookup run.id = some existing)
    (h : m.carriesLineage run = true) : Memory.keepLineage existing run = run := by
  rw [Memory.carriesLineage, hrun, Option.all_some] at h
  exact of_decide_eq_true h

theorem Cached.cancelRun_tells {at_ : Time} (hm : m.Indexed)
    (hok : transparent m (.run (.cancelRun id at_)) = true) :
    (cacheWrite (Cached.cancelRun m id at_).write).Tells m.runsOf
      (Cached.cancelRun m id at_).store.runsOf := by
  rw [transparent] at hok
  rw [Cached.cancelRun]
  rcases h : m.cancelRun id at_ with err | ⟨m', run⟩
  · show (cacheWrite (if (Table.getD m.runs id {}).id ≠ "" then _ else _)).Tells m.runsOf m.runsOf
    split
    · rename_i hne
      rcases hrun : m.runs.lookup id with - | existing
      · rw [Table.getD, hrun] at hne
        exact absurd rfl hne
      · rw [Table.getD, hrun, Option.getD_some]
        refine Lookaside.Write.tells_set ?_
        rw [hm.id hrun]
        exact hrun
    · exact rfl
  · obtain ⟨existing, hrun, hcancel, rfl⟩ := Memory.cancelRun_ok h
    obtain ⟨-, rfl⟩ := Run.cancel_ok hcancel
    have hne : existing.id ≠ "" := by
      rw [h] at hok
      rw [hm.id hrun]
      simpa [Except.isOk, Except.toBool] using hok
    show (cacheWrite (if existing.id ≠ "" then _ else _)).Tells m.runsOf _
    rw [if_pos hne]
    exact Memory.runsOf_insert (by rw [hm.id hrun])

/-- **The cache is told what a method on Runs changes.** -/
theorem RunOp.perform_tells (hm : m.Indexed) (hok : transparent m (.run op) = true) :
    (cacheWrite (op.perform m).write).Tells m.runsOf (op.perform m).store.runsOf := by
  cases op with
  | getRun id =>
      rw [RunOp.perform, Cached.getRun]
      rcases h : m.getRun id with err | run
      · exact rfl
      · exact Lookaside.Write.tells_set (Memory.getRun_ok.mp h)
  | createRun run key =>
      rw [RunOp.perform, Cached.createRun]
      rcases h : m.createRun run key with err | ⟨m', run', isNew⟩
      · exact rfl
      · exact Cached.created_tells hm h
  | createChildRun run key maxChildren =>
      rw [RunOp.perform, Cached.createChildRun]
      rcases h : m.createChildRun run key maxChildren with err | ⟨m', run', isNew⟩
      · exact rfl
      · exact Cached.created_tells hm (Memory.createChildRun_ok h)
  | updateRun run =>
      refine Cached.updated_tells ?_
      intro m' h
      obtain ⟨existing, hrun, -, -, rfl⟩ := Memory.updateRun_ok h
      rw [transparent, h] at hok
      exact congrArg (m.runs.insert run.id) (Memory.keepLineage_of_carries hrun hok)
  | claimRunExecution id minimumFence =>
      rw [RunOp.perform, Cached.claimRunExecution]
      rcases h : m.claimRunExecution id minimumFence with err | ⟨m', fence⟩
      · exact fun _ _ => rfl
      · obtain ⟨-, -, -, -, rfl⟩ := Memory.claimRunExecution_ok h
        exact rfl
  | updateRunFenced run fence =>
      refine Cached.updated_tells ?_
      intro m' h
      obtain ⟨existing, hrun, -, -, -, rfl⟩ := Memory.updateRunFenced_ok h
      rw [transparent, h] at hok
      exact congrArg (m.runs.insert run.id) (Memory.keepLineage_of_carries hrun hok)
  | cancelRun id at_ => exact Cached.cancelRun_tells hm hok
  | recoverRun id minimumFence =>
      rw [RunOp.perform, Cached.recoverRun]
      rcases h : m.recoverRun id minimumFence with err | ⟨m', recovered⟩
      · exact rfl
      · rcases Memory.recoverRun_ok h with ⟨rfl, rfl⟩ | ⟨rfl, existing, -, -, rfl⟩
        · exact rfl
        · exact fun id' hne => AList.lookup_insert_ne hne

/-- A method on Runs leaves the Agents alone. -/
theorem RunOp.perform_agents (m : Memory) (op : RunOp) :
    (op.perform m).store.agents = m.agents := by
  cases op with
  | getRun id =>
      rw [RunOp.perform, Cached.getRun]
      rcases m.getRun id with err | run <;> rfl
  | createRun run key =>
      rw [RunOp.perform, Cached.createRun]
      rcases h : m.createRun run key with err | ⟨m', run', isNew⟩
      · rfl
      · exact (Memory.createRun_onlyRuns h).agents
  | createChildRun run key maxChildren =>
      rw [RunOp.perform, Cached.createChildRun]
      rcases h : m.createChildRun run key maxChildren with err | ⟨m', run', isNew⟩
      · rfl
      · exact (Memory.createRun_onlyRuns (Memory.createChildRun_ok h)).agents
  | updateRun run =>
      rw [RunOp.perform, Cached.updateRun]
      rcases h : m.updateRun run with err | m'
      · rfl
      · obtain ⟨-, -, -, -, rfl⟩ := Memory.updateRun_ok h
        rfl
  | claimRunExecution id minimumFence =>
      rw [RunOp.perform, Cached.claimRunExecution]
      rcases h : m.claimRunExecution id minimumFence with err | ⟨m', fence⟩
      · rfl
      · obtain ⟨-, -, -, -, rfl⟩ := Memory.claimRunExecution_ok h
        rfl
  | updateRunFenced run fence =>
      rw [RunOp.perform, Cached.updateRunFenced]
      rcases h : m.updateRunFenced run fence with err | m'
      · rfl
      · obtain ⟨-, -, -, -, -, rfl⟩ := Memory.updateRunFenced_ok h
        rfl
  | cancelRun id at_ =>
      rw [RunOp.perform, Cached.cancelRun]
      rcases h : m.cancelRun id at_ with err | ⟨m', run⟩
      · rfl
      · obtain ⟨-, -, -, rfl⟩ := Memory.cancelRun_ok h
        rfl
  | recoverRun id minimumFence =>
      rw [RunOp.perform, Cached.recoverRun]
      rcases h : m.recoverRun id minimumFence with err | ⟨m', recovered⟩
      · rfl
      · rcases Memory.recoverRun_ok h with ⟨-, rfl⟩ | ⟨-, existing, -, -, rfl⟩ <;> rfl

end Runs

section Agents

variable {absoluteURI : String → Bool} {m m' : Memory} {agent agent' : Agent} {id : String}

theorem AgentOp.perform_eq (absoluteURI : String → Bool) (m : Memory) (op : AgentOp) :
    ((op.perform absoluteURI m).store, (op.perform absoluteURI m).result) =
      m.performAgent absoluteURI op := by
  cases op with
  | createAgent agent now =>
      rw [AgentOp.perform, Cached.createAgent, Memory.performAgent]
      rcases m.createAgent absoluteURI agent now with err | ⟨m', created⟩ <;> rfl
  | getAgent id =>
      rw [AgentOp.perform, Cached.getAgent, Memory.performAgent]
      rcases m.getAgent id with err | agent <;> rfl
  | updateAgent agent expectedVersion now =>
      rw [AgentOp.perform, Cached.updateAgent, Memory.performAgent]
      rcases m.updateAgent absoluteURI agent expectedVersion now with err | ⟨m', updated⟩ <;> rfl
  | deleteAgent id expectedVersion =>
      rw [AgentOp.perform, Cached.deleteAgent, Memory.performAgent]
      rcases m.deleteAgent id expectedVersion with err | m' <;> rfl

/-- The Agents of the store by their IDs. -/
def Memory.agentsOf (m : Memory) : String → Option Agent := fun id => m.agents.lookup id

theorem Cached.deleteOn_tells (err : Err) :
    (Cached.deleteOn id err).Tells m.agentsOf m.agentsOf := by
  rw [Cached.deleteOn]
  split
  · exact fun _ _ => rfl
  · exact rfl

/-- **The cache is told what a method on Agents changes**, and nothing else changes. -/
theorem AgentOp.perform_tells (absoluteURI : String → Bool) (m : Memory) (op : AgentOp) :
    ∃ agents, (op.perform absoluteURI m).store = { m with agents := agents } ∧
      (op.perform absoluteURI m).write.Tells m.agentsOf fun id => agents.lookup id := by
  cases op with
  | createAgent agent now =>
      rw [AgentOp.perform, Cached.createAgent]
      rcases h : m.createAgent absoluteURI agent now with err | ⟨m', created⟩
      · exact ⟨m.agents, rfl, rfl⟩
      · exact ⟨_, (Memory.createAgent_ok h).2, Table.set_tells _ _ _⟩
  | getAgent id =>
      rw [AgentOp.perform, Cached.getAgent, Memory.getAgent]
      rcases h : m.agents.lookup id with - | agent
      · exact ⟨m.agents, rfl, rfl⟩
      · exact ⟨m.agents, rfl, Lookaside.Write.tells_set h⟩
  | updateAgent agent expectedVersion now =>
      rw [AgentOp.perform, Cached.updateAgent]
      rcases h : m.updateAgent absoluteURI agent expectedVersion now with err | ⟨m', updated⟩
      · exact ⟨m.agents, rfl, Cached.deleteOn_tells err⟩
      · exact ⟨_, Memory.updateAgent_ok h, Table.set_tells _ _ _⟩
  | deleteAgent id expectedVersion =>
      rw [AgentOp.perform, Cached.deleteAgent]
      rcases h : m.deleteAgent id expectedVersion with err | m'
      · exact ⟨m.agents, rfl, Cached.deleteOn_tells err⟩
      · exact ⟨_, (Memory.deleteAgent_ok h).2, fun _ hne => AList.lookup_erase_ne hne⟩

end Agents

/-! ### The two views of the cache -/

namespace CachedStore

section Views

variable {V V' : Type} (s : CachedStore) {key key' : String → String} {encode : V → CacheEntry}

theorem view_write {decode : CacheEntry → Option V} (hkey : Function.Injective key)
    (hdecode : ∀ value, decode (encode value) = some value) (w : Lookaside.Write String V) :
    (s.write key encode w).view key decode = w.apply (s.view key decode) := by
  funext id
  cases w with
  | keep => rfl
  | set id' value =>
      show (AList.lookup (key id) (s.cache.insert (key id') (encode value))).bind decode =
        Function.update (s.view key decode) id' (some value) id
      by_cases hid : id = id'
      · rw [hid, AList.lookup_insert, Function.update_self, Option.bind_some, hdecode]
      · rw [AList.lookup_insert_ne fun h => hid (hkey h), Function.update_of_ne hid, view]
  | delete id' =>
      show (AList.lookup (key id) (s.cache.erase (key id'))).bind decode =
        Function.update (s.view key decode) id' none id
      by_cases hid : id = id'
      · rw [hid, AList.lookup_erase, Function.update_self, Option.bind_none]
      · rw [AList.lookup_erase_ne fun h => hid (hkey h), Function.update_of_ne hid, view]

/-- A write under the other kind of keys. -/
theorem view_write_other {decode : CacheEntry → Option V'} (hkeys : ∀ id id', key' id ≠ key id')
    (w : Lookaside.Write String V) :
    (s.write key encode w).view key' decode = s.view key' decode := by
  funext id
  cases w with
  | keep => rfl
  | set id' value =>
      show (AList.lookup (key' id) (s.cache.insert (key id') (encode value))).bind decode = _
      rw [AList.lookup_insert_ne (hkeys id id'), view]
  | delete id' =>
      show (AList.lookup (key' id) (s.cache.erase (key id'))).bind decode = _
      rw [AList.lookup_erase_ne (hkeys id id'), view]

@[simp] theorem write_inner (w : Lookaside.Write String V) :
    (s.write key encode w).inner = s.inner := by
  cases w <;> rfl

/-- What is left when an entry expires was there before. -/
theorem view_erase {decode : CacheEntry → Option V} {k id : String} {value : V}
    (h : ({ s with cache := s.cache.erase k } : CachedStore).view key decode id = some value) :
    s.view key decode id = some value := by
  obtain ⟨entry, hentry, hvalue⟩ := Option.bind_eq_some_iff.mp h
  exact Option.bind_eq_some_iff.mpr ⟨entry, Table.lookup_of_erase hentry, hvalue⟩

theorem cachedRun_writeRun (w : Lookaside.Write String Run) :
    (s.write runKey .run w).cachedRun = w.apply s.cachedRun :=
  s.view_write (V := Run) (fun _ _ h => runKey_inj.mp h) (fun _ => rfl) w

theorem cachedAgent_writeRun (w : Lookaside.Write String Run) :
    (s.write runKey .run w).cachedAgent = s.cachedAgent :=
  s.view_write_other agentKey_ne_runKey w

theorem cachedAgent_writeAgent (w : Lookaside.Write String Agent) :
    (s.write agentKey .agent w).cachedAgent = w.apply s.cachedAgent :=
  s.view_write (V := Agent) (fun _ _ h => agentKey_inj.mp h) (fun _ => rfl) w

theorem cachedRun_writeAgent (w : Lookaside.Write String Agent) :
    (s.write agentKey .agent w).cachedRun = s.cachedRun :=
  s.view_write_other (fun id id' => (agentKey_ne_runKey id' id).symm) w

end Views

/-- The cache has only what the store has. -/
structure Coherent (s : CachedStore) : Prop where
  indexed : s.inner.Indexed
  runs : Lookaside.Coherent s.cachedRun s.inner.runsOf
  agents : Lookaside.Coherent s.cachedAgent s.inner.agentsOf

/-- The operation left the store of the cache and the plain store in the same state, and both
answered the same. -/
structure Agrees (direct : Memory × RepositoryResult)
    (cached : CachedStore × RepositoryResult) : Prop where
  coherent : cached.1.Coherent
  inner : cached.1.inner = direct.1
  result : cached.2 = direct.2

section Steps

variable {absoluteURI : String → Bool} {s : CachedStore}

theorem coherent_empty : Coherent {} where
  indexed := Memory.indexed_empty
  runs _ _ h := by cases h
  agents _ _ h := by cases h

theorem Coherent.expire (h : s.Coherent) (key : String) :
    ({ s with cache := s.cache.erase key } : CachedStore).Coherent where
  indexed := h.indexed
  runs := h.runs.lose fun _ _ => s.view_erase
  agents := h.agents.lose fun _ _ => s.view_erase

variable (absoluteURI)

theorem Coherent.performRun (h : s.Coherent) {op : RunOp}
    (hok : transparent s.inner (.run op) = true) :
    Agrees (s.inner.answer absoluteURI (.run op)) (s.performRun op) := by
  have hstore : (op.perform s.inner).store = (s.inner.perform op).1 :=
    congrArg Prod.fst (RunOp.perform_eq s.inner op)
  have hagents : (op.perform s.inner).store.agentsOf = s.inner.agentsOf := by
    funext id
    show AList.lookup id (op.perform s.inner).store.agents = _
    rw [RunOp.perform_agents]
    rfl
  refine ⟨⟨?_, ?_, ?_⟩, ?_, ?_⟩
  · rw [CachedStore.performRun, write_inner, hstore]
    exact h.indexed.perform op
  · rw [CachedStore.performRun, cachedRun_writeRun, write_inner]
    exact h.runs.write (RunOp.perform_tells h.indexed hok)
  · rw [CachedStore.performRun, cachedAgent_writeRun, write_inner, hagents]
    exact h.agents
  · rw [CachedStore.performRun, write_inner]
    exact hstore
  · exact congrArg (fun answer => RepositoryResult.run answer.2) (RunOp.perform_eq s.inner op)

theorem Coherent.performAgent (h : s.Coherent) (op : AgentOp) :
    Agrees (s.inner.answer absoluteURI (.agent op)) (s.performAgent absoluteURI op) := by
  obtain ⟨agents, hstore, htells⟩ := AgentOp.perform_tells absoluteURI s.inner op
  refine ⟨⟨?_, ?_, ?_⟩, ?_, ?_⟩
  · rw [CachedStore.performAgent, write_inner, hstore]
    exact ⟨h.indexed.id, h.indexed.keys⟩
  · rw [CachedStore.performAgent, cachedRun_writeAgent, write_inner, hstore]
    exact h.runs
  · rw [CachedStore.performAgent, cachedAgent_writeAgent, write_inner, hstore]
    exact h.agents.write htells
  · rw [CachedStore.performAgent, write_inner]
    exact congrArg Prod.fst (AgentOp.perform_eq absoluteURI s.inner op)
  · exact congrArg (fun answer => RepositoryResult.agent answer.2)
      (AgentOp.perform_eq absoluteURI s.inner op)

/-- An answer from the cache is that of the store. -/
theorem Coherent.hit {op : RepositoryOp} {result : RepositoryResult} (h : s.Coherent)
    (hanswer : s.inner.answer absoluteURI op = (s.inner, result)) :
    Agrees (s.inner.answer absoluteURI op) (s, result) := by
  rw [hanswer]
  exact ⟨h, rfl, rfl⟩

theorem Coherent.answer (h : s.Coherent) {op : RepositoryOp}
    (hok : transparent s.inner op = true) :
    Agrees (s.inner.answer absoluteURI op) (s.answer absoluteURI op) := by
  rcases op with op | op | op
  · cases op with
    | getRun id =>
        rw [CachedStore.answer]
        split
        · rename_i run hrun
          refine h.hit absoluteURI ?_
          rw [Memory.answer, Memory.perform, Memory.getRun_ok.mpr (h.runs id run hrun)]
        · exact h.performRun absoluteURI hok
    | createRun | createChildRun | updateRun | claimRunExecution | updateRunFenced | cancelRun
    | recoverRun => exact h.performRun absoluteURI hok
  · cases op with
    | getAgent id =>
        rw [CachedStore.answer]
        split
        · rename_i agent hagent
          refine h.hit absoluteURI ?_
          have hstored := h.agents id agent (Option.filter_eq_some_iff.mp hagent).1
          rw [Memory.answer, Memory.performAgent, Memory.getAgent,
            show s.inner.agents.lookup id = some agent from hstored]
        · exact h.performAgent absoluteURI (.getAgent id)
    | createAgent | updateAgent | deleteAgent => exact h.performAgent absoluteURI _
  · exact h.hit absoluteURI rfl

/-- The results are the same from every coherent state. -/
theorem Coherent.results (h : s.Coherent) {events : List CacheEvent}
    (hok : conforms absoluteURI s.inner (events.filterMap CacheEvent.operation) = true) :
    s.results absoluteURI events =
      s.inner.results absoluteURI (events.filterMap CacheEvent.operation) := by
  induction events generalizing s with
  | nil => rfl
  | cons event rest ih =>
      cases event with
      | op op =>
          have hcons : (CacheEvent.op op :: rest).filterMap CacheEvent.operation =
              op :: rest.filterMap CacheEvent.operation := rfl
          rw [hcons, conforms, Bool.and_eq_true] at hok
          obtain ⟨hcoherent, hinner, hresult⟩ := h.answer absoluteURI hok.1
          rw [hcons, CachedStore.results, Memory.results, hresult, ← hinner,
            ih hcoherent (hinner ▸ hok.2)]
      | expire key =>
          rw [List.filterMap_cons_none rfl] at hok ⊢
          exact ih (h.expire key) hok

end Steps

end CachedStore

/-- **The cache is transparent** to one caller, whenever entries expire: every operation returns
what it returns on the store alone, if the updates that are accepted have the stored lineage and no
Run with an empty ID is canceled. -/
theorem cache_transparent (absoluteURI : String → Bool) {events : List CacheEvent}
    (hok : conforms absoluteURI {} (events.filterMap CacheEvent.operation) = true) :
    CachedStore.results absoluteURI {} events =
      Memory.results absoluteURI {} (events.filterMap CacheEvent.operation) :=
  CachedStore.coherent_empty.results absoluteURI hok

def readAround : List CacheEvent :=
  [.op (.run (.createRun { id := "run_1", status := .queued } "key")), .op (.run (.getRun "run_1")),
    .expire (runKey "run_1"), .op (.run (.updateRun { id := "run_1", status := .running })),
    .op (.run (.getRun "run_1")), .op (.run (.cancelRun "run_1" 5)), .op (.run (.getRun "run_1")),
    .op (.read (.getRunByIdempotencyKey "key")), .op (.agent (.getAgent "agent_1"))]

theorem cache_transparent_readAround :
    conforms (fun _ => true) {} (readAround.filterMap CacheEvent.operation) = true ∧
      CachedStore.results (fun _ => true) {} readAround =
        Memory.results (fun _ => true) {} (readAround.filterMap CacheEvent.operation) := by
  have hok : conforms (fun _ => true) {} (readAround.filterMap CacheEvent.operation) = true := by
    decide +kernel
  exact ⟨hok, cache_transparent (fun _ => true) hok⟩

/-- An update with a parent that the Run does not have. -/
def relabel : List RepositoryOp :=
  [.run (.createRun { id := "run_1", status := .queued } ""),
    .run (.updateRun { id := "run_1", parentRunID := "run_0", status := .queued }),
    .run (.getRun "run_1")]

/-- A cancellation of a Run with an empty ID. -/
def cancelUnnamed : List RepositoryOp :=
  [.run (.createRun { status := .queued } ""), .run (.cancelRun "" 1), .run (.getRun "")]

/-- The last result of a sequence, if it is a Run. -/
def lastRun (results : List RepositoryResult) : Option Run :=
  results.getLast?.bind RepositoryResult.got

/-- The cache answers with the parent of the caller, and with a Run that is not canceled. -/
theorem cached_update_differs :
    ((lastRun (CachedStore.results (fun _ => true) {} (relabel.map .op))).map Run.parentRunID =
        some "run_0" ∧
      (lastRun (Memory.results (fun _ => true) {} relabel)).map Run.parentRunID = some "") ∧
    (lastRun (CachedStore.results (fun _ => true) {} (cancelUnnamed.map .op))).map Run.status =
        some .queued ∧
      (lastRun (Memory.results (fun _ => true) {} cancelUnnamed)).map Run.status =
        some .canceled := by
  decide +kernel

end AgentMesh
