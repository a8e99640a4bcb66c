/-
AgentMesh/Cached.lean

The caching store of `internal/store/cached.go`, used by any number of replicas
over one repository and one cache.

A method of `Cached` on Runs is a repository call and then at most one write to
the cache, which the result of the call decides; `GetRun` asks the cache first.
The repository call and each access to the cache are atomic, and the steps of
different calls interleave.  An entry of the cache may expire at any time.  The
methods that only pass their arguments on are left out.

A replica has no state of its own here, so a call is a call of any of them.  A
call remembers, for the statements about it, which cancellations had been
reported to their callers when it started.
-/
import AgentMesh.Operations
import AgentMesh.Machine

namespace AgentMesh

def runKey (id : String) : String := "agentmesh:run:" ++ id

theorem runKey_inj {id id' : String} : runKey id = runKey id' ↔ id = id' :=
  String.append_right_inj _

/-! ### Calls -/

/-- A write to the cache, for a Run. -/
inductive CacheWrite
  | set (id : String) (run : Run)
  | delete (id : String)

def CacheWrite.apply (cache : Table Run) : CacheWrite → Table Run
  | .set id run => cache.insert (runKey id) run
  | .delete id => cache.erase (runKey id)

/-- The repository after its part of a method, the result, and the write that follows. -/
structure OpOutcome where
  store : Memory
  result : OpResult
  write : Option CacheWrite := none

namespace Cached

/-- `GetRun` where the cache has no entry. -/
def getRun (inner : Memory) (id : String) : OpOutcome :=
  match inner.getRun id with
  | .error err => { store := inner, result := .got (.error err) }
  | .ok run => { store := inner, result := .got (.ok run), write := some (.set id run) }

/-- What `CreateRun` and `CreateChildRun` do after the repository. -/
def created (inner : Memory) : Except Err (Memory × Run × Bool) → OpOutcome
  | .error err => { store := inner, result := .created (.error err) }
  | .ok (inner, created, isNew) =>
      { store := inner, result := .created (.ok (created, isNew))
        write := some (.set created.id created) }

def createRun (inner : Memory) (run : Run) (idempotencyKey : String) : OpOutcome :=
  created inner (inner.createRun run idempotencyKey)

def createChildRun (inner : Memory) (run : Run) (idempotencyKey : String) (maxChildren : Int) :
    OpOutcome :=
  created inner (inner.createChildRun run idempotencyKey maxChildren)

/-- What `UpdateRun` and `UpdateRunFenced` do after the repository. -/
def updated (inner : Memory) (run : Run) : Except Err Memory → OpOutcome
  | .error err =>
      { store := inner, result := .updated (some err)
        write :=
          if err.is .runCanceled || err.is .staleExecution then some (.delete run.id) else none }
  | .ok inner => { store := inner, result := .updated none, write := some (.set run.id run) }

def updateRun (inner : Memory) (run : Run) : OpOutcome :=
  updated inner run (inner.updateRun run)

def claimRunExecution (inner : Memory) (id : String) (minimumFence : Int) : OpOutcome :=
  match inner.claimRunExecution id minimumFence with
  | .error err =>
      { store := inner, result := .claimed (.error err), write := some (.delete id) }
  | .ok (inner, fence) => { store := inner, result := .claimed (.ok fence) }

def updateRunFenced (inner : Memory) (run : Run) (fence : Int) : OpOutcome :=
  updated inner run (inner.updateRunFenced run fence)

/-- With an error the repository returns the Run that it has, or the zero Run. -/
def cancelRun (inner : Memory) (id : String) (at_ : Time) : OpOutcome :=
  let (store, run, err) :=
    match inner.cancelRun id at_ with
    | .error err => (inner, Table.getD inner.runs id {}, some err)
    | .ok (store, run) => (store, run, none)
  { store := store, result := .canceled run err
    write := if run.id ≠ "" then some (.set run.id run) else none }

def recoverRun (inner : Memory) (id : String) (minimumFence : Int) : OpOutcome :=
  match inner.recoverRun id minimumFence with
  | .error err => { store := inner, result := .recovered (.error err) }
  | .ok (inner, recovered) =>
      { store := inner, result := .recovered (.ok recovered)
        write := if recovered then some (.delete id) else none }

end Cached

def RunOp.perform (inner : Memory) : RunOp → OpOutcome
  | .getRun id => Cached.getRun inner id
  | .createRun run key => Cached.createRun inner run key
  | .createChildRun run key maxChildren => Cached.createChildRun inner run key maxChildren
  | .updateRun run => Cached.updateRun inner run
  | .claimRunExecution id minimumFence => Cached.claimRunExecution inner id minimumFence
  | .updateRunFenced run fence => Cached.updateRunFenced inner run fence
  | .cancelRun id at_ => Cached.cancelRun inner id at_
  | .recoverRun id minimumFence => Cached.recoverRun inner id minimumFence

/-- Callers create Runs under new IDs. -/
def RunOp.fresh (inner : Memory) : RunOp → Bool
  | .createRun run _ | .createChildRun run _ _ =>
      run.id ≠ "" && (inner.runs.lookup run.id).isNone
  | _ => true

/-! ### The machine -/

inductive CallPc
  | start
  /-- `GetRun` has found no entry. -/
  | load
  | write (w : CacheWrite) (result : OpResult)
  | done (result : OpResult)

/-- The result, once the repository has given it. -/
def CallPc.result : CallPc → Option OpResult
  | .write _ result => some result
  | .done result => some result
  | _ => none

structure Call where
  op : RunOp
  pc : CallPc := .start
  /-- The Runs whose cancellation had been reported when the call started. -/
  known : List String := []

/-- The Run that the call has just reported as canceled to its caller. -/
def Call.reports (call : Call) : List String :=
  match call.op, call.pc with
  | .cancelRun id _, .done (.canceled _ none) => [id]
  | _, _ => []

theorem Call.of_mem_reports {call : Call} {id : String} (h : id ∈ call.reports) :
    ∃ at_ run, call.op = .cancelRun id at_ ∧ call.pc = .done (.canceled run none) := by
  rw [Call.reports] at h
  split at h
  · rename_i id' at_ run hop hpc
    obtain rfl := List.mem_singleton.mp h
    exact ⟨at_, run, hop, hpc⟩
  · cases h

/-- The Run that a `GetRun` of this ID has returned. -/
def Call.found (call : Call) (id : String) : Option Run :=
  match call.op, call.pc with
  | .getRun id', .done (.got (.ok run)) => if id' = id then some run else none
  | _, _ => none

theorem Call.found_eq_some {call : Call} {id : String} {run : Run} (h : call.found id = some run) :
    call.op = .getRun id ∧ call.pc = .done (.got (.ok run)) := by
  rw [Call.found] at h
  split at h
  · rename_i id' run' hop hpc
    split at h
    · rename_i hid
      obtain rfl := Option.some.inj h
      exact ⟨hid ▸ hop, hpc⟩
    · cases h
  · cases h

structure CacheState where
  store : Memory := {}
  cache : Table Run := ∅
  calls : Nat → Option Call := fun _ => none
  /-- The Runs whose cancellation has been reported. -/
  canceled : List String := []

inductive CacheAction
  | call (c : Nat) (op : RunOp)
  | act (c : Nat)
  | expire (id : String)

/-- The repository part of a method. -/
def CacheState.perform (s : CacheState) (op : RunOp) : Option (Memory × Table Run × CallPc) :=
  if op.fresh s.store then
    let outcome := op.perform s.store
    some (outcome.store, s.cache,
      match outcome.write with
      | none => .done outcome.result
      | some w => .write w outcome.result)
  else none

/-- The next atomic step of a call. -/
def CacheState.advance (s : CacheState) (call : Call) : Option (Memory × Table Run × CallPc) :=
  match call.pc with
  | .start =>
      match call.op with
      | .getRun id =>
          match s.cache.lookup (runKey id) with
          | some run => some (s.store, s.cache, .done (.got (.ok run)))
          | none => some (s.store, s.cache, .load)
      | op => s.perform op
  | .load => s.perform call.op
  | .write w result => some (s.store, w.apply s.cache, .done result)
  | .done _ => none

/-- A caller has one call at a time. -/
def CacheState.canCall (s : CacheState) (c : Nat) : Bool :=
  match s.calls c with
  | none => true
  | some { pc := .done _, .. } => true
  | some _ => false

def CacheState.setCall (s : CacheState) (c : Nat) (call : Call) : CacheState :=
  { s with calls := Function.update s.calls c (some call), canceled := call.reports ++ s.canceled }

def cacheStep (s : CacheState) : CacheAction → Option CacheState
  | .call c op =>
      if s.canCall c then some (s.setCall c { op := op, known := s.canceled }) else none
  | .act c =>
      match s.calls c with
      | none => none
      | some call =>
          match s.advance call with
          | none => none
          | some (store, cache, pc) =>
              some ({ s with store := store, cache := cache }.setCall c { call with pc := pc })
  | .expire id => some { s with cache := s.cache.erase (runKey id) }

end AgentMesh
