/-
AgentMesh/Cluster.lean

The system in distributed mode: the machine of `Mesh` with the durable queue of
`internal/queue/nats.go` and the startup recovery `Engine.Recover`.

The stream keeps the execute messages.  A publication carries the Run ID as its
message ID and is dropped, with success, if one with this ID was stored within
the duplicate window.  A message that is not acknowledged may be delivered at
any time and to any worker, again and to several at once; `Consume`
acknowledges it when `execute` has returned `nil`.  Dead letters have message
IDs of their own and are left out.

A worker, a request, a manager or a recovery whose process dies is one that
takes no further action.  A restart is a new call of `Recover` and new workers.

A call of `Recover` remembers which Runs were stored when it listed them.
-/
import AgentMesh.Mesh

namespace AgentMesh

/-! ### The stream -/

structure Message where
  runID : String
  /-- When the stream stored the message. -/
  at_ : Time
  acked : Bool := false
  deriving DecidableEq, Repr

/-- `Duplicates` of the stream's configuration: 10 minutes. -/
def duplicateWindow : Int := 10 * 60 * 1000000000

/-! ### Recovery -/

inductive RecoverPc
  | idle
  /-- `ListPendingRuns`. -/
  | list
  /-- The head of the loop. -/
  | next (pendingRuns : List PendingRun)
  /-- The lease is acquired: `RecoverRun`. -/
  | recover (id : String) (token : Int) (rest : List PendingRun)
  /-- `releaseLease`. -/
  | release (id : String) (recovered : Except Err Bool) (rest : List PendingRun)
  /-- The Run is recovered: `Enqueue`. -/
  | enqueue (id : String) (rest : List PendingRun)
  | done (err : Option Err)

structure RecoverCall where
  pc : RecoverPc := .idle
  /-- The Runs that were stored when the call listed them. -/
  listed : List String := []

/-- What `Recover` asks of its environment. -/
structure RecoverOracle where
  /-- The error of `ListPendingRuns`, if any. -/
  list : Option Err := none
  acquired : Acquired := .granted 0
  /-- The error of `releaseLease`, if any. -/
  release : Option Err := none
  /-- The error of `Enqueue`, if any. -/
  enqueue : Option Err := none

/-- What an action of `Recover` does: it moves on, and may publish a Run or recover one. -/
structure RecoverEffect where
  call : RecoverCall
  published : Option String := none
  recovers : Option (String × Int) := none

def RecoverCall.goto (call : RecoverCall) (pc : RecoverPc) : RecoverEffect :=
  { call := { call with pc := pc } }

/-- `Enqueue` inside `Recover`. -/
def RecoverCall.enqueue (call : RecoverCall) (o : RecoverOracle) (id context : String)
    (rest : List PendingRun) : RecoverEffect :=
  match o.enqueue with
  | some err => call.goto (.done (some (err.wrap (context ++ id ++ ": "))))
  | none => { call.goto (.next rest) with published := some id }

/-- The next action of a call of `Recover`. -/
def RecoverCall.act (call : RecoverCall) (o : RecoverOracle) (m : Memory) : Option RecoverEffect :=
  match call.pc with
  | .idle => none
  | .list =>
      match o.list with
      | some err => some (call.goto (.done (some (err.wrap "list pending runs: "))))
      | none => some { call := { pc := .next m.listPendingRuns, listed := m.runs.keys } }
  | .next [] => some (call.goto (.done none))
  | .next (pending :: rest) =>
      if pending.status = .queued then
        some (call.enqueue o pending.id "enqueue pending run " rest)
      else if pending.status ≠ .running then some (call.goto (.next rest))
      else
        match o.acquired with
        | .error err =>
            some (call.goto (.done (some
              (err.wrap ("acquire recovery lease for run " ++ pending.id ++ ": ")))))
        | .held => some (call.goto (.next rest))
        | .granted token => some (call.goto (.recover pending.id token rest))
  | .recover id token rest =>
      some { call.goto (.release id ((m.recoverRun id token).map Prod.snd) rest) with
        recovers := some (id, token) }
  | .release id recovered rest =>
      match recovered with
      | .error err => some (call.goto (.done (some (err.wrap ("recover run " ++ id ++ ": ")))))
      | .ok recovered =>
          match o.release with
          | some err =>
              some (call.goto (.done (some
                (err.wrap ("release recovery lease for run " ++ id ++ ": ")))))
          | none => some (call.goto (if recovered then .enqueue id rest else .next rest))
  | .enqueue id rest => some (call.enqueue o id "enqueue recovered run " rest)
  | .done _ => none

def RecoverPc.isOver : RecoverPc → Bool
  | .idle | .done _ => true
  | _ => false

/-! ### The machine -/

structure Cluster where
  mesh : State := init
  now : Time := 0
  /-- All execute messages that the stream has stored, in order. -/
  messages : List Message := []
  /-- The message that a worker was last given. -/
  delivered : Nat → Option Nat := fun _ => none
  recovers : Nat → RecoverCall := fun _ => {}

inductive ClusterAction
  /-- An action of the system other than a delivery or a recovery. -/
  | system (a : Action)
  | tick (elapsed : Nat)
  /-- The stream delivers a message to a worker. -/
  | deliver (w : Nat) (engine : Engine) (seq : Nat)
  /-- `Consume` acknowledges the message of a worker. -/
  | ack (w : Nat)
  | startRecover (r : Nat)
  /-- A call of `Recover` takes its next action. -/
  | recover (r : Nat) (o : RecoverOracle)

/-- The stream has stored a message of the Run within the window. -/
def Cluster.duplicate (x : Cluster) (runID : String) : Bool :=
  x.messages.any fun msg => msg.runID = runID && x.now - msg.at_ < duplicateWindow

/-- `Enqueue` where it succeeds. -/
def Cluster.publish (x : Cluster) (runID : String) : Cluster :=
  if x.duplicate runID then x
  else { x with messages := x.messages ++ [{ runID := runID, at_ := x.now }] }

def Cluster.publishSome (x : Cluster) (runID : Option String) : Cluster :=
  match runID with
  | none => x
  | some runID => x.publish runID

/-- The Run that an action of the system enqueues with success. -/
def Action.enqueued (s : State) : Action → Option String
  | .handle h o =>
      match (s.submits h).pc, o.enqueue with
      | .enqueue run, none | .callEnqueue run, none => some run.id
      | _, _ => none
  | .manage c o =>
      match (s.managers c).pc, o.enqueue with
      | .enqueue _ created, none => some created.id
      | _, _ => none
  | _ => none

/-- The actions that belong to the stream and to `Recover`. -/
def Action.isQueued : Action → Bool
  | .deliver _ _ _ | .recoverRun _ _ => true
  | _ => false

def Cluster.ack (x : Cluster) (seq : Nat) : Cluster :=
  { x with messages := x.messages.modify seq fun msg => { msg with acked := true } }

def clusterStep (x : Cluster) : ClusterAction → Option Cluster
  | .system a =>
      if a.isQueued then none
      else
        (step x.mesh a).map fun mesh =>
          Cluster.publishSome { x with mesh := mesh } (a.enqueued x.mesh)
  | .tick elapsed => some { x with now := x.now + elapsed }
  | .deliver w engine seq =>
      match x.messages[seq]? with
      | none => none
      | some msg =>
          if msg.acked then none
          else
            (step x.mesh (.deliver w engine msg.runID)).map fun mesh =>
              { x with mesh := mesh, delivered := Function.update x.delivered w (some seq) }
  | .ack w =>
      match x.delivered w, (x.mesh.workers w).pc with
      | some seq, .done none => some (x.ack seq)
      | _, _ => none
  | .startRecover r =>
      if (x.recovers r).pc.isOver then
        some { x with recovers := Function.update x.recovers r { pc := .list } }
      else none
  | .recover r o =>
      match (x.recovers r).act o x.mesh.store with
      | none => none
      | some e =>
          let x := { x with recovers := Function.update x.recovers r e.call }
          match e.recovers with
          | none => some (x.publishSome e.published)
          | some (id, token) =>
              (step x.mesh (.recoverRun id token)).map fun mesh => { x with mesh := mesh }

end AgentMesh
