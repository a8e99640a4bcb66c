/-
AgentMesh/Postgres.lean

The operations of `internal/store/postgres/postgres.go` on one Run.

The table `runs` is a list of rows, with the columns and the constraints of the
migrations.  A statement fails if a parameter cannot be sent: a text with the
character zero, or a number outside the range of its `INTEGER` column.  It fails
if a row that it writes violates a `CHECK` constraint, a unique index or a
reference.  `ON CONFLICT DO NOTHING` forgives the unique indexes only, and the
`CHECK` constraints are evaluated first.  The transaction of `CreateChildRun` is
undone when a statement in it fails.

The Agent of every Run exists, so the reference to `agents` is left out.  Times
are in the range of `TIMESTAMPTZ`, which keeps microseconds.  Of an error of the
server only the text that the repository puts in front of it is given.
-/
import AgentMesh.Rows
import AgentMesh.Operations

namespace AgentMesh

/-! ### The table -/

structure RunRow where
  id : String
  agentID : String
  parentRunID : Option String
  rootRunID : Option String
  requiredCapabilities : List String
  input : String
  output : String
  status : RunStatus
  error : String
  attempt : Int
  maxAttempts : Int
  requestID : String
  durationMS : Int
  idempotencyKey : Option String
  createdAt : Time
  startedAt : Option Time
  completedAt : Option Time
  executionFence : Int := 0
  deriving DecidableEq, Repr

structure Database where
  runs : List RunRow := []

/-- The largest `BIGINT`. -/
def maxBigint : Int := 2 ^ 63 - 1

/-- A text that can be sent. -/
def isText (s : String) : Bool := s.toList.all fun c => c.toNat ≠ 0

/-- A number that can be sent as an `INTEGER`. -/
def isInteger (n : Int) : Bool := -2 ^ 31 ≤ n && n < 2 ^ 31

def timestamp (t : Time) : Time := t / 1000 * 1000

def nullableString (value : String) : Option String := if value = "" then none else some value

/-- `scanRun` on the columns of `runSelect`. -/
def RunRow.scan (row : RunRow) : Run :=
  { id := row.id, agentID := row.agentID, parentRunID := row.parentRunID.getD ""
    rootRunID := row.rootRunID.getD "", requiredCapabilities := row.requiredCapabilities
    input := row.input, output := row.output, status := row.status, error := row.error
    attempt := row.attempt, maxAttempts := row.maxAttempts, requestID := row.requestID
    durationMS := row.durationMS, createdAt := row.createdAt, startedAt := row.startedAt
    completedAt := row.completedAt }

/-- The row that is inserted for a Run. -/
def RunRow.ofRun (run : Run) (parentRunID rootRunID : Option String) (idempotencyKey : String) :
    RunRow :=
  { id := run.id, agentID := run.agentID, parentRunID := parentRunID, rootRunID := rootRunID
    requiredCapabilities := run.requiredCapabilities, input := run.input, output := run.output
    status := run.status, error := run.error, attempt := run.attempt
    maxAttempts := run.maxAttempts, requestID := run.requestID, durationMS := run.durationMS
    idempotencyKey := nullableString idempotencyKey, createdAt := timestamp run.createdAt
    startedAt := run.startedAt.map timestamp, completedAt := run.completedAt.map timestamp }

/-- The parameters of an insertion can be sent. -/
def RunRow.encodes (row : RunRow) : Bool :=
  ([row.id, row.agentID, row.input, row.output, row.error, row.requestID]
      ++ row.requiredCapabilities).all isText
    && row.parentRunID.all isText && row.rootRunID.all isText && row.idempotencyKey.all isText
    && isInteger row.attempt && isInteger row.maxAttempts

/-- The `CHECK` constraints. -/
def RunRow.checks (row : RunRow) : Bool :=
  row.status ≠ .unset && 0 ≤ row.attempt && 1 ≤ row.maxAttempts && 0 ≤ row.durationMS
    && 0 ≤ row.executionFence && row.parentRunID ≠ some row.id && row.rootRunID ≠ some row.id
    && row.parentRunID.isSome == row.rootRunID.isSome

namespace Database

/-- `SELECT … WHERE id = $1`. -/
def find (db : Database) (id : String) : Option RunRow := Rows.get RunRow.id db.runs id

/-- `SELECT … WHERE idempotency_key = $1`. -/
def findKey (db : Database) (key : String) : Option RunRow :=
  db.runs.find? fun row => row.idempotencyKey = some key

/-- The references of a row to its parent and its root. -/
def references (db : Database) (row : RunRow) : Bool :=
  row.parentRunID.all (fun id => (db.find id).isSome)
    && row.rootRunID.all fun id => (db.find id).isSome

/-- A unique index has an entry of the row. -/
def conflicts (db : Database) (row : RunRow) : Bool :=
  (db.find row.id).isSome || row.idempotencyKey.any fun key => (db.findKey key).isSome

/-- `INSERT INTO runs …`, with the number of rows that it inserts. -/
def insert (db : Database) (row : RunRow) (onConflictDoNothing : Bool) (context : String) :
    Except Err (Database × Nat) :=
  if row.encodes = false ∨ row.checks = false then .error (errorf context)
  else if db.conflicts row then
    if onConflictDoNothing then .ok (db, 0) else .error (errorf context)
  else if db.references row = false then .error (errorf context)
  else .ok ({ db with runs := db.runs ++ [row] }, 1)

/-- `UPDATE runs SET … WHERE id = $1 AND …`, with the rows that it has updated. -/
def update (db : Database) (id : String) (q : RunRow → Bool) (f : RunRow → Option RunRow)
    (context : String) : Except Err (Database × List RunRow) :=
  match Rows.update (fun row => row.id = id && q row) (fun row => (f row).filter RunRow.checks)
      db.runs with
  | none => .error (errorf context)
  | some (rows, updated) => .ok ({ db with runs := rows }, updated)

end Database

/-! ### What the statements set -/

/-- `UpdateRun` and `UpdateRunFenced`. -/
def RunRow.withResult (row : RunRow) (run : Run) : RunRow :=
  { row with
    output := run.output, status := run.status, error := run.error, attempt := run.attempt
    maxAttempts := run.maxAttempts, requestID := run.requestID, durationMS := run.durationMS
    startedAt := run.startedAt.map timestamp, completedAt := run.completedAt.map timestamp }

/-- `GREATEST(execution_fence + 1, $2)`; the sum may be too large. -/
def RunRow.raiseFence (row : RunRow) (minimumFence : Int) : Option RunRow :=
  if maxBigint < row.executionFence + 1 then none
  else some { row with executionFence := max (row.executionFence + 1) minimumFence }

/-- `CancelRun`. -/
def RunRow.cancel (row : RunRow) (at_ : Time) : RunRow :=
  { row with
    status := .canceled, output := "", error := "", completedAt := some (timestamp at_)
    durationMS := max 0 ((timestamp at_ - row.startedAt.getD row.createdAt) / 1000000) }

/-- `RecoverRun`. -/
def RunRow.requeue (row : RunRow) (minimumFence : Int) : Option RunRow :=
  RunRow.raiseFence
    { row with
      status := .queued, startedAt := none, attempt := max (row.attempt - 1) 0, durationMS := 0 }
    minimumFence

/-- `status <> 'canceled' AND execution_fence = $n`. -/
def RunRow.isWritable (fence : Int) (row : RunRow) : Bool :=
  row.status ≠ .canceled && row.executionFence = fence

/-- `status IN ('queued', 'running')`. -/
def RunRow.isActive (row : RunRow) : Bool := row.status = .queued || row.status = .running

/-! ### The operations -/

namespace Database

def getRun (db : Database) (id : String) : Except Err Run :=
  if isText id = false then .error (errorf "select run: ")
  else
    match db.find id with
    | none => .error Sentinel.notFound.err
    | some row => .ok row.scan

/-- The lineage checks of `CreateRun`. -/
def attachLineage (db : Database) (run : Run) : Except Err Run :=
  if run.parentRunID = "" then
    if run.rootRunID ≠ "" then .error (errorf "root Run cannot declare root_run_id")
    else .ok run
  else
    match db.getRun run.parentRunID with
    | .error err => .error (err.wrap "load parent Run: ")
    | .ok parent =>
        match run.attachTo parent with
        | .error err => .error err
        | .ok attached =>
            if run.rootRunID ≠ "" ∧ run.rootRunID ≠ attached.rootRunID then
              .error (errorf "root_run_id does not match parent lineage")
            else .ok attached

def createRun (db : Database) (run : Run) (idempotencyKey : String) :
    Except Err (Database × Run × Bool) :=
  match db.attachLineage run with
  | .error err => .error err
  | .ok run =>
      match db.insert (RunRow.ofRun run (nullableString run.parentRunID)
          (nullableString run.rootRunID) idempotencyKey) true "insert run: " with
      | .error err => .error err
      | .ok (db', inserted) =>
          if inserted = 1 then .ok (db', run, true)
          else if idempotencyKey = "" then .error (errorf "run already exists")
          else
            match db'.findKey idempotencyKey with
            | none => .error (errorf "select idempotent run: ")
            | some existing => .ok (db', existing.scan, false)

/-- The Run under a key, for `CreateChildRun`. -/
def idempotentChild (db : Database) (idempotencyKey : String) : Except Err (Option Run) :=
  if idempotencyKey = "" then .ok none
  else if isText idempotencyKey = false then .error (errorf "select idempotent child Run: ")
  else .ok ((db.findKey idempotencyKey).map RunRow.scan)

def childCount (db : Database) (parentRunID : String) : Nat :=
  db.runs.countP fun row => row.parentRunID = some parentRunID

/-- The part of `CreateChildRun` after the children are counted. -/
def insertChild (db : Database) (run parent : Run) (idempotencyKey : String) :
    Except Err (Database × Run × Bool) :=
  match run.attachTo parent with
  | .error err => .error err
  | .ok attached =>
      if run.rootRunID ≠ "" ∧ run.rootRunID ≠ attached.rootRunID then
        .error (errorf "root_run_id does not match parent lineage")
      else
        match db.insert (RunRow.ofRun attached (some attached.parentRunID)
            (some attached.rootRunID) idempotencyKey) false "insert child Run: " with
        | .error err => .error err
        | .ok (db', _) => .ok (db', attached, true)

def createChildRun (db : Database) (run : Run) (idempotencyKey : String) (maxChildren : Int) :
    Except Err (Database × Run × Bool) :=
  if run.parentRunID = "" then .error (errorf "parent_run_id is required")
  else if isText run.parentRunID = false then .error (errorf "lock parent Run: ")
  else
    match db.find run.parentRunID with
    | none => .error Sentinel.notFound.err
    | some parent =>
        match db.idempotentChild idempotencyKey with
        | .error err => .error err
        | .ok (some existing) => .ok (db, existing, false)
        | .ok none =>
            if 0 < maxChildren ∧ maxChildren ≤ db.childCount run.parentRunID then
              .error Sentinel.childRunLimit.err
            else db.insertChild run parent.scan idempotencyKey

def runStateAndFence (db : Database) (id : String) : Except Err (RunStatus × Int) :=
  if isText id = false then .error (errorf "select run execution fence: ")
  else
    match db.find id with
    | none => .error Sentinel.notFound.err
    | some row => .ok (row.status, row.executionFence)

def classifyRunWriteFailure (db : Database) (id : String) (expectedFence : Int) : Err :=
  match db.runStateAndFence id with
  | .error err => err
  | .ok (status, currentFence) =>
      if status = .canceled then Sentinel.runCanceled.err
      else if currentFence ≠ expectedFence ∨ expectedFence ≤ 0 then
        Sentinel.staleExecution.errWith
          (": current=" ++ toString currentFence ++ " provided=" ++ toString expectedFence)
      else errorf "update run affected no rows"

/-- The parameters of an update can be sent. -/
def updateEncodes (run : Run) : Bool :=
  [run.id, run.output, run.error, run.requestID].all isText && isInteger run.attempt
    && isInteger run.maxAttempts

/-- `UpdateRun` and `UpdateRunFenced`: a write of the Run that has this fence. -/
def writeRun (db : Database) (run : Run) (fence : Int) (context : String) : Except Err Database :=
  if updateEncodes run = false then .error (errorf context)
  else
    match db.update run.id (RunRow.isWritable fence) (fun row => some (row.withResult run))
        context with
    | .error err => .error err
    | .ok (_, []) => .error (db.classifyRunWriteFailure run.id fence)
    | .ok (db', _ :: _) => .ok db'

def updateRun (db : Database) (run : Run) : Except Err Database :=
  db.writeRun run 0 "update run: "

def updateRunFenced (db : Database) (run : Run) (fence : Int) : Except Err Database :=
  db.writeRun run fence "update fenced run: "

def claimRunExecution (db : Database) (id : String) (minimumFence : Int) :
    Except Err (Database × Int) :=
  if isText id = false then .error (errorf "claim run execution: ")
  else
    match db.update id RunRow.isActive (fun row => row.raiseFence minimumFence)
        "claim run execution: " with
    | .error err => .error err
    | .ok (db', row :: _) => .ok (db', row.executionFence)
    | .ok (_, []) =>
        match db.runStateAndFence id with
        | .error err => .error err
        | .ok (status, _) =>
            if status = .canceled then .error Sentinel.runCanceled.err
            else .error (Sentinel.runNotExecutable.errWith (" from status " ++ status.text))

def cancelRun (db : Database) (id : String) (at_ : Time) : Database × Run × Option Err :=
  if isText id = false then (db, {}, some (errorf "cancel run: "))
  else
    match db.update id RunRow.isActive (fun row => some (row.cancel at_)) "cancel run: " with
    | .error err => (db, {}, some err)
    | .ok (db', row :: _) => (db', row.scan, none)
    | .ok (_, []) =>
        match db.getRun id with
        | .error err => (db, {}, some err)
        | .ok existing =>
            (db, existing,
              some (Sentinel.runNotCancelable.errWith (" from status " ++ existing.status.text)))

def recoverRun (db : Database) (id : String) (minimumFence : Int) : Except Err (Database × Bool) :=
  if isText id = false then .error (errorf "recover run: ")
  else
    match db.update id (fun row => row.status = .running) (fun row => row.requeue minimumFence)
        "recover run: " with
    | .error err => .error err
    | .ok (db', _ :: _) => .ok (db', true)
    | .ok (_, []) =>
        if (db.find id).isSome then .ok (db, false) else .error Sentinel.notFound.err

/-- The answer to a method. -/
def perform (db : Database) : RunOp → Database × OpResult
  | .getRun id => (db, .got (db.getRun id))
  | .createRun run key =>
      match db.createRun run key with
      | .error err => (db, .created (.error err))
      | .ok (db', run', isNew) => (db', .created (.ok (run', isNew)))
  | .createChildRun run key maxChildren =>
      match db.createChildRun run key maxChildren with
      | .error err => (db, .created (.error err))
      | .ok (db', run', isNew) => (db', .created (.ok (run', isNew)))
  | .updateRun run =>
      match db.updateRun run with
      | .error err => (db, .updated (some err))
      | .ok db' => (db', .updated none)
  | .claimRunExecution id minimumFence =>
      match db.claimRunExecution id minimumFence with
      | .error err => (db, .claimed (.error err))
      | .ok (db', fence) => (db', .claimed (.ok fence))
  | .updateRunFenced run fence =>
      match db.updateRunFenced run fence with
      | .error err => (db, .updated (some err))
      | .ok db' => (db', .updated none)
  | .cancelRun id at_ =>
      let (db', run, err) := db.cancelRun id at_
      (db', .canceled run err)
  | .recoverRun id minimumFence =>
      match db.recoverRun id minimumFence with
      | .error err => (db, .recovered (.error err))
      | .ok (db', recovered) => (db', .recovered (.ok recovered))

end Database

end AgentMesh
