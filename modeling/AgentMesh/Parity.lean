/-
AgentMesh/Parity.lean

The Memory store and the PostgreSQL repository side by side.

Both answer the same sequence of operations on Runs.  `OpResult.seen` is what is
compared: the class of an error, `isNew`, the fence, and of a Run its ID, Agent,
lineage, input, status and attempt.

The two agree as long as every operation is `portable` in the state that it finds:
its arguments can be stored by the database, a new Run has a new ID, a creation
under a key that is bound would pass the checks that the database makes before it
looks at the key, an update that is accepted has the stored Agent and input, a
fenced update does not use the fence 0 of a Run that was never claimed, and no
fence is at the end of its range.

The proof is a simulation.  `Mirrors db m` says that the table and the maps of the
store have the same Runs, keys, fences and numbers of children.  A statement that
updates one row keeps it (`Mirrors.replace`), and so does an insertion
(`Mirrors.insert`).
-/
import AgentMesh.Postgres
import AgentMesh.Lineage

namespace AgentMesh

/-! ### What is compared -/

inductive ErrorKind
  | notFound
  | canceled
  | staleExecution
  | notExecutable
  | childLimit
  | other
  deriving DecidableEq, Repr

def Err.kind (err : Err) : ErrorKind :=
  match err.sentinel with
  | some .notFound => .notFound
  | some .runCanceled => .canceled
  | some .staleExecution => .staleExecution
  | some .runNotExecutable => .notExecutable
  | some .childRunLimit => .childLimit
  | _ => .other

structure RunView where
  id : String
  agentID : String
  parentRunID : String
  rootRunID : String
  input : String
  status : RunStatus
  attempt : Int
  deriving DecidableEq, Repr

def Run.seen (run : Run) : RunView :=
  ⟨run.id, run.agentID, run.parentRunID, run.rootRunID, run.input, run.status, run.attempt⟩

inductive Seen
  | failed (kind : ErrorKind)
  | got (run : RunView)
  | created (run : RunView) (isNew : Bool)
  | updated
  | claimed (fence : Int)
  | canceled (run : RunView) (kind : Option ErrorKind)
  | recovered (recovered : Bool)
  deriving DecidableEq, Repr

def OpResult.seen : OpResult → Seen
  | .got (.error err) => .failed err.kind
  | .got (.ok run) => .got run.seen
  | .created (.error err) => .failed err.kind
  | .created (.ok (run, isNew)) => .created run.seen isNew
  | .updated (some err) => .failed err.kind
  | .updated none => .updated
  | .claimed (.error err) => .failed err.kind
  | .claimed (.ok fence) => .claimed fence
  | .canceled run err => .canceled run.seen (err.map Err.kind)
  | .recovered (.error err) => .failed err.kind
  | .recovered (.ok done) => .recovered done

def Memory.seenResults (m : Memory) : List RunOp → List Seen
  | [] => []
  | op :: rest => (m.perform op).2.seen :: Memory.seenResults (m.perform op).1 rest

def Database.seenResults (db : Database) : List RunOp → List Seen
  | [] => []
  | op :: rest => (db.perform op).2.seen :: Database.seenResults (db.perform op).1 rest

/-! ### The condition -/

/-- The columns of the Run meet the `CHECK` constraints. -/
def Run.meetsChecks (run : Run) : Bool :=
  run.status ≠ .unset && 0 ≤ run.attempt && 1 ≤ run.maxAttempts && 0 ≤ run.durationMS

/-- The Run can be inserted, its lineage apart. -/
def Run.storable (run : Run) (key : String) : Bool :=
  ([run.id, run.agentID, run.parentRunID, run.input, run.output, run.error, run.requestID, key]
      ++ run.requiredCapabilities).all isText
    && isInteger run.attempt && isInteger run.maxAttempts && run.meetsChecks

/-- An update that is accepted: its columns meet the constraints, and the Agent and the input are
those of the stored Run. -/
def Memory.keepsRequest (m : Memory) (run : Run) : Bool :=
  run.meetsChecks && (m.runs.lookup run.id).all fun existing =>
    run.agentID = existing.agentID && run.input = existing.input

def portable (m : Memory) : RunOp → Bool
  | .getRun id => isText id
  | .createRun run key =>
      run.storable key &&
        if (m.boundTo key).isSome then (m.attachLineage run).isOk
        else (m.runs.lookup run.id).isNone
  | .createChildRun run key _ =>
      run.storable key &&
        if (m.boundTo key).isSome then
          run.parentRunID = "" || (m.runs.lookup run.parentRunID).isSome
        else (m.runs.lookup run.id).isNone
  | .updateRun run => Database.updateEncodes run && (!(m.updateRun run).isOk || m.keepsRequest run)
  | .claimRunExecution id _ =>
      isText id && (m.runs.lookup id).all fun run => ¬ run.IsActive || m.fence id < maxBigint
  | .updateRunFenced run fence =>
      Database.updateEncodes run && (fence ≠ 0 || !(m.updateRun run).isOk) &&
        (!(m.updateRunFenced run fence).isOk || m.keepsRequest run)
  | .cancelRun id _ => isText id
  | .recoverRun id _ =>
      isText id && (m.runs.lookup id).all fun run => run.status ≠ .running || m.fence id < maxBigint

def allPortable (m : Memory) : List RunOp → Bool
  | [] => true
  | op :: rest => portable m op && allPortable (m.perform op).1 rest

/-! ### The simulation relation -/

/-- The `CHECK` constraints one by one. -/
structure RunRow.Checked (row : RunRow) : Prop where
  status : row.status ≠ .unset
  attempt : 0 ≤ row.attempt
  maxAttempts : 1 ≤ row.maxAttempts
  durationMS : 0 ≤ row.durationMS
  executionFence : 0 ≤ row.executionFence
  parentRunID : row.parentRunID ≠ some row.id
  rootRunID : row.rootRunID ≠ some row.id
  lineage : row.parentRunID.isSome = row.rootRunID.isSome

theorem RunRow.checks_iff {row : RunRow} : row.checks = true ↔ row.Checked := by
  simp only [RunRow.checks, Bool.and_eq_true, decide_eq_true_eq, beq_iff_eq, ne_eq, decide_not,
    Bool.not_eq_true', decide_eq_false_iff_not]
  constructor
  · rintro ⟨⟨⟨⟨⟨⟨⟨status, attempt⟩, maxAttempts⟩, duration⟩, fence⟩, parent⟩, root⟩, lineage⟩
    exact ⟨status, attempt, maxAttempts, duration, fence, parent, root, lineage⟩
  · rintro ⟨status, attempt, maxAttempts, duration, fence, parent, root, lineage⟩
    exact ⟨⟨⟨⟨⟨⟨⟨status, attempt⟩, maxAttempts⟩, duration⟩, fence⟩, parent⟩, root⟩, lineage⟩

structure Mirrors (db : Database) (m : Memory) : Prop where
  indexed : m.Indexed
  unique : Rows.Unique RunRow.id db.runs
  runs : ∀ id, (db.find id).map (fun row => row.scan.seen) = (m.runs.lookup id).map Run.seen
  fences : ∀ {id row}, db.find id = some row → row.executionFence = m.fence id
  /-- A Run that is not stored has no fence. -/
  fresh : ∀ {id}, m.runs.lookup id = none → m.fence id = 0
  keys : ∀ key, key ≠ "" → (db.findKey key).map RunRow.id = m.idempotencyKeys.lookup key
  children : ∀ id, id ≠ "" → db.childCount id = m.childCount id
  checked : ∀ row ∈ db.runs, row.checks = true
  texts : ∀ row ∈ db.runs, isText row.id = true
  rooted : ∀ row ∈ db.runs, ∀ root, row.rootRunID = some root → (db.find root).isSome = true

section Relation

variable {db db' : Database} {m m' : Memory} {id key : String} {row row' : RunRow} {run run' : Run}

theorem Mirrors.init : Mirrors {} {} where
  indexed := Memory.indexed_empty
  unique := List.nodup_nil
  runs _ := rfl
  fences h := by cases h
  fresh _ := rfl
  keys _ _ := rfl
  children _ _ := rfl
  checked := List.forall_mem_nil _
  texts := List.forall_mem_nil _
  rooted := List.forall_mem_nil _

/-- A Run is in both stores or in none. -/
theorem Mirrors.cases (h : Mirrors db m) (id : String) :
    (db.find id = none ∧ m.runs.lookup id = none) ∨
      ∃ row run, db.find id = some row ∧ m.runs.lookup id = some run ∧
        row.scan.seen = run.seen ∧ row.executionFence = m.fence id := by
  have heq := h.runs id
  rcases hrow : db.find id with - | row
  · rw [hrow, Option.map_none, eq_comm, Option.map_eq_none_iff] at heq
    exact .inl ⟨rfl, heq⟩
  · rw [hrow, Option.map_some, eq_comm, Option.map_eq_some_iff] at heq
    obtain ⟨run, hrun, hseen⟩ := heq
    exact .inr ⟨row, run, rfl, hrun, hseen.symm, h.fences hrow⟩

theorem Mirrors.find_iff (h : Mirrors db m) : db.find id = some row ↔ row ∈ db.runs ∧ row.id = id :=
  Rows.get_eq_some_iff h.unique

theorem Mirrors.find_none (h : Mirrors db m) (hrun : m.runs.lookup id = none) :
    db.find id = none := by
  rcases h.cases id with ⟨hnone, -⟩ | ⟨row, run, -, hsome, -⟩
  · exact hnone
  · rw [hrun] at hsome
    cases hsome

theorem Mirrors.find_some (h : Mirrors db m) (hrun : m.runs.lookup id = some run) :
    ∃ row, db.find id = some row := by
  rcases h.cases id with ⟨-, hnone⟩ | ⟨row, -, hrow, -⟩
  · rw [hrun] at hnone
    cases hnone
  · exact ⟨row, hrow⟩

theorem Mirrors.row_checked (h : Mirrors db m) (hrow : db.find id = some row) : row.Checked :=
  RunRow.checks_iff.mp (h.checked row (h.find_iff.mp hrow).1)

/-- What an update may not change in a row. -/
structure RunRow.SameOrigin (row row' : RunRow) : Prop where
  id : row'.id = row.id
  idempotencyKey : row'.idempotencyKey = row.idempotencyKey
  parentRunID : row'.parentRunID = row.parentRunID
  rootRunID : row'.rootRunID = row.rootRunID

/-- One row and one Run are replaced. -/
theorem Mirrors.replace (h : Mirrors db m) (hrow : db.find id = some row)
    (hrep : Rows.Replaces row row' db.runs db'.runs) (horigin : row.SameOrigin row')
    (hchecks : row'.checks = true) (hseen : row'.scan.seen = run'.seen)
    (hindexed : m'.Indexed)
    (hruns : ∀ id', m'.runs.lookup id' = if id' = id then some run' else m.runs.lookup id')
    (hchildren : ∀ parent, m'.childCount parent = m.childCount parent)
    (hkeys : m'.idempotencyKeys = m.idempotencyKeys)
    (hfence : row'.executionFence = m'.fence id)
    (hfences : ∀ id', id' ≠ id → m'.fence id' = m.fence id') : Mirrors db' m' := by
  obtain ⟨hmem, rfl⟩ := h.find_iff.mp hrow
  have hfind (id' : String) : db'.find id' = if id' = row.id then some row' else db.find id' :=
    hrep.get_eq horigin.id h.unique id'
  constructor
  · exact hindexed
  · exact hrep.unique horigin.id h.unique
  · intro id'
    rw [hfind, hruns]
    split
    · exact congrArg some hseen
    · exact h.runs id'
  · intro id' x hx
    rw [hfind] at hx
    split at hx
    · rename_i hid
      rw [hid, ← Option.some.inj hx]
      exact hfence
    · rename_i hid
      rw [hfences id' hid]
      exact h.fences hx
  · intro id' hnone
    rw [hruns] at hnone
    split at hnone
    · cases hnone
    · rename_i hid
      rw [hfences id' hid]
      exact h.fresh hnone
  · intro key hkey
    rw [hkeys, ← h.keys key hkey]
    exact hrep.find_map (by rw [horigin.idempotencyKey]) horigin.id
  · intro parent hparent
    rw [hchildren, ← h.children parent hparent]
    exact hrep.countP_eq _ (by rw [horigin.parentRunID])
  · intro x hx
    rcases hrep.mem_iff hx with rfl | hold
    · exact hchecks
    · exact h.checked x hold
  · intro x hx
    rcases hrep.mem_iff hx with rfl | hold
    · rw [horigin.id]
      exact h.texts row hmem
    · exact h.texts x hold
  · intro x hx root hroot
    have hold : (db.find root).isSome = true := by
      rcases hrep.mem_iff hx with rfl | hold
      · exact h.rooted row hmem root (horigin.rootRunID ▸ hroot)
      · exact h.rooted x hold root hroot
    rw [hfind]
    split
    · rfl
    · exact hold

/-- The key of a new row is that of no other. -/
theorem Mirrors.findKey_none (h : Mirrors db m) (hbound : m.boundTo key = none) (hkey : key ≠ "") :
    db.findKey key = none := by
  rw [Memory.boundTo, if_pos hkey] at hbound
  have hmap := h.keys key hkey
  rw [hbound, Option.map_eq_none_iff] at hmap
  exact hmap

theorem nullableString_eq_some {value value' : String} (hne : value' ≠ "") :
    nullableString value = some value' ↔ value = value' := by
  rw [nullableString]
  split
  · rename_i hempty
    constructor
    · intro h
      cases h
    · intro h
      exact absurd (h.symm.trans hempty) hne
  · exact Option.some_inj

theorem Database.findKey_append (hkey : key ≠ "") {key' : String}
    (hrow : row.idempotencyKey = nullableString key') (hold : key = key' → db.findKey key = none) :
    ({ db with runs := db.runs ++ [row] } : Database).findKey key =
      if key = key' then some row else db.findKey key := by
  have hmatch : row.idempotencyKey = some key ↔ key = key' := by
    rw [hrow, nullableString_eq_some hkey, eq_comm]
  rw [Database.findKey, List.find?_append, List.find?_singleton]
  by_cases heq : key = key'
  · rw [if_pos heq,
      show db.runs.find? (fun row => row.idempotencyKey = some key) = none from hold heq,
      if_pos (decide_eq_true (hmatch.mpr heq)), Option.none_or]
  · rw [if_neg heq, if_neg (by simpa using fun h => heq (hmatch.mp h)), Option.or_none]
    rfl

theorem Memory.childCount_storeRun (hnew : m.runs.lookup run.id = none) (parent : String) :
    (m.storeRun run key).childCount parent =
      m.childCount parent + (decide (run.parentRunID = parent)).toNat :=
  Table.count_insert_new (fun _ (run : Run) => decide (run.parentRunID = parent)) run hnew

theorem Memory.childCount_insert (hrun : m.runs.lookup id = some run)
    (hruns : m'.runs = m.runs.insert id run') (hparent : run'.parentRunID = run.parentRunID)
    (parent : String) : m'.childCount parent = m.childCount parent := by
  have hcount := Table.count_insert_old
    (fun _ (run : Run) => decide (run.parentRunID = parent)) run' hrun
  rw [hparent, ← hruns] at hcount
  exact Nat.add_right_cancel hcount

/-- A row and a Run are added. -/
theorem Mirrors.insert (h : Mirrors db m) (hid : row.id = run.id)
    (hnew : m.runs.lookup run.id = none) (hbound : m.boundTo key = none)
    (hkey : row.idempotencyKey = nullableString key) (hchecks : row.checks = true)
    (hrefs : db.references row = true) (htext : isText row.id = true)
    (hfence : row.executionFence = 0) (hseen : row.scan.seen = run.seen)
    (hparent : row.parentRunID = nullableString run.parentRunID)
    (hindexed : (m.storeRun run key).Indexed) :
    Mirrors { db with runs := db.runs ++ [row] } (m.storeRun run key) := by
  have hnone : Rows.get RunRow.id db.runs row.id = none := by
    rw [hid]
    exact h.find_none hnew
  have hfind (id' : String) : ({ db with runs := db.runs ++ [row] } : Database).find id' =
      if id' = row.id then some row else db.find id' := Rows.get_append hnone
  have hlookup (id' : String) : (m.storeRun run key).runs.lookup id' =
      if id' = run.id then some run else m.runs.lookup id' := Table.lookup_insert_eq _ _ _ _
  constructor
  · exact hindexed
  · exact h.unique.append hnone
  · intro id'
    rw [hfind, hlookup, hid]
    split
    · exact congrArg some hseen
    · exact h.runs id'
  · intro id' x hx
    show x.executionFence = m.fence id'
    rw [hfind] at hx
    split at hx
    · rename_i heq
      rw [← Option.some.inj hx, hfence, heq, hid, h.fresh hnew]
    · exact h.fences hx
  · intro id' hgone
    rw [hlookup] at hgone
    split at hgone
    · cases hgone
    · exact h.fresh hgone
  · intro key' hkey'
    rw [Database.findKey_append hkey' hkey fun heq => h.findKey_none (heq ▸ hbound) hkey',
      Memory.storeRun_keys]
    by_cases heq : key' = key
    · rw [if_pos heq, if_pos ⟨heq, heq ▸ hkey'⟩, Option.map_some, hid]
    · rw [if_neg heq, if_neg fun hcon => heq hcon.1]
      exact h.keys key' hkey'
  · intro parent hne
    rw [Memory.childCount_storeRun hnew, ← h.children parent hne]
    show (db.runs ++ [row]).countP _ = _
    rw [List.countP_append, List.countP_singleton, hparent]
    simp only [nullableString_eq_some hne]
    by_cases heq : run.parentRunID = parent
    · simp [heq, Database.childCount]
    · simp [heq, Database.childCount]
  · intro x hx
    rcases List.mem_append.mp hx with hold | hlast
    · exact h.checked x hold
    · rw [List.mem_singleton.mp hlast]
      exact hchecks
  · intro x hx
    rcases List.mem_append.mp hx with hold | hlast
    · exact h.texts x hold
    · rw [List.mem_singleton.mp hlast]
      exact htext
  · intro x hx root hroot
    have hold : (db.find root).isSome = true := by
      rcases List.mem_append.mp hx with hold | hlast
      · exact h.rooted x hold root hroot
      · rw [List.mem_singleton.mp hlast] at hroot
        rw [Database.references, hroot, Bool.and_eq_true] at hrefs
        exact hrefs.2
    rw [hfind]
    split
    · rfl
    · exact hold

end Relation

/-! ### Statements on one row -/

section Statements

variable {db : Database} {m : Memory} {id context : String} {row row' : RunRow}
  {q : RunRow → Bool} {f : RunRow → Option RunRow}

theorem Mirrors.update_none (h : Mirrors db m) (hrow : db.find id = none) :
    db.update id q f context = .ok (db, []) := by
  have hq : ∀ row, db.find id = some row → q row = false := by
    rw [hrow]
    intro row hsome
    cases hsome
  rw [Database.update, Rows.update_skip h.unique hq]

theorem Mirrors.update_skip (h : Mirrors db m) (hrow : db.find id = some row)
    (hq : q row = false) : db.update id q f context = .ok (db, []) := by
  have hq' : ∀ row, db.find id = some row → q row = false := by
    rw [hrow]
    intro row' hsome
    rw [← Option.some.inj hsome]
    exact hq
  rw [Database.update, Rows.update_skip h.unique hq']

theorem Mirrors.update_row (h : Mirrors db m) (context : String) (hrow : db.find id = some row)
    (hq : q row = true) (hf : f row = some row') (hchecks : row'.checks = true) :
    ∃ db', db.update id q f context = .ok (db', [row']) ∧
      Rows.Replaces row row' db.runs db'.runs := by
  obtain ⟨rows, hupdate, hrep⟩ := Rows.update_row (f := fun row => (f row).filter RunRow.checks)
    h.unique hrow hq (by rw [hf, Option.filter_some, if_pos hchecks])
  exact ⟨⟨rows⟩, by rw [Database.update, hupdate], hrep⟩

/-- The query that follows an update of no row. -/
theorem Mirrors.runStateAndFence {existing : Run} (h : Mirrors db m) (htext : isText id = true)
    (hrow : db.find id = some row) (hseen : row.scan.seen = existing.seen) :
    db.runStateAndFence id = .ok (existing.status, m.fence id) := by
  have hstatus : row.status = existing.status := congrArg RunView.status hseen
  rw [Database.runStateAndFence, htext, if_neg (by decide), hrow, ← hstatus, ← h.fences hrow]

end Statements

/-! ### The rows that are written -/

section Written

variable {row : RunRow} {run : Run}

theorem Run.meetsChecks_iff : run.meetsChecks = true ↔
    run.status ≠ .unset ∧ 0 ≤ run.attempt ∧ 1 ≤ run.maxAttempts ∧ 0 ≤ run.durationMS := by
  simp [Run.meetsChecks, and_assoc]

theorem RunRow.Checked.withResult (h : row.Checked) (hrun : run.meetsChecks = true) :
    (row.withResult run).Checked := by
  obtain ⟨hstatus, hattempt, hmax, hduration⟩ := Run.meetsChecks_iff.mp hrun
  exact { h with
    status := hstatus, attempt := hattempt, maxAttempts := hmax, durationMS := hduration }

theorem RunRow.Checked.raiseFence (h : row.Checked) {fence : Int} (hfence : 0 ≤ fence) :
    RunRow.Checked { row with executionFence := fence } :=
  { h with executionFence := hfence }

theorem RunRow.Checked.cancel (h : row.Checked) (at_ : Time) : (row.cancel at_).Checked :=
  { h with status := RunStatus.noConfusion, durationMS := le_max_left _ _ }

theorem RunRow.Checked.requeue (h : row.Checked) {fence : Int} (hfence : 0 ≤ fence) :
    RunRow.Checked { row with
      status := .queued, startedAt := none, attempt := max (row.attempt - 1) 0, durationMS := 0
      executionFence := fence } :=
  { h with
    status := RunStatus.noConfusion, attempt := le_max_right _ _, durationMS := le_rfl
    executionFence := hfence }

theorem RunRow.isActive_iff (hstatus : row.status = run.status) :
    row.isActive = true ↔ run.IsActive := by
  simp [RunRow.isActive, Run.IsActive, hstatus]

/-- Away from the end of the range both stores raise a fence alike. -/
theorem nextFence_eq_max {current minimum : Int} (h0 : 0 ≤ current) (hlt : current < maxBigint) :
    Memory.nextFence current minimum = max (current + 1) minimum := by
  have hwrap : Memory.int64 (current + 1) = current + 1 := by
    rw [maxBigint] at hlt
    rw [Memory.int64]
    apply Int.bmod_eq_of_le <;> norm_num <;> omega
  rw [Memory.nextFence, hwrap]
  show (if minimum > current + 1 then minimum else current + 1) = _
  split <;> omega

theorem RunRow.raiseFence_eq {minimum : Int} (h0 : 0 ≤ row.executionFence)
    (hlt : row.executionFence < maxBigint) :
    row.raiseFence minimum =
      some { row with executionFence := Memory.nextFence row.executionFence minimum } := by
  rw [RunRow.raiseFence, if_neg (by omega), nextFence_eq_max h0 hlt]

theorem RunRow.requeue_eq {minimum : Int} (h0 : 0 ≤ row.executionFence)
    (hlt : row.executionFence < maxBigint) :
    row.requeue minimum = some { row with
      status := .queued, startedAt := none, attempt := max (row.attempt - 1) 0, durationMS := 0
      executionFence := Memory.nextFence row.executionFence minimum } :=
  RunRow.raiseFence_eq h0 hlt

end Written

/-! ### The operations -/

/-- Both stores have answered the same and mirror each other again. -/
structure Matches (d : Database × OpResult) (n : Memory × OpResult) : Prop where
  mirrors : Mirrors d.1 n.1
  seen : d.2.seen = n.2.seen

/-- `UpdateRun` and `UpdateRunFenced` of the Memory store in one: a write of the Run that has this
fence. -/
def Memory.writeRun (m : Memory) (run : Run) (fence : Int) : Except Err Memory :=
  match m.runs.lookup run.id with
  | none => .error Sentinel.notFound.err
  | some existing =>
      if existing.status = .canceled then .error Sentinel.runCanceled.err
      else if m.fence run.id ≠ fence then .error Sentinel.staleExecution.err
      else .ok { m with runs := m.runs.insert run.id (Memory.keepLineage existing run) }

section Operations

variable {db : Database} {m : Memory} {id context : String} {run : Run} {fence : Int}

theorem Mirrors.getRun (h : Mirrors db m) (htext : isText id = true) :
    Matches (db.perform (.getRun id)) (m.perform (.getRun id)) := by
  refine ⟨h, ?_⟩
  rw [Database.perform, Memory.perform, Database.getRun, Memory.getRun, htext]
  rcases h.cases id with ⟨hrow, hrun⟩ | ⟨row, run, hrow, hrun, hseen, -⟩
  · rw [hrow, hrun]
    rfl
  · rw [hrow, hrun]
    exact congrArg Seen.got hseen

/-- The stores after an update that both have accepted. -/
theorem Mirrors.updated {db' : Database} {row : RunRow} {existing : Run} (h : Mirrors db m)
    (hrow : db.find run.id = some row) (hrun : m.runs.lookup run.id = some existing)
    (hseen : row.scan.seen = existing.seen) (hkeeps : m.keepsRequest run = true)
    (hrep : Rows.Replaces row (row.withResult run) db.runs db'.runs) :
    Mirrors db' { m with runs := m.runs.insert run.id (Memory.keepLineage existing run) } := by
  rw [Memory.keepsRequest, hrun, Option.all_some, Bool.and_eq_true, Bool.and_eq_true,
    decide_eq_true_eq, decide_eq_true_eq] at hkeeps
  obtain ⟨hchecks, hagent, hinput⟩ := hkeeps
  have hfence := h.fences hrow
  refine h.replace hrow hrep ⟨rfl, rfl, rfl, rfl⟩
    (RunRow.checks_iff.mpr ((h.row_checked hrow).withResult hchecks)) ?_
    ⟨Table.of_lookup_insert (P := fun id (run : Run) => run.id = id) rfl h.indexed.id,
      fun key id hkey => Memory.lookup_insert_isSome (h.indexed.keys key id hkey)⟩
    (fun id' => Table.lookup_insert_eq _ _ _ _) (Memory.childCount_insert hrun rfl rfl) rfl
    hfence fun _ _ => rfl
  have hid := h.indexed.id hrun
  simp only [Run.seen, RunRow.scan, RunView.mk.injEq] at hseen
  simp only [Run.seen, RunRow.scan, RunRow.withResult, Memory.keepLineage, RunView.mk.injEq]
  simp_all

/-- Both stores accept a write or refuse it for the same reason. -/
theorem Mirrors.writeRun (h : Mirrors db m) (hencodes : Database.updateEncodes run = true)
    (hkeeps : (!(m.writeRun run fence).isOk || m.keepsRequest run) = true) (context : String) :
    (∃ err err', db.writeRun run fence context = .error err ∧ m.writeRun run fence = .error err' ∧
      err.kind = err'.kind) ∨
    ∃ db' m', db.writeRun run fence context = .ok db' ∧ m.writeRun run fence = .ok m' ∧
      Mirrors db' m' := by
  have htext : isText run.id = true := by
    simp only [Database.updateEncodes, List.all_cons, Bool.and_eq_true] at hencodes
    exact hencodes.1.1.1
  have hskip (hupdate : db.update run.id (RunRow.isWritable fence)
        (fun row => some (row.withResult run)) context = .ok (db, [])) :
      db.writeRun run fence context = .error (db.classifyRunWriteFailure run.id fence) := by
    rw [Database.writeRun, hencodes, if_neg (by decide), hupdate]
  rcases h.cases run.id with ⟨hrow, hrun⟩ | ⟨row, existing, hrow, hrun, hseen, hfence⟩
  · refine .inl ⟨_, Sentinel.notFound.err, hskip (h.update_none hrow), ?_, ?_⟩
    · rw [Memory.writeRun, hrun]
    · rw [Database.classifyRunWriteFailure, Database.runStateAndFence, htext, hrow]
      rfl
  · have hstatus : row.status = existing.status := congrArg RunView.status hseen
    have hstate := h.runStateAndFence htext hrow hseen
    by_cases hcanceled : existing.status = .canceled
    · refine .inl ⟨_, Sentinel.runCanceled.err, hskip (h.update_skip hrow ?_), ?_, ?_⟩
      · simp [RunRow.isWritable, hstatus, hcanceled]
      · rw [Memory.writeRun, hrun]
        exact if_pos hcanceled
      · rw [Database.classifyRunWriteFailure, hstate]
        simp only [hcanceled, if_true]
    · by_cases hstale : m.fence run.id = fence
      · have hwrite : m.writeRun run fence = .ok { m with
            runs := m.runs.insert run.id (Memory.keepLineage existing run) } := by
          rw [Memory.writeRun, hrun]
          simp only [hcanceled, hstale, if_false, ne_eq, not_true_eq_false]
        rw [hwrite] at hkeeps
        have hkeeps : m.keepsRequest run = true := hkeeps
        have hchecks := (h.row_checked hrow).withResult (Bool.and_eq_true_iff.mp hkeeps).1
        obtain ⟨db', hupdate, hrep⟩ := h.update_row context hrow (q := RunRow.isWritable fence)
          (by simp [RunRow.isWritable, hstatus, hcanceled, hfence, hstale])
          (f := fun row => some (row.withResult run)) rfl (RunRow.checks_iff.mpr hchecks)
        refine .inr ⟨db', _, ?_, hwrite, h.updated hrow hrun hseen hkeeps hrep⟩
        rw [Database.writeRun, hencodes, if_neg (by decide), hupdate]
      · refine .inl ⟨_, Sentinel.staleExecution.err, hskip (h.update_skip hrow ?_), ?_, ?_⟩
        · simp [RunRow.isWritable, hfence, hstale]
        · rw [Memory.writeRun, hrun]
          simp only [hcanceled, hstale, if_false, ne_eq, not_false_eq_true, if_true]
        · rw [Database.classifyRunWriteFailure, hstate]
          simp only [hcanceled, if_false, ne_eq, hstale, not_false_eq_true, true_or, if_true]
          rfl

theorem Mirrors.updateRun (h : Mirrors db m) (hok : portable m (.updateRun run) = true) :
    Matches (db.perform (.updateRun run)) (m.perform (.updateRun run)) := by
  rw [portable, Bool.and_eq_true] at hok
  obtain ⟨hencodes, hkeeps⟩ := hok
  have heq : m.updateRun run = m.writeRun run 0 := rfl
  rw [heq] at hkeeps
  rw [Database.perform, Database.updateRun, Memory.perform, heq]
  obtain ⟨err, err', hdb, hm, hkind⟩ | ⟨db', m', hdb, hm, hmirrors⟩ :=
    h.writeRun hencodes hkeeps "update run: "
  · rw [hdb, hm]
    exact ⟨h, congrArg Seen.failed hkind⟩
  · rw [hdb, hm]
    exact ⟨hmirrors, rfl⟩

/-- No Run has a negative fence, and the fence 0 of a Run that was never claimed is excluded. -/
theorem Mirrors.updateRunFenced_eq (h : Mirrors db m)
    (hclaimed : (fence ≠ 0 || !(m.updateRun run).isOk) = true) :
    m.updateRunFenced run fence = m.writeRun run fence := by
  rw [Memory.updateRunFenced, Memory.writeRun]
  rcases h.cases run.id with ⟨-, hrun⟩ | ⟨row, existing, hrow, hrun, -, hfence⟩
  · rw [hrun]
  · rw [hrun]
    by_cases hcanceled : existing.status = .canceled
    · simp only [hcanceled, if_true]
    · have hiff : (fence ≤ 0 ∨ m.fence run.id ≠ fence) ↔ m.fence run.id ≠ fence := by
        refine ⟨?_, .inr⟩
        rintro (hle | hne)
        · rintro rfl
          have hzero : m.fence run.id = 0 :=
            le_antisymm hle (hfence ▸ (h.row_checked hrow).executionFence)
          rw [Memory.updateRun, hrun, hzero] at hclaimed
          simp [hcanceled, Except.isOk, Except.toBool] at hclaimed
        · exact hne
      simp only [hcanceled, if_false, hiff]

theorem Mirrors.updateRunFenced (h : Mirrors db m)
    (hok : portable m (.updateRunFenced run fence) = true) :
    Matches (db.perform (.updateRunFenced run fence)) (m.perform (.updateRunFenced run fence)) := by
  rw [portable, Bool.and_eq_true, Bool.and_eq_true] at hok
  obtain ⟨⟨hencodes, hclaimed⟩, hkeeps⟩ := hok
  have heq := h.updateRunFenced_eq hclaimed
  rw [heq] at hkeeps
  rw [Database.perform, Database.updateRunFenced, Memory.perform, heq]
  obtain ⟨err, err', hdb, hm, hkind⟩ | ⟨db', m', hdb, hm, hmirrors⟩ :=
    h.writeRun hencodes hkeeps "update fenced run: "
  · rw [hdb, hm]
    exact ⟨h, congrArg Seen.failed hkind⟩
  · rw [hdb, hm]
    exact ⟨hmirrors, rfl⟩

theorem Memory.fence_insert_ne (m : Memory) {id' : String} (hne : id' ≠ id) (f : Int) :
    Memory.fence { m with runFences := m.runFences.insert id f } id' = m.fence id' :=
  Table.getD_insert_ne _ _ _ hne

theorem Mirrors.claimRunExecution {minimum : Int} (h : Mirrors db m)
    (hok : portable m (.claimRunExecution id minimum) = true) :
    Matches (db.perform (.claimRunExecution id minimum))
      (m.perform (.claimRunExecution id minimum)) := by
  have hindexed := h.indexed.perform (.claimRunExecution id minimum)
  rw [portable, Bool.and_eq_true] at hok
  obtain ⟨htext, hroom⟩ := hok
  rw [Memory.perform, Memory.claimRunExecution] at hindexed ⊢
  rw [Database.perform, Database.claimRunExecution, htext, if_neg (by decide)]
  rcases h.cases id with ⟨hrow, hrun⟩ | ⟨row, run, hrow, hrun, hseen, hfence⟩
  · rw [h.update_none hrow, hrun, Database.runStateAndFence, htext, hrow]
    exact ⟨h, rfl⟩
  · rw [hrun] at hroom hindexed ⊢
    have hstatus : row.status = run.status := congrArg RunView.status hseen
    have hactive_iff := RunRow.isActive_iff hstatus
    by_cases hactive : run.IsActive
    · have hlt : row.executionFence < maxBigint := by
        rw [Option.all_some] at hroom
        simpa [hactive, hfence] using hroom
      have hchecked := h.row_checked hrow
      have hnext := Memory.lt_nextFence hchecked.executionFence hlt minimum
      have hchecks := RunRow.checks_iff.mpr
        (hchecked.raiseFence (hchecked.executionFence.trans hnext.le))
      obtain ⟨db', hupdate, hrep⟩ := h.update_row "claim run execution: " hrow
        (hactive_iff.mpr hactive) (f := fun row => row.raiseFence minimum)
        (RunRow.raiseFence_eq hchecked.executionFence hlt) hchecks
      rw [hupdate]
      have hcanceled : run.status ≠ .canceled := by
        rcases hactive with hs | hs <;> rw [hs] <;> decide
      have hnot : ¬ (run.status ≠ .queued ∧ run.status ≠ .running) := not_and_or.mpr
        (hactive.imp not_not.mpr not_not.mpr)
      simp only [hcanceled, hnot, if_false] at hindexed ⊢
      refine ⟨h.replace hrow hrep ⟨rfl, rfl, rfl, rfl⟩ hchecks hseen hindexed ?_ (fun _ => rfl) rfl
        ?_ fun id' hne => m.fence_insert_ne hne _, ?_⟩
      · intro id'
        show m.runs.lookup id' = _
        split
        · rename_i heq
          rw [heq, hrun]
        · rfl
      · rw [Memory.fence_insert_self, ← hfence]
      · rw [← hfence]
    · have hskip := Bool.eq_false_iff.mpr fun hrow => hactive (hactive_iff.mp hrow)
      rw [h.update_skip hrow hskip, h.runStateAndFence htext hrow hseen]
      have hnot : run.status ≠ .queued ∧ run.status ≠ .running := not_or.mp hactive
      by_cases hcanceled : run.status = .canceled
      · simp only [hcanceled, if_true]
        exact ⟨h, rfl⟩
      · simp only [hcanceled, if_false]
        rw [if_pos hnot]
        exact ⟨h, rfl⟩

theorem Mirrors.cancelRun {at_ : Time} (h : Mirrors db m) (htext : isText id = true) :
    Matches (db.perform (.cancelRun id at_)) (m.perform (.cancelRun id at_)) := by
  have hindexed := h.indexed.perform (.cancelRun id at_)
  rw [Memory.perform, Memory.cancelRun] at hindexed ⊢
  rw [Database.perform, Database.cancelRun, htext, if_neg (by decide)]
  rcases h.cases id with ⟨hrow, hrun⟩ | ⟨row, run, hrow, hrun, hseen, hfence⟩
  · rw [h.update_none hrow, hrun, Table.getD, hrun, Database.getRun, htext, hrow]
    exact ⟨h, rfl⟩
  · rw [hrun] at hindexed ⊢
    have hstatus : row.status = run.status := congrArg RunView.status hseen
    have hactive_iff := RunRow.isActive_iff hstatus
    by_cases hactive : run.IsActive
    · have hchecks := RunRow.checks_iff.mpr ((h.row_checked hrow).cancel at_)
      obtain ⟨db', hupdate, hrep⟩ := h.update_row "cancel run: " hrow (hactive_iff.mpr hactive)
        (f := fun row => some (row.cancel at_)) rfl hchecks
      rw [hupdate]
      have hnot : ¬ (run.status ≠ .queued ∧ run.status ≠ .running) := not_and_or.mpr
        (hactive.imp not_not.mpr not_not.mpr)
      have hcancel : run.cancel at_ = .ok { run with
          status := .canceled, output := "", error := "", completedAt := some at_
          durationMS := run.durationMilliseconds at_ } := by
        rw [Run.cancel, if_neg hnot]
      simp only [hcancel] at hindexed ⊢
      have hseen' : (row.cancel at_).scan.seen = Run.seen { run with
          status := .canceled, output := "", error := "", completedAt := some at_
          durationMS := run.durationMilliseconds at_ } := by
        simp only [Run.seen, RunRow.scan, RunView.mk.injEq] at hseen
        simp [Run.seen, RunRow.scan, RunRow.cancel, hseen]
      exact ⟨h.replace hrow hrep ⟨rfl, rfl, rfl, rfl⟩ hchecks hseen' hindexed
        (fun id' => Table.lookup_insert_eq _ _ _ _) (Memory.childCount_insert hrun rfl rfl) rfl
        hfence fun _ _ => rfl, congrArg (Seen.canceled · none) hseen'⟩
    · have hnot : run.status ≠ .queued ∧ run.status ≠ .running := not_or.mp hactive
      have hcancel : run.cancel at_ =
          .error (Sentinel.runNotCancelable.errWith (" from status " ++ run.status.text)) := by
        rw [Run.cancel, if_pos hnot]
      have hskip := Bool.eq_false_iff.mpr fun hrow => hactive (hactive_iff.mp hrow)
      rw [h.update_skip hrow hskip, Database.getRun, htext, hrow]
      simp only [hcancel, Table.getD, hrun, Option.getD_some]
      exact ⟨h, congrArg (Seen.canceled · (some .other)) hseen⟩

theorem Mirrors.recoverRun {minimum : Int} (h : Mirrors db m)
    (hok : portable m (.recoverRun id minimum) = true) :
    Matches (db.perform (.recoverRun id minimum)) (m.perform (.recoverRun id minimum)) := by
  have hindexed := h.indexed.perform (.recoverRun id minimum)
  rw [portable, Bool.and_eq_true] at hok
  obtain ⟨htext, hroom⟩ := hok
  rw [Memory.perform, Memory.recoverRun] at hindexed ⊢
  rw [Database.perform, Database.recoverRun, htext, if_neg (by decide)]
  rcases h.cases id with ⟨hrow, hrun⟩ | ⟨row, run, hrow, hrun, hseen, hfence⟩
  · rw [h.update_none hrow, hrun, hrow]
    exact ⟨h, rfl⟩
  · rw [hrun] at hroom hindexed ⊢
    have hstatus : row.status = run.status := congrArg RunView.status hseen
    by_cases hrunning : run.status = .running
    · have hlt : row.executionFence < maxBigint := by
        rw [Option.all_some] at hroom
        simpa [hrunning, hfence] using hroom
      have hchecked := h.row_checked hrow
      have hnext := Memory.lt_nextFence hchecked.executionFence hlt minimum
      have hchecks := RunRow.checks_iff.mpr
        (hchecked.requeue (hchecked.executionFence.trans hnext.le))
      obtain ⟨db', hupdate, hrep⟩ := h.update_row "recover run: " hrow
        (q := fun row => row.status = .running) (decide_eq_true (hstatus.trans hrunning))
        (f := fun row => row.requeue minimum) (RunRow.requeue_eq hchecked.executionFence hlt)
        hchecks
      rw [hupdate]
      simp only [hrunning, ne_eq, not_true_eq_false, if_false] at hindexed ⊢
      refine ⟨h.replace hrow hrep ⟨rfl, rfl, rfl, rfl⟩ hchecks ?_ hindexed
        (fun id' => Table.lookup_insert_eq _ _ _ _) (Memory.childCount_insert hrun rfl rfl) rfl
        ?_ ?_, rfl⟩
      · -- both take one attempt back, but not below zero
        have hattempt : row.attempt = run.attempt := congrArg RunView.attempt hseen
        have h0 : 0 ≤ run.attempt := hattempt ▸ hchecked.attempt
        have hback : max (run.attempt - 1) 0 =
            if 0 < run.attempt then run.attempt - 1 else run.attempt := by
          split <;> omega
        simp only [Run.seen, RunRow.scan, RunView.mk.injEq] at hseen
        simp [Run.seen, RunRow.scan, Run.requeue, hseen, hback]
      · show _ = Table.getD (m.runFences.insert id _) id 0
        rw [Table.getD_insert_self, hfence]
      · exact fun id' hne => Table.getD_insert_ne _ _ _ hne
    · rw [h.update_skip hrow (decide_eq_false fun hrow => hrunning (hstatus.symm.trans hrow)), hrow]
      simp only [hrunning, ne_eq, not_false_eq_true, if_true]
      exact ⟨h, rfl⟩

end Operations

/-! ### Creations -/

/-- The row that `CreateRun` inserts. -/
def Run.row (run : Run) (key : String) : RunRow :=
  RunRow.ofRun run (nullableString run.parentRunID) (nullableString run.rootRunID) key

section Creations

variable {db : Database} {m : Memory} {key : String} {run attached parent : Run} {row : RunRow}

theorem Run.attachTo_congr {parent' : Run} (hseen : parent.seen = parent'.seen) :
    run.attachTo parent = run.attachTo parent' := by
  simp only [Run.seen, RunView.mk.injEq] at hseen
  simp only [Run.attachTo, hseen]

/-- Both stores make the same lineage checks. -/
theorem Mirrors.attachLineage (h : Mirrors db m) (htext : isText run.parentRunID = true) :
    (db.attachLineage run).mapError Err.kind = (m.attachLineage run).mapError Err.kind := by
  rw [Database.attachLineage, Memory.attachLineage]
  split
  · rfl
  · rw [Database.getRun, htext, if_neg (by decide)]
    rcases h.cases run.parentRunID with ⟨hrow, hrun⟩ | ⟨row, parent, hrow, hrun, hseen, -⟩
    · rw [hrow, hrun]
      rfl
    · have hsame : run.attachTo row.scan = run.attachTo parent := Run.attachTo_congr hseen
      rw [hrow, hrun]
      rcases hattach : run.attachTo parent with err | attached
      · simp only [hsame, hattach]
      · simp only [hsame, hattach]

theorem Mirrors.attachLineage_ok (h : Mirrors db m) (htext : isText run.parentRunID = true)
    (hattach : m.attachLineage run = .ok attached) : db.attachLineage run = .ok attached := by
  have heq := h.attachLineage htext
  rw [hattach] at heq
  rcases hdb : db.attachLineage run with err | attached'
  · rw [hdb] at heq
    cases heq
  · rw [hdb] at heq
    exact congrArg Except.ok (Except.ok.inj heq)

theorem Mirrors.attachLineage_error {err : Err} (h : Mirrors db m)
    (htext : isText run.parentRunID = true) (hattach : m.attachLineage run = .error err) :
    ∃ err', db.attachLineage run = .error err' ∧ err'.kind = err.kind := by
  have heq := h.attachLineage htext
  rw [hattach] at heq
  rcases hdb : db.attachLineage run with err' | attached'
  · rw [hdb] at heq
    exact ⟨err', rfl, Except.error.inj heq⟩
  · rw [hdb] at heq
    cases heq

/-- The lineage of a Run that passed the checks. -/
inductive Memory.Adopts (m : Memory) (run attached : Run) : Prop
  | root (named : run.parentRunID = "") (parentRunID : attached.parentRunID = "")
      (rootRunID : attached.rootRunID = "")
  | child {parent : Run} (found : m.runs.lookup run.parentRunID = some parent)
      (parentRunID : attached.parentRunID = run.parentRunID) (named : run.parentRunID ≠ "")
      (parent_ne : run.parentRunID ≠ run.id) (rootRunID : attached.rootRunID ≠ "")
      (root_ne : attached.rootRunID ≠ run.id)
      (root : attached.rootRunID = run.parentRunID ∨ attached.rootRunID = parent.rootRunID)

theorem Run.attachTo_adopts (h : run.attachTo parent = .ok attached) :
    attached.parentRunID = parent.id ∧ parent.id ≠ "" ∧ parent.id ≠ run.id ∧
      attached.rootRunID ≠ "" ∧ attached.rootRunID ≠ run.id ∧
      (attached.rootRunID = parent.id ∨ attached.rootRunID = parent.rootRunID) := by
  rw [Run.attachTo] at h
  repeat' split at h
  all_goals cases h
  all_goals simp_all

theorem Memory.Indexed.adopts (hm : m.Indexed) (h : m.attachLineage run = .ok attached) :
    m.Adopts run attached := by
  rw [Memory.attachLineage] at h
  split at h
  · rename_i hroot
    split at h
    · cases h
    · obtain rfl := Except.ok.inj h
      exact .root hroot hroot (not_not.mp ‹_›)
  · rename_i hnamed
    split at h
    · cases h
    · rename_i parent hparent
      split at h
      · cases h
      · rename_i attached' hattach
        split at h
        · cases h
        · obtain rfl := Except.ok.inj h
          obtain ⟨hp, -, hne, hroot, hroot_ne, hwhich⟩ := Run.attachTo_adopts hattach
          rw [hm.id hparent] at hp hne hwhich
          exact .child hparent hp hnamed hne hroot hroot_ne hwhich

theorem nullableString_all {value : String} (h : isText value = true) :
    (nullableString value).all isText = true := by
  rw [nullableString]
  split
  · rfl
  · exact h

theorem nullableString_of_ne {value : String} (h : value ≠ "") :
    nullableString value = some value :=
  if_neg h

/-- The root of a new Run is stored. -/
theorem Mirrors.find_root (h : Mirrors db m) (hparent : m.runs.lookup run.parentRunID = some parent)
    (hroot : attached.rootRunID ≠ "")
    (hwhich : attached.rootRunID = run.parentRunID ∨ attached.rootRunID = parent.rootRunID) :
    ∃ row, db.find attached.rootRunID = some row := by
  rcases h.cases run.parentRunID with ⟨-, hnone⟩ | ⟨row, parent', hrow, hparent', hseen, -⟩
  · rw [hparent] at hnone
    cases hnone
  · obtain rfl := Option.some.inj (hparent.symm.trans hparent')
    rcases hwhich with heq | heq
    · exact ⟨row, heq ▸ hrow⟩
    · have hrootID : row.rootRunID.getD "" = parent.rootRunID := congrArg RunView.rootRunID hseen
      have hsome : row.rootRunID = some attached.rootRunID := by
        rcases hr : row.rootRunID with - | root
        · rw [hr] at hrootID
          exact absurd (heq.trans hrootID.symm) hroot
        · rw [hr] at hrootID
          rw [heq, ← hrootID]
          rfl
      exact Option.isSome_iff_exists.mp (h.rooted row (h.find_iff.mp hrow).1 _ hsome)

/-- The lineage of a new Run can be sent. -/
theorem Mirrors.lineage_texts (h : Mirrors db m) (htext : isText run.parentRunID = true)
    (hattach : m.attachLineage run = .ok attached) :
    isText attached.parentRunID = true ∧ isText attached.rootRunID = true := by
  cases h.indexed.adopts hattach with
  | root _ parentRunID rootRunID =>
      rw [parentRunID, rootRunID]
      exact ⟨rfl, rfl⟩
  | child found parentRunID _ _ rootRunID _ root =>
      rw [parentRunID]
      refine ⟨htext, ?_⟩
      obtain ⟨row, hrow⟩ := h.find_root found rootRunID root
      obtain ⟨hmem, hid⟩ := h.find_iff.mp hrow
      exact hid ▸ h.texts row hmem

theorem Memory.attachLineage_id (h : m.attachLineage run = .ok attached) :
    attached.id = run.id := by
  obtain ⟨parentRunID, rootRunID, rfl⟩ := Memory.attachLineage_ok h
  rfl

/-- The row of a Run that passed the checks can be inserted. -/
theorem Mirrors.row_ok (h : Mirrors db m) (hstorable : run.storable key = true)
    (hattach : m.attachLineage run = .ok attached) :
    (attached.row key).encodes = true ∧ (attached.row key).checks = true ∧
      db.references (attached.row key) = true := by
  simp only [Run.storable, Run.meetsChecks, List.all_append, List.all_cons, List.all_nil,
    Bool.and_eq_true, Bool.and_true, decide_eq_true_eq] at hstorable
  obtain ⟨⟨⟨⟨⟨hid, hagent, hparent, hinput, houtput, herror, hrequest, hkey⟩, hrequired⟩, hattempt⟩,
    hmax⟩, ⟨⟨hstatus, hattempt0⟩, hmax0⟩, hduration⟩ := hstorable
  have htexts := h.lineage_texts hparent hattach
  have hadopts := h.indexed.adopts hattach
  obtain ⟨parentRunID, rootRunID, rfl⟩ := Memory.attachLineage_ok hattach
  refine ⟨?_, ?_, ?_⟩
  · simpa [RunRow.encodes, Run.row, RunRow.ofRun, nullableString_all htexts.1,
      nullableString_all htexts.2, nullableString_all hkey, hid, hagent, hinput, houtput, herror,
      hrequest, hattempt, hmax] using hrequired
  · rw [RunRow.checks_iff]
    cases hadopts with
    | root _ hp hr =>
        rw [Run.row, hp, hr]
        exact ⟨hstatus, hattempt0, hmax0, hduration, le_rfl, nofun, nofun, rfl⟩
    | child _ hp hnamed hne hroot hroot_ne =>
        rw [Run.row, nullableString_of_ne (hp ▸ hnamed), nullableString_of_ne hroot, hp]
        exact ⟨hstatus, hattempt0, hmax0, hduration, le_rfl, fun h => hne (Option.some.inj h),
          fun h => hroot_ne (Option.some.inj h), rfl⟩
  · rw [Database.references, Bool.and_eq_true]
    cases hadopts with
    | root _ hp hr =>
        rw [Run.row, hp, hr]
        exact ⟨rfl, rfl⟩
    | child found hp hnamed _ hroot _ hwhich =>
        obtain ⟨rootRow, hrootRow⟩ := h.find_root found hroot hwhich
        obtain ⟨parentRow, hparentRow⟩ := h.find_some found
        rw [Run.row, nullableString_of_ne (hp ▸ hnamed), nullableString_of_ne hroot, hp]
        exact ⟨Option.isSome_iff_exists.mpr ⟨parentRow, hparentRow⟩,
          Option.isSome_iff_exists.mpr ⟨rootRow, hrootRow⟩⟩

theorem Database.insert_conflict (context : String) (hencodes : row.encodes = true)
    (hchecks : row.checks = true) (hconflict : db.conflicts row = true) :
    db.insert row true context = .ok (db, 0) := by
  rw [Database.insert, if_neg (by simp [hencodes, hchecks]), if_pos hconflict, if_pos rfl]

theorem Database.insert_new (doNothing : Bool) (context : String) (hencodes : row.encodes = true)
    (hchecks : row.checks = true) (hconflict : db.conflicts row = false)
    (hrefs : db.references row = true) :
    db.insert row doNothing context = .ok ({ db with runs := db.runs ++ [row] }, 1) := by
  rw [Database.insert, if_neg (by simp [hencodes, hchecks]), hconflict, if_neg (by decide),
    hrefs, if_neg (by decide)]

theorem Memory.createRun_bound {runID : String} (hbound : m.boundTo key = some runID) :
    m.createRun run key = .ok (m, Table.getD m.runs runID {}, false) := by
  rw [Memory.boundTo] at hbound
  rw [Memory.createRun, hbound]

theorem Memory.createRun_unbound (hbound : m.boundTo key = none) :
    m.createRun run key =
      (m.attachLineage run).map fun attached => (m.storeRun attached key, attached, true) := by
  rw [Memory.boundTo] at hbound
  rw [Memory.createRun, hbound]
  rcases m.attachLineage run with err | attached <;> rfl

/-- A key that is bound leads to the same Run in both stores. -/
theorem Mirrors.bound {runID : String} (h : Mirrors db m) (hbound : m.boundTo key = some runID) :
    key ≠ "" ∧ ∃ row, db.findKey key = some row ∧
      row.scan.seen = (Table.getD m.runs runID {}).seen := by
  have hkey : key ≠ "" := by
    rintro rfl
    cases hbound
  refine ⟨hkey, ?_⟩
  have hlookup := Memory.boundTo_eq_some hbound
  have hmap := h.keys key hkey
  rw [hlookup, Option.map_eq_some_iff] at hmap
  obtain ⟨row, hrow, hid⟩ := hmap
  have hfind : db.find runID = some row :=
    h.find_iff.mpr ⟨List.mem_of_find?_eq_some hrow, hid⟩
  rcases h.cases runID with ⟨hnone, -⟩ | ⟨row', run, hrow', hrun, hseen, -⟩
  · rw [hfind] at hnone
    cases hnone
  · obtain rfl := Option.some.inj (hfind.symm.trans hrow')
    exact ⟨row, hrow, by rw [Table.getD, hrun, Option.getD_some, hseen]⟩

/-- A new Run under an unbound key conflicts with no row. -/
theorem Mirrors.conflicts_false (h : Mirrors db m) (hnew : m.runs.lookup run.id = none)
    (hbound : m.boundTo key = none) : db.conflicts (run.row key) = false := by
  have hid : db.find run.id = none := h.find_none hnew
  rw [Database.conflicts, show (run.row key).id = run.id from rfl, hid, Option.isSome_none,
    Bool.false_or, show (run.row key).idempotencyKey = nullableString key from rfl]
  by_cases hkey : key = ""
  · rw [hkey]
    rfl
  · rw [nullableString_of_ne hkey, Option.any_some, h.findKey_none hbound hkey]
    rfl

/-- The stores after a creation. -/
theorem Mirrors.stored (h : Mirrors db m) (hstorable : run.storable key = true)
    (hattach : m.attachLineage run = .ok attached) (hnew : m.runs.lookup run.id = none)
    (hbound : m.boundTo key = none) (hindexed : (m.storeRun attached key).Indexed) :
    Mirrors { db with runs := db.runs ++ [attached.row key] } (m.storeRun attached key) := by
  obtain ⟨-, hchecks, hrefs⟩ := h.row_ok hstorable hattach
  have hid := Memory.attachLineage_id hattach
  have htext : isText attached.id = true := by
    simp only [Run.storable, List.all_append, List.all_cons, Bool.and_eq_true] at hstorable
    rw [hid]
    exact hstorable.1.1.1.1.1
  refine h.insert rfl (hid ▸ hnew) hbound rfl hchecks hrefs htext rfl ?_ rfl hindexed
  have hscan (value : String) : (nullableString value).getD "" = value := by
    rw [nullableString]
    split
    · rename_i hempty
      exact hempty.symm
    · rfl
  simp only [Run.seen, RunRow.scan, Run.row, RunRow.ofRun, hscan]

theorem Run.storable_parent (h : run.storable key = true) : isText run.parentRunID = true := by
  simp only [Run.storable, List.all_append, List.all_cons, Bool.and_eq_true] at h
  exact h.1.1.1.1.2.2.1

theorem Run.storable_key (h : run.storable key = true) : isText key = true := by
  simp only [Run.storable, List.all_append, List.all_cons, Bool.and_eq_true] at h
  exact h.1.1.1.1.2.2.2.2.2.2.2.1

/-- Both stores refuse a new Run for the same reason, or it passes the checks of both and is
inserted. -/
theorem Mirrors.insert_cases (h : Mirrors db m) (hstorable : run.storable key = true)
    (hnew : m.runs.lookup run.id = none) (hbound : m.boundTo key = none) (doNothing : Bool)
    (context : String) :
    (∃ err err', db.attachLineage run = .error err ∧ m.attachLineage run = .error err' ∧
      err.kind = err'.kind) ∨
    ∃ attached, db.attachLineage run = .ok attached ∧ m.attachLineage run = .ok attached ∧
      db.insert (attached.row key) doNothing context =
        .ok ({ db with runs := db.runs ++ [attached.row key] }, 1) := by
  have htext := Run.storable_parent hstorable
  rcases hattach : m.attachLineage run with err | attached
  · obtain ⟨err', hdb, hkind⟩ := h.attachLineage_error htext hattach
    exact .inl ⟨err', err, hdb, rfl, hkind⟩
  · obtain ⟨hencodes, hchecks, hrefs⟩ := h.row_ok hstorable hattach
    refine .inr ⟨attached, h.attachLineage_ok htext hattach, rfl, ?_⟩
    have hnew' : m.runs.lookup attached.id = none := Memory.attachLineage_id hattach ▸ hnew
    exact Database.insert_new doNothing context hencodes hchecks (h.conflicts_false hnew' hbound)
      hrefs

theorem Mirrors.createRun (h : Mirrors db m) (hok : portable m (.createRun run key) = true) :
    Matches (db.perform (.createRun run key)) (m.perform (.createRun run key)) := by
  have hindexed := h.indexed.perform (.createRun run key)
  rw [portable, Bool.and_eq_true] at hok
  obtain ⟨hstorable, hok⟩ := hok
  have htext := Run.storable_parent hstorable
  rw [Memory.perform] at hindexed ⊢
  rw [Database.perform, Database.createRun]
  rcases hbound : m.boundTo key with - | runID
  · -- the Run is new
    rw [hbound, Option.isSome_none, if_neg (by decide), Option.isNone_iff_eq_none] at hok
    rw [Memory.createRun_unbound hbound] at hindexed ⊢
    obtain ⟨err, err', hdb, hm, hkind⟩ | ⟨attached, hdb, hattach, hinsert⟩ :=
      h.insert_cases hstorable hok hbound true "insert run: "
    · rw [hdb, hm]
      exact ⟨h, congrArg Seen.failed hkind⟩
    · rw [hattach] at hindexed ⊢
      rw [Run.row] at hinsert
      rw [hdb]
      simp only [hinsert, if_true]
      exact ⟨h.stored hstorable hattach hok hbound hindexed, rfl⟩
  · -- the key is bound
    rw [hbound, Option.isSome_some, if_pos rfl] at hok
    rcases hattach : m.attachLineage run with err | attached
    · rw [hattach] at hok
      cases hok
    · obtain ⟨hkey, row, hrow, hseen⟩ := h.bound hbound
      obtain ⟨hencodes, hchecks, -⟩ := h.row_ok hstorable hattach
      have hconflict : db.conflicts (attached.row key) = true := by
        rw [Database.conflicts,
          show (attached.row key).idempotencyKey = nullableString key from rfl,
          nullableString_of_ne hkey, Option.any_some, hrow, Option.isSome_some, Bool.or_true]
      have hinsert := Database.insert_conflict "insert run: " hencodes hchecks hconflict
      rw [Run.row] at hinsert
      rw [h.attachLineage_ok htext hattach, Memory.createRun_bound hbound]
      simp only [hinsert, hkey, hrow, if_false, zero_ne_one]
      exact ⟨h, congrArg (Seen.created · false) hseen⟩

/-- With the parent at hand the lineage checks are those of `CreateRun`. -/
theorem Database.insertChild_eq {parentRow : RunRow} (hne : run.parentRunID ≠ "")
    (htext : isText run.parentRunID = true) (hrow : db.find run.parentRunID = some parentRow) :
    db.insertChild run parentRow.scan key =
      match db.attachLineage run with
      | .error err => .error err
      | .ok attached =>
          match db.insert (RunRow.ofRun attached (some attached.parentRunID)
              (some attached.rootRunID) key) false "insert child Run: " with
          | .error err => .error err
          | .ok (db', _) => .ok (db', attached, true) := by
  rw [Database.insertChild, Database.attachLineage, if_neg hne, Database.getRun, htext,
    if_neg (by decide), hrow]
  rcases hattach : run.attachTo parentRow.scan with err | attached
  · simp only [hattach]
  · simp only [hattach]
    split <;> rfl

/-- A child is inserted with the row that `CreateRun` would insert. -/
theorem Memory.Adopts.child_row (h : m.Adopts run attached) (hne : run.parentRunID ≠ "") :
    RunRow.ofRun attached (some attached.parentRunID) (some attached.rootRunID) key =
      attached.row key := by
  cases h with
  | root named => exact absurd named hne
  | child _ hp _ _ hroot =>
      rw [Run.row, nullableString_of_ne (hp ▸ hne), nullableString_of_ne hroot]

theorem Mirrors.createChildRun {maxChildren : Int} (h : Mirrors db m)
    (hok : portable m (.createChildRun run key maxChildren) = true) :
    Matches (db.perform (.createChildRun run key maxChildren))
      (m.perform (.createChildRun run key maxChildren)) := by
  have hindexed := h.indexed.perform (.createChildRun run key maxChildren)
  rw [portable, Bool.and_eq_true] at hok
  obtain ⟨hstorable, hok⟩ := hok
  have htext := Run.storable_parent hstorable
  rw [Memory.perform, Memory.createChildRun] at hindexed ⊢
  rw [Database.perform, Database.createChildRun]
  by_cases hne : run.parentRunID = ""
  · rw [if_pos hne, if_pos hne]
    exact ⟨h, rfl⟩
  rw [if_neg hne] at hindexed ⊢
  rw [if_neg hne, htext, if_neg (by decide)]
  rcases hbound : m.boundTo key with - | runID
  · rw [hbound, Option.isSome_none, if_neg (by decide), Option.isNone_iff_eq_none] at hok
    have hcase : (if key ≠ "" then m.idempotencyKeys.lookup key else none) = none := hbound
    rw [hcase] at hindexed ⊢
    rcases h.cases run.parentRunID with ⟨hrow, hrun⟩ | ⟨row, parent, hrow, hrun, hseen, -⟩
    · rw [hrow, hrun]
      exact ⟨h, rfl⟩
    · have hchild : db.idempotentChild key = .ok none := by
        rw [Database.idempotentChild]
        split
        · rfl
        · rename_i hkey
          rw [Run.storable_key hstorable, if_neg (by decide), h.findKey_none hbound hkey]
          rfl
      rw [hrun] at hindexed ⊢
      rw [hrow, hchild]
      simp only [h.children run.parentRunID hne]
      by_cases hlimit : 0 < maxChildren ∧ maxChildren ≤ m.childCount run.parentRunID
      · simp only [hlimit, if_true, and_self]
        exact ⟨h, rfl⟩
      · simp only [hlimit, if_false] at hindexed ⊢
        rw [Database.insertChild_eq hne htext hrow]
        rw [Memory.createRun_unbound hbound] at hindexed ⊢
        obtain ⟨err, err', hdb, hm, hkind⟩ | ⟨attached, hdb, hattach, hinsert⟩ :=
          h.insert_cases hstorable hok hbound false "insert child Run: "
        · rw [hdb, hm]
          exact ⟨h, congrArg Seen.failed hkind⟩
        · rw [hattach] at hindexed ⊢
          rw [hdb]
          simp only [(h.indexed.adopts hattach).child_row hne, hinsert]
          exact ⟨h.stored hstorable hattach hok hbound hindexed, rfl⟩
  · rw [hbound, Option.isSome_some, if_pos rfl, decide_eq_false hne, Bool.false_or] at hok
    have hcase : (if key ≠ "" then m.idempotencyKeys.lookup key else none) = some runID := hbound
    obtain ⟨hkey, row, hkeyRow, hseen⟩ := h.bound hbound
    have hchild : db.idempotentChild key = .ok (some row.scan) := by
      rw [Database.idempotentChild, if_neg hkey, Run.storable_key hstorable, if_neg (by decide),
        hkeyRow]
      rfl
    rcases h.cases run.parentRunID with ⟨-, hrun⟩ | ⟨parentRow, parent, hrow, -⟩
    · rw [hrun] at hok
      cases hok
    · rw [hcase, hrow, hchild]
      exact ⟨h, congrArg (Seen.created · false) hseen⟩

theorem Mirrors.perform {op : RunOp} (h : Mirrors db m) (hok : portable m op = true) :
    Matches (db.perform op) (m.perform op) := by
  cases op with
  | getRun id => exact h.getRun hok
  | createRun run key => exact h.createRun hok
  | createChildRun run key maxChildren => exact h.createChildRun hok
  | updateRun run => exact h.updateRun hok
  | claimRunExecution id minimumFence => exact h.claimRunExecution hok
  | updateRunFenced run fence => exact h.updateRunFenced hok
  | cancelRun id at_ => exact h.cancelRun hok
  | recoverRun id minimumFence => exact h.recoverRun hok

theorem Mirrors.seenResults {ops : List RunOp} (h : Mirrors db m) (hok : allPortable m ops = true) :
    db.seenResults ops = m.seenResults ops := by
  induction ops generalizing db m with
  | nil => rfl
  | cons op rest ih =>
      rw [allPortable, Bool.and_eq_true] at hok
      obtain ⟨hmirrors, hseen⟩ := h.perform hok.1
      rw [Database.seenResults, Memory.seenResults, hseen, ih hmirrors hok.2]

end Creations

/-- **Memory and PostgreSQL agree on the Run lifecycle**: every sequence of operations that are
portable in the states they find has the same results in both. -/
theorem backends_agree {ops : List RunOp} (hok : allPortable {} ops = true) :
    Database.seenResults {} ops = Memory.seenResults {} ops :=
  Mirrors.init.seenResults hok

def parityRun (id : String) : Run :=
  { id := id, agentID := "agent_1", input := "text", status := .queued, maxAttempts := 3 }

/-- A Run and its child are created, asked for again, executed, recovered and canceled. -/
def executeAndCancel : List RunOp :=
  [.createRun (parityRun "run_1") "key", .createRun (parityRun "run_2") "key",
    .createChildRun { parityRun "run_3" with parentRunID := "run_1" } "" 1,
    .createChildRun { parityRun "run_4" with parentRunID := "run_1" } "" 1,
    .claimRunExecution "run_1" 7,
    .updateRunFenced { parityRun "run_1" with status := .running, attempt := 1 } 7,
    .updateRun (parityRun "run_1"), .recoverRun "run_1" 0, .cancelRun "run_1" 5000,
    .claimRunExecution "run_1" 0, .getRun "run_3"]

theorem backends_agree_execution :
    allPortable {} executeAndCancel = true ∧
      Database.seenResults {} executeAndCancel = Memory.seenResults {} executeAndCancel := by
  have hok : allPortable {} executeAndCancel = true := by decide
  exact ⟨hok, backends_agree hok⟩

/-- An update with another Agent and another input. -/
def reassign : List RunOp :=
  [.createRun (parityRun "run_1") "",
    .updateRun { parityRun "run_1" with agentID := "agent_2", input := "other" }, .getRun "run_1"]

/-- A second Run with the same ID, a fenced write of a Run that was not claimed, a claim at the end
of the range, a bound key with a missing parent or a wrong root, a Run without attempts, and an ID
that is no text. -/
def divergent : List (List RunOp) :=
  [[.createRun (parityRun "run_1") "", .createRun (parityRun "run_1") ""],
    [.createRun (parityRun "run_1") "", .updateRunFenced (parityRun "run_1") 0],
    [.createRun (parityRun "run_1") "", .claimRunExecution "run_1" maxBigint,
      .claimRunExecution "run_1" 0],
    [.createRun (parityRun "run_1") "key",
      .createChildRun { parityRun "run_2" with parentRunID := "run_9" } "key" 0],
    [.createRun (parityRun "run_1") "key",
      .createRun { parityRun "run_2" with rootRunID := "run_1" } "key"],
    [.createRun { parityRun "run_1" with maxAttempts := 0 } ""],
    [.getRun "\x00"]]

/-- The database keeps the Agent and the input of the Run, and the stores differ in other ways. -/
theorem backends_differ :
    (Database.seenResults {} reassign).getLast? =
        some (.got ⟨"run_1", "agent_1", "", "", "text", .queued, 0⟩) ∧
      (Memory.seenResults {} reassign).getLast? =
        some (.got ⟨"run_1", "agent_2", "", "", "other", .queued, 0⟩) ∧
      ∀ ops ∈ divergent, Database.seenResults {} ops ≠ Memory.seenResults {} ops := by
  decide

end AgentMesh
