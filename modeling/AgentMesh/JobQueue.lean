/-
AgentMesh/JobQueue.lean

The in-memory queue, `internal/queue/memory.go`: `Enqueue` and the workers of
`Consume`, for a context that is not canceled.

The channel is a buffer of at most `size` Run IDs and the workers that wait for
one, in the order in which they came.  A send that finds a waiting worker hands
the ID to it; otherwise the ID goes into the buffer; and where there is no room
`Enqueue` returns `ErrFull`, for it never blocks.  So an unbuffered queue takes
an ID only for a worker that is waiting.

A worker whose handler fails waits for a while and calls `Enqueue` itself.  If
producers have filled the channel in the meantime the Run is dropped, with a
line in the log.  The history of the machine tells where every accepted ID has
gone: `conserved` is the balance of the channel, the workers, the completed Runs
and the dropped ones, in every run, and nothing is dropped as long as no worker
puts a Run back into a full channel.
-/
import AgentMesh.Run
import AgentMesh.Pointwise
import AgentMesh.Machine

namespace AgentMesh

open Machine

/-! ### The queue and its workers -/

/-- Where a worker of `Consume` is. -/
inductive QueueWorker
  /-- Before its `select`. -/
  | ready
  /-- Blocked in its `select`. -/
  | waiting
  /-- In the handler. -/
  | handling (runID : String)
  /-- The handler has failed; before the second `Enqueue`. -/
  | pausing (runID : String)
  deriving DecidableEq, Repr

/-- What the worker holds. -/
def QueueWorker.carried : QueueWorker → List String
  | .ready | .waiting => []
  | .handling runID | .pausing runID => [runID]

/-- `queue.Memory` with the workers that consume from it. -/
structure JobQueue where
  size : Nat
  /-- The buffer of the channel. -/
  jobs : List String := []
  /-- The workers that wait for the channel, first come first. -/
  receivers : List Nat := []
  workers : List QueueWorker
  /-- The calls of `Enqueue` by producers that returned `nil`. -/
  accepted : List String := []
  /-- The calls of the handler that returned `nil`. -/
  completed : List String := []
  /-- The Runs that could not be put back. -/
  dropped : List String := []

def newQueue (size workers : Nat) : JobQueue :=
  { size, workers := List.replicate workers .ready }

/-- What the workers hold. -/
def JobQueue.held (q : JobQueue) : List String :=
  q.workers.flatMap QueueWorker.carried

/-- A send on the channel that does not block. -/
def JobQueue.send (q : JobQueue) (runID : String) : Option JobQueue :=
  match q.receivers with
  | w :: receivers => some { q with receivers, workers := q.workers.set w (.handling runID) }
  | [] => if q.jobs.length < q.size then some { q with jobs := q.jobs ++ [runID] } else none

/-- `done` says that the context is done and the `select` takes this case; it chooses between
the cases that are ready. -/
def JobQueue.enqueue (q : JobQueue) (done : Bool) (runID : String) : JobQueue × Option Err :=
  if done then (q, some Sentinel.contextCanceled.err)
  else
    match q.send runID with
    | some q => (q, none)
    | none => (q, some Sentinel.queueFull.err)

inductive QueueAction
  /-- A producer. -/
  | enqueue (done : Bool) (runID : String)
  /-- A worker comes to its `select`. -/
  | receive (worker : Nat)
  /-- The handler of a worker returns. -/
  | handled (worker : Nat) (err : Option Err)
  /-- The pause is over. -/
  | requeue (worker : Nat)

def JobQueue.step (q : JobQueue) : QueueAction → Option JobQueue
  | .enqueue done runID =>
      match q.enqueue done runID with
      | (q, none) => some { q with accepted := q.accepted ++ [runID] }
      | (q, some _) => some q
  | .receive w =>
      match q.workers[w]? with
      | some .ready =>
          match q.jobs with
          | runID :: jobs => some { q with jobs, workers := q.workers.set w (.handling runID) }
          | [] =>
              some { q with
                receivers := q.receivers ++ [w]
                workers := q.workers.set w .waiting }
      | _ => none
  | .handled w err =>
      match q.workers[w]? with
      | some (.handling runID) =>
          match err with
          | none =>
              some { q with
                workers := q.workers.set w .ready
                completed := q.completed ++ [runID] }
          | some _ => some { q with workers := q.workers.set w (.pausing runID) }
      | _ => none
  | .requeue w =>
      match q.workers[w]? with
      | some (.pausing runID) =>
          match { q with workers := q.workers.set w .ready }.enqueue false runID with
          | (q, none) => some q
          | (q, some _) => some { q with dropped := q.dropped ++ [runID] }
      | _ => none

/-- A worker that puts a Run back finds a waiting worker or room in the buffer. -/
def FindsRoom (q : JobQueue) : QueueAction → Prop
  | .requeue _ => q.receivers ≠ [] ∨ q.jobs.length < q.size
  | _ => True

instance (q : JobQueue) (a : QueueAction) : Decidable (FindsRoom q a) :=
  match a with
  | .requeue _ => inferInstanceAs (Decidable (_ ∨ _))
  | .enqueue _ _ | .receive _ | .handled _ _ => .isTrue trivial

/-! ### The balance -/

/-- The waiting workers are those the channel knows of. -/
structure JobQueue.Parked (q : JobQueue) : Prop where
  once : q.receivers.Nodup
  waiting : ∀ w ∈ q.receivers, q.workers[w]? = some .waiting

/-- How often an ID is in the channel or with a worker. -/
def JobQueue.pending (q : JobQueue) (id : String) : Nat :=
  q.jobs.count id + q.held.count id

section Workers

variable {q q' : JobQueue} {w : Nat} {a : QueueWorker} {id runID : String}

/-- A worker that changes its state gives up what it held. -/
theorem count_held_set {workers : List QueueWorker} (h : workers[w]? = some a) (b : QueueWorker)
    (id : String) :
    ((workers.set w b).flatMap QueueWorker.carried).count id + a.carried.count id =
      (workers.flatMap QueueWorker.carried).count id + b.carried.count id := by
  induction workers generalizing w with
  | nil => simp at h
  | cons x rest ih =>
      cases w with
      | zero =>
          obtain rfl : x = a := by simpa using h
          simp only [List.set_cons_zero, List.flatMap_cons, List.count_append]
          omega
      | succ w =>
          have hrest := ih (by simpa using h)
          simp only [List.set_cons_succ, List.flatMap_cons, List.count_append]
          omega

theorem JobQueue.Parked.setWorker (h : q.Parked) (hw : q.workers[w]? = some a)
    (ha : a ≠ .waiting) (b : QueueWorker) : { q with workers := q.workers.set w b }.Parked where
  once := h.once
  waiting := by
    intro v hv
    have hwaiting := h.waiting v hv
    rw [List.getElem?_set_ne]
    · exact hwaiting
    · rintro rfl
      exact ha (Option.some.inj (hw.symm.trans hwaiting))

theorem JobQueue.Parked.not_mem (h : q.Parked) (hw : q.workers[w]? = some a)
    (ha : a ≠ .waiting) : w ∉ q.receivers :=
  fun hmem => ha (Option.some.inj (hw.symm.trans (h.waiting w hmem)))

theorem JobQueue.Parked.park (h : q.Parked) (hw : q.workers[w]? = some .ready) :
    { q with receivers := q.receivers ++ [w], workers := q.workers.set w .waiting }.Parked where
  once := by
    refine List.nodup_append.mpr ⟨h.once, List.nodup_singleton w, ?_⟩
    rintro v hv v' hv' rfl
    rw [List.mem_singleton.mp hv'] at hv
    exact h.not_mem hw (by simp) hv
  waiting := by
    intro v hv
    rcases List.mem_append.mp hv with hv | hv
    · exact (h.setWorker hw (by simp) .waiting).waiting v hv
    · rw [List.mem_singleton.mp hv]
      exact List.getElem?_set_self (List.getElem?_eq_some_iff.mp hw).1

/-- What is sent is in the buffer or with the worker that was waiting for it. -/
theorem JobQueue.Parked.send (h : q.Parked) (hsend : q.send runID = some q') :
    q'.Parked ∧ (∀ id, q'.pending id = q.pending id + [runID].count id) ∧
      q'.accepted = q.accepted ∧ q'.completed = q.completed ∧ q'.dropped = q.dropped := by
  rw [JobQueue.send] at hsend
  split at hsend
  · rename_i w receivers hreceivers
    obtain rfl := Option.some.inj hsend
    have hw := h.waiting w (by simp [hreceivers])
    have hnodup := List.nodup_cons.mp (hreceivers ▸ h.once)
    refine ⟨⟨hnodup.2, ?_⟩, ?_, rfl, rfl, rfl⟩
    · intro v hv
      rw [List.getElem?_set_ne]
      · exact h.waiting v (by simp [hreceivers, hv])
      · rintro rfl
        exact hnodup.1 hv
    · intro id
      have hheld := count_held_set hw (.handling runID) id
      simp only [QueueWorker.carried, List.count_nil] at hheld
      simp only [JobQueue.pending, JobQueue.held]
      omega
  · split at hsend
    · obtain rfl := Option.some.inj hsend
      refine ⟨⟨h.once, h.waiting⟩, ?_, rfl, rfl, rfl⟩
      intro id
      simp only [JobQueue.pending, JobQueue.held, List.count_append]
      omega
    · cases hsend

end Workers

/-- What every reachable state has: the waiting workers are known to the channel, and every
accepted ID is somewhere. -/
structure JobQueue.Balanced (q : JobQueue) : Prop where
  parked : q.Parked
  conserved : ∀ id, q.accepted.count id =
    q.pending id + q.completed.count id + q.dropped.count id

section Steps

variable {q q' : JobQueue} {w : Nat} {a : QueueWorker} {runID : String}

theorem JobQueue.Balanced.start (size workers : Nat) : (newQueue size workers).Balanced where
  parked := ⟨List.nodup_nil, by simp [newQueue]⟩
  conserved := by
    intro id
    have hheld : (newQueue size workers).held = [] := by
      refine List.flatMap_eq_nil_iff.mpr ?_
      intro x hx
      rw [List.eq_of_mem_replicate hx]
      rfl
    rw [JobQueue.pending, hheld]
    rfl

theorem JobQueue.Balanced.enqueue (h : q.Balanced) {done : Bool}
    (hstep : q.step (.enqueue done runID) = some q') : q'.Balanced := by
  simp only [JobQueue.step, JobQueue.enqueue] at hstep
  cases done with
  | true => exact Option.some.inj hstep ▸ h
  | false =>
      rcases hsend : q.send runID with - | q₁
      · simp only [hsend] at hstep
        exact Option.some.inj hstep ▸ h
      · simp only [hsend, Bool.false_eq_true, if_false] at hstep
        obtain ⟨hparked, hpending, haccepted, hcompleted, hdropped⟩ := h.parked.send hsend
        rw [← Option.some.inj hstep]
        refine ⟨⟨hparked.once, hparked.waiting⟩, ?_⟩
        intro id
        have hbefore := h.conserved id
        have hnow := hpending id
        simp only [JobQueue.pending, JobQueue.held] at hbefore hnow ⊢
        rw [haccepted, hcompleted, hdropped, List.count_append]
        omega

theorem JobQueue.Balanced.receive (h : q.Balanced) (hstep : q.step (.receive w) = some q') :
    q'.Balanced := by
  simp only [JobQueue.step] at hstep
  split at hstep
  case h_2 => cases hstep
  rename_i hw
  split at hstep
  · rename_i runID jobs hjobs
    rw [← Option.some.inj hstep]
    have hparked := h.parked.setWorker hw (by simp) (.handling runID)
    refine ⟨⟨hparked.once, hparked.waiting⟩, ?_⟩
    intro id
    have hbefore := h.conserved id
    have hheld := count_held_set hw (.handling runID) id
    have hcount : q.jobs.count id = jobs.count id + [runID].count id := by
      rw [hjobs, ← List.singleton_append, List.count_append, Nat.add_comm]
    simp only [QueueWorker.carried, List.count_nil] at hheld
    simp only [JobQueue.pending, JobQueue.held] at hbefore ⊢
    omega
  · rw [← Option.some.inj hstep]
    refine ⟨h.parked.park hw, ?_⟩
    intro id
    have hbefore := h.conserved id
    have hheld := count_held_set hw .waiting id
    simp only [QueueWorker.carried, List.count_nil] at hheld
    simp only [JobQueue.pending, JobQueue.held] at hbefore ⊢
    omega

theorem JobQueue.Balanced.handled (h : q.Balanced) {err : Option Err}
    (hstep : q.step (.handled w err) = some q') : q'.Balanced := by
  simp only [JobQueue.step] at hstep
  split at hstep
  case h_2 => cases hstep
  rename_i runID hw
  cases err with
  | none =>
      rw [← Option.some.inj hstep]
      have hparked := h.parked.setWorker hw (by simp) .ready
      refine ⟨⟨hparked.once, hparked.waiting⟩, ?_⟩
      intro id
      have hbefore := h.conserved id
      have hheld := count_held_set hw .ready id
      simp only [QueueWorker.carried, List.count_nil] at hheld
      simp only [JobQueue.pending, JobQueue.held, List.count_append] at hbefore ⊢
      omega
  | some err =>
      rw [← Option.some.inj hstep]
      refine ⟨h.parked.setWorker hw (by simp) (.pausing runID), ?_⟩
      intro id
      have hbefore := h.conserved id
      have hheld := count_held_set hw (.pausing runID) id
      simp only [QueueWorker.carried] at hheld
      simp only [JobQueue.pending, JobQueue.held] at hbefore ⊢
      omega

/-- What a worker puts back is sent or dropped. -/
theorem JobQueue.step_requeue (hstep : q.step (.requeue w) = some q') :
    ∃ runID, q.workers[w]? = some (.pausing runID) ∧
      ({ q with workers := q.workers.set w .ready }.send runID = some q' ∨
        q.receivers = [] ∧ q.size ≤ q.jobs.length ∧
          q' = { q with
            workers := q.workers.set w .ready
            dropped := q.dropped ++ [runID] }) := by
  simp only [JobQueue.step] at hstep
  split at hstep
  case h_2 => cases hstep
  rename_i runID hw
  refine ⟨runID, hw, ?_⟩
  rcases hsend : { q with workers := q.workers.set w .ready }.send runID with - | q₁
  · simp only [JobQueue.enqueue, hsend, Bool.false_eq_true, if_false] at hstep
    refine .inr ?_
    simp only [JobQueue.send] at hsend
    split at hsend
    · cases hsend
    · split at hsend
      · cases hsend
      · exact ⟨‹_›, not_lt.mp ‹_›, (Option.some.inj hstep).symm⟩
  · simp only [JobQueue.enqueue, hsend, Bool.false_eq_true, if_false] at hstep
    exact .inl (hsend.trans (congrArg some (Option.some.inj hstep)))

theorem JobQueue.Balanced.requeue (h : q.Balanced) (hstep : q.step (.requeue w) = some q') :
    q'.Balanced := by
  obtain ⟨runID, hw, hcase⟩ := JobQueue.step_requeue hstep
  have hparked := h.parked.setWorker hw (by simp) .ready
  have hheld (id : String) := count_held_set hw .ready id
  simp only [QueueWorker.carried, List.count_nil] at hheld
  rcases hcase with hsend | ⟨-, -, rfl⟩
  · obtain ⟨hparked', hpending, haccepted, hcompleted, hdropped⟩ := hparked.send hsend
    refine ⟨hparked', ?_⟩
    intro id
    have hbefore := h.conserved id
    have hgone := hheld id
    have hnow := hpending id
    simp only [JobQueue.pending, JobQueue.held] at hbefore hnow ⊢
    simp only [haccepted, hcompleted, hdropped]
    omega
  · refine ⟨⟨hparked.once, hparked.waiting⟩, ?_⟩
    intro id
    have hbefore := h.conserved id
    have hgone := hheld id
    simp only [JobQueue.pending, JobQueue.held, List.count_append] at hbefore ⊢
    omega

theorem JobQueue.Balanced.step (h : q.Balanced) {a : QueueAction} (hstep : q.step a = some q') :
    q'.Balanced := by
  cases a with
  | enqueue done runID => exact h.enqueue hstep
  | receive w => exact h.receive hstep
  | handled w err => exact h.handled hstep
  | requeue w => exact h.requeue hstep

/-- Every accepted ID is in the channel, with a worker, completed or dropped, as often as it was
accepted. -/
theorem JobQueue.balanced_of_runs {size workers : Nat} {P : JobQueue → QueueAction → Prop}
    (h : Runs JobQueue.step P (newQueue size workers) q) : q.Balanced :=
  h.invariant (.start size workers) fun hq _ hstep => hq.step hstep

/-- Only a worker that finds no room drops a Run. -/
theorem JobQueue.step_dropped {a : QueueAction} (hroom : FindsRoom q a)
    (hparked : q.Parked) (hstep : q.step a = some q') : q'.dropped = q.dropped := by
  cases a with
  | enqueue done runID =>
      simp only [JobQueue.step, JobQueue.enqueue] at hstep
      cases done with
      | true => rw [← Option.some.inj hstep]
      | false =>
          rcases hsend : q.send runID with - | q₁
          · simp only [hsend] at hstep
            rw [← Option.some.inj hstep]
          · simp only [hsend, Bool.false_eq_true, if_false] at hstep
            rw [← Option.some.inj hstep]
            exact (hparked.send hsend).2.2.2.2
  | receive w =>
      simp only [JobQueue.step] at hstep
      repeat' split at hstep
      all_goals cases hstep
      all_goals rfl
  | handled w err =>
      simp only [JobQueue.step] at hstep
      repeat' split at hstep
      all_goals cases hstep
      all_goals rfl
  | requeue w =>
      obtain ⟨runID, hw, hsend | ⟨hempty, hfull, -⟩⟩ := JobQueue.step_requeue hstep
      · exact ((hparked.setWorker hw (by simp) .ready).send hsend).2.2.2.2
      · rcases hroom with hwaiting | hroom
        · exact absurd hempty hwaiting
        · omega

end Steps

/-- **The queue loses no work if Runs are put back only where there is room.**  Then every ID that
`Enqueue` accepted is in the channel, held by a worker or completed, as often as it was
accepted. -/
theorem queue_keeps_work {size workers : Nat} {q : JobQueue}
    (h : Runs JobQueue.step FindsRoom (newQueue size workers) q) :
    q.accepted.Perm (q.jobs ++ q.held ++ q.completed) ∧
    ∀ id ∈ q.accepted, id ∈ q.jobs ∨ id ∈ q.held ∨ id ∈ q.completed := by
  have hdropped : q.Balanced ∧ q.dropped = [] :=
    h.invariant (I := fun q => q.Balanced ∧ q.dropped = []) ⟨.start size workers, rfl⟩
      fun hq hroom hstep =>
        ⟨hq.1.step hstep, (JobQueue.step_dropped hroom hq.1.parked hstep).trans hq.2⟩
  have hperm : q.accepted.Perm (q.jobs ++ q.held ++ q.completed) := by
    refine List.perm_iff_count.mpr fun id => ?_
    have hcount := hdropped.1.conserved id
    rw [hdropped.2, List.count_nil, JobQueue.pending] at hcount
    rw [hcount, List.count_append, List.count_append]
    omega
  refine ⟨hperm, fun id hid => ?_⟩
  have hmem := hperm.mem_iff.mp hid
  rwa [List.mem_append, List.mem_append, or_assoc] at hmem

/-- A failed Run is put back, and completed the second time. -/
theorem queue_keeps_work_retry :
    ∃ q, Runs JobQueue.step FindsRoom (newQueue 1 1) q ∧ q.completed = ["r1"] ∧
      q.accepted.Perm (q.jobs ++ q.held ++ q.completed) := by
  obtain ⟨q, hexec, hq⟩ : ∃ q, exec (guarded JobQueue.step fun q a => FindsRoom q a) (newQueue 1 1)
      [.enqueue false "r1", .receive 0, .handled 0 (some (errorf "store is down")), .requeue 0,
        .receive 0, .handled 0 none, .enqueue false "r2"] = some q ∧ q.completed = ["r1"] := by
    refine exists_of_any ?_
    decide
  have hruns : Runs JobQueue.step FindsRoom (newQueue 1 1) q :=
    runs_exec_guarded (fun _ _ hroom => of_decide_eq_true hroom) hexec
  exact ⟨q, hruns, hq, (queue_keeps_work hruns).1⟩

/-- A producer fills the queue while a failed Run waits to be put back, and the Run is gone. -/
theorem queue_drops_failed_run :
    ∃ q, exec JobQueue.step (newQueue 1 1)
        [.enqueue false "r1", .receive 0, .handled 0 (some (errorf "store is down")),
          .enqueue false "r2", .requeue 0] = some q ∧
      "r1" ∈ q.accepted ∧ "r1" ∉ q.jobs ∧ "r1" ∉ q.held ∧ "r1" ∉ q.completed := by
  refine exists_of_any ?_
  decide

end AgentMesh
