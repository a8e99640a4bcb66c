/-
AgentMesh/Recovery.lean

What `Engine.Recover` leaves behind in distributed mode.

`Recover` enqueues every Run that it finds queued.  The stream drops the
publication if it has stored the message of the Run within the duplicate
window, and reports success; this is harmless as long as that message is not
acknowledged before the Run has ended.  It is, when `execute` takes a shutdown
for a canceled Run (`Worker.MistakesShutdown`): a restart within the window then
leaves the Run queued without a message (`restart_strands_run`).

In every run without that mistake a Run that `Recover` has found and that is
still queued has a message that will be delivered (`recover_strands_nothing`).
The invariant is that a Run is published before it is ever started, and that a
message is acknowledged only when its Run has ended.
-/
import AgentMesh.Acknowledge
import AgentMesh.Cluster

namespace AgentMesh

open Machine

/-! ### Who starts a Run -/

theorem ExecPc.about_of_hold {pc : ExecPc} {x : Hold} (h : pc.hold = some x) :
    pc.about = some x.runID := by
  cases pc <;> simp only [ExecPc.hold, Option.some.injEq, reduceCtorEq] at h
  all_goals
    subst h
    rfl

section Started

variable {s t : State} {a : Action} {m m' : Memory} {id : String} {run : Run}

/-- The stored Run is running. -/
def Memory.Running (m : Memory) (id : String) : Prop :=
  ∃ run, m.runs.lookup id = some run ∧ run.status = .running

theorem Memory.Running.of_runs (h : m'.Running id) (hruns : m'.runs = m.runs) : m.Running id := by
  rwa [Memory.Running, hruns] at h

/-- A stored record that is not running starts no Run. -/
theorem Memory.Running.of_put (h : m'.Running id) {k : String}
    (hruns : m'.runs = m.runs.insert k run) (hs : run.status ≠ .running) : m.Running id := by
  obtain ⟨run', hlookup, hrunning⟩ := h
  rw [hruns, Table.lookup_insert_eq] at hlookup
  split at hlookup
  · obtain rfl := Option.some.inj hlookup
    exact absurd hrunning hs
  · exact ⟨run', hlookup, hrunning⟩

theorem Memory.Running.of_cancel {now : Time} (h : m'.Running id) {k : String}
    (hcancel : m.cancelRun k now = .ok (m', run)) : m.Running id := by
  obtain ⟨existing, -, hc, rfl⟩ := Memory.cancelRun_ok hcancel
  obtain ⟨-, rfl⟩ := Run.cancel_ok hc
  exact h.of_put rfl (by simp)

theorem Memory.Running.of_create {key : String} {run' : Run} (h : m'.Running id)
    (hcreate : m.createRun run key = .ok (m', run', true)) (hs : run.status = .queued) :
    m.Running id := by
  obtain ⟨hfalse, -⟩ | ⟨-, -, rfl, p, r, rfl⟩ := Memory.createRun_ok hcreate
  · cases hfalse
  · refine h.of_put rfl ?_
    simp [hs]

/-- A call of `execute` writes only to its own Run. -/
theorem Worker.Move.running {w : Worker} {pc : ExecPc} {e : Effect} (hmove : w.Move m pc e)
    (h : e.store.Running id) : m.Running id ∨ w.pc.about = some id := by
  -- a write to another Run
  have hwrite : ∀ {run : Run} {f : Int}, m.updateRunFenced run f = .ok e.store →
      w.pc.about = some run.id → m.Running id ∨ w.pc.about = some id := by
    intro run f hstore habout
    obtain ⟨existing, -, -, -, -, hm⟩ := Memory.updateRunFenced_ok hstore
    obtain ⟨run', hlookup, hrunning⟩ := h
    rw [hm, Table.lookup_insert_eq] at hlookup
    split at hlookup
    · rename_i hid
      exact .inr (hid ▸ habout)
    · exact .inl ⟨run', hlookup, hrunning⟩
  cases hmove with
  | silent store => exact .inl (store ▸ h)
  | claim _ store =>
      obtain ⟨-, -, -, -, hm⟩ := Memory.claimRunExecution_ok store
      exact .inl (h.of_runs (by rw [hm]))
  | reload _ _ store => exact .inl (store ▸ h)
  | enter _ _ _ store => exact .inl (store ▸ h)
  | @attempt run run' f now _ hpc hnext store =>
      obtain ⟨-, -, -, -, -, hreq⟩ := Run.nextAttempt_ok hnext
      refine hwrite store ?_
      rw [hpc, hreq.id]
      rfl
  | invoke _ store => exact .inl (store ▸ h)
  | @finish _ run run' f _ hold _ advance store =>
      refine hwrite store ?_
      rw [ExecPc.about_of_hold hold, advance.sameRequest.id]

/-- Only a call of `execute` starts a Run: the one that it is about. -/
theorem running_of_step (ha : step s a = some t) (h : t.store.Running id) :
    s.store.Running id ∨ ∃ w, (s.workers w).pc.about = some id := by
  cases systemMove_of_step ha with
  | other runs => exact .inl (h.of_runs runs.runs)
  | worker | request | called => exact .inl h
  | @worked w _ _ _ _ act => exact ((Worker.execute_move act).running h).imp_right fun hw => ⟨w, hw⟩
  | handled _ move =>
      refine .inl ?_
      cases move with
      | silent store => exact h.of_runs (by rw [← store]; rfl)
      | create draft store => exact Memory.Running.of_create h store draft.new.2.1
      | fail _ hfail store =>
          obtain ⟨existing, -, -, -, hm⟩ := Memory.updateRun_ok store
          obtain ⟨-, err, -, rfl⟩ := Run.fail_ok hfail
          exact Memory.Running.of_put h (congrArg Memory.runs hm) (by simp [Memory.keepLineage])
  | managed _ act =>
      refine .inl ?_
      cases Manager.act_move act with
      | silent runs => exact h.of_runs runs.runs
      | cancel store => exact Memory.Running.of_cancel h store
      | create _ _ store => exact Memory.Running.of_create h store rfl
  | created create =>
      obtain ⟨-, -, rfl⟩ := Memory.createWorkflow_ok create
      exact .inl h
  | canceled cancel => exact .inl (Memory.Running.of_cancel h cancel)
  | recovered _ recover =>
      refine .inl ?_
      obtain ⟨hfalse, -⟩ | ⟨-, existing, -, -, rfl⟩ := Memory.recoverRun_ok recover
      · cases hfalse
      · exact Memory.Running.of_put h rfl (by simp [Run.requeue])

end Started

/-! ### Whom a worker works for -/

/-- A worker keeps its Run, and starts nothing of its own accord. -/
structure Worker.Keeps (w w' : Worker) : Prop where
  runID : w'.runID = w.runID
  idle : w.pc = .idle → w'.pc = .idle

section Workers

variable {s t : State} {a : Action}

theorem Worker.Keeps.refl (w : Worker) : w.Keeps w := ⟨rfl, id⟩

theorem Worker.Keeps.update {w : Nat} {worker : Worker} (h : (s.workers w).Keeps worker) (n : Nat) :
    (s.workers n).Keeps (Function.update s.workers w worker n) := by
  by_cases hn : n = w
  · subst hn
    simpa using h
  · simpa [hn] using Worker.Keeps.refl (s.workers n)

theorem Worker.Keeps.setWorker {w : Nat} {worker : Worker} (h : (s.workers w).Keeps worker)
    (n : Nat) : (s.workers n).Keeps ((s.setWorker w worker).workers n) :=
  h.update n

/-- Only a delivery gives a worker another Run. -/
theorem keeps_of_step (ha : step s a = some t) (hd : a.isQueued = false) (n : Nat) :
    (s.workers n).Keeps (t.workers n) := by
  have hcall : ∀ {c config pc}, s.call c config pc = some t →
      (s.workers n).Keeps (t.workers n) := by
    intro c config pc hc
    obtain ⟨-, rfl⟩ := State.call_eq hc
    exact .refl _
  cases a <;> simp only [step] at ha
  case deliver | recoverRun => cases hd
  case registry | crash =>
    obtain rfl := Option.some.inj ha
    exact .refl _
  case work w o =>
    split at ha
    · obtain ⟨⟨pc, e⟩, he, rfl⟩ := Option.map_eq_some_iff.mp ha
      have hkeeps : (s.workers w).Keeps { s.workers w with pc := pc } := by
        refine ⟨rfl, fun hidle => ?_⟩
        simp [Worker.execute, hidle] at he
      exact hkeeps.update n
    · cases ha
  case shutdown w =>
    obtain rfl := Option.some.inj ha
    refine Worker.Keeps.setWorker ?_ n
    exact ⟨rfl, fun hidle => hidle⟩
  case propagate | renewalFails | keeperCancels | observesCancel =>
    split at ha
    · obtain rfl := Option.some.inj ha
      refine Worker.Keeps.setWorker ?_ n
      exact ⟨rfl, fun hidle => hidle⟩
    · cases ha
  case cancelRun | createWorkflow =>
    split at ha
    all_goals
      obtain rfl := Option.some.inj ha
      exact .refl _
  case announceCanceled =>
    obtain ⟨run, -, rfl⟩ := Option.map_eq_some_iff.mp ha
    exact .refl _
  case request | agentCall =>
    split at ha
    · obtain rfl := Option.some.inj ha
      exact .refl _
    · cases ha
  case handle | manage =>
    split at ha
    · obtain ⟨r, -, rfl⟩ := Option.map_eq_some_iff.mp ha
      exact .refl _
    · cases ha
  case startWorkflow | cancelWorkflow => exact hcall ha
  case reconcile =>
    split at ha
    · exact hcall ha
    · cases ha

end Workers

/-! ### Published Runs -/

/-- The stream has stored a message of the Run. -/
def Cluster.Published (x : Cluster) (id : String) : Prop :=
  ∃ msg ∈ x.messages, msg.runID = id

/-- The Run has been given to the stream, or is over. -/
def Cluster.Safe (x : Cluster) (id : String) : Prop :=
  x.Published id ∨ x.mesh.store.Ended id

/-- What happens to messages: new ones are appended, and old ones may be acknowledged. -/
structure Retains (messages messages' : List Message) : Prop where
  old : ∀ {seq : Nat} {msg : Message}, messages[seq]? = some msg →
    ∃ msg' : Message, messages'[seq]? = some msg' ∧ msg'.runID = msg.runID

section Messages

variable {x : Cluster} {id runID : String}

theorem Retains.refl (messages : List Message) : Retains messages messages := ⟨fun h => ⟨_, h, rfl⟩⟩

theorem Retains.published {y : Cluster} (h : Retains x.messages y.messages) (hx : x.Published id) :
    y.Published id := by
  obtain ⟨msg, hmsg, hid⟩ := hx
  obtain ⟨seq, hseq⟩ := List.getElem?_of_mem hmsg
  obtain ⟨msg', hmsg', hsame⟩ := h.old hseq
  exact ⟨msg', List.mem_of_getElem? hmsg', hsame.trans hid⟩

theorem Cluster.publish_mesh : (x.publish runID).mesh = x.mesh := by
  rw [Cluster.publish]
  split <;> rfl

theorem Cluster.publish_delivered : (x.publish runID).delivered = x.delivered := by
  rw [Cluster.publish]
  split <;> rfl

theorem Cluster.publish_recovers : (x.publish runID).recovers = x.recovers := by
  rw [Cluster.publish]
  split <;> rfl

/-- A publication that is dropped finds the message of an earlier one. -/
theorem Cluster.publish_published : (x.publish runID).Published runID := by
  rw [Cluster.publish]
  split
  · rename_i hdup
    obtain ⟨msg, hmsg, hsame⟩ := List.any_eq_true.mp hdup
    rw [Bool.and_eq_true, decide_eq_true_eq] at hsame
    exact ⟨msg, hmsg, hsame.1⟩
  · exact ⟨_, List.mem_append_right _ (List.mem_singleton_self _), rfl⟩

theorem Cluster.publish_keeps : Retains x.messages (x.publish runID).messages := by
  rw [Cluster.publish]
  split
  · exact .refl _
  · refine ⟨fun {seq msg} hseq => ⟨msg, ?_, rfl⟩⟩
    have hlt : seq < x.messages.length := (List.getElem?_eq_some_iff.mp hseq).1
    rw [List.getElem?_append_left hlt, hseq]

/-- A new message is not acknowledged. -/
theorem Cluster.publish_acked {msg : Message} (h : msg ∈ (x.publish runID).messages)
    (hacked : msg.acked = true) : msg ∈ x.messages := by
  rw [Cluster.publish] at h
  split at h
  · exact h
  · rcases List.mem_append.mp h with h | h
    · exact h
    · obtain rfl := List.mem_singleton.mp h
      cases hacked

end Messages

/-! ### The invariant -/

/-- The Runs that a call of `Recover` will still enqueue; a call that fails leaves Runs out. -/
def RecoverPc.Owes (id : String) : RecoverPc → Prop
  | .next rest | .recover _ _ rest | .release _ _ rest | .enqueue _ rest => ⟨id, .queued⟩ ∈ rest
  | .done (some _) => True
  | _ => False

def Cluster.RecoverOk (x : Cluster) (call : RecoverCall) : Prop :=
  ∀ id ∈ call.listed, x.Safe id ∨ call.pc.Owes id

structure ClusterInv (x : Cluster) : Prop where
  ack : AckInv x.mesh
  acked : ∀ {msg}, msg ∈ x.messages → msg.acked = true → x.mesh.store.Ended msg.runID
  delivered : ∀ {w seq}, x.delivered w = some seq →
    ∃ msg, x.messages[seq]? = some msg ∧ msg.runID = (x.mesh.workers w).runID
  idle : ∀ {w}, x.delivered w = none → (x.mesh.workers w).pc = .idle
  started : ∀ {id}, x.mesh.store.Running id → x.Published id
  recovers : ∀ r, x.RecoverOk (x.recovers r)

/-- Every action that does not mistake a shutdown for a cancellation. -/
def KeepsMessages (x : Cluster) (b : ClusterAction) : Prop :=
  ∀ a, b = .system a → KeepsRuns x.mesh a

section Steps

variable {x y : Cluster} {id : String}

theorem Cluster.Safe.mono (h : x.Safe id) (hev : x.mesh.store.Evolves y.mesh.store)
    (hkeeps : Retains x.messages y.messages) : y.Safe id :=
  h.imp hkeeps.published fun hend => hend.evolves hev

theorem Cluster.RecoverOk.mono {call : RecoverCall} (h : x.RecoverOk call)
    (hev : x.mesh.store.Evolves y.mesh.store) (hkeeps : Retains x.messages y.messages) :
    y.RecoverOk call :=
  fun id hid => (h id hid).imp_left fun hsafe => hsafe.mono hev hkeeps

/-- The Run of a worker that is not idle is published. -/
theorem ClusterInv.published (h : ClusterInv x) {w : Nat} (hpc : (x.mesh.workers w).pc ≠ .idle) :
    x.Published (x.mesh.workers w).runID := by
  rcases hd : x.delivered w with - | seq
  · exact absurd (h.idle hd) hpc
  · obtain ⟨msg, hmsg, hid⟩ := h.delivered hd
    exact ⟨msg, List.mem_of_getElem? hmsg, hid⟩

/-- A step of the system keeps what the stream needs to know. -/
theorem ClusterInv.mesh (h : ClusterInv x) {a : Action} {t : State} (hok : KeepsRuns x.mesh a)
    (ha : step x.mesh a = some t) : AckInv t ∧ x.mesh.store.Evolves t.store ∧
      ∀ {id}, t.store.Running id → x.Published id := by
  refine ⟨h.ack.step hok ha, (h.ack.runs.step ha).2, fun {id} hrunning => ?_⟩
  rcases running_of_step ha hrunning with hbefore | ⟨w, habout⟩
  · exact h.started hbefore
  · have hpc : (x.mesh.workers w).pc ≠ .idle := by
      intro hidle
      rw [hidle] at habout
      cases habout
    rw [(h.ack.sound w).about id habout]
    exact h.published hpc

theorem ClusterInv.publish (h : ClusterInv x) (runID : String) : ClusterInv (x.publish runID) where
  ack := by
    rw [Cluster.publish_mesh]
    exact h.ack
  acked hmsg hacked := by
    rw [Cluster.publish_mesh]
    exact h.acked (Cluster.publish_acked hmsg hacked) hacked
  delivered hd := by
    rw [Cluster.publish_delivered] at hd
    obtain ⟨msg, hmsg, hid⟩ := h.delivered hd
    obtain ⟨msg', hmsg', hsame⟩ := Cluster.publish_keeps.old hmsg
    rw [Cluster.publish_mesh]
    exact ⟨msg', hmsg', hsame.trans hid⟩
  idle hd := by
    rw [Cluster.publish_delivered] at hd
    rw [Cluster.publish_mesh]
    exact h.idle hd
  started hrunning := by
    rw [Cluster.publish_mesh] at hrunning
    exact Cluster.publish_keeps.published (h.started hrunning)
  recovers r := by
    rw [Cluster.publish_recovers]
    refine (h.recovers r).mono ?_ Cluster.publish_keeps
    rw [Cluster.publish_mesh]
    exact .refl _

theorem ClusterInv.publishSome (h : ClusterInv x) (runID : Option String) :
    ClusterInv (x.publishSome runID) := by
  rcases runID with - | runID
  · exact h
  · exact h.publish runID

/-- A step of the system that delivers nothing. -/
theorem ClusterInv.system (h : ClusterInv x) {a : Action} {t : State} (hok : KeepsRuns x.mesh a)
    (ha : step x.mesh a = some t)
    (hworkers : ∀ n, (x.mesh.workers n).Keeps (t.workers n)) : ClusterInv { x with mesh := t } := by
  obtain ⟨hack, hev, hstarted⟩ := h.mesh hok ha
  refine ⟨hack, fun hmsg hacked => (h.acked hmsg hacked).evolves hev, ?_, ?_, hstarted, ?_⟩
  · intro w seq hd
    obtain ⟨msg, hmsg, hid⟩ := h.delivered hd
    exact ⟨msg, hmsg, hid.trans (hworkers w).runID.symm⟩
  · intro w hd
    exact (hworkers w).idle (h.idle hd)
  · intro r
    exact (h.recovers r).mono hev (.refl _)

theorem ClusterInv.deliver (h : ClusterInv x) {w seq : Nat} {engine : Engine} {msg : Message}
    {t : State} (hmsg : x.messages[seq]? = some msg)
    (ha : step x.mesh (.deliver w engine msg.runID) = some t) :
    ClusterInv { x with mesh := t, delivered := Function.update x.delivered w (some seq) } := by
  obtain ⟨hack, hev, hstarted⟩ := h.mesh (by rintro w o ⟨⟩) ha
  simp only [step] at ha
  split at ha
  case isFalse => cases ha
  case isTrue =>
    obtain rfl := Option.some.inj ha
    refine ⟨hack, h.acked, ?_, ?_, hstarted, h.recovers⟩
    · intro n seq' hd
      by_cases hn : n = w
      · subst hn
        obtain rfl : seq = seq' := by simpa using hd
        exact ⟨msg, hmsg, by simp [State.setWorker]⟩
      · simp only [ne_eq, hn, not_false_eq_true, Function.update_of_ne] at hd
        obtain ⟨msg', hmsg', hid⟩ := h.delivered hd
        exact ⟨msg', hmsg', by simpa [State.setWorker, hn] using hid⟩
    · intro n hd
      by_cases hn : n = w
      · subst hn
        simp at hd
      · simp only [ne_eq, hn, not_false_eq_true, Function.update_of_ne] at hd
        simpa [State.setWorker, hn] using h.idle hd

/-- The message of a worker that has returned `nil`: its Run has ended. -/
theorem ClusterInv.acknowledge (h : ClusterInv x) {w seq : Nat} (hd : x.delivered w = some seq)
    (hpc : (x.mesh.workers w).pc = .done none) : ClusterInv (x.ack seq) := by
  have hend : x.mesh.store.Ended (x.mesh.workers w).runID := by
    have hknows := (h.ack.sound w).knows
    simpa only [Worker.Knows, hpc] using hknows
  obtain ⟨msg, hmsg, hid⟩ := h.delivered hd
  have hkeeps : Retains x.messages (x.ack seq).messages := by
    refine ⟨fun {n msg'} hn => ?_⟩
    simp only [Cluster.ack, List.getElem?_modify, hn]
    split <;> exact ⟨_, rfl, rfl⟩
  refine ⟨h.ack, ?_, ?_, h.idle, fun hrunning => hkeeps.published (h.started hrunning), ?_⟩
  · intro msg' hmem hacked
    obtain ⟨n, hn⟩ := List.getElem?_of_mem hmem
    simp only [Cluster.ack, List.getElem?_modify] at hn
    obtain ⟨msg₀, hmsg₀, rfl⟩ := Option.map_eq_some_iff.mp hn
    by_cases hseq : seq = n
    · subst hseq
      obtain rfl := Option.some.inj (hmsg.symm.trans hmsg₀)
      rw [if_pos rfl, hid]
      exact hend
    · rw [if_neg hseq] at hacked ⊢
      exact h.acked (List.mem_of_getElem? hmsg₀) hacked
  · intro n seq' hd'
    obtain ⟨msg₀, hmsg₀, hid₀⟩ := h.delivered hd'
    obtain ⟨msg', hmsg', hsame⟩ := hkeeps.old hmsg₀
    exact ⟨msg', hmsg', hsame.trans hid₀⟩
  · intro r
    exact (h.recovers r).mono (.refl _) hkeeps

end Steps

/-! ### The steps of a recovery -/

/-- The actions of `Recover`, by what becomes of the Runs that it has to enqueue. -/
inductive RecoverCall.Acts (call : RecoverCall) (m : Memory) : RecoverEffect → Prop
  | lists : Acts call m { call := { pc := .next m.listPendingRuns, listed := m.runs.keys } }
  | moves {pc : RecoverPc} (owes : ∀ {id}, call.pc.Owes id → pc.Owes id) :
      Acts call m (call.goto pc)
  | enqueues {id : String} {rest : List PendingRun}
      (owes : ∀ {id'}, call.pc.Owes id' → id' = id ∨ ⟨id', .queued⟩ ∈ rest) :
      Acts call m { call.goto (.next rest) with published := some id }
  | recovers {id : String} {token : Int} {recovered : Except Err Bool} {rest : List PendingRun}
      (owes : ∀ {id}, call.pc.Owes id → ⟨id, .queued⟩ ∈ rest) :
      Acts call m { call.goto (.release id recovered rest) with recovers := some (id, token) }

section Recover

variable {x : Cluster} {call : RecoverCall} {o : RecoverOracle} {m : Memory} {e : RecoverEffect}

theorem RecoverCall.Acts.enqueue {id context : String} {rest : List PendingRun}
    (howes : ∀ {id'}, call.pc.Owes id' → id' = id ∨ ⟨id', .queued⟩ ∈ rest) :
    call.Acts m (call.enqueue o id context rest) := by
  rw [RecoverCall.enqueue]
  split
  · exact .moves fun _ => trivial
  · exact .enqueues howes

theorem RecoverCall.act_acts (h : call.act o m = some e) : call.Acts m e := by
  rw [RecoverCall.act] at h
  split at h
  · cases h
  · split at h
    all_goals obtain rfl := Option.some.inj h
    · exact .moves fun _ => trivial
    · exact .lists
  · rename_i hpc
    obtain rfl := Option.some.inj h
    refine .moves fun {id} hid => ?_
    rw [hpc] at hid
    cases hid
  · rename_i pending rest hpc
    have howes : ∀ {id}, call.pc.Owes id →
        (id = pending.id ∧ pending.status = .queued) ∨ ⟨id, .queued⟩ ∈ rest := by
      intro id hid
      rw [hpc] at hid
      rcases List.mem_cons.mp hid with hsame | hrest
      · rw [← hsame]
        exact .inl ⟨rfl, rfl⟩
      · exact .inr hrest
    split at h
    · obtain rfl := Option.some.inj h
      exact .enqueue fun hid => (howes hid).imp_left And.left
    · rename_i hqueued
      -- a Run that was not found queued is not owed
      have hrest : ∀ {id}, call.pc.Owes id → ⟨id, .queued⟩ ∈ rest := by
        intro id hid
        exact (howes hid).resolve_left fun hsame => hqueued hsame.2
      split at h
      · obtain rfl := Option.some.inj h
        exact .moves hrest
      · split at h
        all_goals obtain rfl := Option.some.inj h
        · exact .moves fun _ => trivial
        · exact .moves hrest
        · exact .moves hrest
  · rename_i id token rest hpc
    obtain rfl := Option.some.inj h
    refine .recovers fun {id'} hid => ?_
    rw [hpc] at hid
    exact hid
  · rename_i id recovered rest hpc
    have hrest : ∀ {id}, call.pc.Owes id → ⟨id, .queued⟩ ∈ rest := by
      intro id hid
      rw [hpc] at hid
      exact hid
    split at h
    · obtain rfl := Option.some.inj h
      exact .moves fun _ => trivial
    · split at h
      all_goals obtain rfl := Option.some.inj h
      · exact .moves fun _ => trivial
      · split
        · exact .moves hrest
        · exact .moves hrest
  · rename_i id rest hpc
    obtain rfl := Option.some.inj h
    refine .enqueue fun {id'} hid => ?_
    rw [hpc] at hid
    exact .inr hid
  · cases h

/-- Every stored Run has been published, or is over, or is found queued. -/
theorem ClusterInv.lists (h : ClusterInv x) :
    x.RecoverOk { pc := .next x.mesh.store.listPendingRuns, listed := x.mesh.store.runs.keys } := by
  intro id hid
  obtain ⟨run, hrun⟩ : ∃ run, x.mesh.store.runs.lookup id = some run :=
    Option.isSome_iff_exists.mp (AList.lookup_isSome.mpr hid)
  cases hs : run.status with
  | unset => exact absurd hs (h.ack.runs.ok.status hrun)
  | queued => exact .inr (Memory.mem_listPendingRuns.mpr ⟨run, hrun, .inl hs, hs⟩)
  | running => exact .inl (.inl (h.started ⟨run, hrun, hs⟩))
  | succeeded => exact .inl (.inr ⟨run, hrun, .inl hs⟩)
  | failed => exact .inl (.inr ⟨run, hrun, .inr (.inl hs)⟩)
  | canceled => exact .inl (.inr ⟨run, hrun, .inr (.inr hs)⟩)

theorem ClusterInv.setRecover (h : ClusterInv x) (r : Nat) (hcall : x.RecoverOk call) :
    ClusterInv { x with recovers := Function.update x.recovers r call } := by
  refine ⟨h.ack, h.acked, h.delivered, h.idle, h.started, fun n => ?_⟩
  simp only [Function.update_apply]
  split
  · exact hcall
  · exact h.recovers n

theorem Cluster.publish_setRecover {recovers : Nat → RecoverCall} {id : String} :
    Cluster.publish { x with recovers := recovers } id
      = { x.publish id with recovers := recovers } := by
  have hsame : Cluster.duplicate { x with recovers := recovers } id = x.duplicate id := rfl
  by_cases hdup : x.duplicate id = true
  · rw [Cluster.publish, Cluster.publish, hsame, if_pos hdup, if_pos hdup]
  · rw [Cluster.publish, Cluster.publish, hsame, if_neg hdup, if_neg hdup]

theorem ClusterInv.recover (h : ClusterInv x) {r : Nat} (he : (x.recovers r).Acts x.mesh.store e)
    {y : Cluster} (hstep : (match e.recovers with
      | none => some (Cluster.publishSome
          { x with recovers := Function.update x.recovers r e.call } e.published)
      | some (id, token) => (step x.mesh (.recoverRun id token)).map fun mesh =>
          { x with recovers := Function.update x.recovers r e.call, mesh := mesh }) = some y) :
    ClusterInv y := by
  have hcall := h.recovers r
  cases he with
  | lists =>
      obtain rfl := Option.some.inj hstep
      exact h.setRecover r h.lists
  | moves owes =>
      obtain rfl := Option.some.inj hstep
      exact h.setRecover r fun id hid => (hcall id hid).imp_right owes
  | @enqueues id rest owes =>
      obtain rfl := Option.some.inj hstep
      have hpublish := h.publish id
      have hbefore := hpublish.recovers r
      rw [Cluster.publish_recovers] at hbefore
      -- the Run that is enqueued is no longer owed
      have hafter : (x.publish id).RecoverOk { (x.recovers r) with pc := .next rest } := by
        intro id' hid
        rcases hbefore id' hid with hsafe | howes
        · exact .inl hsafe
        · rcases owes howes with rfl | hrest
          · exact .inl (.inl Cluster.publish_published)
          · exact .inr hrest
      have hset := hpublish.setRecover r hafter
      rw [Cluster.publish_recovers] at hset
      simp only [Cluster.publishSome, Cluster.publish_setRecover]
      exact hset
  | @recovers id token recovered rest owes =>
      obtain ⟨t, ha, rfl⟩ := Option.map_eq_some_iff.mp hstep
      have hafter : x.RecoverOk { (x.recovers r) with pc := .release id recovered rest } :=
        fun id' hid => (hcall id' hid).imp_right owes
      refine (h.setRecover r hafter).system (by rintro w o ⟨⟩) ha fun n => ?_
      simp only [step] at ha
      repeat' split at ha
      all_goals cases ha
      all_goals exact .refl _

end Recover

/-! ### Every step -/

section Runs

variable {x y : Cluster}

theorem clusterInv_init : ClusterInv {} where
  ack := ackInv_init
  acked hmsg := by cases hmsg
  delivered hd := by cases hd
  idle _ := rfl
  started hrunning := by
    obtain ⟨run, hrun, -⟩ := hrunning
    cases hrun
  recovers r id hid := by cases hid

theorem ClusterInv.step {b : ClusterAction} (h : ClusterInv x) (hok : KeepsMessages x b)
    (hb : clusterStep x b = some y) : ClusterInv y := by
  cases b with
  | system a =>
      rw [clusterStep] at hb
      split at hb
      · cases hb
      · rename_i hqueued
        obtain ⟨t, ha, rfl⟩ := Option.map_eq_some_iff.mp hb
        rw [Bool.not_eq_true] at hqueued
        exact (h.system (hok a rfl) ha (keeps_of_step ha hqueued)).publishSome _
  | tick elapsed =>
      obtain rfl := Option.some.inj hb
      exact ⟨h.ack, h.acked, h.delivered, h.idle, h.started, h.recovers⟩
  | deliver w engine seq =>
      rw [clusterStep] at hb
      split at hb
      · cases hb
      · rename_i msg hmsg
        split at hb
        · cases hb
        · obtain ⟨t, ha, rfl⟩ := Option.map_eq_some_iff.mp hb
          exact h.deliver hmsg ha
  | ack w =>
      rw [clusterStep] at hb
      split at hb
      · rename_i seq hd hpc
        obtain rfl := Option.some.inj hb
        exact h.acknowledge hd hpc
      · cases hb
  | startRecover r =>
      rw [clusterStep] at hb
      split at hb
      · obtain rfl := Option.some.inj hb
        exact h.setRecover r fun id hid => by cases hid
      · cases hb
  | recover r o =>
      rw [clusterStep] at hb
      split at hb
      · cases hb
      · rename_i e he
        exact h.recover (RecoverCall.act_acts he) hb

/-- **Recovery strands nothing**, as long as no call of `execute` takes a shutdown or a lost
lease for a canceled Run: after a call of `Recover` has returned `nil`, every queued Run that
was stored when the call listed them, or that was enqueued since, has a message in the stream
that is not acknowledged. -/
theorem recover_strands_nothing {r : Nat} {id : String} {run : Run}
    (hx : Runs clusterStep KeepsMessages {} x) (hdone : (x.recovers r).pc = .done none)
    (hfound : id ∈ (x.recovers r).listed ∨ x.Published id)
    (hrun : x.mesh.store.runs.lookup id = some run) (hqueued : run.status = .queued) :
    ∃ msg ∈ x.messages, msg.runID = id ∧ msg.acked = false := by
  have hinv : ClusterInv x := hx.invariant (I := ClusterInv) clusterInv_init fun h => h.step
  have hopen : ¬ x.mesh.store.Ended id := by
    rintro ⟨run', hrun', hterm⟩
    obtain rfl := Option.some.inj (hrun.symm.trans hrun')
    exact Run.IsActive.not_terminal (.inl hqueued) hterm
  have hpublished : x.Published id := by
    rcases hfound with hlisted | hpublished
    · rcases hinv.recovers r id hlisted with (hpublished | hend) | howes
      · exact hpublished
      · exact absurd hend hopen
      · rw [hdone] at howes
        cases howes
    · exact hpublished
  obtain ⟨msg, hmsg, rfl⟩ := hpublished
  refine ⟨msg, hmsg, rfl, ?_⟩
  rw [← Bool.not_eq_true]
  exact fun hacked => hopen (hinv.acked hmsg hacked)

end Runs

def RecoverPc.succeeded : RecoverPc → Bool
  | .done none => true
  | _ => false

theorem RecoverPc.eq_done {pc : RecoverPc} (h : pc.succeeded = true) : pc = .done none := by
  unfold RecoverPc.succeeded at h
  split at h
  · rfl
  · cases h

/-- A Run is submitted, and delivered to a worker that takes `n` actions. -/
def deliveredRun (n : Nat) : List ClusterAction :=
  List.flatten
    [(submitRun 3).map .system, [.deliver 0 demoEngine 0], List.replicate n (.system (.work 0 {}))]

/-- The worker is shut down at the head of the attempt loop, and its message is acknowledged. -/
def mistakenShutdown : List ClusterAction :=
  [.system (.shutdown 0), .system (.propagate 0), .system (.work 0 {}), .system (.work 0 {}), .ack 0]

/-- The worker dies in its first attempt.  The Run is recovered and enqueued; the publication
is a duplicate, and the first message is still there. -/
theorem recover_strands_nothing_crashed :
    ∃ x run, Runs clusterStep KeepsMessages {} x ∧ (x.recovers 0).pc = .done none ∧
      x.mesh.store.runs.lookup "run_1" = some run ∧ run.status = .queued ∧
      x.messages.length = 1 ∧ ∃ msg ∈ x.messages, msg.runID = "run_1" ∧ msg.acked = false := by
  obtain ⟨x, hx, hpc, hlisted, hstatus, hone⟩ :
      ∃ x, exec (guarded clusterStep fun x b => match b with
            | .system (.work w _) => !(x.mesh.workers w).runCtxDone
            | _ => true) {} (deliveredRun 8 ++ .startRecover 0 :: List.replicate 6 (.recover 0 {}))
          = some x ∧
        (x.recovers 0).pc.succeeded = true ∧ "run_1" ∈ (x.recovers 0).listed ∧
        (x.mesh.store.runs.lookup "run_1").map Run.status = some .queued ∧ x.messages.length = 1 := by
    refine exists_of_any ?_
    decide +kernel
  have hruns : Runs clusterStep KeepsMessages {} x := by
    refine runs_exec_guarded ?_ hx
    rintro u b h a rfl w o rfl hm
    simp [hm.2.1] at h
  obtain ⟨run, hrun, hqueued⟩ := Option.map_eq_some_iff.mp hstatus
  have hdone := RecoverPc.eq_done hpc
  exact ⟨x, run, hruns, hdone, hrun, hqueued, hone,
    recover_strands_nothing hruns hdone (.inl hlisted) hrun hqueued⟩

/-- A shutdown before the first attempt: `execute` returns `nil`, and the message of the queued
Run is acknowledged.  A minute later `Recover` enqueues the Run, which the stream takes for a
duplicate, and returns `nil`. -/
theorem restart_strands_run :
    ∃ x, exec clusterStep {} (deliveredRun 5 ++ mistakenShutdown ++
        .tick 60000000000 :: .startRecover 0 :: List.replicate 3 (.recover 0 {})) = some x ∧
      (x.recovers 0).pc.succeeded = true ∧ "run_1" ∈ (x.recovers 0).listed ∧
      (x.mesh.store.runs.lookup "run_1").map Run.status = some .queued ∧
      x.messages = [{ runID := "run_1", at_ := 0, acked := true }] := by
  refine exists_of_any ?_
  decide +kernel

end AgentMesh
