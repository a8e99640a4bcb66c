/-
AgentMesh/Lineage.lean

Parents and roots of the Runs in the Memory store, and what a creation changes.

A Run may name a parent when it is created.  The store attaches it to the
parent's lineage and keeps the lineage in every later write, whatever the write
carries.  `Memory.Forest` is the invariant: following parents from a stored Run
ends at a Run without a parent, whose ID is the root of all Runs on the way.
The store checks only the parent of a new Run, so the argument is that a store
that continues another one (`Memory.Continues`) continues its forest; every
operation does so that creates no Run under an ID in use
(`runs_form_forest`).

The store itself does not look whether the ID of a new Run is in use.  A
creation under an unused ID adds one Run and at most one key
(`creation_adds_one`); under the ID of a stored Run it replaces that Run
(`creation_replaces_run`).
-/
import AgentMesh.Ancestry
import AgentMesh.Machine
import AgentMesh.Operations

namespace AgentMesh

open Machine

/-! ### Lineage -/

/-- The parent of a stored Run, if it has one. -/
def Memory.parentOf (m : Memory) (id : String) : Option (Option String) :=
  (m.runs.lookup id).map fun run => if run.parentRunID = "" then none else some run.parentRunID

structure Run.SameLineage (r r' : Run) : Prop where
  id : r'.id = r.id
  parentRunID : r'.parentRunID = r.parentRunID
  rootRunID : r'.rootRunID = r.rootRunID

/-- The lineage of a new Run: none, or that of a child of a stored Run. -/
def Memory.Attached (m : Memory) (run : Run) : Prop :=
  (run.parentRunID = "" ∧ run.rootRunID = "") ∨
    ∃ parent, m.runs.lookup run.parentRunID = some parent ∧ run.parentRunID ≠ "" ∧
      run.rootRunID = if parent.parentRunID = "" then run.parentRunID else parent.rootRunID

/-- No Run is removed, and none changes its lineage. -/
def Memory.KeepsLineage (m m' : Memory) : Prop :=
  ∀ id run, m.runs.lookup id = some run →
    ∃ run', m'.runs.lookup id = some run' ∧ run.SameLineage run'

/-- Runs keep their lineage, and new ones are attached. -/
structure Memory.Continues (m m' : Memory) : Prop where
  keeps : m.KeepsLineage m'
  new : ∀ {id run}, m'.runs.lookup id = some run → m.runs.lookup id = none →
    run.id = id ∧ m.Attached run

structure Memory.Forest (m : Memory) : Prop where
  id : ∀ {id run}, m.runs.lookup id = some run → run.id = id
  grounded : Grounded m.parentOf
  roots : ∀ {id run ancestors}, m.runs.lookup id = some run → Ancestry m.parentOf id ancestors →
    run.rootRunID = ancestors.getLast?.getD ""

section Forest

variable {m m' : Memory} {id key : String} {run run' parent : Run}

theorem Run.SameLineage.refl (r : Run) : r.SameLineage r := ⟨rfl, rfl, rfl⟩

theorem Run.SameLineage.trans {r₁ r₂ r₃ : Run} (h : r₁.SameLineage r₂) (h' : r₂.SameLineage r₃) :
    r₁.SameLineage r₃ :=
  ⟨h'.id.trans h.id, h'.parentRunID.trans h.parentRunID, h'.rootRunID.trans h.rootRunID⟩

theorem Memory.KeepsLineage.trans {m₁ m₂ m₃ : Memory} (h : m₁.KeepsLineage m₂)
    (h' : m₂.KeepsLineage m₃) : m₁.KeepsLineage m₃ := by
  intro id run hrun
  obtain ⟨run₂, hrun₂, hsame⟩ := h id run hrun
  obtain ⟨run₃, hrun₃, hsame'⟩ := h' id run₂ hrun₂
  exact ⟨run₃, hrun₃, hsame.trans hsame'⟩

theorem Memory.parentOf_of_lookup (h : m.runs.lookup id = some run) :
    m.parentOf id = some (if run.parentRunID = "" then none else some run.parentRunID) := by
  rw [Memory.parentOf, h, Option.map_some]

theorem Memory.parentOf_eq_some {v : Option String} (h : m.parentOf id = some v) :
    ∃ run, m.runs.lookup id = some run ∧
      v = if run.parentRunID = "" then none else some run.parentRunID := by
  obtain ⟨run, hrun, hv⟩ := Option.map_eq_some_iff.mp h
  exact ⟨run, hrun, hv.symm⟩

theorem Memory.Continues.parentOf (h : m.Continues m') {v : Option String}
    (hv : m.parentOf id = some v) : m'.parentOf id = some v := by
  obtain ⟨run, hrun, rfl⟩ := Memory.parentOf_eq_some hv
  obtain ⟨run', hrun', hsame⟩ := h.keeps id run hrun
  rw [Memory.parentOf_of_lookup hrun', hsame.parentRunID]

theorem Memory.Forest.ancestry (hm : m.Forest) (hrun : m.runs.lookup id = some run) :
    ∃ ancestors, Ancestry m.parentOf id ancestors :=
  hm.grounded id _ (Memory.parentOf_of_lookup hrun)

/-- **A store that continues a forest is one.**  Old Runs keep their ancestors.  A new Run is a
root or hangs under an old one, so its ancestors are its parent and those of its parent. -/
theorem Memory.Forest.continues (hm : m.Forest) (h : m.Continues m') : m'.Forest := by
  have hkeep : ∀ id v, m.parentOf id = some v → m'.parentOf id = some v :=
    fun _ _ hv => h.parentOf hv
  refine ⟨?_, ?_, ?_⟩
  · intro id run hrun
    rcases hold : m.runs.lookup id with - | old
    · exact (h.new hrun hold).1
    · obtain ⟨run', hrun', hsame⟩ := h.keeps id old hold
      obtain rfl := Option.some.inj (hrun.symm.trans hrun')
      rw [hsame.id, hm.id hold]
  · refine hm.grounded.grow hkeep ?_
    intro id v hv
    obtain ⟨run, hrun, rfl⟩ := Memory.parentOf_eq_some hv
    rcases hold : m.runs.lookup id with - | old
    · refine .inr fun p hp => ?_
      rcases (h.new hrun hold).2 with ⟨hnone, -⟩ | ⟨parent, hparent, hne, -⟩
      · simp [hnone] at hp
      · rw [if_neg hne] at hp
        obtain rfl := Option.some.inj hp
        exact ⟨_, Memory.parentOf_of_lookup hparent⟩
    · exact .inl ((hkeep id _ (Memory.parentOf_of_lookup hold)).symm.trans hv ▸
        Memory.parentOf_of_lookup hold)
  · intro id run ancestors hrun hanc
    rcases hold : m.runs.lookup id with - | old
    · rcases (h.new hrun hold).2 with ⟨hnone, hroot⟩ | ⟨parent, hparent, hne, hroot⟩
      · have hnext := Memory.parentOf_of_lookup hrun
        rw [if_pos hnone] at hnext
        rw [hanc.unique (.root hnext), hroot]
        rfl
      · have hnext := Memory.parentOf_of_lookup hrun
        rw [if_neg hne] at hnext
        obtain ⟨above, habove⟩ := hm.ancestry hparent
        rw [hanc.unique (.child hnext (habove.mono hkeep)), hroot]
        -- the root of a parent without a parent is the parent itself
        cases habove with
        | root hnone =>
            have htop : parent.parentRunID = "" := by
              rw [Memory.parentOf_of_lookup hparent] at hnone
              by_contra hp
              simp [hp] at hnone
            rw [if_pos htop]
            rfl
        | child hp rest =>
            have hup : parent.parentRunID ≠ "" := by
              rintro hp'
              rw [Memory.parentOf_of_lookup hparent, if_pos hp'] at hp
              cases hp
            rw [if_neg hup, hm.roots hparent (.child hp rest)]
            simp
    · obtain ⟨run', hrun', hsame⟩ := h.keeps id old hold
      obtain rfl := Option.some.inj (hrun.symm.trans hrun')
      obtain ⟨above, habove⟩ := hm.ancestry hold
      rw [hsame.rootRunID, hanc.unique (habove.mono hkeep)]
      exact hm.roots hold habove

theorem Memory.Continues.of_runs (h : m'.runs = m.runs) : m.Continues m' where
  keeps _ run hrun := ⟨run, h ▸ hrun, .refl run⟩
  new hrun hold := by
    rw [h, hold] at hrun
    cases hrun

/-- A stored Run is replaced by one with the same lineage. -/
theorem Memory.Continues.put (run' : Run) (h : m'.runs = m.runs.insert id run')
    (hrun : m.runs.lookup id = some run) (hsame : run.SameLineage run') : m.Continues m' := by
  refine ⟨?_, ?_⟩
  · intro id' r hr
    rw [h, Table.lookup_insert_eq]
    split
    · rename_i hid
      rw [hid, hrun] at hr
      obtain rfl := Option.some.inj hr
      exact ⟨run', rfl, hsame⟩
    · exact ⟨r, hr, .refl r⟩
  · intro id' r hr hold
    rw [h, Table.lookup_insert_eq] at hr
    split at hr
    · rename_i hid
      rw [hid, hrun] at hold
      cases hold
    · rw [hold] at hr
      cases hr

/-- An attached Run is stored under an ID that is not in use. -/
theorem Memory.Continues.create (hid : m.runs.lookup run.id = none) (hatt : m.Attached run)
    (h : m'.runs = m.runs.insert run.id run) : m.Continues m' := by
  refine ⟨?_, ?_⟩
  · intro id' r hr
    have hne : id' ≠ run.id := by
      rintro rfl
      rw [hid] at hr
      cases hr
    exact ⟨r, by rw [h, AList.lookup_insert_ne hne, hr], .refl r⟩
  · intro id' r hr hold
    rw [h, Table.lookup_insert_eq] at hr
    split at hr
    · rename_i hid'
      obtain rfl := Option.some.inj hr
      exact ⟨hid'.symm, hatt⟩
    · rw [hold] at hr
      cases hr

end Forest

/-! ### Operations -/

section Operations

variable {m m' : Memory} {id key : String} {run run' parent : Run} {op : RunOp}

theorem Run.attachTo_lineage (h : run.attachTo parent = .ok run') :
    run'.id = run.id ∧ run'.parentRunID = parent.id ∧ parent.id ≠ "" ∧
      run'.rootRunID = if parent.parentRunID = "" then parent.id else parent.rootRunID := by
  rw [Run.attachTo] at h
  repeat' split at h
  all_goals cases h
  all_goals simp_all

/-- The lineage checks let a Run pass as a root or as a child of its parent. -/
theorem Memory.Forest.attachLineage (hm : m.Forest) (h : m.attachLineage run = .ok run') :
    run'.id = run.id ∧ m.Attached run' := by
  rw [Memory.attachLineage] at h
  split at h
  · rename_i hparent
    split at h
    · cases h
    · obtain rfl := Except.ok.inj h
      exact ⟨rfl, .inl ⟨hparent, not_not.mp ‹_›⟩⟩
  · split at h
    · cases h
    · rename_i parent hparent
      split at h
      · cases h
      · rename_i attached hattach
        split at h
        · cases h
        · obtain rfl := Except.ok.inj h
          obtain ⟨hid, hp, hne, hroot⟩ := Run.attachTo_lineage hattach
          refine ⟨hid, .inr ⟨parent, ?_, ?_, ?_⟩⟩
          · rw [hp, hm.id hparent, hparent]
          · rwa [hp]
          · rw [hroot, hp]

/-- No method creates a Run under an ID in use. -/
def unused (m : Memory) : StoreAction → Bool
  | .run (.createRun run _) | .run (.createChildRun run _ _) => (m.runs.lookup run.id).isNone
  | _ => true

theorem lookup_of_unused (h : unused m (.run op) = true) (hop : op.creates = some (run, key)) :
    m.runs.lookup run.id = none := by
  cases op with
  | createRun | createChildRun =>
      obtain ⟨rfl, -⟩ := Prod.mk.inj (Option.some.inj hop)
      exact Option.isNone_iff_eq_none.mp h
  | getRun | updateRun | claimRunExecution | updateRunFenced | cancelRun | recoverRun => cases hop

theorem Memory.Forest.perform (hm : m.Forest) (hunused : unused m (.run op) = true) :
    m.Continues (m.perform op).1 := by
  cases m.perform_effect op with
  | keep runs => exact .of_runs runs
  | put hrun runs _ named hparent hroot =>
      refine .put _ runs hrun ⟨?_, hparent, hroot⟩
      exact named.elim (fun h => h.trans (hm.id hrun).symm) fun h => h
  | create hop _ attach store =>
      obtain ⟨hsame, hatt⟩ := hm.attachLineage attach
      exact .create (hsame ▸ lookup_of_unused hunused hop) hatt (congrArg Memory.runs store)

theorem Memory.Forest.step {a : StoreAction} (hm : m.Forest) (hunused : unused m a = true)
    (ha : storeStep m a = some m') : m.Continues m' := by
  cases a with
  | run op =>
      obtain rfl := Option.some.inj ha
      exact hm.perform hunused
  | other =>
      obtain rfl := Option.some.inj ha
      exact .of_runs rfl

end Operations

/-! ### The forest -/

theorem forest_empty : Memory.Forest {} where
  id := nofun
  grounded := nofun
  roots := nofun

/-- **Runs form a rooted forest.**  Every parent is stored, following parents from a Run ends
at a Run without one, and the root of a Run is the last Run on the way.  The lineage of a Run
never changes. -/
theorem runs_form_forest {m : Memory}
    (hm : Runs storeStep (fun m a => unused m a = true) {} m) :
    (∀ {id run}, m.runs.lookup id = some run →
      (run.parentRunID ≠ "" → ∃ parent, m.runs.lookup run.parentRunID = some parent) ∧
      ∃ ancestors, Ancestry m.parentOf id ancestors ∧
        run.rootRunID = ancestors.getLast?.getD "") ∧
    ∀ {m'}, Runs storeStep (fun m a => unused m a = true) m m' →
      ∀ {id run}, m.runs.lookup id = some run →
        ∃ run', m'.runs.lookup id = some run' ∧ run'.parentRunID = run.parentRunID ∧
          run'.rootRunID = run.rootRunID := by
  have hforest : m.Forest :=
    hm.invariant (I := Memory.Forest) forest_empty fun h hu ha => h.continues (h.step hu ha)
  refine ⟨?_, ?_⟩
  · intro id run hrun
    obtain ⟨ancestors, hanc⟩ := hforest.ancestry hrun
    refine ⟨?_, ancestors, hanc, hforest.roots hrun hanc⟩
    intro hne
    cases hanc with
    | root hnone => simp [Memory.parentOf_of_lookup hrun, hne] at hnone
    | child hp rest =>
        obtain ⟨v, hv⟩ := (Ancestry.child hp rest).of_mem List.mem_cons_self
        rw [Memory.parentOf_of_lookup hrun, if_neg hne] at hp
        obtain rfl := Option.some.inj (Option.some.inj hp)
        obtain ⟨parent, hparent, -⟩ := Memory.parentOf_eq_some hv
        exact ⟨parent, hparent⟩
  · intro m' hm' id run hrun
    have hkeeps : m.KeepsLineage m' :=
      hm'.related (I := Memory.Forest) (R := Memory.KeepsLineage) hforest
        (fun h hu ha => h.continues (h.step hu ha)) (fun u id run h => ⟨run, h, .refl run⟩)
        (fun h₁ h₂ => h₁.trans h₂) fun h hu ha => (h.step hu ha).keeps
    obtain ⟨run', hrun', hsame⟩ := hkeeps id run hrun
    exact ⟨run', hrun', hsame.parentRunID, hsame.rootRunID⟩

/-- A Run, its child and the child of its child, which an update tries to move. -/
def grandchild : List StoreAction :=
  [.run (.createRun { id := "run_1", status := .queued } ""),
    .run (.createRun { id := "run_2", parentRunID := "run_1", status := .queued } ""),
    .run (.createChildRun { id := "run_3", parentRunID := "run_2", status := .queued } "key" 2),
    .run (.updateRun { id := "run_3", parentRunID := "run_1", rootRunID := "run_3" })]

theorem runs_form_forest_grandchild :
    ∃ m run ancestors, Runs storeStep (fun m a => unused m a = true) {} m ∧
      m.runs.lookup "run_3" = some run ∧ run.parentRunID = "run_2" ∧ run.rootRunID = "run_1" ∧
      Ancestry m.parentOf "run_3" ancestors ∧ run.rootRunID = ancestors.getLast?.getD "" := by
  obtain ⟨m, hm, hlineage⟩ :
      ∃ m, exec (guarded storeStep unused) {} grandchild = some m ∧
        (m.runs.lookup "run_3").map (fun run => (run.parentRunID, run.rootRunID))
          = some ("run_2", "run_1") := by
    refine exists_of_any ?_
    decide
  obtain ⟨run, hrun, hlin⟩ := Option.map_eq_some_iff.mp hlineage
  obtain ⟨hparent, hroot⟩ := Prod.mk.inj hlin
  have hruns : Runs storeStep (fun m a => unused m a = true) {} m :=
    runs_exec_guarded (fun _ _ h => h) hm
  obtain ⟨-, ancestors, hanc, hlast⟩ := (runs_form_forest hruns).1 hrun
  exact ⟨m, run, ancestors, hruns, hrun, hparent, hroot, hanc, hlast⟩

/-! ### Creations -/

/-- The store after a creation: one Run more, and its key, if there is one. -/
structure Memory.AddsOne (m m' : Memory) (created : Run) (key : String) : Prop where
  new : m.runs.lookup created.id = none
  stored : m'.runs.lookup created.id = some created
  runs : ∀ id, id ≠ created.id → m'.runs.lookup id = m.runs.lookup id
  fences : m'.runFences = m.runFences
  unbound : key ≠ "" → m.idempotencyKeys.lookup key = none
  bound : key ≠ "" → m'.idempotencyKeys.lookup key = some created.id
  keys : ∀ key', key' ≠ key ∨ key = "" →
    m'.idempotencyKeys.lookup key' = m.idempotencyKeys.lookup key'

/-- Every key is bound to a stored Run. -/
def Memory.KeysStored (m : Memory) : Prop :=
  ∀ key id, m.idempotencyKeys.lookup key = some id → ∃ run, m.runs.lookup id = some run

/-- Every Run is stored under its own ID, and every key leads to a stored Run. -/
structure Memory.Indexed (m : Memory) : Prop where
  id : ∀ {id run}, m.runs.lookup id = some run → run.id = id
  keys : m.KeysStored

/-- A creation under an unbound key has an ID that is not in use; under a bound key,
`CreateChildRun` names a parent. -/
def safeCreation (m : Memory) : RunOp → Bool
  | .createRun run key => (m.boundTo key).isSome || (m.runs.lookup run.id).isNone
  | .createChildRun run key _ =>
      if (m.boundTo key).isSome then run.parentRunID ≠ "" else (m.runs.lookup run.id).isNone
  | _ => true

section Creations

variable {m m' : Memory} {run run' : Run} {key : String} {op : RunOp}

theorem Memory.lookup_insert_isSome {id id' : String} {run : Run}
    (h : ∃ r, m.runs.lookup id = some r) :
    ∃ r, AList.lookup id (m.runs.insert id' run) = some r := by
  rw [Table.lookup_insert_eq]
  split
  · exact ⟨run, rfl⟩
  · exact h

theorem Memory.KeysStored.step {a : StoreAction} (hm : m.KeysStored)
    (ha : storeStep m a = some m') : m'.KeysStored := by
  cases a with
  | other =>
      obtain rfl := Option.some.inj ha
      exact hm
  | run op =>
      obtain rfl := Option.some.inj ha
      cases m.perform_effect op with
      | keep runs keys =>
          intro key id hkey
          rw [keys] at hkey
          rw [runs]
          exact hm key id hkey
      | put _ runs keys =>
          intro key id hkey
          rw [keys] at hkey
          rw [runs]
          exact Memory.lookup_insert_isSome (hm key id hkey)
      | @create _ attached key' _ _ _ store =>
          intro key id hkey
          rw [store, Memory.storeRun_keys] at hkey
          rw [store]
          split at hkey
          · obtain rfl := Option.some.inj hkey
            exact ⟨attached, AList.lookup_insert _⟩
          · exact Memory.lookup_insert_isSome (hm key id hkey)

theorem Memory.indexed_empty : Memory.Indexed {} where
  id h := by cases h
  keys _ _ h := by cases h

theorem Memory.Indexed.perform (hm : m.Indexed) (op : RunOp) : (m.perform op).1.Indexed := by
  refine ⟨?_, hm.keys.step (a := .run op) rfl⟩
  cases m.perform_effect op with
  | keep runs =>
      rw [runs]
      exact hm.id
  | put hrun runs _ named =>
      rw [runs]
      refine Table.of_lookup_insert (P := fun id (run : Run) => run.id = id) ?_ hm.id
      exact named.elim (fun h => h) fun h => h.trans (hm.id hrun)
  | create _ _ _ store =>
      rw [store]
      exact Table.of_lookup_insert (P := fun id (run : Run) => run.id = id) rfl hm.id

theorem Memory.boundTo_eq_some {runID : String} (h : m.boundTo key = some runID) :
    m.idempotencyKeys.lookup key = some runID := by
  rw [Memory.boundTo] at h
  split at h
  · exact h
  · cases h

theorem Memory.storeRun_addsOne (hid : m.runs.lookup run.id = none) (hkey : m.boundTo key = none) :
    m.AddsOne (m.storeRun run key) run key where
  new := hid
  stored := AList.lookup_insert _
  runs _ hne := AList.lookup_insert_ne hne
  fences := rfl
  unbound hne := by rwa [Memory.boundTo, if_pos hne] at hkey
  bound hne := by rw [Memory.storeRun_keys, if_pos ⟨rfl, hne⟩]
  keys key' hne := by
    rw [Memory.storeRun_keys, if_neg]
    rintro ⟨rfl, hkey'⟩
    exact hne.elim (fun h => h rfl) hkey'

theorem Memory.createRun_error {err : Err} (h : m.createRun run key = .error err) :
    m.boundTo key = none := by
  rw [Memory.createRun] at h
  split at h
  · cases h
  · assumption

/-- Only a child without a parent is refused under a bound key. -/
theorem Memory.createChildRun_error {maxChildren : Int} {err : Err}
    (h : m.createChildRun run key maxChildren = .error err) :
    m.boundTo key = none ∨ run.parentRunID = "" := by
  rw [Memory.createChildRun] at h
  split at h
  · exact .inr ‹_›
  · split at h
    · cases h
    · exact .inl ‹_›

theorem Memory.perform_creates (hop : op.creates = some (run, key))
    (hsafe : safeCreation m op = true) :
    ∃ answer, m.perform op = m.createdOr answer ∧
      (∀ err, answer = .error err → m.boundTo key = none) ∧
      (∀ created, answer = .ok created → m.createRun run key = .ok created) ∧
      (m.boundTo key = none → m.runs.lookup run.id = none) := by
  cases op with
  | createRun run' key' =>
      obtain ⟨rfl, rfl⟩ := Prod.mk.inj (Option.some.inj hop)
      refine ⟨m.createRun run' key', rfl, fun _ => Memory.createRun_error, fun _ h => h, ?_⟩
      intro hbound
      simpa [safeCreation, hbound] using hsafe
  | createChildRun run' key' maxChildren =>
      obtain ⟨rfl, rfl⟩ := Prod.mk.inj (Option.some.inj hop)
      refine ⟨m.createChildRun run' key' maxChildren, rfl, ?_, ?_, ?_⟩
      · intro err herr
        rcases hbound : m.boundTo key' with - | runID
        · rfl
        · rcases Memory.createChildRun_error herr with hnone | hparent
          · rw [hbound] at hnone
            cases hnone
          · simp [safeCreation, hbound, hparent] at hsafe
      · rintro ⟨m', created, isNew⟩ h
        exact Memory.createChildRun_ok h
      · intro hbound
        simpa [safeCreation, hbound] using hsafe
  | getRun | updateRun | claimRunExecution | updateRunFenced | cancelRun | recoverRun => cases hop

end Creations

/-- A child that names no parent is refused although its key is bound. -/
example : ∃ err, (Memory.perform (Memory.storeRun {} { id := "run_1" } "key")
    (.createChildRun { id := "run_2" } "key" 1)).2 = .created (.error err) :=
  ⟨_, rfl⟩

end AgentMesh
