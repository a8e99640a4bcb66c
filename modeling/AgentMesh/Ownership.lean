/-
AgentMesh/Ownership.lean

Who may write a stored Run.

A party of the system holds a Run at a fence when it may still write to it with
that fence: an execution at the fence that its claim returned, and the request
that created the Run at fence zero, by an unfenced write.  `Owned` is what ties
these parties to the store: no two of them hold the same Run at the same fence,
no fence exceeds the stored one, and the party that holds the stored fence has
an up-to-date copy of the Run, unless the Run was canceled in the meantime.
So a write that the store accepts continues from the stored record, although
the store itself compares nothing but the fence.

Each operation of the store comes with the rule that says how it changes
`Owned`.  The parties are an arbitrary type here.
-/
import AgentMesh.Engine

namespace AgentMesh

/-! ### Views of a Run -/

/-- The attempt counter agrees with the status and stays within the limit. -/
structure Run.WellCounted (r : Run) : Prop where
  nonneg : 0 ≤ r.attempt
  started : r.status = .running → 1 ≤ r.attempt
  bounded : 1 ≤ r.maxAttempts → r.attempt ≤ r.maxAttempts
  waiting : r.status = .queued → 1 ≤ r.maxAttempts → r.attempt < r.maxAttempts

/-- What a holder knows of its Run. -/
inductive View
  /-- Nothing yet: the Run is claimed and not reloaded. -/
  | unknown
  /-- The stored record. -/
  | exact (v : Run)
  /-- The stored record, with a missing attempt limit filled in. -/
  | limited (v : Run)

/-- A copy of a Run that agrees with it, except that a missing attempt limit may
have been filled in. -/
structure Run.LimitOf (v run : Run) : Prop where
  eq : v = { run with maxAttempts := v.maxAttempts }
  limit : 1 ≤ run.maxAttempts → v.maxAttempts = run.maxAttempts

/-- A view agrees with the stored record. -/
def View.Agrees : View → Run → Prop
  | .unknown, _ => True
  | .exact v, run => v = run
  | .limited v, run => v.LimitOf run

/-- The transitions that a holder stores. -/
inductive View.Advance : View → Run → Prop
  | attempt {v v' : Run} (now : Time) (h : v.nextAttempt now = .ok v') : Advance (.limited v) v'
  | succeed {v v' : Run} (output : String) (now : Time) (h : v.succeed output now = .ok v') :
      Advance (.exact v) v'
  | fail {v v' : Run} (cause : Option Err) (now : Time) (h : v.fail cause now = .ok v') :
      Advance (.exact v) v'

/-- How a stored Run changes when its holder writes: another attempt, or the end. -/
structure Run.Successor (run run' : Run) : Prop where
  active : run.IsActive
  request : run.SameRequest run'
  limit : 1 ≤ run.maxAttempts → run'.maxAttempts = run.maxAttempts
  next : run'.status = .running ∧ run'.attempt = run.attempt + 1 ∨
    run'.IsTerminal ∧ run'.attempt = run.attempt
  counted : run.WellCounted → run'.WellCounted

section Transitions

variable {v v' run : Run} {now : Time}

theorem Run.LimitOf.refl (run : Run) : run.LimitOf run := ⟨rfl, fun _ => rfl⟩

theorem Run.LimitOf.withLimit (h : v.LimitOf run) (e : Engine) : (v.withLimit e).LimitOf run := by
  obtain ⟨heq, hlimit⟩ := h
  refine ⟨?_, ?_⟩
  · rw [heq]
    rfl
  · intro h1
    have hv := hlimit h1
    simp only [Run.withLimit, hv, if_neg (show ¬ run.maxAttempts < 1 by omega)]

theorem Run.nextAttempt_ok (h : v.nextAttempt now = .ok v') :
    v.IsActive ∧ ¬ v.Exhausted ∧ v'.status = .running ∧ v'.attempt = v.attempt + 1 ∧
      v'.maxAttempts = v.maxAttempts ∧ v.SameRequest v' := by
  rw [Run.nextAttempt] at h
  split at h
  · obtain ⟨hs, hex, rfl⟩ := Run.start_ok h
    exact ⟨.inl hs, hex, rfl, rfl, rfl, ⟨rfl, rfl, rfl, rfl, rfl, rfl⟩⟩
  · obtain ⟨hs, hex, rfl⟩ := Run.retry_ok h
    exact ⟨.inr hs, hex, hs, rfl, rfl, ⟨rfl, rfl, rfl, rfl, rfl, rfl⟩⟩

/-- A Run that has ended is well counted if it was before, with the same counter. -/
theorem Run.WellCounted.ended (h : run.WellCounted) (hterm : v'.IsTerminal)
    (hatt : v'.attempt = run.attempt) (hmax : v'.maxAttempts = run.maxAttempts) :
    v'.WellCounted := by
  rw [Run.IsTerminal] at hterm
  refine ⟨hatt ▸ h.nonneg, ?_, ?_, ?_⟩
  · intro hr
    simp [hr] at hterm
  · intro h1
    rw [hatt, hmax]
    exact h.bounded (hmax ▸ h1)
  · intro hq
    simp [hq] at hterm

/-- What a holder stores is a successor of every record its view agrees with. -/
theorem View.Advance.successor {x : View} (h : x.Advance v') (hx : x.Agrees run) :
    run.Successor v' := by
  cases h with
  | @attempt v _ now h =>
      obtain ⟨heq, hlimit⟩ : v.LimitOf run := hx
      obtain ⟨hact, hex, hs, hatt, hmax, hreq⟩ := Run.nextAttempt_ok h
      rw [heq] at hact hatt hreq
      have hroom : ¬ (0 < v.maxAttempts ∧ v.maxAttempts ≤ run.attempt) := by
        rw [heq] at hex
        exact hex
      refine ⟨hact, ⟨hreq.1, hreq.2, hreq.3, hreq.4, hreq.5, hreq.6⟩, fun h1 => hmax.trans (hlimit h1),
        .inl ⟨hs, hatt⟩, ?_⟩
      intro hc
      have hnonneg := hc.nonneg
      simp only at hatt
      refine ⟨by omega, fun _ => by omega, fun h1 => by omega, ?_⟩
      intro hq
      rw [hs] at hq
      cases hq
  | @succeed v _ output now h =>
      obtain rfl : v = run := hx
      obtain ⟨hs, rfl⟩ := Run.succeed_ok h
      exact ⟨.inr hs, ⟨rfl, rfl, rfl, rfl, rfl, rfl⟩, fun _ => rfl, .inr ⟨.inl rfl, rfl⟩,
        fun hc => hc.ended (.inl rfl) rfl rfl⟩
  | @fail v _ cause now h =>
      obtain rfl : v = run := hx
      obtain ⟨hact, err, -, rfl⟩ := Run.fail_ok h
      exact ⟨hact, ⟨rfl, rfl, rfl, rfl, rfl, rfl⟩, fun _ => rfl, .inr ⟨.inr (.inl rfl), rfl⟩,
        fun hc => hc.ended (.inr (.inl rfl)) rfl rfl⟩

theorem View.Advance.sameRequest (h : (View.exact run).Advance v') : run.SameRequest v' :=
  (View.Advance.successor h (rfl : (View.exact run).Agrees run)).request

end Transitions

/-! ### The store -/

/-- What holds of the Runs of every reachable store. -/
structure Memory.RunsOk (m : Memory) : Prop where
  id : ∀ {id run}, m.runs.lookup id = some run → run.id = id
  named : ∀ {id run}, m.runs.lookup id = some run → id ≠ ""
  status : ∀ {id run}, m.runs.lookup id = some run → run.status ≠ .unset
  counted : ∀ {id run}, m.runs.lookup id = some run → run.WellCounted
  fence_nonneg : ∀ id, 0 ≤ m.fence id
  fence_absent : ∀ {id}, m.runs.lookup id = none → m.fence id = 0
  keys : ∀ {key id}, m.idempotencyKeys.lookup key = some id → ∃ run, m.runs.lookup id = some run

/-- How Runs develop: none is removed, none is asked to do something else, none
changes after its end, and no key is bound anew. -/
structure Memory.Evolves (m m' : Memory) : Prop where
  runs : ∀ {id run}, m.runs.lookup id = some run →
    ∃ run', m'.runs.lookup id = some run' ∧ run.SameRequest run' ∧ (run.IsTerminal → run' = run)
  keys : ∀ {key id}, m.idempotencyKeys.lookup key = some id →
    m'.idempotencyKeys.lookup key = some id

theorem Memory.Evolves.refl (m : Memory) : m.Evolves m :=
  ⟨fun h => ⟨_, h, .refl _, fun _ => rfl⟩, fun h => h⟩

theorem Memory.Evolves.trans {m₁ m₂ m₃ : Memory} (h : m₁.Evolves m₂) (h' : m₂.Evolves m₃) :
    m₁.Evolves m₃ := by
  refine ⟨fun hrun => ?_, fun hkey => h'.keys (h.keys hkey)⟩
  obtain ⟨run₂, hrun₂, hreq, hterm⟩ := h.runs hrun
  obtain ⟨run₃, hrun₃, hreq', hterm'⟩ := h'.runs hrun₂
  refine ⟨run₃, hrun₃, hreq.trans hreq', ?_⟩
  intro ht
  obtain rfl := hterm ht
  exact hterm' ht

/-- A change of the store that leaves its Runs alone. -/
structure Memory.SameRuns (m m' : Memory) : Prop where
  runs : m'.runs = m.runs
  runFences : m'.runFences = m.runFences
  idempotencyKeys : m'.idempotencyKeys = m.idempotencyKeys

section Store

variable {m m' : Memory} {id key : String} {run run' : Run} {f : Int}

theorem Memory.SameRuns.fence (h : m.SameRuns m') (id : String) : m'.fence id = m.fence id := by
  rw [Memory.fence, h.runFences, Memory.fence]

theorem Memory.SameRuns.runsOk (h : m.SameRuns m') (hm : m.RunsOk) : m'.RunsOk where
  id hrun := hm.id (h.runs ▸ hrun)
  named hrun := hm.named (h.runs ▸ hrun)
  status hrun := hm.status (h.runs ▸ hrun)
  counted hrun := hm.counted (h.runs ▸ hrun)
  fence_nonneg id := h.fence id ▸ hm.fence_nonneg id
  fence_absent {id} habs := h.fence id ▸ hm.fence_absent (h.runs ▸ habs)
  keys hkey := h.runs ▸ hm.keys (h.idempotencyKeys ▸ hkey)

theorem Memory.SameRuns.evolves (h : m.SameRuns m') : m.Evolves m' where
  runs hrun := ⟨_, h.runs ▸ hrun, .refl _, fun _ => rfl⟩
  keys hkey := h.idempotencyKeys ▸ hkey

theorem Memory.fence_issue (m : Memory) (id id' : String) (f : Int) :
    Memory.fence { m with runFences := m.runFences.insert id f } id'
      = if id' = id then f else m.fence id' := by
  by_cases h : id' = id
  · subst h
    simp
  · simp [Memory.fence, Table.getD_insert_ne, h]

/-- A Run is stored under its ID. -/
theorem Memory.RunsOk.put (hm : m.RunsOk) (hid : run'.id = id) (hn : id ≠ "")
    (hs : run'.status ≠ .unset) (hc : run'.WellCounted) :
    Memory.RunsOk { m with runs := m.runs.insert id run' } where
  id hr := Table.of_lookup_insert (P := fun id r => r.id = id) hid hm.id hr
  named hr := Table.of_lookup_insert (P := fun id _ => id ≠ "") hn hm.named hr
  status hr := Table.of_lookup_insert (P := fun _ r => r.status ≠ .unset) hs hm.status hr
  counted hr := Table.of_lookup_insert (P := fun _ r => r.WellCounted) hc hm.counted hr
  fence_nonneg := hm.fence_nonneg
  fence_absent {id'} habs := by
    rw [Table.lookup_insert_eq] at habs
    split at habs
    · cases habs
    · exact hm.fence_absent habs
  keys {key id'} hkey := by
    obtain ⟨r, hr⟩ := hm.keys hkey
    by_cases h : id' = id
    · exact ⟨run', by rw [Table.lookup_insert_eq, if_pos h]⟩
    · exact ⟨r, by rw [Table.lookup_insert_eq, if_neg h, hr]⟩

/-- A stored Run is given a new fence. -/
theorem Memory.RunsOk.issue (hm : m.RunsOk) (hrun : m.runs.lookup id = some run) (hf : 0 ≤ f) :
    Memory.RunsOk { m with runFences := m.runFences.insert id f } where
  id := hm.id
  named := hm.named
  status := hm.status
  counted := hm.counted
  fence_nonneg id' := by
    rw [Memory.fence_issue]
    split
    · exact hf
    · exact hm.fence_nonneg id'
  fence_absent {id'} habs := by
    rw [Memory.fence_issue]
    split
    · rename_i h
      rw [h, hrun] at habs
      cases habs
    · exact hm.fence_absent habs
  keys := hm.keys

/-- A Run is created. -/
theorem Memory.RunsOk.create (hm : m.RunsOk) (hn : run.id ≠ "") (hs : run.status ≠ .unset)
    (hc : run.WellCounted) (key : String) : (m.storeRun run key).RunsOk := by
  have hput := hm.put rfl hn hs hc
  refine ⟨hput.id, hput.named, hput.status, hput.counted, hput.fence_nonneg, hput.fence_absent,
    ?_⟩
  intro key' id' hkey
  simp only [Memory.storeRun] at hkey ⊢
  split at hkey
  · rw [Table.lookup_insert_eq] at hkey
    split at hkey
    · obtain rfl := Option.some.inj hkey
      exact ⟨run, by simp⟩
    · exact hput.keys hkey
  · exact hput.keys hkey

/-- After a creation under a key, the Run that it returns is the one under the key. -/
theorem Memory.RunsOk.created (hm : m.RunsOk) (hm' : m'.RunsOk) (hkey : key ≠ "") {isNew : Bool}
    (h : m.createRun run key = .ok (m', run', isNew)) :
    m'.idempotencyKeys.lookup key = some run'.id ∧ m'.runs.lookup run'.id = some run' ∧
      run'.id ≠ "" := by
  have key_fact : m'.idempotencyKeys.lookup key = some run'.id ∧
      m'.runs.lookup run'.id = some run' := by
    obtain ⟨-, rfl, runID, -, hbound, hrun'⟩ | ⟨-, -, rfl, -⟩ := Memory.createRun_ok h
    · obtain ⟨found, hfound⟩ := hm.keys hbound
      have heq : run' = found := by rw [hrun', Table.getD, hfound, Option.getD_some]
      rw [heq, hm.id hfound]
      exact ⟨hbound, hfound⟩
    · simp [Memory.storeRun, hkey]
  exact ⟨key_fact.1, key_fact.2, hm'.named key_fact.2⟩

theorem Memory.Evolves.put (hrun : m.runs.lookup id = some run) (hact : run.IsActive)
    (hreq : run.SameRequest run') : m.Evolves { m with runs := m.runs.insert id run' } where
  runs {id' r} hr := by
    rw [Table.lookup_insert_eq]
    split
    · rename_i h
      rw [h, hrun] at hr
      obtain rfl := Option.some.inj hr
      exact ⟨run', rfl, hreq, fun hterm => absurd hterm hact.not_terminal⟩
    · exact ⟨r, hr, .refl r, fun _ => rfl⟩
  keys hkey := hkey

theorem Memory.Evolves.create (habs : m.runs.lookup run.id = none)
    (hkey : key ≠ "" → m.idempotencyKeys.lookup key = none) : m.Evolves (m.storeRun run key) where
  runs {id' r} hr := by
    rw [Memory.storeRun, Table.lookup_insert_eq]
    split
    · rename_i h
      rw [h, habs] at hr
      cases hr
    · exact ⟨r, hr, .refl r, fun _ => rfl⟩
  keys {key' id'} hk := by
    simp only [Memory.storeRun]
    split
    · rename_i hne
      rw [Table.lookup_insert_eq]
      split
      · rename_i h
        rw [h, hkey hne] at hk
        cases hk
      · exact hk
    · exact hk

end Store

/-! ### Holders -/

/-- A party that may write to a Run: the fence it writes with, and what it
knows of the Run. -/
structure Hold where
  runID : String
  fence : Int
  view : View

/-- The holders of Runs agree with the store. -/
structure Owned {ι : Type*} (m : Memory) (hold : ι → Option Hold) : Prop where
  unique : ∀ {p q x y}, hold p = some x → hold q = some y → x.runID = y.runID →
    x.fence = y.fence → p = q
  le : ∀ {p x}, hold p = some x → x.fence ≤ m.fence x.runID
  stored : ∀ {p x}, hold p = some x → ∃ run, m.runs.lookup x.runID = some run
  current : ∀ {p x run}, hold p = some x → x.fence = m.fence x.runID →
    m.runs.lookup x.runID = some run → run.status = .canceled ∨ run.IsActive ∧ x.view.Agrees run

section Holders

variable {ι : Type*} {m m' : Memory} {hold hold' : ι → Option Hold} {p : ι} {x y : Hold}
variable {id key : String} {run run' : Run} {f : Int}

/-- Parties may let go of their Runs at any time. -/
theorem Owned.frame (h : Owned m hold) (hruns : m'.runs = m.runs)
    (hfences : m'.runFences = m.runFences) (hhold : ∀ p, hold' p = hold p ∨ hold' p = none) :
    Owned m' hold' := by
  have hfence : ∀ id, m'.fence id = m.fence id := by
    intro id
    rw [Memory.fence, hfences, Memory.fence]
  have hsub : ∀ {p x}, hold' p = some x → hold p = some x := by
    intro p x hp
    rcases hhold p with h | h
    · rw [← h, hp]
    · rw [h] at hp
      cases hp
  refine ⟨fun hp hq => h.unique (hsub hp) (hsub hq), fun hp => ?_, fun hp => ?_, fun hp hf hr => ?_⟩
  · rw [hfence]
    exact h.le (hsub hp)
  · rw [hruns]
    exact h.stored (hsub hp)
  · rw [hfence] at hf
    rw [hruns] at hr
    exact h.current (hsub hp) hf hr

/-- A new fence takes the Run from whoever held it at the old one. -/
theorem Owned.issue (h : Owned m hold) (hf : m.fence id < f) :
    Owned { m with runFences := m.runFences.insert id f } hold where
  unique := h.unique
  le {q z} hq := by
    have hle := h.le hq
    rw [Memory.fence_issue]
    split
    · rename_i hid
      rw [hid] at hle
      omega
    · exact hle
  stored := h.stored
  current {q z run} hq hcur hrun := by
    rw [Memory.fence_issue] at hcur
    split at hcur
    · rename_i hid
      have hle := h.le hq
      rw [hid] at hle
      omega
    · exact h.current hq hcur hrun

/-- A Run is stored that every holder of its current fence already knows. -/
theorem Owned.put (h : Owned m hold)
    (hcur : ∀ {q z}, hold q = some z → z.runID = id → z.fence = m.fence id →
      run'.status = .canceled ∨ run'.IsActive ∧ z.view.Agrees run') :
    Owned { m with runs := m.runs.insert id run' } hold where
  unique := h.unique
  le := h.le
  stored {q z} hq := by
    rw [Table.lookup_insert_eq]
    split
    · exact ⟨run', rfl⟩
    · exact h.stored hq
  current {q z run} hq hz hrun := by
    rw [Table.lookup_insert_eq] at hrun
    split at hrun
    · rename_i hid
      obtain rfl := Option.some.inj hrun
      exact hcur hq hid (hid ▸ hz)
    · exact h.current hq hz hrun

/-- An accepted write continues from the stored record. -/
theorem Owned.successor (h : Owned m hold) (hp : hold p = some x)
    (hcur : x.fence = m.fence x.runID) (hrun : m.runs.lookup x.runID = some run)
    (hc : run.status ≠ .canceled) (hadv : x.view.Advance run') : run.Successor run' := by
  rcases h.current hp hcur hrun with h | ⟨-, hagree⟩
  · exact absurd h hc
  · exact hadv.successor hagree

variable [DecidableEq ι]

/-- A party takes a Run that nobody else holds at its current fence. -/
theorem Owned.acquire (h : Owned m hold) (view : View) (hrun : m.runs.lookup id = some run)
    (hact : run.IsActive) (hview : view.Agrees run)
    (hfree : ∀ {q z}, hold q = some z → z.runID = id → z.fence ≠ m.fence id) (p : ι) :
    Owned m (Function.update hold p (some ⟨id, m.fence id, view⟩)) := by
  have hcases : ∀ {q z}, Function.update hold p (some ⟨id, m.fence id, view⟩) q = some z →
      q = p ∧ z = ⟨id, m.fence id, view⟩ ∨ q ≠ p ∧ hold q = some z := by
    intro q z hq
    by_cases hqp : q = p
    · subst hqp
      exact .inl ⟨rfl, by simpa using hq.symm⟩
    · exact .inr ⟨hqp, by simpa [hqp] using hq⟩
  refine ⟨?_, ?_, ?_, ?_⟩
  · intro q r z z' hq hr hids hfs
    rcases hcases hq with ⟨hqp, rfl⟩ | ⟨-, hq'⟩ <;> rcases hcases hr with ⟨hrp, rfl⟩ | ⟨-, hr'⟩
    · rw [hqp, hrp]
    · exact absurd hfs.symm (hfree hr' hids.symm)
    · exact absurd hfs (hfree hq' hids)
    · exact h.unique hq' hr' hids hfs
  · intro q z hq
    rcases hcases hq with ⟨-, rfl⟩ | ⟨-, hq⟩
    · exact le_rfl
    · exact h.le hq
  · intro q z hq
    rcases hcases hq with ⟨-, rfl⟩ | ⟨-, hq⟩
    · exact ⟨run, hrun⟩
    · exact h.stored hq
  · intro q z r hq hcur hr
    rcases hcases hq with ⟨-, rfl⟩ | ⟨-, hq⟩
    · obtain rfl : run = r := Option.some.inj (hrun.symm.trans hr)
      exact .inr ⟨hact, hview⟩
    · exact h.current hq hcur hr

/-- A party that learns more about the Run that it holds. -/
theorem Owned.learn (h : Owned m hold) (view : View) (hp : hold p = some x)
    (hview : ∀ run, m.runs.lookup x.runID = some run → run.status ≠ .canceled →
      x.view.Agrees run → view.Agrees run) :
    Owned m (Function.update hold p (some { x with view := view })) := by
  have hback : ∀ {q z}, Function.update hold p (some { x with view := view }) q = some z →
      ∃ z', hold q = some z' ∧ z.runID = z'.runID ∧ z.fence = z'.fence ∧
        ∀ run, m.runs.lookup z'.runID = some run → run.status ≠ .canceled →
          z'.view.Agrees run → z.view.Agrees run := by
    intro q z hq
    by_cases hqp : q = p
    · subst hqp
      obtain rfl : { x with view := view } = z := by simpa using hq
      exact ⟨x, hp, rfl, rfl, hview⟩
    · exact ⟨z, by simpa [hqp] using hq, rfl, rfl, fun _ _ _ hz => hz⟩
  refine ⟨fun hq hr hids hfs => ?_, fun hq => ?_, fun hq => ?_, fun {q z run} hq hcur hrun => ?_⟩
  · obtain ⟨z, hz, hzid, hzf, -⟩ := hback hq
    obtain ⟨z', hz', hzid', hzf', -⟩ := hback hr
    exact h.unique hz hz' (hzid ▸ hzid' ▸ hids) (hzf ▸ hzf' ▸ hfs)
  · obtain ⟨z, hz, hzid, hzf, -⟩ := hback hq
    rw [hzid, hzf]
    exact h.le hz
  · obtain ⟨z, hz, hzid, -⟩ := hback hq
    rw [hzid]
    exact h.stored hz
  · obtain ⟨z, hz, hzid, hzf, hzv⟩ := hback hq
    rw [hzid] at hcur hrun
    rcases h.current hz (hzf ▸ hcur) hrun with hc | ⟨hact, hagree⟩
    · exact .inl hc
    · exact (em (run.status = .canceled)).imp_right fun hc => ⟨hact, hzv _ hrun hc hagree⟩

/-- A party lets go of its Run. -/
theorem Owned.release (h : Owned m hold) (p : ι) : Owned m (Function.update hold p none) := by
  apply h.frame rfl rfl
  intro q
  by_cases hqp : q = p
  · subst hqp
    exact .inr (by simp)
  · exact .inl (by simp [hqp])

/-- The holder of the current fence stores an active Run and knows it. -/
theorem Owned.write (h : Owned m hold) (hp : hold p = some x) (hcur : x.fence = m.fence x.runID)
    (hact : run'.IsActive) :
    Owned { m with runs := m.runs.insert x.runID run' }
      (Function.update hold p (some { x with view := .exact run' })) := by
  have hforget := h.learn .unknown hp fun _ _ _ _ => trivial
  have hput : Owned { m with runs := m.runs.insert x.runID run' }
      (Function.update hold p (some { x with view := .unknown })) := by
    refine hforget.put fun {q z} hq hid hz => .inr ⟨hact, ?_⟩
    -- only `p` holds the current fence
    obtain rfl : q = p :=
      hforget.unique hq (Function.update_self ..) hid (hz.trans hcur.symm)
    obtain rfl : { x with view := .unknown } = z := by simpa using hq
    trivial
  have hlearn := hput.learn (p := p) (.exact run') (Function.update_self ..) fun r hr _ _ => by
    simpa [View.Agrees] using hr
  simpa using hlearn

/-- The holder of the current fence ends the Run. -/
theorem Owned.finish (h : Owned m hold) (hp : hold p = some x)
    (hcur : x.fence = m.fence x.runID) :
    Owned { m with runs := m.runs.insert x.runID run' } (Function.update hold p none) := by
  apply (h.release p).put
  intro q z hq hid hz
  by_cases hqp : q = p
  · subst hqp
    simp at hq
  · exact absurd (h.unique (by simpa [hqp] using hq) hp hid (hz.trans hcur.symm)) hqp

end Holders

end AgentMesh
