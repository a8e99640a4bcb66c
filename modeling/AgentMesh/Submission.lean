/-
AgentMesh/Submission.lean

Requests that are sent twice.

`POST /api/v1/runs` compares the request with the Run that its key is bound to
on both of its paths: when it looks the key up, and when the store answers that
another request has bound the key in the meantime.  So its answers are those of
one submission, in every interleaving (`submission_idempotent`).

A call of an Agent compares on the first path only, and there it does not ask
whether the Run was routed.  Two calls that race, or a call that names the Agent
to which an earlier one was routed, are answered with a Run that was not asked
for (`agent_call_answers_another`).  Where neither happens, a call is replayed
only to a call with the same input and the same target (`agent_call_replays_same`).
-/
import AgentMesh.Adoption
import AgentMesh.Desk

namespace AgentMesh

open Machine

/-! ### Lookups -/

section Lookups

variable {m : Memory} {key runID : String} {run parent existing : Run} {ask : Ask}

/-- The Run under a bound key is stored, and the key is bound to its ID. -/
theorem Memory.RunsOk.found (hm : m.RunsOk)
    (h : m.getRunByIdempotencyKey key = .ok existing) :
    m.idempotencyKeys.lookup key = some existing.id ∧
      m.runs.lookup existing.id = some existing := by
  rw [Memory.getRunByIdempotencyKey] at h
  split at h
  · cases h
  · rename_i runID hkey
    obtain rfl := Except.ok.inj h
    obtain ⟨run, hrun⟩ := hm.keys hkey
    rw [Table.getD, hrun, Option.getD_some, hm.id hrun]
    exact ⟨hkey, hrun⟩

/-- So is the Run that answers a creation under a bound key. -/
theorem Memory.RunsOk.raced {m' : Memory} (hm : m.RunsOk)
    (h : m.createRun run key = .ok (m', existing, false)) :
    m.idempotencyKeys.lookup key = some existing.id ∧
      m.runs.lookup existing.id = some existing := by
  obtain ⟨runID, hbound, -, rfl, -⟩ | ⟨-, -, -, htrue⟩ := Memory.createRun_cases h
  · have hkey := Memory.boundTo_eq_some hbound
    obtain ⟨run, hrun⟩ := hm.keys hkey
    rw [Table.getD, hrun, Option.getD_some, hm.id hrun]
    exact ⟨hkey, hrun⟩
  · cases htrue

/-- A replay of the Run under the key of the request. -/
theorem Ask.Owns.replay (hkey : m.idempotencyKeys.lookup ask.key = some run.id)
    (hrun : m.runs.lookup run.id = some run) (hselects : ask.body.Selects run)
    (hparent : run.parentRunID = ask.parentID) : ask.Owns m run :=
  ⟨⟨run, hrun, .refl run⟩, hselects, hparent, fun _ => hkey⟩

end Lookups

/-! ### Submissions of clients -/

section Clients

variable {m m' : Memory} {h : Submit} {o : SubmitOracle} {pc : SubmitPc} {body : RunRequest}
  {header : String} {sub : Submission} {response : Response} {created : Option (String × Run)}
  {existing : Run}

theorem answered_writeRunReplay (haccepts : body.Accepts header sub)
    (hkey : m.idempotencyKeys.lookup sub.key = some existing.id)
    (hrun : m.runs.lookup existing.id = some existing) :
    (Ask.run body header).Answered m (writeRunReplay existing sub) := by
  intro hcode
  rcases writeRunReplay_cases existing haccepts with ⟨⟨hselects, hparent⟩, heq⟩ | ⟨-, heq⟩
  · have hbound : m.idempotencyKeys.lookup (trimSpace header) = some existing.id :=
      haccepts.key ▸ hkey
    rw [heq]
    exact ⟨existing, rfl, .replay hbound hrun hselects hparent⟩
  · rw [heq] at hcode
    exact absurd hcode (by decide)

theorem Ask.Serves.answered (hm : m.RunsOk) (hserves : (Ask.run body header).Serves m h.pc)
    (hs : h.Step o m pc m' created) (hdone : pc = .done response) :
    (Ask.run body header).Answered m' response := by
  cases hs with
  | @refused code hcode =>
      cases hdone
      intro hlt
      have hlt' : code < 300 := hlt
      omega
  | replay hpc found =>
      cases hdone
      rw [hpc] at hserves
      cases hserves with
      | lookup accepts =>
          obtain ⟨hkey, hrun⟩ := hm.found found
          exact answered_writeRunReplay accepts hkey hrun
  | raced hpc create =>
      cases hdone
      rw [hpc] at hserves
      cases hserves with
      | create accepts =>
          obtain ⟨hkey, hrun⟩ := hm.raced create
          exact answered_writeRunReplay accepts hkey hrun
  | accepted hpc =>
      cases hdone
      rw [hpc] at hserves
      cases hserves with
      | enqueue owns => exact fun _ => ⟨_, rfl, owns⟩
  | callAccepted hpc =>
      cases hdone
      rw [hpc] at hserves
      cases hserves with
      | callEnqueue owns => exact fun _ => ⟨_, rfl, owns⟩
  | callFailed =>
      cases hdone
      exact fun hlt => absurd hlt (by decide)
  | callReplay hpc | callRaced hpc | callRunning hpc | callAncestor hpc | callRouted hpc
  | callAgent hpc =>
      rw [hpc] at hserves
      cases hserves
  | missed | missedRoot | parent | routed | agent | create | published | unqueued | failed
  | callLoad | callCreate | callPublished | callUnqueued => cases hdone

/-- In a forest a Run with a fresh ID can be attached to every stored Run. -/
theorem Memory.Forest.attachTo (hm : m.Forest) (hok : m.RunsOk) {run parent : Run}
    (hparent : m.Holds parent) (hnamed : run.id ≠ "") (hfresh : m.runs.lookup run.id = none) :
    ∃ run', run.attachTo parent = .ok run' := by
  obtain ⟨stored, hstored, hreq⟩ := hparent
  have hne : parent.id ≠ run.id := by
    intro heq
    rw [heq, hfresh] at hstored
    cases hstored
  obtain ⟨ancestors, hanc⟩ := hm.ancestry hstored
  have hroot := hm.roots hstored hanc
  rw [hreq.rootRunID] at hroot
  have hnext := Memory.parentOf_of_lookup hstored
  rw [hreq.parentRunID] at hnext
  rw [Run.attachTo, if_neg hnamed, if_neg (hok.named hstored), if_neg hne]
  cases hanc with
  | root hnone =>
      have htop : parent.parentRunID = "" := by
        by_contra hp
        rw [if_neg hp, hnone] at hnext
        cases hnext
      rw [if_pos htop, if_neg (not_not.mpr (show parent.rootRunID = "" from hroot))]
      exact ⟨_, rfl⟩
  | @child _ p above hp rest =>
      have hup : parent.parentRunID ≠ "" := by
        intro htop
        rw [if_pos htop, hp] at hnext
        cases hnext
      -- the root is one of the ancestors, so it is stored
      have hmem : parent.rootRunID ∈ p :: above := by
        rw [hroot, List.getLast?_eq_getLast_of_ne_nil (List.cons_ne_nil p above)]
        exact List.getLast_mem _
      obtain ⟨v, hv⟩ := (Ancestry.child hp rest).of_mem hmem
      obtain ⟨root, hstoredRoot, -⟩ := Memory.parentOf_eq_some hv
      have hself : parent.rootRunID ≠ run.id := by
        intro heq
        rw [heq, hfresh] at hstoredRoot
        cases hstoredRoot
      rw [if_neg hup, if_neg (hok.named hstoredRoot), if_neg hself]
      exact ⟨_, rfl⟩

theorem Memory.Forest.attachParent (hm : m.Forest) (hok : m.RunsOk) (run : Run)
    {parent : Option Run} {id : String} (hparent : m.IsParent id parent) (hnamed : run.id ≠ "")
    (hfresh : m.runs.lookup run.id = none) : ∃ run', attachParent run parent = .ok run' := by
  rcases parent with - | parent
  · exact ⟨run, rfl⟩
  · exact hm.attachTo hok hparent.2 hnamed hfresh

/-- A request that finds its key bound to a Run that it has not asked for. -/
theorem Submit.handle_conflict {run : Run} {ask : Ask} (hask : ask = .run body header)
    (hm : m.Forest) (hok : m.RunsOk)
    (hserves : ask.Serves m h.pc) (hfresh : h.fresh o m = true)
    (hpc : (∃ sub, h.pc = .lookup sub) ∨ ∃ sub parent, h.pc = .create sub parent)
    (hne : trimSpace header ≠ "") (hkey : m.idempotencyKeys.lookup (trimSpace header) = some run.id)
    (hrun : m.runs.lookup run.id = some run)
    (hdiffer : ¬ (body.Selects run ∧ run.parentRunID = trimSpace body.parentRunID)) :
    h.handle o m = some (.done ⟨409, none⟩, { store := m }, none) := by
  subst hask
  have hconflict : ∀ {sub : Submission}, body.Accepts header sub →
      writeRunReplay run sub = ⟨409, none⟩ := by
    intro sub haccepts
    rcases writeRunReplay_cases run haccepts with ⟨hsame, -⟩ | ⟨-, heq⟩
    · exact absurd hsame hdiffer
    · exact heq
  rcases hpc with ⟨sub, hpc⟩ | ⟨sub, parent, hpc⟩
  · rw [hpc] at hserves
    cases hserves with
    | lookup accepts =>
        have hfound : m.getRunByIdempotencyKey sub.key = .ok run := by
          rw [Memory.getRunByIdempotencyKey, accepts.key, hkey]
          simp [Table.getD, hrun]
        simp only [Submit.handle, hpc, hfound, hconflict accepts]
  · rw [hpc] at hserves
    cases hserves with
    | create accepts isParent =>
        have hid : o.newID ≠ "" ∧ m.runs.lookup o.newID = none := by
          simpa [Submit.fresh, hpc] using hfresh
        obtain ⟨run', hattach⟩ :=
          hm.attachParent hok (h.newRun sub o.newID o.now) isParent hid.1 hid.2
        have hraced : m.createRun run' sub.key = .ok (m, run, false) := by
          rw [Memory.createRun, accepts.key, if_pos hne, hkey]
          simp [Table.getD, hrun]
        simp only [Submit.handle, hpc, hattach, hraced, hconflict accepts]

end Clients

/-- **Submission is idempotent.**  Under a key at most one Run is created.  A request that is
answered with success gets the Run that the key is bound to, and that Run has its input, its
parent and its target.  A request that finds the key bound to another Run gets a conflict and
changes nothing. -/
theorem submission_idempotent {d : Desk} {key : String} (hd : Runs deskStep Free {} d)
    (hkey : key ≠ "") :
    d.mesh.created key ≤ 1 ∧
    ∀ {h body header}, d.asks h = some (.run body header) → trimSpace header = key →
      (∀ {response}, d.response h = some response → response.code < 300 →
        ∃ run stored, response.run = some run ∧
          d.mesh.store.idempotencyKeys.lookup key = some run.id ∧
          d.mesh.store.runs.lookup run.id = some stored ∧ run.SameRequest stored ∧
          body.Selects stored ∧ stored.parentRunID = trimSpace body.parentRunID) ∧
      ∀ {run o d'}, d.mesh.store.idempotencyKeys.lookup key = some run.id →
        d.mesh.store.runs.lookup run.id = some run →
        ¬ (body.Selects run ∧ run.parentRunID = trimSpace body.parentRunID) →
        (∃ sub, (d.mesh.submits h).pc = .lookup sub) ∨
          (∃ sub parent, (d.mesh.submits h).pc = .create sub parent) →
        deskStep d (.handle h o) = some d' →
        d'.response h = some ⟨409, none⟩ ∧ d'.mesh.store = d.mesh.store ∧
          d'.mesh.events = d.mesh.events ∧ d'.made = d.made := by
  have hinv := deskInv_runs hd
  refine ⟨(createdOnce_runs (mesh_runs hd) key hkey).1, ?_⟩
  intro h body header hask hheader
  refine ⟨?_, ?_⟩
  · intro response hresponse hcode
    obtain ⟨run, hrun, howns⟩ := answered_runs (A := fun ask => ∃ body header, ask = .run body header)
      (fun hu _ hA hask hh => by
        obtain ⟨body, header, rfl⟩ := hA
        exact (hu.serves hask).answered hu.run.ok (Submit.handle_step hh) rfl)
      hd ⟨body, header, rfl⟩ hask hresponse hcode
    obtain ⟨stored, hstored, hreq⟩ := howns.holds
    refine ⟨run, stored, hrun, ?_, hstored, hreq, howns.selects.congr hreq, ?_⟩
    · subst hheader
      exact howns.bound hkey
    · exact hreq.parentRunID.trans howns.parent
  · intro run o d' hbound hrun hdiffer hpc ha
    subst hheader
    cases Desk.move_of_step ha with
    | ask sent => cases sent
    | @handled h' o' pc e created action fresh handle mesh _ made =>
        obtain ⟨rfl, rfl⟩ := Action.handle.inj action
        have hconflict := Submit.handle_conflict rfl hinv.forest hinv.run.ok (hinv.serves hask) fresh
          hpc hkey hbound hrun hdiffer
        obtain ⟨rfl, rfl, rfl⟩ :
            pc = .done ⟨409, none⟩ ∧ e = { store := d.mesh.store } ∧ created = none := by
          simpa using handle.symm.trans hconflict
        refine ⟨?_, ?_, ?_, ?_⟩
        · rw [Desk.response, mesh, State.handled_self]
        · rw [mesh]
          rfl
        · rw [mesh]
          exact List.append_nil _
        · rw [made, Desk.entry_none, List.append_nil]
    | other action => exact absurd rfl (action h o)

/-- Two clients ask for the same under one key at the same time, and are routed to two Agents. -/
def race : List Action :=
  [.request 0 3 "req_1" { requiredCapabilities := ["search"], input := "hello" } "key",
    .request 1 3 "req_2" { requiredCapabilities := [" Search"], input := "hello " } " key",
    .handle 0 {}, .handle 1 {}, .handle 0 { routed := .agent "agent_1" },
    .handle 1 { routed := .agent "agent_2" }, .handle 0 { newID := "run_1" },
    .handle 1 { newID := "run_2" }]

/-- The one that comes second gets the Run of the first. -/
theorem submission_idempotent_race :
    ∃ d, Runs deskStep Free {} d ∧ d.mesh.created "key" ≤ 1 ∧
      (d.response 1).map Response.code = some 200 ∧
      ∃ run stored, (d.response 1).bind Response.run = some run ∧ run.agentID = "agent_1" ∧
        d.mesh.store.idempotencyKeys.lookup "key" = some run.id ∧
        RunRequest.Selects { requiredCapabilities := [" Search"], input := "hello " } stored := by
  obtain ⟨d, hexec, hasks, hcode, hagent⟩ :
      ∃ d, exec deskStep {} race = some d ∧
        d.asks 1 = some (.run { requiredCapabilities := [" Search"], input := "hello " } " key") ∧
        (d.response 1).map Response.code = some 200 ∧
        ((d.response 1).bind Response.run).map Run.agentID = some "agent_1" := by
    refine exists_of_any ?_
    decide +kernel
  have hruns : Runs deskStep Free {} d := runs_exec (fun _ _ => trivial) hexec
  obtain ⟨response, hresponse, hok⟩ := Option.map_eq_some_iff.mp hcode
  obtain ⟨honce, hanswers⟩ := submission_idempotent hruns (show "key" ≠ "" by decide)
  obtain ⟨run, stored, hrun, hbound, -, -, hselects, -⟩ :=
    (hanswers hasks (by decide)).1 hresponse (by omega)
  have hbind : (d.response 1).bind Response.run = some run := by rw [hresponse]; exact hrun
  refine ⟨d, hruns, honce, hcode, run, stored, hbind, ?_, hbound, hselects⟩
  simpa [hbind] using hagent

/-! ### Calls of Agents -/

/-- The same input and the same target: one Agent, or one set of requirements. -/
def RunRequest.SameTarget (body body' : RunRequest) : Prop :=
  trimSpace body.input = trimSpace body'.input ∧ trimSpace body.agentID = trimSpace body'.agentID ∧
    (trimSpace body.agentID = "" →
      normalizeRequirements body.requiredCapabilities
        = normalizeRequirements body'.requiredCapabilities)

/-- No call loses the race for its key, and none names the Agent to which the Run under its key
was routed. -/
def callsApart (d : Desk) : Action → Bool
  | .handle h _ =>
      match (d.mesh.submits h).pc with
      | .callLookup _ sub parent =>
          match d.mesh.store.getRunByIdempotencyKey (agentCallKey parent.id sub.key) with
          | .ok existing =>
              sub.routed || existing.agentID ≠ sub.request.agentID
                || existing.requiredCapabilities = []
          | .error _ => true
      | .callCreate _ sub parent =>
          (d.mesh.store.idempotencyKeys.lookup (agentCallKey parent.id sub.key)).isNone
      | _ => true
  | _ => true

section Calls

variable {d d' : Desk} {m m' : Memory} {h : Submit} {o : SubmitOracle} {call : AgentCall}
  {body body' : RunRequest} {sub : Submission} {parent run existing : Run} {response : Response}

/-- A Run that two requests ask for shows that they ask for the same. -/
theorem RunRequest.Selects.sameTarget (hsel : body.Selects run) (hsel' : body'.Selects run) :
    body.SameTarget body' := by
  obtain ⟨hinput, htarget⟩ := hsel
  obtain ⟨hinput', htarget'⟩ := hsel'
  refine ⟨hinput.symm.trans hinput', ?_⟩
  by_cases hid : trimSpace body.agentID = "" <;> by_cases hid' : trimSpace body'.agentID = ""
  · rw [if_pos hid] at htarget
    rw [if_pos hid'] at htarget'
    exact ⟨hid.trans hid'.symm, fun _ => htarget.trans htarget'.symm⟩
  -- requirements in canonical form are not empty, those of a request for one Agent are
  · rw [if_pos hid] at htarget
    rw [if_neg hid'] at htarget'
    exact absurd htarget'.2 (normalizeRequirements_self htarget).1
  · rw [if_neg hid] at htarget
    rw [if_pos hid'] at htarget'
    exact absurd htarget.2 (normalizeRequirements_self htarget').1
  · rw [if_neg hid] at htarget
    rw [if_neg hid'] at htarget'
    exact ⟨htarget.1.symm.trans htarget'.1, fun h => absurd h hid⟩

/-- What a call compares decides, where an Agent that it names was not picked by routing. -/
theorem writeAgentCallReplay_cases (h : call.Passed m sub parent)
    (hroute : sub.routed = false → existing.agentID = sub.request.agentID →
      existing.requiredCapabilities = []) :
    (call.body.Selects existing ∧ existing.parentRunID = call.parentID) ∧
        writeAgentCallReplay existing sub parent = ⟨200, some existing⟩ ∨
      ¬ (call.body.Selects existing ∧ existing.parentRunID = call.parentID) ∧
        writeAgentCallReplay existing sub parent = ⟨409, none⟩ := by
  rw [h.accepts.selects_iff, ← h.id, writeAgentCallReplay]
  split
  · rename_i hdiffer
    refine .inr ⟨?_, rfl⟩
    rintro ⟨⟨hinput, hrequired, hagent⟩, hparent⟩
    rcases hdiffer with hd | hd | ⟨hr, hd⟩ | ⟨-, hd⟩
    exacts [hd hparent, hd hinput, hd (hagent hr), hd hrequired]
  · rename_i hsame
    push Not at hsame
    obtain ⟨hparent, hinput, hagent, hrequired⟩ := hsame
    refine .inl ⟨⟨⟨hinput, ?_, hagent⟩, hparent⟩, rfl⟩
    -- the requirements are compared for a routed call only
    rcases hr : sub.routed with - | -
    · obtain ⟨-, -, hnil⟩ := h.accepts.explicit hr
      rw [hnil]
      exact hroute hr (hagent hr)
    · exact hrequired hr

theorem AgentCall.Passed.key (h : call.Passed m sub parent) :
    agentCallKey parent.id sub.key = (Ask.call call).key := by
  rw [Ask.key, h.id, h.accepts.key]

theorem ancestry_error {current : Run} {depth : Int} {agents seenRuns : List String}
    (h : agentCallAncestry call sub parent current depth agents seenRuns = .done response) :
    400 ≤ response.code := by
  rw [agentCallAncestry] at h
  repeat' split at h
  all_goals cases h
  all_goals decide

theorem callee_error {ancestorAgents : List String}
    (h : checkCallee call sub parent ancestorAgents = .done response) : 400 ≤ response.code := by
  rw [checkCallee] at h
  split at h
  all_goals cases h
  decide

/-- What keeps the answers of a call apart from other calls: see `callsApart`. -/
structure Submit.Apart (h : Submit) (m : Memory) : Prop where
  route : ∀ {call sub parent existing}, h.pc = .callLookup call sub parent →
    m.getRunByIdempotencyKey (agentCallKey parent.id sub.key) = .ok existing →
    sub.routed = false → existing.agentID = sub.request.agentID →
    existing.requiredCapabilities = []
  free : ∀ {call sub parent}, h.pc = .callCreate call sub parent →
    m.idempotencyKeys.lookup (agentCallKey parent.id sub.key) = none

theorem apart_of_callsApart {n : Nat} (h : callsApart d (.handle n o) = true) :
    (d.mesh.submits n).Apart d.mesh.store where
  route hpc hfound hr hagent := by simpa [callsApart, hpc, hfound, hr, hagent] using h
  free hpc := by simpa [callsApart, hpc] using h

theorem Ask.Serves.callAnswered {pc : SubmitPc} {created : Option (String × Run)} (hm : m.RunsOk)
    (hserves : (Ask.call call).Serves m h.pc) (hapart : h.Apart m)
    (hs : h.Step o m pc m' created) (hdone : pc = .done response) :
    (Ask.call call).Answered m' response := by
  have herror : 400 ≤ response.code → (Ask.call call).Answered m' response := by
    intro hcode hlt
    omega
  cases hs with
  | @refused code hcode =>
      cases hdone
      exact herror hcode
  | callReplay hpc found =>
      cases hdone
      have hroute := hapart.route hpc found
      rw [hpc] at hserves
      cases hserves with
      | callLookup passed =>
          obtain ⟨hkey, hrun⟩ := hm.found found
          rw [passed.key] at hkey
          rcases writeAgentCallReplay_cases passed hroute with ⟨⟨hselects, hparent⟩, heq⟩ | ⟨-, heq⟩
          · rw [heq]
            exact fun _ => ⟨_, rfl, .replay hkey hrun hselects hparent⟩
          · rw [heq]
            exact fun hlt => absurd hlt (by decide)
  | callRaced hpc create =>
      -- the key is free, so the store creates
      obtain ⟨hkey, -⟩ := hm.raced (Memory.createChildRun_ok create)
      rw [hapart.free hpc] at hkey
      cases hkey
  | callAccepted hpc =>
      cases hdone
      rw [hpc] at hserves
      cases hserves with
      | callEnqueue owns => exact fun _ => ⟨_, rfl, owns⟩
  | accepted hpc =>
      cases hdone
      rw [hpc] at hserves
      cases hserves with
      | enqueue owns => exact fun _ => ⟨_, rfl, owns⟩
  | callFailed =>
      cases hdone
      exact herror (by decide)
  | callRunning | callAncestor => exact herror (ancestry_error hdone)
  | callRouted | callAgent => exact herror (callee_error hdone)
  | replay hpc | raced hpc =>
      rw [hpc] at hserves
      cases hserves
  | missed | missedRoot | parent | routed | agent | create | published | unqueued | failed
  | callLoad | callCreate | callPublished | callUnqueued => cases hdone

/-- Every binding of the key of a call comes from a request. -/
def Attributed (d : Desk) : Prop :=
  ∀ parentID idempotencyKey runID,
    d.mesh.store.idempotencyKeys.lookup (agentCallKey parentID idempotencyKey) = some runID →
    ∃ x ∈ d.made, x.key = agentCallKey parentID idempotencyKey ∧ x.run.id = runID

/-- A creation that binds a key is one under the key. -/
theorem Memory.createRun_binds {created : Run} {key key' runID : String}
    (h : m.createRun run key' = .ok (m', created, true))
    (hfree : m.idempotencyKeys.lookup key = none)
    (hbound : m'.idempotencyKeys.lookup key = some runID) : key' = key ∧ created.id = runID := by
  obtain ⟨-, -, -, -, hfalse⟩ | ⟨-, -, rfl, -⟩ := Memory.createRun_cases h
  · cases hfalse
  rw [Memory.storeRun_keys] at hbound
  split at hbound
  · rename_i hand
    exact ⟨hand.1.symm, Option.some.inj hbound⟩
  · rw [hfree] at hbound
    cases hbound

theorem Attributed.step {a : Action} (h : Attributed d) (hd : DeskInv d)
    (ha : deskStep d a = some d') : Attributed d' := by
  have hmesh := mesh_of_deskStep ha
  have hev := (hd.run.step hmesh).2
  intro parentID idempotencyKey runID hbound
  rcases hold : d.mesh.store.idempotencyKeys.lookup (agentCallKey parentID idempotencyKey)
    with - | runID'
  · -- managers create under keys of their own, so a request has bound the key
    have hhandle : ∃ n o, a = .handle n o := by
      obtain ⟨n, o, -, -, hact, -⟩ | ⟨n, o, -, -, hact, -⟩ | ⟨-, -, candidate, -, -, -, step, -, -, -,
        -, hkey, -⟩ := binding_of_step hmesh hold hbound
      · exact ⟨n, o, hact⟩
      · exact ⟨n, o, hact⟩
      · exact absurd hkey (agentCallKey_ne_stepKey _ _ _ _)
    obtain ⟨n, o, rfl⟩ := hhandle
    cases Desk.move_of_step ha with
    | ask sent => cases sent
    | other action => exact absurd rfl (action n o)
    | @handled n' o' pc e created action _ handle mesh asks made =>
        rw [mesh] at hbound
        cases Submit.handle_move handle with
        | silent store =>
            have hsame : e.store.idempotencyKeys = d.mesh.store.idempotencyKeys :=
              congrArg Memory.idempotencyKeys store
            have hnone : e.store.idempotencyKeys.lookup _ = some runID := hbound
            rw [hsame, hold] at hnone
            cases hnone
        | fail _ _ store =>
            obtain ⟨existing, -, -, -, hm⟩ := Memory.updateRun_ok store
            have hnone : e.store.idempotencyKeys.lookup _ = some runID := hbound
            rw [hm, hold] at hnone
            cases hnone
        | @create key run run' _ draft store =>
            obtain ⟨rfl, rfl⟩ := Memory.createRun_binds store hold hbound
            obtain ⟨ask, hask⟩ := hd.asked handle
            refine ⟨⟨ask, _, run'⟩, ?_, rfl, rfl⟩
            rw [made, Desk.entry_some hask]
            exact List.mem_append_right _ List.mem_cons_self
  · obtain rfl : runID' = runID := Option.some.inj ((hev.keys hold).symm.trans hbound)
    obtain ⟨x, hx, hkey, hid⟩ := h _ _ _ hold
    exact ⟨x, made_mono ha hx, hkey, hid⟩

theorem attributed_runs {P : Desk → Action → Prop} (h : Runs deskStep P {} d) : Attributed d := by
  have key : DeskInv d ∧ Attributed d :=
    h.invariant (I := fun d => DeskInv d ∧ Attributed d) ⟨deskInv_init, fun _ _ _ h => nomatch h⟩
      fun hu _ ha => ⟨hu.1.step ha, hu.2.step hu.1 ha⟩
  exact key.2

/-- The request that created the Run under the key of a call asked for that Run. -/
theorem DeskInv.creator (hd : DeskInv d) {x : Made} {key : String} (hx : x ∈ d.made)
    (hkey : x.key = key) (hne : key ≠ "")
    (hbound : d.mesh.store.idempotencyKeys.lookup key = some run.id)
    (hrun : d.mesh.store.runs.lookup run.id = some run) : x.ask.body.Selects run := by
  obtain ⟨hkey', howns⟩ := hd.made hx
  have hid : d.mesh.store.idempotencyKeys.lookup key = some x.run.id := by
    rw [← hkey, hkey']
    exact howns.bound (hkey' ▸ hkey ▸ hne)
  obtain ⟨stored, hstored, hreq⟩ := howns.holds
  rw [← Option.some.inj (hbound.symm.trans hid), hrun] at hstored
  exact Option.some.inj hstored ▸ howns.selects.congr hreq

end Calls

theorem agentCallKey_ne_empty (parentID idempotencyKey : String) :
    agentCallKey parentID idempotencyKey ≠ "" := by
  simp [agentCallKey]

/-- **Replays of Agent calls.**  Where calls keep apart, at most one Run is created under the key
of a call, a call is answered with an existing Run only if the request that created it has the
same input and the same target, and a call that differs from that request gets a conflict. -/
theorem agent_call_replays_same {d : Desk}
    (hd : Runs deskStep (fun d a => callsApart d a = true) {} d) :
    (∀ parentID idempotencyKey, d.mesh.created (agentCallKey parentID idempotencyKey) ≤ 1) ∧
    ∀ {h call}, d.asks h = some (.call call) →
      (∀ {response}, d.response h = some response → response.code = 200 →
        ∃ run x, response.run = some run ∧ x ∈ d.made ∧ x.key = (Ask.call call).key ∧
          x.run.id = run.id ∧ call.body.SameTarget x.ask.body) ∧
      ∀ {x o d' call' sub parent}, x ∈ d.made → x.key = (Ask.call call).key →
        ¬ call.body.SameTarget x.ask.body →
        (d.mesh.submits h).pc = .callLookup call' sub parent →
        callsApart d (.handle h o) = true → deskStep d (.handle h o) = some d' →
        d'.response h = some ⟨409, none⟩ ∧ d'.mesh.store = d.mesh.store ∧ d'.made = d.made := by
  have hinv := deskInv_runs hd
  refine ⟨fun _ _ => (createdOnce_runs (mesh_runs hd) _ (agentCallKey_ne_empty _ _)).1, ?_⟩
  intro h call hask
  refine ⟨?_, ?_⟩
  · intro response hresponse hcode
    obtain ⟨run, hrun, howns⟩ := answered_runs (A := fun ask => ∃ call, ask = .call call)
      (fun hu hP hA hask hh => by
        obtain ⟨call, rfl⟩ := hA
        exact (hu.serves hask).callAnswered hu.run.ok (apart_of_callsApart hP)
          (Submit.handle_step hh) rfl)
      hd ⟨call, rfl⟩ hask hresponse (by omega)
    have hbound := howns.bound (agentCallKey_ne_empty _ _)
    obtain ⟨x, hx, hkey, hid⟩ := attributed_runs hd _ _ _ hbound
    refine ⟨run, x, hrun, hx, hkey, hid, ?_⟩
    obtain ⟨stored, hstored, hreq⟩ := howns.holds
    rw [← hreq.id] at hbound hstored
    exact (howns.selects.congr hreq).sameTarget
      (hinv.creator hx hkey (agentCallKey_ne_empty _ _) hbound hstored)
  · intro x o d' call' sub parent hx hkey hdiffer hpc hapart ha
    have hserves := hinv.serves hask
    rw [hpc] at hserves
    cases hserves with
    | callLookup passed =>
        obtain ⟨hkey', howns⟩ := hinv.made hx
        -- the key is bound to the Run of the other request
        have hbound : d.mesh.store.idempotencyKeys.lookup (agentCallKey parent.id sub.key)
            = some x.run.id := by
          rw [passed.key, ← hkey, hkey']
          exact howns.bound (hkey' ▸ hkey ▸ agentCallKey_ne_empty _ _)
        obtain ⟨stored, hstored, hreq⟩ := howns.holds
        have hfound : d.mesh.store.getRunByIdempotencyKey (agentCallKey parent.id sub.key)
            = .ok stored := by
          rw [Memory.getRunByIdempotencyKey, hbound]
          simp [Table.getD, hstored]
        have hconflict : writeAgentCallReplay stored sub parent = ⟨409, none⟩ := by
          rcases writeAgentCallReplay_cases passed ((apart_of_callsApart hapart).route hpc hfound)
            with ⟨⟨hselects, -⟩, -⟩ | ⟨-, heq⟩
          · exact absurd (hselects.sameTarget (howns.selects.congr hreq)) hdiffer
          · exact heq
        cases Desk.move_of_step ha with
        | ask sent => cases sent
        | other action => exact absurd rfl (action h o)
        | @handled h' o' pc e created action _ handle mesh _ made =>
            obtain ⟨rfl, rfl⟩ := Action.handle.inj action
            obtain ⟨rfl, rfl, rfl⟩ :
                .done ⟨409, none⟩ = pc ∧ { store := d.mesh.store } = e ∧ none = created := by
              simpa [Submit.handle, hpc, hfound, hconflict] using handle
            refine ⟨?_, ?_, ?_⟩
            · rw [Desk.response, mesh, State.handled_self]
            · rw [mesh]
              rfl
            · rw [made, Desk.entry_none, List.append_nil]

/-- A call is sent twice, one after the other. -/
def callTwice : List Action :=
  runningParent ++ prepareCall 1 { agentID := "agent_2", input := "hello" } ++
    [.handle 1 { newID := "run_2" }, .handle 1 {}, .handle 1 {},
      .agentCall 2 3 "req" (callFrom { agentID := "agent_2", input := " hello" }),
      .handle 2 {}, .handle 2 {}]

theorem agent_call_replays_same_twice :
    ∃ d, Runs deskStep (fun d a => callsApart d a = true) {} d ∧
      d.mesh.created (agentCallKey "run_1" "key") ≤ 1 ∧
      ∃ response run x, d.response 2 = some response ∧ response.code = 200 ∧
        response.run = some run ∧ x ∈ d.made ∧ x.run.id = run.id ∧
        RunRequest.SameTarget { agentID := "agent_2", input := " hello" } x.ask.body := by
  obtain ⟨d, hexec, hasks, hcode⟩ :
      ∃ d, exec (guarded deskStep callsApart) {} callTwice = some d ∧
        d.asks 2 = some (.call (callFrom { agentID := "agent_2", input := " hello" })) ∧
        (d.response 2).map Response.code = some 200 := by
    refine exists_of_any ?_
    decide +kernel
  have hruns : Runs deskStep (fun d a => callsApart d a = true) {} d :=
    runs_exec_guarded (fun _ _ h => h) hexec
  obtain ⟨response, hresponse, hok⟩ := Option.map_eq_some_iff.mp hcode
  obtain ⟨honce, hcalls⟩ := agent_call_replays_same hruns
  obtain ⟨run, x, hrun, hx, -, hid, hsame⟩ := (hcalls hasks).1 hresponse hok
  exact ⟨d, hruns, honce _ _, response, run, x, hresponse, hok, hrun, hx, hid, hsame⟩

/-- Two calls with different inputs race for one key. -/
def callsRace : List Action :=
  runningParent ++ prepareCall 1 { agentID := "agent_2", input := "first" } ++
    prepareCall 2 { agentID := "agent_2", input := "second" } ++
    [.handle 1 { newID := "run_2" }, .handle 2 { newID := "run_3" }]

/-- A call is routed to an Agent, and a later one names that Agent. -/
def callsNamed : List Action :=
  runningParent ++ prepareCall 1 { requiredCapabilities := ["search"], input := "hello" } ++
    [.handle 1 { newID := "run_2" }] ++
    (prepareCall 2 { agentID := "agent_2", input := "hello" }).take 3

/-- In both cases the second call is answered with the Run of the first. -/
theorem agent_call_answers_another :
    (∃ d x, Runs deskStep Free {} d ∧ x ∈ d.made ∧ x.ask.body.input = "first" ∧
      d.asks 2 = some (.call (callFrom { agentID := "agent_2", input := "second" })) ∧
      ((d.response 2).map fun r => (r.code, r.run.map Run.id)) = some (200, some x.run.id) ∧
      ¬ RunRequest.SameTarget { agentID := "agent_2", input := "second" } x.ask.body) ∧
    ∃ d x, Runs deskStep Free {} d ∧ x ∈ d.made ∧ x.ask.body.requiredCapabilities = ["search"] ∧
      d.asks 2 = some (.call (callFrom { agentID := "agent_2", input := "hello" })) ∧
      ((d.response 2).map fun r => (r.code, r.run.map Run.id)) = some (200, some x.run.id) ∧
      ¬ RunRequest.SameTarget { agentID := "agent_2", input := "hello" } x.ask.body := by
  refine ⟨?_, ?_⟩
  · obtain ⟨d, hexec, ⟨x, hx, hask, hresponse⟩, hasks⟩ :
        ∃ d, exec deskStep {} callsRace = some d ∧
          (∃ x ∈ d.made, x.ask = .call (callFrom { agentID := "agent_2", input := "first" }) ∧
            ((d.response 2).map fun r => (r.code, r.run.map Run.id)) = some (200, some x.run.id)) ∧
          d.asks 2 = some (.call (callFrom { agentID := "agent_2", input := "second" })) := by
      refine exists_of_any ?_
      decide +kernel
    refine ⟨d, x, runs_exec (fun _ _ => trivial) hexec, hx, by rw [hask]; rfl, hasks, hresponse, ?_⟩
    rw [hask]
    intro hsame
    exact absurd hsame.1 (by decide)
  · obtain ⟨d, hexec, ⟨x, hx, hask, hresponse⟩, hasks⟩ :
        ∃ d, exec deskStep {} callsNamed = some d ∧
          (∃ x ∈ d.made,
            x.ask = .call (callFrom { requiredCapabilities := ["search"], input := "hello" }) ∧
            ((d.response 2).map fun r => (r.code, r.run.map Run.id)) = some (200, some x.run.id)) ∧
          d.asks 2 = some (.call (callFrom { agentID := "agent_2", input := "hello" })) := by
      refine exists_of_any ?_
      decide +kernel
    refine ⟨d, x, runs_exec (fun _ _ => trivial) hexec, hx, by rw [hask]; rfl, hasks, hresponse, ?_⟩
    rw [hask]
    intro hsame
    exact absurd hsame.2.1 (by decide)

end AgentMesh
