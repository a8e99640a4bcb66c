/-
AgentMesh/Approvals.lean

The life of an approval in the Memory store.

A `Ledger` is a store with the latest clock value and the log of all successful
calls: each entry is an approval as the call left it and the time of the call.
`Ledger.path` is what the log says of one approval, the statuses that it went
through.  The invariant ties the store to the log: the record of an approval is
its last entry, so a call that finds it pending adds to a path that ends in
pending (`Lawful.decided`), and one that finds it approved to a path that ends
in approved (`Lawful.consumed`).

`CreateApproval` removes approvals that have been expired for the retention
time.  The clock does not run backwards, so what is removed could not be
decided or consumed any more.
-/
import AgentMesh.Machine
import AgentMesh.Memory

namespace AgentMesh

open Machine

/-! ### Calls -/

inductive ApprovalOp
  /-- `Initialize` at `createdAt` and `CreateApproval`, whose clock reads `now`. -/
  | create (draft : Approval) (createdAt : Time) (ttl retention : Int) (now : Time)
  | decide (id : String) (approve : Bool) (actor : String) (now : Time)
  | consume (id serverID toolName argumentsHash : String) (now : Time)

def ApprovalOp.now : ApprovalOp → Time
  | .create _ _ _ _ now | .decide _ _ _ now | .consume _ _ _ _ now => now

/-- The approval that a call decides or consumes. -/
def ApprovalOp.target : ApprovalOp → Option String
  | .create .. => none
  | .decide id _ _ _ | .consume id _ _ _ _ => some id

/-- The store after a call, and what the call returns. -/
def Memory.approvalOr (m : Memory) : Except Err (Memory × Approval) → Memory × Except Err Approval
  | .error err => (m, .error err)
  | .ok (m', approval) => (m', .ok approval)

/-- A path through the statuses: to approved and consumed, or to rejected. -/
def Lawful (path : List ApprovalStatus) : Prop :=
  path <+: [.pending, .approved, .consumed] ∨ path <+: [.pending, .rejected]

structure Ledger where
  store : Memory := {}
  clock : Time := 0
  log : List (Approval × Time) := []

/-- The entries of one approval, and the statuses that it went through. -/
def Ledger.entries (s : Ledger) (id : String) : List (Approval × Time) :=
  s.log.filter fun entry => entry.1.id = id

def Ledger.path (s : Ledger) (id : String) : List ApprovalStatus :=
  (s.entries id).map fun entry => entry.1.status

/-- The ID of a new approval is not that of one that was removed. -/
def freshID (s : Ledger) : ApprovalOp → Bool
  | .create draft _ _ _ _ =>
      (s.store.approvals.lookup (trimSpace draft.id)).isSome || (s.path (trimSpace draft.id)).isEmpty
  | _ => true

section Paths

variable {path : List ApprovalStatus}

theorem Lawful.cases (h : Lawful path) : path = [] ∨ path = [.pending] ∨
    path = [.pending, .approved] ∨ path = [.pending, .approved, .consumed] ∨
    path = [.pending, .rejected] := by
  simp only [Lawful, List.prefix_cons_iff, List.prefix_nil] at h
  rcases h with (rfl | ⟨_, rfl, rfl | ⟨_, rfl, rfl | ⟨_, rfl, rfl⟩⟩⟩) |
    (rfl | ⟨_, rfl, rfl | ⟨_, rfl, rfl⟩⟩) <;> simp

theorem Lawful.decided (h : Lawful path) (hlast : path.getLast? = some .pending) (approve : Bool) :
    Lawful (path ++ [if approve then .approved else .rejected]) := by
  rcases h.cases with rfl | rfl | rfl | rfl | rfl <;> simp at hlast
  cases approve
  · exact .inr (List.prefix_refl _)
  · exact .inl ⟨[.consumed], rfl⟩

theorem Lawful.consumed (h : Lawful path) (hlast : path.getLast? = some .approved) :
    Lawful (path ++ [.consumed]) := by
  rcases h.cases with rfl | rfl | rfl | rfl | rfl <;> simp at hlast
  exact .inl (List.prefix_refl _)

/-- A lawful path has at most one decision and at most one consumption. -/
theorem Lawful.once (h : Lawful path) :
    path.countP (fun status => status = .approved ∨ status = .rejected) ≤ 1 ∧
      path.count .consumed ≤ 1 := by
  rcases h.cases with rfl | rfl | rfl | rfl | rfl <;> decide

end Paths

section Calls

variable {Args : Type} (codec : ArgumentCodec Args)

def Memory.performApproval (m : Memory) : ApprovalOp → Memory × Except Err Approval
  | .create draft createdAt ttl retention now =>
      match initializeApproval codec.toArgumentFormat draft createdAt ttl with
      | .error err => (m, .error err)
      | .ok approval => m.approvalOr (m.createApproval approval retention now)
  | .decide id approve actor now => m.approvalOr (m.decideApproval id approve actor now)
  | .consume id serverID toolName argumentsHash now =>
      m.approvalOr (m.consumeApproval id serverID toolName argumentsHash now)

def ledgerStep (s : Ledger) (op : ApprovalOp) : Option Ledger :=
  if s.clock ≤ op.now then
    match s.store.performApproval codec op with
    | (m, .error _) => some { s with store := m, clock := op.now }
    | (m, .ok approval) =>
        some { store := m, clock := op.now, log := s.log ++ [(approval, op.now)] }
  else none

end Calls

/-- What a call does to the approvals. -/
inductive ApprovalOp.Effect (op : ApprovalOp) (m : Memory) : Memory → Except Err Approval → Prop
  | refused {err : Err} : Effect op m m (.error err)
  | created {a : Approval} {m' : Memory} {retention : Int} {draft : Approval} {createdAt : Time}
      {ttl : Int} (hop : op = .create draft createdAt ttl retention op.now)
      (id : a.id = trimSpace draft.id) (new : m.approvals.lookup a.id = none)
      (status : a.status = .pending)
      (store : m'.approvals = (m.pruneApprovals retention op.now).insert a.id a) :
      Effect op m m' (.ok a)
  | decided {id : String} {a : Approval} {m' : Memory} {approve : Bool} {actor : String}
      (target : op.target = some id) (found : m.approvals.lookup id = some a)
      (pending : a.status = .pending) (valid : op.now < a.expiresAt)
      (store : m'.approvals = m.approvals.insert id (a.decide approve actor op.now)) :
      Effect op m m' (.ok (a.decide approve actor op.now))
  | consumed {id : String} {a : Approval} {m' : Memory} (target : op.target = some id)
      (found : m.approvals.lookup id = some a)
      (approved : a.status = .approved) (valid : op.now < a.expiresAt)
      (store : m'.approvals = m.approvals.insert id (a.consume op.now)) :
      Effect op m m' (.ok (a.consume op.now))

section Effects

variable {Args : Type} {codec : ArgumentCodec Args} {m : Memory} {op : ApprovalOp}

theorem initializeApproval_ok {draft a : Approval} {createdAt : Time} {ttl : Int}
    (h : initializeApproval codec.toArgumentFormat draft createdAt ttl = .ok a) :
    a.id = trimSpace draft.id ∧ a.status = .pending ∧ a.serverID = trimSpace draft.serverID ∧
      a.toolName = trimSpace draft.toolName ∧
      a.argumentsHash = approvalArgumentsHash codec.toArgumentFormat a.serverID a.toolName a.arguments := by
  rw [initializeApproval] at h
  split at h
  · cases h
  · split at h
    · cases h
    · split at h
      · cases h
      · obtain rfl := Except.ok.inj h
        exact ⟨rfl, rfl, rfl, rfl, rfl⟩

theorem Memory.performApproval_effect (codec : ArgumentCodec Args) (m : Memory) (op : ApprovalOp) :
    op.Effect m (m.performApproval codec op).1 (m.performApproval codec op).2 := by
  cases op with
  | create draft createdAt ttl retention now =>
      rw [Memory.performApproval]
      rcases hinit : initializeApproval codec.toArgumentFormat draft createdAt ttl with err | a
      · exact .refused
      · show ApprovalOp.Effect _ m (m.approvalOr _).1 (m.approvalOr _).2
        obtain ⟨hid, hstatus, -⟩ := initializeApproval_ok hinit
        rcases hcreate : m.createApproval a retention now with err | ⟨m', created⟩
        · exact .refused
        · obtain ⟨hnew, rfl, rfl⟩ := Memory.createApproval_ok hcreate
          exact .created rfl hid hnew hstatus rfl
  | decide id approve actor now =>
      rw [Memory.performApproval]
      rcases hdecide : m.decideApproval id approve actor now with err | ⟨m', decided⟩
      · exact .refused
      · obtain ⟨a, hfound, hpending, hvalid, rfl, rfl⟩ := Memory.decideApproval_ok hdecide
        exact .decided rfl hfound hpending hvalid rfl
  | consume id serverID toolName argumentsHash now =>
      rw [Memory.performApproval]
      rcases hconsume : m.consumeApproval id serverID toolName argumentsHash now
        with err | ⟨m', consumed⟩
      · exact .refused
      · obtain ⟨a, hfound, -, -, -, happroved, hvalid, rfl, rfl⟩ :=
          Memory.consumeApproval_ok hconsume
        exact .consumed rfl hfound happroved hvalid rfl

end Effects

/-! ### The invariant -/

structure LedgerInv (s : Ledger) : Prop where
  id : ∀ {id a}, s.store.approvals.lookup id = some a → a.id = id
  /-- The record of an approval is its last entry. -/
  last : ∀ {id a}, s.store.approvals.lookup id = some a →
    ∃ t, (s.entries id).getLast? = some (a, t)
  lawful : ∀ id, Lawful (s.path id)
  valid : ∀ {a t}, (a, t) ∈ s.log → a.status ≠ .pending → t < a.expiresAt

/-- What a step does to the approval with one ID: nothing, a transition that is logged, or its
removal after it has expired. -/
inductive Ledger.Moves (s t : Ledger) (id : String) : Prop
  | same (lookup : t.store.approvals.lookup id = s.store.approvals.lookup id)
      (entries : t.entries id = s.entries id)
  | logged {a : Approval} (lookup : t.store.approvals.lookup id = some a) (hid : a.id = id)
      (entries : t.entries id = s.entries id ++ [(a, t.clock)]) (lawful : Lawful (t.path id))
      (valid : a.status ≠ .pending → t.clock < a.expiresAt)
      (open_ : ∀ old, s.store.approvals.lookup id = some old →
        old.status = .pending ∨ old.status = .approved)
      (known : s.entries id ≠ [] → s.store.approvals.lookup id ≠ none)
  | removed {a : Approval} (found : s.store.approvals.lookup id = some a)
      (lookup : t.store.approvals.lookup id = none) (entries : t.entries id = s.entries id)
      (expired : a.expiresAt < t.clock)

section Steps

variable {Args : Type} {codec : ArgumentCodec Args} {s t : Ledger} {op : ApprovalOp}

theorem Ledger.entries_snoc {a : Approval} {now : Time} (h : t.log = s.log ++ [(a, now)])
    (id : String) : t.entries id = s.entries id ++ if a.id = id then [(a, now)] else [] := by
  rw [Ledger.entries, h, List.filter_append, Ledger.entries]
  by_cases hid : a.id = id <;> simp [hid]

theorem LedgerInv.path_last (h : LedgerInv s) {id : String} {a : Approval}
    (ha : s.store.approvals.lookup id = some a) : (s.path id).getLast? = some a.status := by
  obtain ⟨t, ht⟩ := h.last ha
  rw [Ledger.path, List.getLast?_map, ht]
  rfl

theorem ledgerStep_eq (h : ledgerStep codec s op = some t) :
    s.clock ≤ op.now ∧ t.clock = op.now ∧ ∃ result, op.Effect s.store t.store result ∧
      t.log = s.log ++ match result with
        | .error _ => []
        | .ok a => [(a, op.now)] := by
  rw [ledgerStep] at h
  split at h
  · rename_i hclock
    have heffect := Memory.performApproval_effect codec s.store op
    split at h
    · rename_i m err heq
      obtain rfl := Option.some.inj h
      rw [heq] at heffect
      exact ⟨hclock, rfl, _, heffect, (List.append_nil _).symm⟩
    · rename_i m a heq
      obtain rfl := Option.some.inj h
      rw [heq] at heffect
      exact ⟨hclock, rfl, _, heffect, rfl⟩
  · cases h

/-- A transition of a stored approval. -/
theorem LedgerInv.logged (h : LedgerInv s) {id : String} {a : Approval} (a' : Approval)
    (hfound : s.store.approvals.lookup id = some a) (hid : a'.id = a.id)
    (hopen : a.status = .pending ∨ a.status = .approved)
    (hlawful : Lawful (s.path id ++ [a'.status])) (hvalid : t.clock < a'.expiresAt)
    (hstore : t.store.approvals = s.store.approvals.insert id a')
    (hlog : t.log = s.log ++ [(a', t.clock)]) (id' : String) : s.Moves t id' := by
  have hself : a'.id = id := hid.trans (h.id hfound)
  have hentries := Ledger.entries_snoc hlog id'
  by_cases heq : id' = id
  · subst heq
    rw [if_pos hself] at hentries
    refine .logged (a := a') ?_ hself hentries ?_ (fun _ => hvalid) ?_ ?_
    · rw [hstore, AList.lookup_insert]
    · rw [Ledger.path, hentries, List.map_append]
      exact hlawful
    · intro old hold
      rw [hfound] at hold
      exact Option.some.inj hold ▸ hopen
    · intro _ hnone
      rw [hfound] at hnone
      cases hnone
  · rw [if_neg fun hcon => heq (hcon.symm.trans hself), List.append_nil] at hentries
    refine .same ?_ hentries
    rw [hstore, AList.lookup_insert_ne heq]

theorem LedgerInv.moves (h : LedgerInv s) (hfresh : freshID s op = true)
    (hstep : ledgerStep codec s op = some t) (id : String) : s.Moves t id := by
  obtain ⟨-, hclock, result, heffect, hlog⟩ := ledgerStep_eq hstep
  generalize hm : t.store = m' at heffect
  cases heffect with
  | refused =>
      refine .same (by rw [hm]) ?_
      rw [Ledger.entries, hlog, List.append_nil, Ledger.entries]
  | @created a _ retention draft createdAt ttl hop hid hnew hstatus hstore =>
      rw [← hm] at hstore
      have hentries := Ledger.entries_snoc hlog id
      by_cases heq : id = a.id
      · subst heq
        rw [if_pos rfl, ← hclock] at hentries
        -- an ID that is not stored has no entries
        have hpath : s.path a.id = [] := by
          rw [hop, freshID, ← hid, hnew, Option.isSome_none, Bool.false_or] at hfresh
          exact List.isEmpty_iff.mp hfresh
        refine .logged (a := a) ?_ rfl hentries ?_ (fun hp => absurd hstatus hp) ?_ ?_
        · rw [hstore, AList.lookup_insert]
        · rw [Ledger.path, hentries, List.map_append]
          show Lawful (s.path a.id ++ [a.status])
          rw [hpath, hstatus]
          exact .inr ⟨[.rejected], rfl⟩
        · intro old hold
          rw [hnew] at hold
          cases hold
        · intro hne
          exact absurd (List.map_eq_nil_iff.mp hpath) hne
      · rw [if_neg fun hcon => heq hcon.symm, List.append_nil] at hentries
        rcases s.store.lookup_pruneApprovals retention op.now id
          with hsame | ⟨hnone, old, hold, hexpired⟩
        · refine .same ?_ hentries
          rw [hstore, AList.lookup_insert_ne heq, hsame]
        · refine .removed hold ?_ hentries (hclock ▸ hexpired)
          rw [hstore, AList.lookup_insert_ne heq, hnone]
  | @decided id' a _ approve actor _ hfound hpending hvalid hstore =>
      rw [← hm] at hstore
      rw [← hclock] at hvalid hstore hlog
      refine h.logged (a.decide approve actor t.clock) hfound rfl (.inl hpending) ?_ hvalid hstore
        hlog id
      exact (h.lawful id').decided (hpending ▸ h.path_last hfound) approve
  | @consumed id' a _ _ hfound happroved hvalid hstore =>
      rw [← hm] at hstore
      rw [← hclock] at hvalid hstore hlog
      refine h.logged (a.consume t.clock) hfound rfl (.inr happroved) ?_ hvalid hstore hlog id
      exact (h.lawful id').consumed (happroved ▸ h.path_last hfound)

/-- Every entry of the log is among those of its ID. -/
theorem Ledger.mem_entries {a : Approval} {now : Time} (h : (a, now) ∈ s.log) :
    (a, now) ∈ s.entries a.id :=
  List.mem_filter.mpr ⟨h, by simp⟩

theorem LedgerInv.step (h : LedgerInv s) (hmoves : ∀ id, s.Moves t id) : LedgerInv t := by
  refine ⟨?_, ?_, ?_, ?_⟩
  · intro id a ha
    cases hmoves id with
    | same lookup => exact h.id (lookup ▸ ha)
    | logged lookup hid =>
        rw [lookup] at ha
        exact Option.some.inj ha ▸ hid
    | removed _ lookup =>
        rw [lookup] at ha
        cases ha
  · intro id a ha
    cases hmoves id with
    | same lookup entries =>
        rw [entries]
        exact h.last (lookup ▸ ha)
    | logged lookup _ entries =>
        rw [lookup] at ha
        obtain rfl := Option.some.inj ha
        exact ⟨t.clock, by rw [entries, List.getLast?_append]; rfl⟩
    | removed _ lookup =>
        rw [lookup] at ha
        cases ha
  · intro id
    cases hmoves id with
    | same _ entries | removed _ _ entries =>
        rw [Ledger.path, entries]
        exact h.lawful id
    | logged _ _ _ lawful => exact lawful
  · intro a now hmem hstatus
    have hentry := Ledger.mem_entries hmem
    cases hmoves a.id with
    | same _ entries | removed _ _ entries =>
        rw [entries] at hentry
        exact h.valid (List.mem_filter.mp hentry).1 hstatus
    | logged _ _ entries _ valid =>
        rw [entries] at hentry
        rcases List.mem_append.mp hentry with hold | hnew
        · exact h.valid (List.mem_filter.mp hold).1 hstatus
        · obtain ⟨rfl, rfl⟩ := Prod.mk.inj (List.mem_singleton.mp hnew)
          exact valid hstatus

theorem ledgerInv_runs {start : Time}
    (h : Runs (ledgerStep codec) (fun s op => freshID s op = true) { clock := start } s) :
    LedgerInv s := by
  refine h.invariant (I := LedgerInv) ⟨nofun, nofun, fun _ => .inl (List.nil_prefix), nofun⟩ ?_
  intro u v op hu hfresh hstep
  exact hu.step (hu.moves hfresh hstep)

/-- What stays along a run: an approval that was removed does not come back, and one that is
rejected or consumed stays as it is until it is removed. -/
def Ledger.Keeps (s t : Ledger) : Prop :=
  ∀ id, s.entries id ≠ [] → t.entries id ≠ [] ∧
    (s.store.approvals.lookup id = none → t.store.approvals.lookup id = none) ∧
    ∀ a, s.store.approvals.lookup id = some a → a.status = .rejected ∨ a.status = .consumed →
      t.store.approvals.lookup id = some a ∨ t.store.approvals.lookup id = none

theorem Ledger.Keeps.trans {u : Ledger} (h : s.Keeps t) (h' : t.Keeps u) : s.Keeps u := by
  intro id hne
  obtain ⟨hne', hnone, hclosed⟩ := h id hne
  obtain ⟨hne'', hnone', hclosed'⟩ := h' id hne'
  refine ⟨hne'', fun hn => hnone' (hnone hn), ?_⟩
  intro a ha hstatus
  rcases hclosed a ha hstatus with ha' | hn
  · exact hclosed' a ha' hstatus
  · exact .inr (hnone' hn)

theorem Ledger.keeps_of_moves (hmoves : ∀ id, s.Moves t id) : s.Keeps t := by
  intro id hne
  cases hmoves id with
  | same lookup entries =>
      rw [lookup, entries]
      exact ⟨hne, fun hn => hn, fun a ha _ => .inl ha⟩
  | logged _ _ entries _ _ hopen known =>
      refine ⟨by rw [entries]; simp, fun hn => absurd hn (known hne), ?_⟩
      intro a ha hstatus
      rcases hopen a ha with hs | hs <;> rw [hs] at hstatus <;> simp at hstatus
  | removed _ lookup entries =>
      rw [lookup, entries]
      exact ⟨hne, fun _ => rfl, fun _ _ _ => .inr rfl⟩

theorem keeps_runs (hs : LedgerInv s)
    (h : Runs (ledgerStep codec) (fun s op => freshID s op = true) s t) : s.Keeps t :=
  h.related (I := LedgerInv) (R := Ledger.Keeps) hs
    (fun hu hfresh hstep => hu.step (hu.moves hfresh hstep))
    (fun _ _ hne => ⟨hne, fun hn => hn, fun _ ha _ => .inl ha⟩) (fun h₁ h₂ => h₁.trans h₂)
    fun hu hfresh hstep => Ledger.keeps_of_moves (hu.moves hfresh hstep)

/-- An approval that has expired is neither decided nor consumed. -/
theorem expired_refused {m : Memory} {id : String} {a : Approval}
    (hfound : m.approvals.lookup id = some a) (htarget : op.target = some id)
    (hexpired : a.Expired op.now) : ∃ err, (m.performApproval codec op).2 = .error err := by
  have heffect := m.performApproval_effect codec op
  generalize (m.performApproval codec op).1 = m' at heffect
  generalize (m.performApproval codec op).2 = result at heffect ⊢
  cases heffect with
  | refused => exact ⟨_, rfl⟩
  | created hop =>
      rw [hop] at htarget
      cases htarget
  | decided target found _ valid | consumed target found _ valid =>
      obtain rfl := Option.some.inj (htarget.symm.trans target)
      obtain rfl := Option.some.inj (hfound.symm.trans found)
      exact absurd hexpired (not_le.mpr valid)

end Steps

/-- **The life of an approval.**  It goes from pending to approved and consumed or from pending to
rejected, with at most one decision and one consumption, both before it expires, and the store
has the record that the last of them left.  A rejected or consumed approval never changes, a call
that fails changes nothing, and what a creation removes can no longer be decided or consumed. -/
theorem approval_lifecycle {Args : Type} {codec : ArgumentCodec Args} {start : Time} {s : Ledger}
    (hs : Runs (ledgerStep codec) (fun s op => freshID s op = true) { clock := start } s) :
    (∀ id, Lawful (s.path id) ∧
      (s.path id).countP (fun status => status = .approved ∨ status = .rejected) ≤ 1 ∧
      (s.path id).count .consumed ≤ 1 ∧
      ∀ a, s.store.approvals.lookup id = some a → ∃ t, (s.entries id).getLast? = some (a, t)) ∧
    (∀ a t, (a, t) ∈ s.log → a.status ≠ .pending → t < a.expiresAt) ∧
    (∀ t, Runs (ledgerStep codec) (fun s op => freshID s op = true) s t → ∀ id a,
      s.store.approvals.lookup id = some a → a.status = .rejected ∨ a.status = .consumed →
      t.store.approvals.lookup id = some a ∨ t.store.approvals.lookup id = none) ∧
    (∀ op err, (s.store.performApproval codec op).2 = .error err →
      (s.store.performApproval codec op).1 = s.store) ∧
    ∀ op t, freshID s op = true → ledgerStep codec s op = some t → ∀ id a,
      s.store.approvals.lookup id = some a → t.store.approvals.lookup id = none →
      ∀ (op' : ApprovalOp) (m : Memory), op'.target = some id → t.clock ≤ op'.now →
        m.approvals.lookup id = some a →
        a.Expired op'.now ∧ ∃ err, (m.performApproval codec op').2 = .error err := by
  have hinv := ledgerInv_runs hs
  refine ⟨?_, fun a t => hinv.valid, ?_, ?_, ?_⟩
  · intro id
    exact ⟨hinv.lawful id, (hinv.lawful id).once.1, (hinv.lawful id).once.2, fun a => hinv.last⟩
  · intro t ht id a ha hstatus
    have hne : s.entries id ≠ [] := by
      obtain ⟨now, hlast⟩ := hinv.last ha
      rintro hnil
      rw [hnil] at hlast
      cases hlast
    exact (keeps_runs hinv ht id hne).2.2 a ha hstatus
  · intro op err herr
    have heffect := s.store.performApproval_effect codec op
    rw [herr] at heffect
    generalize (s.store.performApproval codec op).1 = m' at heffect ⊢
    cases heffect
    rfl
  · intro op t hfresh hstep id a ha hnone op' m htarget hlater hfound
    have hexpired : a.Expired op'.now := by
      cases hinv.moves hfresh hstep id with
      | same lookup =>
          rw [lookup, ha] at hnone
          cases hnone
      | logged lookup =>
          rw [lookup] at hnone
          cases hnone
      | removed found _ _ expired =>
          obtain rfl := Option.some.inj (ha.symm.trans found)
          exact (expired.trans_le hlater).le
    exact ⟨hexpired, expired_refused hfound htarget hexpired⟩

/-- Argument objects with one Boolean, and texts that are their own digests. -/
def demoCodec : ArgumentCodec Bool where
  marshal b := if b then "t" else "f"
  unmarshal text := if text = "t" then some true else if text = "f" then some false else none
  digest text := text
  empty := false
  marshal_ne b := by cases b <;> decide
  unmarshal_marshal b := by cases b <;> decide
  digest_injective _ _ h := h

def demoApproval (id : String) : Approval :=
  { id := id, serverID := "files", toolName := "remove", arguments := "t", requestedBy := "ops" }

/-- An approval is approved and consumed; a later creation finds it expired and removes it. -/
def approveOnce : List ApprovalOp :=
  [.create (demoApproval "apr_1") 1 10 5 1, .decide "apr_1" true "ops" 2,
    .decide "apr_1" false "ops" 3,
    .consume "apr_1" "files" "remove"
      (approvalArgumentsHash demoCodec.toArgumentFormat "files" "remove" "t") 4,
    .consume "apr_1" "files" "remove"
      (approvalArgumentsHash demoCodec.toArgumentFormat "files" "remove" "t") 5,
    .create (demoApproval "apr_2") 20 10 5 20]

theorem approval_lifecycle_demo :
    ∃ s, Runs (ledgerStep demoCodec) (fun s op => freshID s op = true) { clock := 0 } s ∧
      s.path "apr_1" = [.pending, .approved, .consumed] ∧
      s.store.approvals.lookup "apr_1" = none ∧ Lawful (s.path "apr_1") ∧
      (s.path "apr_1").count .consumed ≤ 1 ∧
      ∀ a t, (a, t) ∈ s.log → a.status ≠ .pending → t < a.expiresAt := by
  obtain ⟨s, hexec, hpath, hgone⟩ :
      ∃ s, exec (guarded (ledgerStep demoCodec) freshID) { clock := 0 } approveOnce = some s ∧
        s.path "apr_1" = [.pending, .approved, .consumed] ∧
        s.store.approvals.lookup "apr_1" = none := by
    refine exists_of_any ?_
    decide +kernel
  have hruns : Runs (ledgerStep demoCodec) (fun s op => freshID s op = true) { clock := 0 } s :=
    runs_exec_guarded (fun _ _ h => h) hexec
  obtain ⟨hlawful, hvalid, -⟩ := approval_lifecycle hruns
  exact ⟨s, hruns, hpath, hgone, (hlawful "apr_1").1, (hlawful "apr_1").2.2.1, hvalid⟩

end AgentMesh
