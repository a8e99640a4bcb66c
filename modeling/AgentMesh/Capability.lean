/-
AgentMesh/Capability.lean

What `NormalizeCapability` computes, and which Agents a capability finds.

The loop of `NormalizeCapability` reads a text once, with a flag that says
whether a separator is due.  What it writes are the tokens of the text, the
maximal runs of `[a-z0-9.]`, with a hyphen between each two
(`normalizeCapabilityChars_eq`).  The library on tokens gives the rest: the
result is a normal form, and two texts have the same one if and only if they
have the same tokens.

Agents store the canonical forms of what they declare, and `FindAgents` and
`Select` compare canonical forms of what they are asked for.  So a query finds
an Agent if and only if the Agent declares something with the same tokens.
-/
import AgentMesh.Tokens
import AgentMesh.Keyed
import AgentMesh.Pointwise
import AgentMesh.Router
import Mathlib.Computability.Language

namespace AgentMesh

open Tokens Sorting

/-! ### Tokens of a capability -/

/-- The maximal runs of `[a-z0-9.]` in the lower-cased text. -/
def capabilityTokens (s : String) : List (List Char) :=
  Tokens.tokens isCapabilityChar (toLower s).toList

/-- The text has nothing but token characters and separators, after trimming and
lower-casing. -/
def Admissible (s : String) : Prop :=
  ∀ c ∈ (toLower (trimSpace s)).toList,
    isCapabilityChar c = true ∨ isCapabilitySeparator c = true

instance (s : String) : Decidable (Admissible s) :=
  List.decidableBAll (fun c => isCapabilityChar c = true ∨ isCapabilitySeparator c = true)
    (toLower (trimSpace s)).toList

/-- `[a-z0-9.]`. -/
def capabilityClass : Language Char := { w | ∃ c, isCapabilityChar c = true ∧ w = [c] }

/-- `[a-z0-9.]+`. -/
def capabilityToken : Language Char := capabilityClass * KStar.kstar capabilityClass

/-- `[a-z0-9.]+(-[a-z0-9.]+)*`. -/
def capabilityLanguage : Language Char :=
  capabilityToken * KStar.kstar ({['-']} * capabilityToken)

section Loop

variable {ts : List (List Char)} {t cs : List Char}

/-- The next character of a token is written with a separator exactly if it begins one that is
not the first. -/
theorem intercalate_write (hts : AreTokens isCapabilityChar ts)
    (ht : ∀ c ∈ t, isCapabilityChar c = true) (c : Char) :
    (if decide (t = [] ∧ ts ≠ []) = true ∧
        ['-'].intercalate (ts ++ Tokens.tokens isCapabilityChar t) ≠ [] then
        ['-'].intercalate (ts ++ Tokens.tokens isCapabilityChar t) ++ ['-', c]
      else ['-'].intercalate (ts ++ Tokens.tokens isCapabilityChar t) ++ [c])
      = ['-'].intercalate (ts ++ [t ++ [c]]) := by
  by_cases hne : t = []
  · subst hne
    rw [tokens_nil, List.append_nil, List.nil_append, intercalate_snoc]
    by_cases hfirst : ts = []
    · simp [hfirst]
    · have hwritten : ['-'].intercalate ts ≠ [] := (intercalate_eq_nil_iff hts).not.mpr hfirst
      simp [hfirst, hwritten]
  · rw [tokens_of_forall ht hne, intercalate_snoc_append]
    simp [hne]

/-- The loop in the middle of a text: `ts` are the tokens that are complete, and `t` is what it
has read of the next one. -/
theorem normalizeCapabilityChars_eq (hts : AreTokens isCapabilityChar ts)
    (ht : ∀ c ∈ t, isCapabilityChar c = true) :
    normalizeCapabilityChars (['-'].intercalate (ts ++ Tokens.tokens isCapabilityChar t))
        (decide (t = [] ∧ ts ≠ [])) cs
      = if cs.all fun c => isCapabilityChar c || isCapabilitySeparator c then
          some (['-'].intercalate (ts ++ Tokens.tokens isCapabilityChar (t ++ cs)))
        else none := by
  induction cs generalizing ts t with
  | nil => simp [normalizeCapabilityChars]
  | cons c cs ih =>
      rw [normalizeCapabilityChars]
      by_cases hc : isCapabilityChar c = true
      · have hsnoc : ∀ d ∈ t ++ [c], isCapabilityChar d = true := by
          simpa [or_imp, forall_and, hc] using ht
        have hrest := ih hts hsnoc
        rw [tokens_of_forall hsnoc (by simp), List.append_assoc, List.singleton_append,
          ← intercalate_write hts ht, apply_ite (normalizeCapabilityChars · _ cs)] at hrest
        simpa [hc] using hrest
      · by_cases hsep : isCapabilitySeparator c = true
        · -- the token that was being read is complete
          have hall : AreTokens isCapabilityChar (ts ++ Tokens.tokens isCapabilityChar t) := by
            intro t' ht'
            exact (List.mem_append.mp ht').elim (hts t') (areTokens_tokens _ t t')
          have hrest := ih (t := []) hall (by simp)
          rw [tokens_nil, List.append_nil, List.nil_append, List.append_assoc,
            ← tokens_append_cons t cs (Bool.eq_false_iff.mpr hc)] at hrest
          simpa [hc, hsep, intercalate_eq_nil_iff hall] using hrest
        · simp [hc, hsep]

end Loop

/-! ### Trimming -/

/-- White space has no lower case among the token characters. -/
theorem isCapabilityChar_toLowerRune_of_isSpace {c : Char} (h : isSpace c = true) :
    isCapabilityChar (toLowerRune c) = false := by
  have hnot := of_isSpace (p := fun c => !isCapabilityChar (toLowerRune c)) (by decide) h
  exact (Bool.not_eq_true' _).mp hnot

theorem capabilityTokens_trimSpace (s : String) :
    Tokens.tokens isCapabilityChar (toLower (trimSpace s)).toList = capabilityTokens s := by
  rw [capabilityTokens, toLower, toLower, String.toList_ofList, String.toList_ofList,
    trimSpace_eq_rdropWhile, String.toList_ofList]
  exact tokens_map_trim (fun _ => isCapabilityChar_toLowerRune_of_isSpace) s.toList

/-! ### Canonical forms -/

section Canonical

variable {s s' r r' : String}

/-- The loop over a whole text. -/
theorem normalizeCapabilityChars_trimmed (s : String) :
    normalizeCapabilityChars [] false (toLower (trimSpace s)).toList
      = if Admissible s then some (['-'].intercalate (capabilityTokens s)) else none := by
  have hnone : AreTokens isCapabilityChar [] := fun _ h => absurd h List.not_mem_nil
  have hloop := @normalizeCapabilityChars_eq [] [] (toLower (trimSpace s)).toList hnone (by simp)
  simp only [tokens_nil, List.append_nil, List.nil_append, ne_eq, not_true_eq_false, and_false,
    decide_false, capabilityTokens_trimSpace,
    show ['-'].intercalate ([] : List (List Char)) = [] from rfl] at hloop
  rw [hloop]
  exact if_congr (by simp [Admissible]) rfl rfl

/-- `NormalizeCapability` writes the tokens of an admissible text, if it has any. -/
theorem normalizeCapability_ok_iff :
    normalizeCapability s = .ok r ↔ Admissible s ∧ capabilityTokens s ≠ [] ∧
      r = String.ofList (['-'].intercalate (capabilityTokens s)) := by
  have htokens := areTokens_tokens isCapabilityChar (toLower s).toList
  simp only [normalizeCapability, normalizeCapabilityChars_trimmed]
  by_cases hadm : Admissible s
  · rw [if_pos hadm]
    rcases hwritten : ['-'].intercalate (capabilityTokens s) with - | ⟨c, cs⟩
    · have hnil : capabilityTokens s = [] := (intercalate_eq_nil_iff htokens).mp hwritten
      simp [hnil]
    · have hne : capabilityTokens s ≠ [] := by
        intro hnil
        rw [hnil] at hwritten
        cases hwritten
      simp [hadm, hne, eq_comm]
  · rw [if_neg hadm]
    simp [hadm]

/-- A canonical capability has the tokens of the text that it stands for. -/
theorem tokens_canonical (h : normalizeCapability s = .ok r) :
    Tokens.tokens isCapabilityChar r.toList = capabilityTokens s := by
  obtain ⟨-, -, rfl⟩ := normalizeCapability_ok_iff.mp h
  rw [String.toList_ofList]
  exact tokens_intercalate (areTokens_tokens _ _) rfl

/-- **Two capabilities have the same canonical form exactly if they have the same tokens.** -/
theorem canonical_eq_iff (h : normalizeCapability s = .ok r) (h' : normalizeCapability s' = .ok r') :
    r = r' ↔ capabilityTokens s = capabilityTokens s' := by
  constructor
  · rintro rfl
    rw [← tokens_canonical h, tokens_canonical h']
  · intro htokens
    obtain ⟨-, -, rfl⟩ := normalizeCapability_ok_iff.mp h
    obtain ⟨-, -, rfl⟩ := normalizeCapability_ok_iff.mp h'
    rw [htokens]

theorem nonempty_of_normalizeCapability (h : normalizeCapability s = .ok r) : s ≠ "" ∧ r ≠ "" := by
  obtain ⟨-, hne, hr⟩ := normalizeCapability_ok_iff.mp h
  refine ⟨?_, ?_⟩
  · rintro rfl
    exact hne (by simp [capabilityTokens, toLower])
  · rintro rfl
    have hnil : ['-'].intercalate (capabilityTokens s) = [] := by
      simpa using (congrArg String.toList hr).symm
    exact hne ((intercalate_eq_nil_iff (areTokens_tokens _ _)).mp hnil)

theorem mem_capabilityToken {t : List Char} (hne : t ≠ [])
    (ht : ∀ c ∈ t, isCapabilityChar c = true) : t ∈ capabilityToken := by
  obtain ⟨c, t, rfl⟩ := List.exists_cons_of_ne_nil hne
  rw [List.forall_mem_cons] at ht
  refine Language.mem_mul.mpr ⟨[c], ⟨c, ht.1, rfl⟩, t, ?_, rfl⟩
  refine Language.mem_kstar.mpr ⟨t.map fun d => [d], ?_, ?_⟩
  · rw [← List.flatMap_def, List.flatMap_singleton']
  · intro w hw
    obtain ⟨d, hd, rfl⟩ := List.mem_map.mp hw
    exact ⟨d, ht.2 d hd, rfl⟩

/-- A written sequence of tokens has the form `[a-z0-9.]+(-[a-z0-9.]+)*`. -/
theorem mem_capabilityLanguage {ts : List (List Char)} (h : AreTokens isCapabilityChar ts)
    (hne : ts ≠ []) : ['-'].intercalate ts ∈ capabilityLanguage := by
  obtain ⟨t, ts, rfl⟩ := List.exists_cons_of_ne_nil hne
  have hwritten : ['-'].intercalate (t :: ts) = t ++ (ts.map (['-'] ++ ·)).flatten := by
    induction ts generalizing t with
    | nil => simp
    | cons t' ts ih =>
        rw [intercalate_cons, if_neg (List.cons_ne_nil _ _),
          ih _ (fun t ht => h t (List.mem_cons_of_mem _ ht)) (List.cons_ne_nil _ _)]
        simp
  obtain ⟨⟨hne, ht⟩, hts⟩ := List.forall_mem_cons.mp h
  rw [hwritten]
  refine Language.mem_mul.mpr ⟨t, mem_capabilityToken hne ht, _, ?_, rfl⟩
  refine Language.mem_kstar.mpr ⟨_, rfl, ?_⟩
  intro w hw
  obtain ⟨t', ht', rfl⟩ := List.mem_map.mp hw
  exact Language.mem_mul.mpr ⟨['-'], rfl, t', mem_capabilityToken (hts t' ht').1 (hts t' ht').2, rfl⟩

end Canonical

/-! ### Declared capabilities -/

/-- Something that the Agent declares has the tokens of the query. -/
def Declares (declared : List String) (query : String) : Prop :=
  ∃ c ∈ declared, capabilityTokens c = capabilityTokens query

section Declared

variable {result declared required canonical : List String} {query r : String}

/-- The loop of `NormalizeAndValidate` keeps the first of each canonical form. -/
theorem normalizeCapabilities_ok_iff :
    normalizeCapabilities result declared = .ok canonical ↔
      ∃ forms, List.Forall₂ (fun c form => normalizeCapability c = .ok form) declared forms ∧
        canonical = Keyed.addAll id result forms := by
  induction declared generalizing result with
  | nil =>
      rw [normalizeCapabilities, Except.ok.injEq]
      constructor
      · rintro rfl
        exact ⟨[], .nil, rfl⟩
      · rintro ⟨forms, hforms, rfl⟩
        cases hforms
        rfl
  | cons c rest ih =>
      rw [normalizeCapabilities]
      rcases hc : normalizeCapability c with err | form
      · refine ⟨fun h => (by cases h), ?_⟩
        rintro ⟨forms, hforms, -⟩
        cases hforms with
        | cons hform _ =>
            rw [hc] at hform
            cases hform
      · -- both branches go on from the result with the form added
        have hadd : (if form ∈ result then normalizeCapabilities result rest
            else normalizeCapabilities (result ++ [form]) rest)
              = normalizeCapabilities (Keyed.addNew id result form) rest := by
          rw [Keyed.addNew, List.map_id, id_eq]
          split <;> rfl
        simp only [hadd, ih]
        constructor
        · rintro ⟨forms, hforms, rfl⟩
          exact ⟨form :: forms, .cons hc hforms, rfl⟩
        · rintro ⟨forms, hforms, rfl⟩
          cases hforms with
          | @cons _ form' _ forms hform hforms =>
              obtain rfl := Except.ok.inj (hc.symm.trans hform)
              exact ⟨forms, hforms, rfl⟩

/-- The canonical forms are those of the declared capabilities. -/
theorem mem_normalizeCapabilities (h : normalizeCapabilities [] declared = .ok canonical) :
    r ∈ canonical ↔ ∃ c ∈ declared, normalizeCapability c = .ok r := by
  obtain ⟨forms, hforms, rfl⟩ := normalizeCapabilities_ok_iff.mp h
  rw [Keyed.mem_addAll_id]
  constructor
  · intro hr
    exact Pointwise.mem_right hforms (hr.resolve_left List.not_mem_nil)
  · rintro ⟨c, hc, hr⟩
    obtain ⟨form, hform, hform'⟩ := Pointwise.mem_right (List.Forall₂.flip hforms) hc
    obtain rfl := Except.ok.inj (hr.symm.trans hform')
    exact .inr hform

/-- A canonical query is among the capabilities of an Agent exactly if the Agent declares
something with its tokens. -/
theorem mem_canonical_iff (h : normalizeCapabilities [] declared = .ok canonical)
    (hq : normalizeCapability query = .ok r) : r ∈ canonical ↔ Declares declared query := by
  rw [mem_normalizeCapabilities h]
  constructor
  · rintro ⟨c, hc, hr⟩
    exact ⟨c, hc, (canonical_eq_iff hr hq).mp rfl⟩
  · rintro ⟨c, hc, htokens⟩
    obtain ⟨forms, hforms, -⟩ := normalizeCapabilities_ok_iff.mp h
    obtain ⟨form, -, hform⟩ := Pointwise.mem_right (List.Forall₂.flip hforms) hc
    obtain rfl := (canonical_eq_iff hform hq).mpr htokens
    exact ⟨c, hc, hform⟩

/-- The loops over capabilities and over requirements differ in their errors only. -/
theorem normalizeRequirementsFrom_eq (result required : List String) :
    normalizeRequirementsFrom result required = (normalizeCapabilities result required).mapError
      fun err => Sentinel.invalidRequirements.errWith (": " ++ err.text) := by
  induction required generalizing result with
  | nil => rfl
  | cons c rest ih =>
      rw [normalizeRequirementsFrom, normalizeCapabilities]
      rcases normalizeCapability c with err | form
      · rfl
      · simp only [ih]
        split <;> rfl

theorem normalizeCapabilities_of_requirements
    (h : normalizeRequirements required = .ok canonical) :
    normalizeCapabilities [] required = .ok canonical := by
  rw [normalizeRequirements] at h
  split at h
  · cases h
  · rw [normalizeRequirementsFrom_eq] at h
    rcases hn : normalizeCapabilities [] required with err | canonical'
    · rw [hn] at h
      cases h
    · rw [hn] at h
      exact h

/-- An Agent has every required capability exactly if it declares something for each. -/
theorem covers_iff {capabilities : List String}
    (h : normalizeCapabilities [] declared = .ok capabilities)
    (hrequired : normalizeRequirements required = .ok canonical) :
    (∀ c ∈ canonical, c ∈ capabilities) ↔ ∀ query ∈ required, Declares declared query := by
  have hcanonical := normalizeCapabilities_of_requirements hrequired
  constructor
  · intro hall query hquery
    obtain ⟨forms, hforms, -⟩ := normalizeCapabilities_ok_iff.mp hcanonical
    obtain ⟨form, -, hform⟩ := Pointwise.mem_right (List.Forall₂.flip hforms) hquery
    exact (mem_canonical_iff h hform).mp
      (hall form ((mem_normalizeCapabilities hcanonical).mpr ⟨query, hquery, hform⟩))
  · intro hall c hc
    obtain ⟨query, hquery, hform⟩ := (mem_normalizeCapabilities hcanonical).mp hc
    exact (mem_canonical_iff h hform).mpr (hall query hquery)

end Declared

/-! ### Discovery -/

section Discovery

variable {m : Memory} {filter : AgentFilter} {all : List Agent} {query r : String}

theorem Memory.mem_agentList {agent : Agent} :
    agent ∈ m.agentList ↔ ∃ id, m.agents.lookup id = some agent := by
  rw [Memory.agentList, List.mem_map]
  constructor
  · rintro ⟨⟨id, a⟩, hentry, rfl⟩
    exact ⟨id, AList.mem_lookup_iff.mpr hentry⟩
  · rintro ⟨id, hid⟩
    exact ⟨⟨id, agent⟩, AList.mem_lookup_iff.mp hid, rfl⟩

theorem normalizeFilter_capability {f : AgentFilter}
    (h : Memory.normalizeFilter { filter with capability := "" } = .ok f)
    (hq : normalizeCapability query = .ok r) :
    Memory.normalizeFilter { filter with capability := query } = .ok { f with capability := r } ∧
      f.capability = "" := by
  have hne := (nonempty_of_normalizeCapability hq).1
  simp only [Memory.normalizeFilter, ne_eq, not_true_eq_false, if_false, hne, not_false_eq_true,
    if_true, hq, bind, Except.bind, pure, Except.pure] at h ⊢
  repeat' split at h
  all_goals cases h
  exact ⟨rfl, rfl⟩

/-- A query for a capability narrows a search down to the Agents that declare it. -/
theorem findAgents_capability (hall : m.findAgents { filter with capability := "" } = .ok all)
    (hq : normalizeCapability query = .ok r) :
    ∃ found, m.findAgents { filter with capability := query } = .ok found ∧
      ∀ agent declared, normalizeCapabilities [] declared = .ok agent.capabilities →
        (agent ∈ found ↔ agent ∈ all ∧ Declares declared query) := by
  have hne := (nonempty_of_normalizeCapability hq).2
  simp only [Memory.findAgents] at hall
  split at hall
  · cases hall
  rename_i f hf
  obtain ⟨hfilter, hempty⟩ := normalizeFilter_capability hf hq
  obtain rfl := Except.ok.inj hall
  simp only [Memory.findAgents, hfilter]
  refine ⟨_, rfl, fun agent declared hdeclared => ?_⟩
  rw [← mem_canonical_iff hdeclared hq]
  simp only [List.mem_insertionSort, List.mem_filterMap, hempty, ne_eq, not_true_eq_false,
    false_and, if_false, hne, not_false_eq_true, true_and]
  constructor
  · rintro ⟨entry, hentry, hpass⟩
    split at hpass
    · cases hpass
    · rename_i hkeep
      split at hpass
      · cases hpass
      · rename_i hmem
        obtain rfl := Option.some.inj hpass
        exact ⟨⟨entry, hentry, if_neg hkeep⟩, not_not.mp hmem⟩
  · rintro ⟨⟨entry, hentry, hpass⟩, hmem⟩
    split at hpass
    · cases hpass
    · rename_i hkeep
      obtain rfl := Option.some.inj hpass
      exact ⟨entry, hentry, by rw [if_neg hkeep, if_neg (not_not.mpr hmem)]⟩

/-- An Agent that `Select` may take for the requirements. -/
def Memory.Offers (m : Memory) (health : String → HealthStatus) (declared : String → List String)
    (required : List String) (agent : Agent) : Prop :=
  (∃ id, m.agents.lookup id = some agent) ∧
    (health agent.id = .healthy ∨ health agent.id = .unknown) ∧
    ∀ query ∈ required, Declares (declared agent.id) query

theorem mem_tierMatches_iff {health : String → HealthStatus} {declared : String → List String}
    {required capabilities : List String}
    (hdeclared : ∀ agent ∈ m.agentList,
      normalizeCapabilities [] (declared agent.id) = .ok agent.capabilities)
    (hrequired : normalizeRequirements required = .ok capabilities) {status : HealthStatus}
    {agent : Agent} :
    agent ∈ tierMatches m.agentList health capabilities status ↔
      agent ∈ m.agentList ∧ health agent.id = status ∧
        ∀ query ∈ required, Declares (declared agent.id) query := by
  rw [tierMatches, List.mem_filter, decide_eq_true_eq]
  constructor
  · rintro ⟨hmem, hcovers, hhealth⟩
    exact ⟨hmem, hhealth, (covers_iff (hdeclared agent hmem) hrequired).mp hcovers⟩
  · rintro ⟨hmem, hhealth, hall⟩
    exact ⟨hmem, (covers_iff (hdeclared agent hmem) hrequired).mpr hall, hhealth⟩

/-- `Select` takes an Agent that declares everything required, and says that there is none exactly
if there is none. -/
theorem select_offers {health : String → HealthStatus} {declared : String → List String}
    {required capabilities : List String} (sorter : Sorter)
    (hdeclared : ∀ agent ∈ m.agentList,
      normalizeCapabilities [] (declared agent.id) = .ok agent.capabilities)
    (hrequired : normalizeRequirements required = .ok capabilities) :
    (∀ d, select sorter m.findAgents health (fun ids => .ok (m.countActiveRunsByAgent ids)) required
        = .ok d → m.Offers health declared required d.agent) ∧
      (select sorter m.findAgents health (fun ids => .ok (m.countActiveRunsByAgent ids)) required
        = .error Sentinel.noCandidate.err ↔ ¬ ∃ agent, m.Offers health declared required agent) := by
  have hmatches : ∀ {agent}, m.Offers health declared required agent ↔
      agent ∈ tierMatches m.agentList health capabilities .healthy ∨
        agent ∈ tierMatches m.agentList health capabilities .unknown := by
    intro agent
    rw [mem_tierMatches_iff hdeclared hrequired, mem_tierMatches_iff hdeclared hrequired,
      Memory.Offers, Memory.mem_agentList]
    tauto
  have hnone : (¬ ∃ agent, m.Offers health declared required agent) ↔
      tierMatches m.agentList health capabilities .healthy = [] ∧
        tierMatches m.agentList health capabilities .unknown = [] := by
    simp only [hmatches, not_exists, not_or, List.eq_nil_iff_forall_not_mem, forall_and]
  rw [hnone]
  rcases select_cases sorter health m.lists m.counts hrequired with
    ⟨status, strategy, l, selected, others, -, htier, hl, hsort, he⟩ | ⟨-, -, he⟩
  · have hselected : selected ∈ l :=
      (sorter.perm RankedAgent.before l).mem_iff.mp (by simp [hsort])
    obtain ⟨agent, hagent, rfl⟩ := List.mem_map.mp (hl.mem_iff.mp hselected)
    have htaken : agent ∈ tierMatches m.agentList health capabilities status :=
      List.mem_of_mem_filter hagent
    have hoffers : m.Offers health declared required agent := by
      refine hmatches.mpr ?_
      rcases htier with rfl | ⟨rfl, -⟩
      · exact .inl htaken
      · exact .inr htaken
    refine ⟨?_, ?_⟩
    · intro d hd
      obtain rfl := Except.ok.inj (he.symm.trans hd)
      exact hoffers
    · refine ⟨fun h => ?_, fun h => ?_⟩
      · rw [he] at h
        cases h
      · exact absurd ⟨agent, hoffers⟩ (hnone.mpr h)
  · refine ⟨fun d hd => ?_, ?_⟩
    · rw [he] at hd
      cases hd
    · rw [he]
      split
      · rename_i hsome
        refine ⟨fun h => absurd h (by decide), fun h => ?_⟩
        exact (hsome.elim (absurd h.1) (absurd h.2))
      · rename_i hempty
        push Not at hempty
        exact ⟨fun _ => hempty, fun _ => rfl⟩

end Discovery

/-! ### Stored Agents -/

section Stored

variable {absoluteURI : String → Bool} {m m' : Memory} {given agent : Agent} {now : Time}

/-- `NormalizeAndValidate` keeps the canonical forms of what it is given. -/
theorem Agent.normalizeAndValidate_declares
    (h : given.normalizeAndValidate absoluteURI = .ok agent) :
    normalizeCapabilities [] given.capabilities = .ok agent.capabilities := by
  revert h
  simp only [Agent.normalizeAndValidate, bind, Except.bind, pure, Except.pure, throw, throwThe,
    MonadExceptOf.throw]
  -- a failed check returns no Agent
  have hcheck : ∀ (p : Prop) [Decidable p] (err : Err) (rest : Except Err Agent),
      (rest = .ok agent → normalizeCapabilities [] given.capabilities = .ok agent.capabilities) →
      (if p then .error err else rest) = .ok agent →
      normalizeCapabilities [] given.capabilities = .ok agent.capabilities := by
    intro p _ err rest hrest h
    split at h
    · cases h
    · exact hrest h
  apply hcheck
  apply hcheck
  rcases normalizeAgentIdentifier "runtime" _ with err | _
  · intro h
    cases h
  rcases normalizeAgentIdentifier "protocol" _ with err | _
  · intro h
    cases h
  apply hcheck
  have hlast : ∀ f : List String → Agent, (∀ l, (f l).capabilities = l) →
      (normalizeCapabilities [] given.capabilities).bind (fun l => .ok (f l)) = .ok agent →
      normalizeCapabilities [] given.capabilities = .ok agent.capabilities := by
    intro f hf h
    rcases hl : normalizeCapabilities [] given.capabilities with err | l
    · rw [hl] at h
      cases h
    · rw [hl] at h
      obtain rfl := Except.ok.inj h
      rw [hf]
  -- the endpoint is checked if there is one, and the rest in any case
  by_cases hendpoint : trimSpace given.endpoint ≠ ""
  · rw [if_pos hendpoint]
    repeat apply hcheck
    exact hlast _ fun _ => rfl
  · rw [if_neg hendpoint]
    repeat apply hcheck
    exact hlast _ fun _ => rfl

theorem Agent.initializeForCreate_declares
    (h : given.initializeForCreate absoluteURI now = .ok agent) :
    normalizeCapabilities [] given.capabilities = .ok agent.capabilities := by
  simp only [Agent.initializeForCreate, bind, Except.bind, pure, Except.pure, throw, throwThe,
    MonadExceptOf.throw] at h
  rcases hvalid : given.normalizeAndValidate absoluteURI with err | valid
  · rw [hvalid] at h
    cases h
  · rw [hvalid] at h
    have hdeclares := Agent.normalizeAndValidate_declares hvalid
    rcases ite_eq_iff.mp h with ⟨-, h⟩ | ⟨-, h⟩
    · cases h
    · obtain rfl := Except.ok.inj h
      exact hdeclares

/-- The Agents of the store have the canonical forms of what their clients declared. -/
theorem Memory.stored_declares (h : m.createAgent absoluteURI given now = .ok (m', agent) ∨
      ∃ version, m.updateAgent absoluteURI given version now = .ok (m', agent)) :
    m'.agents.lookup agent.id = some agent ∧
      normalizeCapabilities [] given.capabilities = .ok agent.capabilities := by
  rcases h with h | ⟨version, h⟩
  · obtain ⟨-, rfl⟩ := Memory.createAgent_ok h
    refine ⟨by simp, ?_⟩
    rw [Memory.createAgent] at h
    split at h
    · cases h
    · rename_i created hcreated
      split at h
      · cases h
      · obtain ⟨-, rfl⟩ := Prod.mk.inj (Except.ok.inj h)
        exact Agent.initializeForCreate_declares hcreated
  · obtain rfl := Memory.updateAgent_ok h
    refine ⟨by simp, ?_⟩
    rw [Memory.updateAgent] at h
    split at h
    · cases h
    · rename_i valid hvalid
      split at h
      · cases h
      · split at h
        · cases h
        · have hdeclares := Agent.normalizeAndValidate_declares hvalid
          obtain ⟨-, rfl⟩ := Prod.mk.inj (Except.ok.inj h)
          exact hdeclares

end Stored

/-- **Capabilities have a canonical form.**  `NormalizeCapability` accepts a text if and only if
the trimmed and lower-cased text has nothing but `[a-z0-9.]` and separators, and something of
`[a-z0-9.]`.  The result has the form `[a-z0-9.]+(-[a-z0-9.]+)*` and is its own canonical form,
and two texts have the same one exactly if their tokens are the same.  The store keeps the
canonical forms of what an Agent declares; so `FindAgents` and `Select` match a query to an Agent
exactly if the Agent declares a capability with the same tokens. -/
theorem capability_canonical :
    (∀ s, (∃ r, normalizeCapability s = .ok r) ↔
      Admissible s ∧ ∃ c ∈ (toLower (trimSpace s)).toList, isCapabilityChar c = true) ∧
    (∀ s r, normalizeCapability s = .ok r →
      r.toList ∈ capabilityLanguage ∧ normalizeCapability r = .ok r) ∧
    (∀ s s' r r', normalizeCapability s = .ok r → normalizeCapability s' = .ok r' →
      (r = r' ↔ capabilityTokens s = capabilityTokens s')) ∧
    (∀ (m m' : Memory) absoluteURI given agent now,
      (m.createAgent absoluteURI given now = .ok (m', agent) ∨
        ∃ version, m.updateAgent absoluteURI given version now = .ok (m', agent)) →
      m'.agents.lookup agent.id = some agent ∧
        normalizeCapabilities [] given.capabilities = .ok agent.capabilities) ∧
    (∀ (m : Memory) (filter : AgentFilter) all query r,
      m.findAgents { filter with capability := "" } = .ok all →
      normalizeCapability query = .ok r →
      ∃ found, m.findAgents { filter with capability := query } = .ok found ∧
        ∀ agent declared, normalizeCapabilities [] declared = .ok agent.capabilities →
          (agent ∈ found ↔ agent ∈ all ∧ Declares declared query)) ∧
    ∀ (m : Memory) (sorter : Sorter) health declared required capabilities,
      (∀ agent ∈ m.agentList,
        normalizeCapabilities [] (declared agent.id) = .ok agent.capabilities) →
      normalizeRequirements required = .ok capabilities →
      (∀ d, select sorter m.findAgents health (fun ids => .ok (m.countActiveRunsByAgent ids))
        required = .ok d → m.Offers health declared required d.agent) ∧
      (select sorter m.findAgents health (fun ids => .ok (m.countActiveRunsByAgent ids)) required
        = .error Sentinel.noCandidate.err ↔
          ¬ ∃ agent, m.Offers health declared required agent) := by
  refine ⟨?_, ?_, ?_, ?_, ?_, ?_⟩
  · intro s
    have htokens : capabilityTokens s ≠ [] ↔
        ∃ c ∈ (toLower (trimSpace s)).toList, isCapabilityChar c = true := by
      rw [← capabilityTokens_trimSpace, ne_eq, tokens_eq_nil_iff]
      simp
    simp only [normalizeCapability_ok_iff, htokens, exists_and_left, exists_eq, and_true]
  · intro s r h
    refine ⟨?_, normalizeCapability_self h⟩
    obtain ⟨-, hne, rfl⟩ := normalizeCapability_ok_iff.mp h
    rw [String.toList_ofList]
    exact mem_capabilityLanguage (areTokens_tokens _ _) hne
  · exact fun s s' r r' h h' => canonical_eq_iff h h'
  · exact fun m m' absoluteURI given agent now h => Memory.stored_declares h
  · exact fun m filter all query r hall hq => findAgents_capability hall hq
  · exact fun m sorter health declared required capabilities hdeclared hrequired =>
      select_offers sorter hdeclared hrequired

/-- An Agent that declares `Text_Summary` is found for ` text--summary `. -/
theorem capability_canonical_summary :
    ∃ m agent found,
      Memory.createAgent (fun _ => true) {}
        { id := "a", name := "A", capabilities := ["Text_Summary"] } 7 = .ok (m, agent) ∧
      m.findAgents { capability := " text--summary " } = .ok found ∧ agent ∈ found := by
  obtain ⟨_, _, _, hstored, hfind, _⟩ := capability_canonical
  have hcreated : (Memory.createAgent (fun _ => true) {}
      { id := "a", name := "A", capabilities := ["Text_Summary"] } 7).toOption.any (fun r =>
        (r.1.findAgents { capability := "" }).toOption.any fun all => decide (r.2 ∈ all)) = true := by
    decide
  rcases hcreate : Memory.createAgent (fun _ => true) {}
      { id := "a", name := "A", capabilities := ["Text_Summary"] } 7 with err | ⟨m, agent⟩
  · rw [hcreate] at hcreated
    cases hcreated
  rw [hcreate] at hcreated
  rcases hall : m.findAgents { capability := "" } with err | all
  · simp [Except.toOption, hall] at hcreated
  obtain ⟨-, hdeclared⟩ := hstored _ _ _ _ _ _ (.inl hcreate)
  obtain ⟨found, hfound, hiff⟩ :=
    hfind m {} all " text--summary " "text-summary" hall (by decide)
  refine ⟨m, agent, found, rfl, hfound, (hiff agent _ hdeclared).mpr ⟨?_, ?_⟩⟩
  · simpa [Except.toOption, hall] using hcreated
  · exact ⟨"Text_Summary", List.mem_singleton.mpr rfl, by decide⟩

end AgentMesh
