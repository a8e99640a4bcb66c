/-
AgentMesh/Migration.lean

The migration `008_capability_model.sql`, which rewrites the capabilities of the
stored Agents.

It does in SQL what `NormalizeAndValidate` does in Go: each capability is
brought into canonical form, by two substitutions and three trims instead of
one pass, and repeated forms are removed, by grouping with the first position
instead of a set of those seen.  Both end with the same list, for ASCII
capabilities that `NormalizeCapability` accepts.

`lower`, `btrim`, `regexp_replace` with a class, `GROUP BY` with `min` and
`array_agg` with `ORDER BY` are modelled here as PostgreSQL documents them.
-/
import AgentMesh.Capability

namespace AgentMesh

open Tokens Sorting

/-! ### Text functions -/

/-- `btrim(s, chars)`. -/
def btrim (chars : Char → Bool) (s : String) : String := String.ofList (trim chars s.toList)

/-- `lower(s)`, on ASCII. -/
def sqlLower (s : String) : String := String.ofList (s.toList.map Char.toLower)

/-- `regexp_replace(s, '[class]+', '-', 'g')`: the matches are the maximal runs of the class. -/
def regexpReplace (characters : Char → Bool) (s : String) : String :=
  String.ofList (squeeze characters '-' s.toList)

/-- `[[:space:]]`, on ASCII. -/
def isSpaceClass (c : Char) : Bool := (0x09 ≤ c.toNat && c.toNat ≤ 0x0D) || c == ' '

/-- The expression for the column `capability`. -/
def migratedCapability (value : String) : String :=
  btrim (· == '-') (regexpReplace (· == '-')
    (regexpReplace (fun c => isSpaceClass c || c == '_') (sqlLower (btrim (· == ' ') value))))

/-! ### Queries -/

/-- A row of the subquery `canonical`, and with its first position one of `deduplicated`. -/
@[ext] structure CapabilityRow where
  id : String
  capability : String
  position : Nat
  deriving DecidableEq, Repr

/-- `unnest(capabilities) WITH ORDINALITY`, for one Agent. -/
def Agent.capabilityRows (agent : Agent) : List CapabilityRow :=
  (agent.capabilities.zipIdx 1).map fun item =>
    { id := agent.id, capability := migratedCapability item.1, position := item.2 }

/-- The rows of `canonical` with `capability <> ''`. -/
def canonicalRows (agents : List Agent) : List CapabilityRow :=
  (agents.flatMap Agent.capabilityRows).filter fun row => row.capability ≠ ""

/-- The positions in a group. -/
def positions (rows : List CapabilityRow) (id capability : String) : List Nat :=
  (rows.filter fun row => row.id = id ∧ row.capability = capability).map CapabilityRow.position

/-- `SELECT id, capability, min(position) … GROUP BY id, capability`. -/
def deduplicated (rows : List CapabilityRow) : List CapabilityRow :=
  (rows.map fun row => (row.id, row.capability)).dedup.filterMap fun group =>
    (positions rows group.1 group.2).min?.map fun first =>
      { id := group.1, capability := group.2, position := first }

/-- `SELECT id, array_agg(capability ORDER BY first_position) … GROUP BY id`. -/
def normalizedRows (sorter : Sorter) (groups : List CapabilityRow) : List (String × List String) :=
  (groups.map CapabilityRow.id).dedup.map fun id =>
    (id, (sorter.sort (fun a b => decide (a.position < b.position))
      (groups.filter fun row => row.id = id)).map CapabilityRow.capability)

/-- The `UPDATE`: an Agent without a row in `normalized` is left alone. -/
def migrateCapabilities (sorter : Sorter) (agents : List Agent) : List Agent :=
  agents.map fun agent =>
    ((normalizedRows sorter (deduplicated (canonicalRows agents))).find?
      fun row => row.1 = agent.id).elim agent fun row => { agent with capabilities := row.2 }

/-! ### One capability -/

/-- An ASCII text. -/
def IsASCII (s : String) : Prop := ∀ c ∈ s.toList, c.toNat < 0x80

instance (s : String) : Decidable (IsASCII s) :=
  List.decidableBAll (fun c : Char => c.toNat < 0x80) s.toList

section Capability

variable {s r : String} {c : Char}

theorem toLowerRune_of_ascii (h : c.toNat < 0x80) : toLowerRune c = c.toLower := if_pos h

/-- White space of ASCII is in the class, and is its own lower case. -/
theorem isSpaceClass_toLower (h : isSpace c = true) (hascii : c.toNat < 0x80) :
    isSpaceClass c.toLower = true := by
  have hclass := of_isSpace (p := fun c => decide (0x80 ≤ c.toNat) || isSpaceClass c.toLower)
    (by decide) h
  rwa [decide_eq_false (Nat.not_le.mpr hascii), Bool.false_or] at hclass

theorem isCapabilityChar_of_isSpaceClass (h : isSpaceClass c = true) :
    isCapabilityChar c = false := by
  have hspace : isSpace c = true := by
    simp only [isSpaceClass, Bool.or_eq_true, Bool.and_eq_true, decide_eq_true_eq, beq_iff_eq] at h
    rcases h with h | rfl
    · simp [isSpace, h]
    · rfl
  rw [← Bool.not_eq_true]
  intro hc
  rw [(plain_of_capability (.inl hc)).1] at hspace
  cases hspace

/-- Of the characters of admissible capabilities, the substitutions keep those of tokens. -/
theorem kept_iff (h : isCapabilityChar c = true ∨ isCapabilitySeparator c = true ∨
      isSpaceClass c = true) :
    (!(isSpaceClass c || c == '_' || c == '-')) = isCapabilityChar c := by
  rcases h with h | h | h
  · have hclass : isSpaceClass c = false := by
      rw [← Bool.not_eq_true]
      intro hclass
      rw [isCapabilityChar_of_isSpaceClass hclass] at h
      cases h
    have hunderscore : c ≠ '_' := by
      rintro rfl
      cases h
    have hhyphen : c ≠ '-' := by
      rintro rfl
      cases h
    simp [h, hclass, hunderscore, hhyphen]
  · simp only [isCapabilitySeparator, Bool.or_eq_true, beq_iff_eq] at h
    rcases h with ((((rfl | rfl) | rfl) | rfl) | rfl) | rfl <;> rfl
  · simp [h, isCapabilityChar_of_isSpaceClass h]

/-- The tokens that the migration finds are those of `NormalizeCapability`. -/
theorem tokens_migrated (hascii : IsASCII s) (hadm : Admissible s) :
    Tokens.tokens (fun c => !(isSpaceClass c || c == '_' || c == '-'))
        ((trim (· == ' ') s.toList).map Char.toLower) = capabilityTokens s := by
  obtain ⟨before, after, hs, hbefore, hafter⟩ := eq_append_trim isSpace s.toList
  have hkept : ∀ c ∈ s.toList.map Char.toLower,
      (!(isSpaceClass c || c == '_' || c == '-')) = isCapabilityChar c := by
    intro c hc
    obtain ⟨d, hd, rfl⟩ := List.mem_map.mp hc
    have hd' := hascii d hd
    apply kept_iff
    by_cases hspace : isSpace d = true
    · exact .inr (.inr (isSpaceClass_toLower hspace hd'))
    · -- what is not white space is in the trimmed text
      rw [hs, List.mem_append, List.mem_append] at hd
      have hinner : d ∈ (trimSpace s).toList := by
        rw [trimSpace_eq_rdropWhile, String.toList_ofList]
        rcases hd with (hd | hd) | hd
        · exact absurd (hbefore d hd) hspace
        · exact hd
        · exact absurd (hafter d hd) hspace
      have hlower : d.toLower ∈ (toLower (trimSpace s)).toList := by
        rw [toLower, String.toList_ofList, ← toLowerRune_of_ascii hd']
        exact List.mem_map_of_mem hinner
      exact (hadm _ hlower).imp_right .inl
  have htrim : Tokens.tokens (fun c => !(isSpaceClass c || c == '_' || c == '-'))
      ((trim (· == ' ') s.toList).map Char.toLower)
        = Tokens.tokens (fun c => !(isSpaceClass c || c == '_' || c == '-'))
          (s.toList.map Char.toLower) := by
    refine tokens_map_trim (fun c hc => ?_) s.toList
    rw [eq_of_beq hc]
    decide
  rw [htrim, tokens_congr hkept, capabilityTokens, toLower, String.toList_ofList]
  exact congrArg _ (List.map_congr_left fun c hc => (toLowerRune_of_ascii (hascii c hc)).symm)

/-- The migration writes what `NormalizeCapability` returns. -/
theorem migratedCapability_eq (hascii : IsASCII s) (h : normalizeCapability s = .ok r) :
    migratedCapability s = r := by
  obtain ⟨hadm, -, hr⟩ := normalizeCapability_ok_iff.mp h
  -- after the first substitution, hyphens are all that separates
  have hhyphen : ∀ l, Tokens.tokens (fun c => !(c == '-'))
      (squeeze (fun c => isSpaceClass c || c == '_') '-' l)
        = Tokens.tokens (fun c => !(isSpaceClass c || c == '_' || c == '-')) l := by
    intro l
    have hsqueeze : Tokens.tokens (fun c => !(isSpaceClass c || c == '_' || c == '-'))
        (squeeze (fun c => isSpaceClass c || c == '_') '-' l) = Tokens.tokens _ l :=
      tokens_squeeze (fun a ha => by simp [ha]) rfl l
    rw [← hsqueeze]
    apply tokens_congr
    intro c hc
    rcases mem_squeezeFrom hc with rfl | ⟨-, hc⟩
    · rfl
    · simp only [hc, Bool.false_or]
  rw [hr, migratedCapability, btrim, regexpReplace, regexpReplace, sqlLower, btrim,
    String.toList_ofList, String.toList_ofList, String.toList_ofList, String.toList_ofList,
    trim_squeeze rfl, hhyphen, tokens_migrated hascii hadm]

end Capability

/-! ### The whole table -/

section Table

variable {agents : List Agent} {agent : Agent} {rows : List CapabilityRow} {group : CapabilityRow}

/-- A group has the least position of its rows. -/
theorem mem_deduplicated : group ∈ deduplicated rows ↔
    (positions rows group.id group.capability).min? = some group.position := by
  rw [deduplicated, List.mem_filterMap]
  constructor
  · rintro ⟨⟨id, capability⟩, -, hgroup⟩
    obtain ⟨first, hfirst, rfl⟩ := Option.map_eq_some_iff.mp hgroup
    exact hfirst
  · intro hmin
    have hmem := List.min?_mem hmin
    simp only [positions, List.mem_map, List.mem_filter, decide_eq_true_eq] at hmem
    obtain ⟨row, ⟨hrow, hid, hcapability⟩, -⟩ := hmem
    refine ⟨(group.id, group.capability), ?_, ?_⟩
    · rw [List.mem_dedup, List.mem_map]
      exact ⟨row, hrow, by rw [hid, hcapability]⟩
    · rw [hmin]
      rfl

theorem nodup_deduplicated (rows : List CapabilityRow) : (deduplicated rows).Nodup := by
  refine List.Nodup.filterMap ?_ (List.nodup_dedup _)
  rintro ⟨id, capability⟩ ⟨id', capability'⟩ group hgroup hgroup'
  obtain ⟨first, -, rfl⟩ := Option.map_eq_some_iff.mp hgroup
  obtain ⟨first', -, heq⟩ := Option.map_eq_some_iff.mp hgroup'
  simp only [CapabilityRow.mk.injEq] at heq
  simp [heq.1, heq.2.1]

/-- The rows of an Agent are its migrated capabilities with their places, counted from one. -/
theorem mem_positions (hids : (agents.map Agent.id).Nodup) (hagent : agent ∈ agents)
    {capability : String} {position : Nat} :
    position ∈ positions (canonicalRows agents) agent.id capability ↔
      capability ≠ "" ∧ ∃ i, position = i + 1 ∧
        (agent.capabilities.map migratedCapability)[i]? = some capability := by
  simp only [positions, canonicalRows, Agent.capabilityRows, List.mem_map, List.mem_filter,
    List.mem_flatMap, decide_eq_true_eq, List.getElem?_map, Option.map_eq_some_iff]
  constructor
  · rintro ⟨row, ⟨⟨⟨other, hother, item, hitem, rfl⟩, hne⟩, hid, rfl⟩, rfl⟩
    -- the rows with the ID are those of the Agent
    obtain rfl : other = agent := List.inj_on_of_nodup_map hids hother hagent hid
    obtain ⟨hle, hget⟩ := List.mem_zipIdx_iff_le_and_getElem?_sub.mp hitem
    exact ⟨hne, item.2 - 1, (Nat.sub_add_cancel hle).symm, item.1, hget, rfl⟩
  · rintro ⟨hne, i, rfl, value, hget, rfl⟩
    have hitem : (value, i + 1) ∈ agent.capabilities.zipIdx 1 :=
      List.mem_zipIdx_iff_le_and_getElem?_sub.mpr ⟨Nat.le_add_left 1 i, hget⟩
    exact ⟨_, ⟨⟨⟨agent, hagent, (value, i + 1), hitem, rfl⟩, hne⟩, rfl, rfl⟩, rfl⟩

theorem min_positions (hids : (agents.map Agent.id).Nodup) (hagent : agent ∈ agents)
    {capability : String} {first : Nat} :
    (positions (canonicalRows agents) agent.id capability).min? = some first ↔
      capability ≠ "" ∧ capability ∈ agent.capabilities.map migratedCapability ∧
        first = (agent.capabilities.map migratedCapability).idxOf capability + 1 := by
  rw [List.min?_eq_some_iff]
  simp only [mem_positions hids hagent]
  constructor
  · rintro ⟨⟨hne, i, rfl, hget⟩, hleast⟩
    have hmem := List.mem_of_getElem? hget
    have hle := Keyed.idxOf_le_of_getElem? hget
    have hge := hleast _ ⟨hne, _, rfl, List.getElem?_idxOf hmem⟩
    exact ⟨hne, hmem, by omega⟩
  · rintro ⟨hne, hmem, rfl⟩
    refine ⟨⟨hne, _, rfl, List.getElem?_idxOf hmem⟩, ?_⟩
    rintro position ⟨-, i, rfl, hget⟩
    exact Nat.succ_le_succ (Keyed.idxOf_le_of_getElem? hget)

/-- The aggregated capabilities of an Agent are its canonical forms in the order of their first
occurrences. -/
theorem aggregated_eq (sorter : Sorter) (hids : (agents.map Agent.id).Nodup)
    (hagent : agent ∈ agents) (hne : ∀ c ∈ agent.capabilities, migratedCapability c ≠ "") :
    (sorter.sort (fun a b => decide (a.position < b.position))
      ((deduplicated (canonicalRows agents)).filter fun row => row.id = agent.id)).map
        CapabilityRow.capability
      = Keyed.addAll id [] (agent.capabilities.map migratedCapability) := by
  generalize hforms : agent.capabilities.map migratedCapability = forms
  have hne' : ∀ c ∈ forms, c ≠ "" := by
    rw [← hforms]
    simpa using hne
  have hgroup : ∀ {group}, group ∈ (deduplicated (canonicalRows agents)).filter
      (fun row => row.id = agent.id) ↔ group.id = agent.id ∧ group.capability ∈ forms ∧
        group.position = forms.idxOf group.capability + 1 := by
    intro group
    rw [List.mem_filter, mem_deduplicated, decide_eq_true_eq, and_comm, ← hforms]
    refine and_congr_right fun hid => ?_
    rw [hid, min_positions hids hagent, hforms]
    exact ⟨fun h => h.2, fun h => ⟨hne' _ h.1, h⟩⟩
  have hsort : sorter.sort (fun a b => decide (a.position < b.position))
      ((deduplicated (canonicalRows agents)).filter fun row => row.id = agent.id)
        = (Keyed.addAll id [] forms).map fun capability =>
          { id := agent.id, capability, position := forms.idxOf capability + 1 } := by
    have hposition : Compares (fun a b => decide (a.position < b.position))
        CapabilityRow.position
        ((deduplicated (canonicalRows agents)).filter fun row => row.id = agent.id) :=
      fun a _ b _ => decide_eq_true_iff
    refine sorter.sort_eq hposition ?_ ?_ ?_
    · -- the first positions of different capabilities differ
      intro a ha b hb hab
      obtain ⟨hid, hmem, hposition⟩ := hgroup.mp ha
      obtain ⟨hid', -, hposition'⟩ := hgroup.mp hb
      have hindex : forms.idxOf a.capability = forms.idxOf b.capability := by omega
      ext
      · rw [hid, hid']
      · rw [(List.idxOf_inj hmem).mp hindex]
      · rw [hab]
    · have hnodup : ((Keyed.addAll id [] forms).map fun capability =>
          ({ id := agent.id, capability, position := forms.idxOf capability + 1 } :
            CapabilityRow)).Nodup := by
        refine List.Nodup.map ?_ ?_
        · intro a b hab
          exact (CapabilityRow.mk.inj hab).2.1
        · have hkeys : ((Keyed.addAll id [] forms).map id).Nodup :=
            Keyed.nodup_addAll List.nodup_nil
          rwa [List.map_id] at hkeys
      rw [List.perm_ext_iff_of_nodup ((nodup_deduplicated _).filter _) hnodup]
      intro group
      rw [hgroup, List.mem_map]
      constructor
      · rintro ⟨hid, hmem, hposition⟩
        refine ⟨group.capability, Keyed.mem_addAll_id.mpr (.inr hmem), ?_⟩
        rw [← hid, ← hposition]
      · rintro ⟨capability, hmem, rfl⟩
        exact ⟨rfl, (Keyed.mem_addAll_id.mp hmem).resolve_left List.not_mem_nil, rfl⟩
    · rw [List.pairwise_map]
      exact (Keyed.pairwise_idxOf_addAll forms).imp fun hlt => by simp only; omega
  rw [hsort, List.map_map]
  exact List.map_id _

/-- An Agent without capabilities has no group. -/
theorem find?_normalizedRows_eq_none (sorter : Sorter) (hids : (agents.map Agent.id).Nodup)
    (hagent : agent ∈ agents) (hnil : agent.capabilities = []) :
    (normalizedRows sorter (deduplicated (canonicalRows agents))).find?
      (fun row => row.1 = agent.id) = none := by
  rw [List.find?_eq_none]
  rintro ⟨id, capabilities⟩ hrow
  simp only [normalizedRows, List.mem_map, List.mem_dedup, Prod.mk.injEq] at hrow
  obtain ⟨id', ⟨group, hgroup, rfl⟩, rfl, -⟩ := hrow
  intro hid
  have hid' : group.id = agent.id := of_decide_eq_true hid
  rw [mem_deduplicated, hid', min_positions hids hagent, hnil] at hgroup
  exact List.not_mem_nil hgroup.2.1

theorem find?_normalizedRows (sorter : Sorter) (hids : (agents.map Agent.id).Nodup)
    (hagent : agent ∈ agents) (hne : ∀ c ∈ agent.capabilities, migratedCapability c ≠ "")
    (hcons : agent.capabilities ≠ []) :
    ((normalizedRows sorter (deduplicated (canonicalRows agents))).find?
      (fun row => row.1 = agent.id)).map Prod.snd
        = some (Keyed.addAll id [] (agent.capabilities.map migratedCapability)) := by
  obtain ⟨c, rest, hc⟩ := List.exists_cons_of_ne_nil hcons
  -- the first capability has a group
  have hgroup : agent.id ∈ ((deduplicated (canonicalRows agents)).map CapabilityRow.id).dedup := by
    rw [List.mem_dedup, List.mem_map]
    have hmin := (min_positions hids hagent).mpr ⟨hne c (by simp [hc]), by simp [hc], rfl⟩
    exact ⟨⟨agent.id, migratedCapability c, _⟩, mem_deduplicated.mpr hmin, rfl⟩
  rw [normalizedRows, find?_map_pair _ hgroup, aggregated_eq sorter hids hagent hne]

end Table

/-- **The capability migration matches the code.**  For a table of Agents with different IDs, an
Agent whose capabilities are ASCII texts that `NormalizeCapability` accepts has after the migration
the capabilities that `NormalizeAndValidate` computes from the same list. -/
theorem migrateCapabilities_eq (sorter : Sorter) {agents : List Agent}
    (hids : (agents.map Agent.id).Nodup) {agent : Agent} (hagent : agent ∈ agents)
    (hascii : ∀ c ∈ agent.capabilities, IsASCII c)
    (haccepted : ∀ c ∈ agent.capabilities, ∃ r, normalizeCapability c = .ok r) :
    ∃ capabilities, normalizeCapabilities [] agent.capabilities = .ok capabilities ∧
      { agent with capabilities } ∈ migrateCapabilities sorter agents ∧
      ∀ absoluteURI valid, agent.normalizeAndValidate absoluteURI = .ok valid →
        valid.capabilities = capabilities := by
  have hmigrated : ∀ c ∈ agent.capabilities, normalizeCapability c = .ok (migratedCapability c) := by
    intro c hc
    obtain ⟨r, hr⟩ := haccepted c hc
    rw [hr, migratedCapability_eq (hascii c hc) hr]
  have hne : ∀ c ∈ agent.capabilities, migratedCapability c ≠ "" :=
    fun c hc => (nonempty_of_normalizeCapability (hmigrated c hc)).2
  have hforms : normalizeCapabilities [] agent.capabilities
      = .ok (Keyed.addAll id [] (agent.capabilities.map migratedCapability)) := by
    refine normalizeCapabilities_ok_iff.mpr ⟨_, ?_, rfl⟩
    rw [List.forall₂_map_right_iff]
    exact List.forall₂_same.mpr hmigrated
  refine ⟨_, hforms, ?_, ?_⟩
  · refine List.mem_map.mpr ⟨agent, hagent, ?_⟩
    by_cases hnil : agent.capabilities = []
    · rw [find?_normalizedRows_eq_none sorter hids hagent hnil, hnil]
      show agent = { agent with capabilities := [] }
      rw [← hnil]
    · obtain ⟨row, hrow, hcapabilities⟩ := Option.map_eq_some_iff.mp
        (find?_normalizedRows sorter hids hagent hne hnil)
      rw [hrow, ← hcapabilities]
      rfl
  · intro absoluteURI valid hvalid
    exact Except.ok.inj ((Agent.normalizeAndValidate_declares hvalid).symm.trans hforms)

/-- Three spellings of two capabilities, with a tab and a vertical tab around one of them. -/
def legacyAgent : Agent :=
  { id := "a", capabilities := ["Text_Summary", "\t\x0bv1.2 ", " text - summary"] }

theorem migrateCapabilities_eq_legacy :
    { legacyAgent with capabilities := ["text-summary", "v1.2"] }
      ∈ migrateCapabilities insertion [{ id := "b" }, legacyAgent] := by
  have hmem : legacyAgent ∈ [{ id := "b" }, legacyAgent] := by simp
  have haccepted : ∀ c ∈ legacyAgent.capabilities, ∃ r, normalizeCapability c = .ok r := by
    have hall : legacyAgent.capabilities.all
        (fun c => (normalizeCapability c).toOption.isSome) = true := by decide +kernel
    intro c hc
    rcases h : normalizeCapability c with err | r
    · have := List.all_eq_true.mp hall c hc
      rw [h] at this
      cases this
    · exact ⟨r, rfl⟩
  obtain ⟨capabilities, hcapabilities, hmem, -⟩ :=
    migrateCapabilities_eq insertion (by decide) hmem (by decide +kernel) haccepted
  have hlist : normalizeCapabilities [] legacyAgent.capabilities
      = .ok ["text-summary", "v1.2"] := by decide +kernel
  obtain rfl := Except.ok.inj (hcapabilities.symm.trans hlist)
  exact hmem

end AgentMesh
