/-
AgentMesh/RequestBody.lean

The bodies of requests: `decodeJSON` of `internal/httpapi/server.go`.

A body is read through `io.LimitReader`, which reports the end of the input after
1 MiB, whether or not the body ends there.  The check for trailing data asks for
just that end.  So the handler decides on the first MiB of a body, and what comes
after it is never looked at.
-/
import AgentMesh.Decoder
import AgentMesh.Run

namespace AgentMesh

open Json

open Url (Bytes)

/-- `1 << 20`. -/
def bodyLimit : Nat := 1 <<< 20

/-- `decodeJSON`: the value that is stored in the destination. -/
def decodeJSON (inRange : Bytes → Bool) (destination : Shape) (body : Bytes) :
    Except Err (Tree Bytes .value) :=
  let reader := body.take bodyLimit
  match decode inRange destination reader with
  | .error _ => .error (errorf "invalid JSON")
  | .ok (v, rest) =>
      match decode inRange (.struct []) rest with
      | .error .eof => .ok v
      | _ => .error (errorf "invalid JSON: body must contain a single object")

section Bodies

variable {inRange : Bytes → Bool} {destination : Shape} {body : Bytes} {v : Tree Bytes .value}

/-- What is accepted: the first MiB is one value that fits the destination. -/
theorem decodeJSON_ok_iff : decodeJSON inRange destination body = .ok v ↔
    IsSole v (body.take bodyLimit) ∧ v.depth ≤ maxNestingDepth ∧
      v.fits inRange destination = true := by
  constructor
  · intro h
    rw [decodeJSON] at h
    rcases hfirst : decode inRange destination (body.take bodyLimit) with err | ⟨w, rest⟩
    · simp [hfirst] at h
    · simp only [hfirst] at h
      split at h
      · rename_i hend
        obtain rfl := Except.ok.inj h
        obtain ⟨b, s, ht, hb, hs, hdepth, hfits⟩ := decode_sound hfirst
        exact ⟨⟨b, s, rest, ht, hb, hs, decode_eof_iff.mp hend⟩, hdepth, hfits⟩
      · cases h
  · rintro ⟨⟨b, s, b', ht, hb, hs, hb'⟩, hdepth, hfits⟩
    have hend : decode inRange (.struct []) b' = .error .eof := decode_eof_iff.mpr hb'
    rw [decodeJSON, ht, decode_complete hb hs hdepth hfits hb'.stops]
    simp only [hend]

/-- **Bodies are accepted whole.**  That an accepted body has at most 1 MiB, and is one JSON value
with known fields between white space, holds of a body if and only if it has at most 1 MiB, or its
first MiB alone is not a value that the destination takes. -/
theorem decodeJSON_whole_iff (inRange : Bytes → Bool) (destination : Shape) (body : Bytes) :
    ((∃ v, decodeJSON inRange destination body = .ok v) →
        body.length ≤ bodyLimit ∧ ∃ v, IsSole v body ∧ v.Known destination) ↔
      body.length ≤ bodyLimit ∨
        ¬ ∃ v, IsSole v (body.take bodyLimit) ∧ v.depth ≤ maxNestingDepth ∧
          v.fits inRange destination = true := by
  simp only [decodeJSON_ok_iff]
  constructor
  · intro h
    by_cases haccepted : ∃ v, IsSole v (body.take bodyLimit) ∧ v.depth ≤ maxNestingDepth ∧
        v.fits inRange destination = true
    · exact .inl (h haccepted).1
    · exact .inr haccepted
  · rintro (hshort | hrejected) ⟨v, haccepted⟩
    · obtain ⟨hsole, -, hfits⟩ := haccepted
      rw [List.take_of_length_le hshort] at hsole
      exact ⟨hshort, v, hsole, Tree.fits_known hfits⟩
    · exact absurd ⟨v, haccepted⟩ hrejected

end Bodies

/-! ### A body that is too long -/

def createRunRequest : Shape :=
  .struct [("agent_id", .string), ("parent_run_id", .string),
    ("required_capabilities", .slice .string), ("input", .string)]

/-- An empty object, blanks up to the end of the first MiB, and one letter. -/
def longBody : Bytes :=
  ([openBrace, closeBrace] ++ List.replicate (bodyLimit - 2) 0x20) ++ [0x78]

theorem isBlank_replicate (n : Nat) : IsBlank (List.replicate n 0x20) := by
  intro c hc
  rw [List.eq_of_mem_replicate hc]
  decide

theorem spells_empty : Spells (.object .ended) [openBrace, closeBrace] :=
  .emptyObject (b := []) fun _ h => absurd h List.not_mem_nil

theorem longBody_is_accepted :
    decodeJSON (fun _ => true) createRunRequest longBody = .ok (.object .ended) ∧
      bodyLimit < longBody.length ∧ ¬ ∃ v, IsSole v longBody := by
  have hlimit : 2 ≤ bodyLimit := by decide
  have hfirst : ([openBrace, closeBrace] ++ List.replicate (bodyLimit - 2) (0x20 : UInt8)).length
      = bodyLimit := by
    rw [List.length_append, List.length_replicate]
    show 2 + (bodyLimit - 2) = bodyLimit
    omega
  refine ⟨?_, ?_, ?_⟩
  · refine decodeJSON_ok_iff.mpr
      ⟨⟨[], _, _, ?_, ?_, spells_empty, isBlank_replicate (bodyLimit - 2)⟩, ?_, rfl⟩
    · rw [longBody, List.take_left' hfirst]
      rfl
    · exact fun _ h => absurd h List.not_mem_nil
    · decide
  · rw [longBody, List.length_append, hfirst]
    exact Nat.lt_succ_self _
  · rintro ⟨v, b, s, b', heq, hb, hs, hb'⟩
    -- the object is the value, so the letter would be white space
    have hstart : b = [] := by
      rcases b with - | ⟨c, b⟩
      · rfl
      · have hc : c = openBrace := (List.cons.inj heq).1.symm
        have hspace := hb c List.mem_cons_self
        rw [hc] at hspace
        exact absurd hspace (by decide)
    rw [hstart, List.nil_append, longBody, List.append_assoc] at heq
    have hblank := stops_blank_append (isBlank_replicate (bodyLimit - 2)) isNumberByte_of_isSpace
      (show Stops isNumberByte [0x78] from stops_cons.mpr (by decide))
    obtain ⟨-, rfl⟩ := spells_empty.unique hs heq hblank hb'.stops
    exact absurd (hb' 0x78 (List.mem_append_right _ List.mem_cons_self)) (by decide)

end AgentMesh
