/-
AgentMesh/Tokens.lean

The tokens of a text: the maximal runs of token characters in it, in order.

`tokens p l` are the tokens of `l` for the token characters `p`, and
`[sep].intercalate` writes tokens down with one separator between each two.
Writing tokens and reading them again gives them back (`tokens_intercalate`), so
this is a normal form of texts that have the same tokens.

A text editor gets there by another way: `squeeze p sep` replaces each maximal
run of characters in `p` by `sep`, and `trim` drops the separators at both ends.
Squeezing does not change the tokens (`tokens_squeeze`), and what is left of a
squeezed text after trimming is the normal form (`trim_squeeze`).
-/
import Mathlib.Data.List.Basic
import Mathlib.Data.List.DropRight

namespace Tokens

variable {α : Type*}

/-- The maximal runs of elements with `p`. -/
def tokens (p : α → Bool) (l : List α) : List (List α) :=
  (l.splitOnP fun a => !p a).filter fun t => !t.isEmpty

section Tokens

variable {p q : α → Bool} {l t : List α} {a sep : α} {ts : List (List α)}

@[simp] theorem tokens_nil (p : α → Bool) : tokens p [] = [] := by
  simp [tokens]

/-- An element that is in no token separates the tokens before it from those after it. -/
theorem tokens_append_cons (l l' : List α) (ha : p a = false) :
    tokens p (l ++ a :: l') = tokens p l ++ tokens p l' := by
  rw [tokens, List.splitOnP_append_cons l l' (by simp [ha]), List.filter_append]
  rfl

theorem tokens_cons_of_not (l : List α) (ha : p a = false) : tokens p (a :: l) = tokens p l := by
  have happend := tokens_append_cons [] l ha
  simpa using happend

/-- What has no element of a token may be left out at the beginning. -/
theorem tokens_append_left (l' : List α) (h : ∀ a ∈ l, p a = false) :
    tokens p (l ++ l') = tokens p l' := by
  induction l with
  | nil => rfl
  | cons a l ih =>
      rw [List.forall_mem_cons] at h
      rw [List.cons_append, tokens_cons_of_not _ h.1, ih h.2]

theorem tokens_of_forall (ht : ∀ a ∈ t, p a = true) (hne : t ≠ []) : tokens p t = [t] := by
  have hsplit : (t.splitOnP fun a => !p a) = [t] :=
    List.splitOnP_eq_singleton fun a ha => by simp [ht a ha]
  rw [tokens, hsplit]
  simp [hne]

theorem tokens_congr (h : ∀ a ∈ l, p a = q a) : tokens p l = tokens q l := by
  have hsplit : (l.splitOnP fun a => !p a) = l.splitOnP fun a => !q a := by
    induction l with
    | nil => rfl
    | cons a l ih =>
        rw [List.forall_mem_cons] at h
        rw [List.splitOnP_cons_eq_if_modifyHead, List.splitOnP_cons_eq_if_modifyHead, ih h.2, h.1]
  rw [tokens, hsplit, tokens]

/-- The tokens are all that the text has of token characters. -/
theorem flatten_tokens (p : α → Bool) (l : List α) : (tokens p l).flatten = l.filter p := by
  have hsplit : (l.splitOnP fun a => !p a).flatten = l.filter p := by
    induction l with
    | nil => rfl
    | cons a l ih =>
        rw [List.splitOnP_cons_eq_if_modifyHead]
        rcases ha : p a with - | -
        · simpa [ha] using ih
        · obtain ⟨t, ts, hts⟩ := List.exists_cons_of_ne_nil (List.splitOnP_ne_nil (fun a => !p a) l)
          rw [hts] at ih ⊢
          simpa [ha] using ih
  rw [tokens, List.flatten_filter_not_isEmpty, hsplit]

theorem tokens_eq_nil_iff : tokens p l = [] ↔ ∀ a ∈ l, p a = false := by
  constructor
  · intro h
    have hfilter := flatten_tokens p l
    rw [h, List.flatten_nil] at hfilter
    simpa using List.filter_eq_nil_iff.mp hfilter.symm
  · intro h
    have hleft := tokens_append_left [] h
    rwa [List.append_nil, tokens_nil] at hleft

/-- What has no element of a token may be left out at the end. -/
theorem tokens_append_right (l : List α) {l' : List α} (h : ∀ a ∈ l', p a = false) :
    tokens p (l ++ l') = tokens p l := by
  rcases l' with - | ⟨a, l'⟩
  · rw [List.append_nil]
  · rw [List.forall_mem_cons] at h
    rw [tokens_append_cons l l' h.1, tokens_eq_nil_iff.mpr h.2, List.append_nil]

/-- A sequence of tokens. -/
def AreTokens (p : α → Bool) (ts : List (List α)) : Prop :=
  ∀ t ∈ ts, t ≠ [] ∧ ∀ a ∈ t, p a = true

theorem areTokens_tokens (p : α → Bool) (l : List α) : AreTokens p (tokens p l) := by
  intro t ht
  refine ⟨?_, ?_⟩
  · rintro rfl
    simp [tokens] at ht
  · intro a ha
    have hflatten : a ∈ (tokens p l).flatten := List.mem_flatten_of_mem ht ha
    rw [flatten_tokens] at hflatten
    exact List.of_mem_filter hflatten

/-! ### Writing tokens -/

/-- The next token is written after a separator, unless it is the first one. -/
theorem intercalate_snoc (sep : α) (ts : List (List α)) (t : List α) :
    [sep].intercalate (ts ++ [t])
      = if ts = [] then t else [sep].intercalate ts ++ sep :: t := by
  induction ts with
  | nil => simp
  | cons t' ts ih =>
      rcases ts with - | ⟨t'', ts⟩
      · simp [List.intercalate_cons_cons]
      · rw [if_neg (List.cons_ne_nil _ _)] at ih
        simp only [List.cons_append, List.intercalate_cons_cons] at ih ⊢
        simp [ih]

/-- What is written last belongs to the last token. -/
theorem intercalate_snoc_append (sep : α) (ts : List (List α)) (t t' : List α) :
    [sep].intercalate (ts ++ [t ++ t']) = [sep].intercalate (ts ++ [t]) ++ t' := by
  rw [intercalate_snoc, intercalate_snoc]
  split
  · rfl
  · simp

theorem intercalate_cons (sep : α) (t : List α) (ts : List (List α)) :
    [sep].intercalate (t :: ts) = if ts = [] then t else t ++ sep :: [sep].intercalate ts := by
  rcases ts with - | ⟨t', ts⟩
  · simp
  · simp [List.intercalate_cons_cons]

theorem intercalate_eq_nil_iff (h : AreTokens p ts) : [sep].intercalate ts = [] ↔ ts = [] := by
  rcases ts with - | ⟨t, ts⟩
  · simp
  · have hne := (h t List.mem_cons_self).1
    rw [intercalate_cons]
    split <;> simp [hne]

/-- Tokens that are written down are read again. -/
theorem tokens_intercalate (h : AreTokens p ts) (hsep : p sep = false) :
    tokens p ([sep].intercalate ts) = ts := by
  induction ts with
  | nil => simp
  | cons t ts ih =>
      obtain ⟨⟨hne, hall⟩, hts⟩ := List.forall_mem_cons.mp h
      rw [intercalate_cons]
      split
      · rename_i hnil
        rw [hnil, tokens_of_forall hall hne]
      · rw [tokens_append_cons _ _ hsep, tokens_of_forall hall hne, ih hts]
        rfl

end Tokens

/-! ### Squeezing -/

/-- Each maximal run of elements with `p` is replaced by `sep`.  The flag says whether the
element before was in a run. -/
def squeezeFrom (p : α → Bool) (sep : α) : Bool → List α → List α
  | _, [] => []
  | inRun, a :: l =>
      if p a then
        if inRun then squeezeFrom p sep true l else sep :: squeezeFrom p sep true l
      else a :: squeezeFrom p sep false l

def squeeze (p : α → Bool) (sep : α) (l : List α) : List α := squeezeFrom p sep false l

/-- The elements with `p` are dropped at both ends. -/
def trim (p : α → Bool) (l : List α) : List α := (l.dropWhile p).rdropWhile p

/-- What is trimmed off are elements with `p`. -/
theorem eq_append_trim (p : α → Bool) (l : List α) :
    ∃ before after, l = before ++ trim p l ++ after ∧ (∀ a ∈ before, p a = true) ∧
      ∀ a ∈ after, p a = true := by
  refine ⟨l.takeWhile p, (l.dropWhile p).rtakeWhile p, ?_, ?_, ?_⟩
  · rw [trim, List.append_assoc, List.rdropWhile_append_rtakeWhile,
      List.takeWhile_append_dropWhile]
  · exact fun a ha => List.mem_takeWhile_imp ha
  · exact fun a ha => List.mem_rtakeWhile_imp ha

/-- Trimming does not change the tokens, if what is trimmed off is mapped to no element of one. -/
theorem tokens_map_trim {β : Type*} {p : α → Bool} {q : β → Bool} {f : α → β}
    (h : ∀ a, p a = true → q (f a) = false) (l : List α) :
    tokens q ((trim p l).map f) = tokens q (l.map f) := by
  obtain ⟨before, after, hl, hbefore, hafter⟩ := eq_append_trim p l
  have hmapped : ∀ l' : List α, (∀ a ∈ l', p a = true) → ∀ b ∈ l'.map f, q b = false := by
    intro l' hl' b hb
    obtain ⟨a, ha, rfl⟩ := List.mem_map.mp hb
    exact h a (hl' a ha)
  conv_rhs => rw [hl]
  rw [List.map_append, List.map_append, tokens_append_right _ (hmapped after hafter),
    tokens_append_left _ (hmapped before hbefore)]

section Squeeze

variable {p q : α → Bool} {sep : α}

/-- What a squeezed text is made of. -/
theorem mem_squeezeFrom {inRun : Bool} {l : List α} {a : α} (h : a ∈ squeezeFrom p sep inRun l) :
    a = sep ∨ a ∈ l ∧ p a = false := by
  induction l generalizing inRun with
  | nil => cases h
  | cons b l ih =>
      have hrest : ∀ inRun, a ∈ squeezeFrom p sep inRun l → a = sep ∨ a ∈ b :: l ∧ p a = false :=
        fun inRun h => (ih h).imp_right fun h => ⟨List.mem_cons_of_mem b h.1, h.2⟩
      rw [squeezeFrom] at h
      split at h
      · split at h
        · exact hrest _ h
        · rcases List.mem_cons.mp h with h | h
          · exact .inl h
          · exact hrest _ h
      · rename_i hb
        rcases List.mem_cons.mp h with rfl | h
        · exact .inr ⟨List.mem_cons_self, Bool.eq_false_iff.mpr hb⟩
        · exact hrest _ h

/-- The separators that are put in are in no token, like the runs that they stand for. -/
theorem tokens_squeezeFrom (hp : ∀ a, p a = true → q a = false) (hsep : q sep = false)
    (t l : List α) (inRun : Bool) (hrun : inRun = true → t = []) :
    tokens q (t ++ squeezeFrom p sep inRun l) = tokens q (t ++ l) := by
  induction l generalizing t inRun with
  | nil => rw [squeezeFrom]
  | cons a l ih =>
      rw [squeezeFrom]
      rcases hpa : p a with - | -
      · rw [if_neg (by simp)]
        rcases hqa : q a with - | -
        · rw [tokens_append_cons _ _ hqa, tokens_append_cons _ _ hqa]
          have hrest := ih [] false (by simp)
          rw [List.nil_append, List.nil_append] at hrest
          rw [hrest]
        · have hrest := ih (t ++ [a]) false (by simp)
          simpa using hrest
      · have hqa := hp a hpa
        have hrest := ih [] true (by simp)
        rw [List.nil_append, List.nil_append] at hrest
        rw [if_pos rfl]
        split
        · rename_i hin
          rw [hrun hin, List.nil_append, List.nil_append, tokens_cons_of_not l hqa, hrest]
        · rw [tokens_append_cons _ _ hsep, tokens_append_cons _ _ hqa, hrest]

theorem tokens_squeeze (hp : ∀ a, p a = true → q a = false) (hsep : q sep = false) (l : List α) :
    tokens q (squeeze p sep l) = tokens q l :=
  tokens_squeezeFrom hp hsep [] l false (by simp)

/-- What follows a run begins with an element of a token. -/
theorem dropWhile_squeezeFrom_true (p : α → Bool) (sep : α) (l : List α) :
    (squeezeFrom p sep true l).dropWhile p = squeezeFrom p sep true l := by
  induction l with
  | nil => rfl
  | cons a l ih =>
      rw [squeezeFrom]
      rcases ha : p a with - | -
      · rw [if_neg (by simp), List.dropWhile_cons_of_neg (by simp [ha])]
      · rw [if_pos rfl, if_pos rfl, ih]

theorem rdropWhile_append (p : α → Bool) (l l' : List α) :
    (l ++ l').rdropWhile p
      = if l'.rdropWhile p = [] then l.rdropWhile p else l ++ l'.rdropWhile p := by
  rw [List.rdropWhile, List.rdropWhile, List.rdropWhile, List.reverse_append, List.dropWhile_append]
  simp only [List.reverse_eq_nil_iff, List.isEmpty_iff]
  split
  · rfl
  · simp

theorem rdropWhile_of_forall {t : List α} (ht : ∀ a ∈ t, p a = false) : t.rdropWhile p = t := by
  rw [List.rdropWhile_eq_self_iff]
  intro hne
  simp [ht _ (List.getLast_mem hne)]

/-- A token `t` and the squeezed rest, or the squeezed rest after a run. -/
theorem rdropWhile_squeezeFrom (hsep : p sep = true) (t l : List α) (ht : ∀ a ∈ t, p a = false) :
    (t ++ squeezeFrom p sep (decide (t = [])) l).rdropWhile p
      = [sep].intercalate (tokens (fun a => !p a) (t ++ l)) := by
  induction l generalizing t with
  | nil =>
      rw [squeezeFrom, List.append_nil, rdropWhile_of_forall ht]
      by_cases hne : t = []
      · simp [hne]
      · rw [tokens_of_forall (by simpa using ht) hne, List.intercalate_singleton]
  | cons a l ih =>
      rw [squeezeFrom]
      rcases ha : p a with - | -
      · have hsnoc : ∀ b ∈ t ++ [a], p b = false := by
          simpa [or_imp, forall_and, ha] using ht
        have hrest := ih (t ++ [a]) hsnoc
        simpa using hrest
      · have hrest : (squeezeFrom p sep true l).rdropWhile p
            = [sep].intercalate (tokens (fun a => !p a) l) := ih [] (by simp)
        rw [if_pos rfl, tokens_append_cons _ _ (by simp [ha])]
        by_cases hne : t = []
        · simpa [hne] using hrest
        · have hafter : (sep :: squeezeFrom p sep true l).rdropWhile p
              = if tokens (fun a => !p a) l = [] then []
                else sep :: [sep].intercalate (tokens (fun a => !p a) l) := by
            have happend := rdropWhile_append p [sep] (squeezeFrom p sep true l)
            rw [hrest, List.singleton_append] at happend
            rw [happend, List.rdropWhile_singleton, if_pos hsep, List.singleton_append]
            simp only [intercalate_eq_nil_iff (areTokens_tokens _ l)]
          rw [if_neg (by simpa using hne), rdropWhile_append, hafter,
            tokens_of_forall (by simpa using ht) hne, List.singleton_append, intercalate_cons,
            rdropWhile_of_forall ht]
          -- the separator stays only if there is a token behind it
          by_cases hl : tokens (fun a => !p a) l = []
          · simp [hl]
          · simp [hl]

/-- A squeezed text without the separators at its ends is the normal form of the text. -/
theorem trim_squeeze (hsep : p sep = true) (l : List α) :
    trim p (squeeze p sep l) = [sep].intercalate (tokens (fun a => !p a) l) := by
  rw [trim, squeeze]
  rcases l with - | ⟨a, l⟩
  · simp [squeezeFrom]
  · have hrest := rdropWhile_squeezeFrom hsep [] (a :: l) (by simp)
    rw [squeezeFrom] at hrest ⊢
    rcases ha : p a with - | -
    · rw [if_neg (by simp), List.dropWhile_cons_of_neg (by simp [ha])]
      simpa [ha] using hrest
    · rw [if_pos rfl, if_neg (by simp), List.dropWhile_cons_of_pos hsep,
        dropWhile_squeezeFrom_true]
      simpa [ha] using hrest

end Squeeze

end Tokens
