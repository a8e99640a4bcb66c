/-
AgentMesh/Machine.lean

Machines that take one action at a time, and their runs.

A machine is a partial step function `step : σ → α → Option σ`: from a state
and an action to the next state, or to `none` where the action is not enabled.
Several parties that interleave are one machine whose actions name the party
that moves, so "in every interleaving" is "in every run".

`Runs step P s t` says that some sequence of actions leads from `s` to `t`,
each of them taken in a state where the condition `P` allows it.  `Free` allows
everything.  The condition is how a theorem speaks of the runs that avoid a
certain kind of step.

The rules used by the rest of the development are `Runs.invariant` (what every
allowed step preserves holds at the end of a run) and `Runs.related` (a
preorder that contains every allowed step contains every run).  Concrete runs
are computed by `exec`, and `runs_exec` turns them into `Runs`.
-/
import Mathlib.Logic.Relation

namespace Machine

variable {σ α : Type*}

/-! ### Runs -/

/-- One action, allowed by `P` in the state it is taken in. -/
def Next (step : σ → α → Option σ) (P : σ → α → Prop) (s t : σ) : Prop :=
  ∃ a, P s a ∧ step s a = some t

/-- Runs of the machine whose every action is allowed by `P`. -/
def Runs (step : σ → α → Option σ) (P : σ → α → Prop) : σ → σ → Prop :=
  Relation.ReflTransGen (Next step P)

/-- The condition that allows every action. -/
def Free : σ → α → Prop := fun _ _ => True

variable {step : σ → α → Option σ} {P Q : σ → α → Prop} {s t u : σ} {a : α}

theorem Runs.refl : Runs step P s s :=
  Relation.ReflTransGen.refl

theorem Runs.snoc (h : Runs step P s t) (hP : P t a) (ha : step t a = some u) :
    Runs step P s u :=
  Relation.ReflTransGen.tail h ⟨a, hP, ha⟩

theorem Runs.trans (h : Runs step P s t) (h' : Runs step P t u) : Runs step P s u :=
  Relation.ReflTransGen.trans h h'

/-- A stronger condition allows fewer runs. -/
theorem Runs.mono (hPQ : ∀ s a, P s a → Q s a) (h : Runs step P s t) : Runs step Q s t := by
  induction h with
  | refl => exact Runs.refl
  | tail _ hnext ih =>
      obtain ⟨a, hP, ha⟩ := hnext
      exact ih.snoc (hPQ _ a hP) ha

theorem Runs.free (h : Runs step P s t) : Runs step Free s t :=
  h.mono fun _ _ _ => trivial

/-! ### Invariants -/

/-- What the first state has and every allowed step preserves, the last state has. -/
theorem Runs.invariant {I : σ → Prop} (h : Runs step P s t) (hs : I s)
    (hstep : ∀ {u v a}, I u → P u a → step u a = some v → I v) : I t := by
  induction h with
  | refl => exact hs
  | tail _ hnext ih =>
      obtain ⟨a, hP, ha⟩ := hnext
      exact hstep ih hP ha

/-- A preorder that contains every allowed step from a state with the invariant
`I` contains every run from such a state. -/
theorem Runs.related {I : σ → Prop} {R : σ → σ → Prop} (h : Runs step P s t) (hs : I s)
    (hI : ∀ {u v a}, I u → P u a → step u a = some v → I v)
    (hrefl : ∀ u, R u u) (htrans : ∀ {u v w}, R u v → R v w → R u w)
    (hstep : ∀ {u v a}, I u → P u a → step u a = some v → R u v) : R s t := by
  have key : I t ∧ R s t := by
    induction h with
    | refl => exact ⟨hs, hrefl s⟩
    | tail _ hnext ih =>
        obtain ⟨a, hP, ha⟩ := hnext
        exact ⟨hI ih.1 hP ha, htrans ih.2 (hstep ih.1 hP ha)⟩
  exact key.2

/-! ### Computed runs -/

/-- Take the actions of a list in order. -/
def exec (step : σ → α → Option σ) (s : σ) (actions : List α) : Option σ :=
  actions.foldlM step s

/-- The machine that takes only the actions a test admits. -/
def guarded (step : σ → α → Option σ) (ok : σ → α → Bool) (s : σ) (a : α) : Option σ :=
  if ok s a then step s a else none

@[simp] theorem exec_nil : exec step s [] = some s := rfl

@[simp] theorem exec_cons (as : List α) :
    exec step s (a :: as) = (step s a).bind fun t => exec step t as := rfl

theorem runs_exec_of_forall {as : List α} (hP : ∀ a ∈ as, ∀ s, P s a)
    (h : exec step s as = some t) : Runs step P s t := by
  induction as generalizing s with
  | nil =>
      obtain rfl := Option.some.inj h
      exact Runs.refl
  | cons a as ih =>
      rw [List.forall_mem_cons] at hP
      rcases e : step s a with - | u
      · simp [e] at h
      · simp only [exec_cons, e, Option.bind_some] at h
        exact Runs.trans (Runs.refl.snoc (hP.1 s) e) (ih hP.2 h)

theorem runs_exec {as : List α} (hP : ∀ s a, P s a) (h : exec step s as = some t) :
    Runs step P s t :=
  runs_exec_of_forall (fun a _ s => hP s a) h

/-- A computed run of the guarded machine is a run under a condition that its test decides
in states with the invariant `I`. -/
theorem runs_exec_invariant {ok : σ → α → Bool} {I : σ → Prop}
    (hok : ∀ {s a}, I s → ok s a = true → P s a)
    (hstep : ∀ {s a t}, I s → ok s a = true → step s a = some t → I t) {as : List α} (hs : I s)
    (h : exec (guarded step ok) s as = some t) : Runs step P s t := by
  induction as generalizing s with
  | nil =>
      obtain rfl := Option.some.inj h
      exact Runs.refl
  | cons a as ih =>
      rw [exec_cons] at h
      obtain ⟨u, hu, hrest⟩ := Option.bind_eq_some_iff.mp h
      rw [guarded] at hu
      split at hu
      case isTrue hb => exact Runs.trans (Runs.refl.snoc (hok hs hb) hu) (ih (hstep hs hb hu) hrest)
      case isFalse => cases hu

/-- A computed run of the guarded machine is a run under the condition its
test decides. -/
theorem runs_exec_guarded {ok : σ → α → Bool} (hok : ∀ s a, ok s a = true → P s a)
    {as : List α} (h : exec (guarded step ok) s as = some t) : Runs step P s t :=
  runs_exec_invariant (I := fun _ => True) (fun _ hb => hok _ _ hb) (fun _ _ _ => trivial) trivial h

/-- A property of the state that a computed run ends in, from its decision. -/
theorem exists_of_any {o : Option σ} {p : σ → Prop} [DecidablePred p]
    (h : (o.any fun s => decide (p s)) = true) : ∃ s, o = some s ∧ p s := by
  rcases o with - | s
  · simp at h
  · exact ⟨s, rfl, by simpa using h⟩

end Machine
