/-
AgentMesh/Dataflow.lean

Evaluation of a dependency graph.

The nodes of a graph have keys, and each node depends on the keys of others.
`evaluate` visits nodes in a given order and computes the value of each one by
a rule that reads the values computed so far.  `ReadyOrder` says that a node
is visited after what it depends on.

An assignment of values to keys that satisfies the rule at every node
(`Solves`) is what the evaluation computes, in whatever order
(`evaluate_eq`).  So two executions that both satisfy the rule agree.

A graph with such an order is acyclic (`ReadyOrder.acyclic`).  Where a graph is
acyclic, some node that is not done depends on nothing that is not done
(`Acyclic.exists_ready`), which is what a search for an order needs.
-/
import Mathlib.Logic.Function.Basic
import Mathlib.Order.WellFounded
import Mathlib.Data.Fintype.Card
import Mathlib.Data.Set.Finite.List
import Mathlib.Tactic

namespace Dataflow

variable {κ α ν : Type*} [DecidableEq κ]

/-- Each node comes after what it depends on; the keys of `done` have come before. -/
def ReadyOrder (key : α → κ) (deps : α → List κ) : List κ → List α → Prop
  | _, [] => True
  | done, a :: rest => (∀ d ∈ deps a, d ∈ done) ∧ ReadyOrder key deps (key a :: done) rest

/-- Visit the nodes in order, with the values computed so far in `env`. -/
def evaluate (key : α → κ) (rule : (κ → Option ν) → α → ν) :
    (κ → Option ν) → List α → κ → Option ν
  | env, [] => env
  | env, a :: rest => evaluate key rule (Function.update env (key a) (some (rule env a))) rest

/-- The values satisfy the rule at a node, whatever is known besides what it depends on. -/
def Solves (key : α → κ) (deps : α → List κ) (rule : (κ → Option ν) → α → ν)
    (value : κ → Option ν) (a : α) : Prop :=
  ∀ env : κ → Option ν, (∀ d ∈ deps a, env d = value d) → value (key a) = some (rule env a)

variable {key : α → κ} {deps : α → List κ} {rule : (κ → Option ν) → α → ν} {value : κ → Option ν}

omit [DecidableEq κ] in
/-- As long as a node is not done, one is ready: all that it depends on is done. -/
theorem ReadyOrder.exists_ready {p : α → Prop} {done : List κ} {order : List α}
    (horder : ReadyOrder key deps done order) {a : α} (ha : a ∈ order) (hopen : ¬ p a) :
    ∃ b ∈ order, ¬ p b ∧ ∀ d ∈ deps b, d ∈ done ∨ ∃ x ∈ order, key x = d ∧ p x := by
  induction order generalizing done with
  | nil => cases ha
  | cons x rest ih =>
      obtain ⟨hdeps, hrest⟩ := horder
      by_cases hx : p x
      · -- the node is done, so the one to be found comes later
        have hmem : a ∈ rest := (List.mem_cons.mp ha).resolve_left fun h => hopen (h ▸ hx)
        obtain ⟨b, hb, hb', hready⟩ := ih hrest hmem
        refine ⟨b, List.mem_cons_of_mem x hb, hb', fun d hd => ?_⟩
        rcases hready d hd with hdone | ⟨y, hy, hkey, hpy⟩
        · rcases List.mem_cons.mp hdone with rfl | hdone
          · exact .inr ⟨x, List.mem_cons_self, rfl, hx⟩
          · exact .inl hdone
        · exact .inr ⟨y, List.mem_cons_of_mem x hy, hkey, hpy⟩
      · exact ⟨x, List.mem_cons_self, hx, fun d hd => .inl (hdeps d hd)⟩

/-- What satisfies the rule at every node is what the evaluation computes. -/
theorem evaluate_eq {done : List κ} {order : List α} {env : κ → Option ν}
    (hsolves : ∀ a ∈ order, Solves key deps rule value a) (horder : ReadyOrder key deps done order)
    (henv : ∀ d ∈ done, env d = value d) {k : κ} (hk : k ∈ done ∨ k ∈ order.map key) :
    evaluate key rule env order k = value k := by
  induction order generalizing done env with
  | nil => exact henv k (hk.resolve_right (by simp))
  | cons a rest ih =>
      rw [List.forall_mem_cons] at hsolves
      obtain ⟨hdeps, hrest⟩ := horder
      have ha : value (key a) = some (rule env a) :=
        hsolves.1 env fun d hd => henv d (hdeps d hd)
      apply ih hsolves.2 hrest
      · intro d hd
        by_cases hda : d = key a
        · rw [hda, Function.update_self, ha]
        · rw [Function.update_of_ne hda]
          exact henv d ((List.mem_cons.mp hd).resolve_left hda)
      · rw [List.map_cons, List.mem_cons] at hk
        rw [List.mem_cons]
        tauto

/-! ### Cycles -/

section Cycles

variable {key : α → κ} {deps : α → List κ} {nodes : List α}

/-- A node with the first key depends on the second one. -/
def Needs (key : α → κ) (deps : α → List κ) (nodes : List α) (k k' : κ) : Prop :=
  ∃ a ∈ nodes, key a = k ∧ k' ∈ deps a

/-- No node depends on itself, directly or through others. -/
def Acyclic (key : α → κ) (deps : α → List κ) (nodes : List α) : Prop :=
  ∀ k, ¬ Relation.TransGen (Needs key deps nodes) k k

omit [DecidableEq κ] in
/-- What comes in a ready order can be reached from below only finitely often. -/
theorem ReadyOrder.acc {order : List α} {done : List κ} (horder : ReadyOrder key deps done order)
    (hinj : ∀ a ∈ order, ∀ b ∈ nodes, key b = key a → b = a)
    (hdone : ∀ k ∈ done, Acc (fun k' k => Needs key deps nodes k k') k) :
    ∀ a ∈ order, Acc (fun k' k => Needs key deps nodes k k') (key a) := by
  induction order generalizing done with
  | nil => exact List.forall_mem_nil _
  | cons a rest ih =>
      obtain ⟨hdeps, hrest⟩ := horder
      rw [List.forall_mem_cons] at hinj
      have ha : Acc (fun k' k => Needs key deps nodes k k') (key a) := by
        refine Acc.intro _ ?_
        rintro k' ⟨b, hb, hkey, hk'⟩
        rw [hinj.1 b hb hkey] at hk'
        exact hdone k' (hdeps k' hk')
      refine List.forall_mem_cons.mpr ⟨ha, ih hrest hinj.2 ?_⟩
      exact List.forall_mem_cons.mpr ⟨ha, hdone⟩

omit [DecidableEq κ] in
theorem ReadyOrder.acyclic (horder : ReadyOrder key deps [] nodes) (hkeys : (nodes.map key).Nodup) :
    Acyclic key deps nodes := by
  have hinj : ∀ a ∈ nodes, ∀ b ∈ nodes, key b = key a → b = a :=
    fun a ha b hb h => List.inj_on_of_nodup_map hkeys hb ha h
  have hacc : ∀ k, Acc (fun k' k => Needs key deps nodes k k') k := by
    intro k
    refine Acc.intro _ ?_
    rintro k' ⟨a, ha, rfl, hk'⟩
    exact (horder.acc hinj (List.forall_mem_nil _) a ha).inv ⟨a, ha, rfl, hk'⟩
  intro k hcycle
  have hwf := (WellFounded.intro hacc).transGen
  exact hwf.irrefl.irrefl k (Relation.transGen_swap.mpr hcycle)

omit [DecidableEq κ] in
/-- In an acyclic graph some open node depends on no open node. -/
theorem Acyclic.exists_ready (h : Acyclic key deps nodes) {p : κ → Prop} {a : α} (ha : a ∈ nodes)
    (hopen : ¬ p (key a)) :
    ∃ b ∈ nodes, ¬ p (key b) ∧ ∀ d ∈ deps b, d ∈ nodes.map key → p d := by
  -- the order of dependence on the keys of the graph, of which there are finitely many
  let r (x y : {k // k ∈ nodes.map key}) : Prop := Relation.TransGen (Needs key deps nodes) y x
  have hfinite : Finite {k // k ∈ nodes.map key} := (nodes.map key).finite_toSet
  have htrans : IsTrans _ r := ⟨fun _ _ _ hxy hyz => hyz.trans hxy⟩
  have hirrefl : Std.Irrefl r := ⟨fun x => h x⟩
  have hwf : WellFounded r := Finite.wellFounded_of_trans_of_irrefl r
  obtain ⟨⟨k, hk⟩, hk', hmin⟩ := hwf.has_min {x | ¬ p x} ⟨⟨key a, List.mem_map_of_mem ha⟩, hopen⟩
  obtain ⟨b, hb, rfl⟩ := List.mem_map.mp hk
  refine ⟨b, hb, hk', ?_⟩
  intro d hd hmem
  by_contra hd'
  exact hmin ⟨d, hmem⟩ hd' (.single ⟨b, hb, rfl, hd⟩)

end Cycles

end Dataflow
