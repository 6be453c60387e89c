import Mathlib.Data.List.Forall2
import Mathlib.Data.List.Nodup
import SiteAnalysis.Tree.Forest

set_option autoImplicit false

/-! # Forests

Lemmas on the list of all nodes of a forest, and forests of the same shape (`Forest.Rel`).
-/

namespace SiteAnalysis

namespace Forest

variable {R S : Node → Node → Prop} {f g h : Forest}

/-! ## All nodes -/

@[simp] theorem append_nil (f : Forest) : f.append nil = f := by
  induction f with
  | nil => rfl
  | cons n branch rest _ ih => rw [append, ih]

theorem append_assoc (f g h : Forest) : (f.append g).append h = f.append (g.append h) := by
  induction f with
  | nil => rfl
  | cons n branch rest _ ih => rw [append, append, append, ih]

@[simp] theorem nodes_append (f g : Forest) : (f.append g).nodes = f.nodes ++ g.nodes := by
  induction f with
  | nil => rfl
  | cons n branch rest _ ih => simp [append, nodes, ih]

@[simp] theorem nodes_single (t : Subtree) : (single t).nodes = t.node :: t.branch.nodes := by
  simp [single, nodes]

@[simp] theorem nodes_map (change : Node → Node) (f : Forest) :
    (f.map change).nodes = f.nodes.map change := by
  induction f with
  | nil => rfl
  | cons n branch rest ihb ihr => simp [map, nodes, ihb, ihr]

theorem map_map (change other : Node → Node) (f : Forest) :
    (f.map change).map other = f.map (other ∘ change) := by
  induction f with
  | nil => rfl
  | cons n branch rest ihb ihr => simp [map, ihb, ihr]

theorem map_id (f : Forest) : f.map id = f := by
  induction f with
  | nil => rfl
  | cons n branch rest ihb ihr => rw [map, ihb, ihr, id]

theorem map_congr {change other : Node → Node} (h : ∀ n ∈ f.nodes, change n = other n) :
    f.map change = f.map other := by
  induction f with
  | nil => rfl
  | cons n branch rest ihb ihr =>
      simp only [nodes, List.mem_cons, List.mem_append] at h
      rw [map, map, h n (.inl rfl), ihb fun m hm => h m (.inr (.inl hm)),
        ihr fun m hm => h m (.inr (.inr hm))]

/-- The identities of a tree are distinct in its parts. -/
theorem nodup_ids_cons {n : Node} {branch rest : Forest}
    (h : ((cons n branch rest).nodes.map Node.id).Nodup) :
    (n.id ∉ branch.nodes.map Node.id ∧ n.id ∉ rest.nodes.map Node.id) ∧
      (branch.nodes.map Node.id).Nodup ∧ (rest.nodes.map Node.id).Nodup ∧
      ∀ id ∈ branch.nodes.map Node.id, id ∉ rest.nodes.map Node.id := by
  rw [nodes, List.map_cons, List.map_append, List.nodup_cons, List.mem_append, not_or,
    List.nodup_append] at h
  exact ⟨h.1, h.2.1, h.2.2.1, fun id hb hr => h.2.2.2 id hb id hr rfl⟩

theorem names_eq (f : Forest) :
    f.names = (f.nodes.filter fun n => !n.name.isEmpty).map fun n => foldCase n.name := rfl

@[simp] theorem names_append (f g : Forest) : (f.append g).names = f.names ++ g.names := by
  simp [names]

theorem names_map {change : Node → Node} (h : ∀ n, (change n).name = n.name) (f : Forest) :
    (f.map change).names = f.names := by
  simp [names, List.filter_map, Function.comp_def, h]

theorem names_setContext (c : Context) (f : Forest) : (f.setContext c).names = f.names := by
  apply names_map
  intro n
  rfl

/-! ## Shapes -/

/-- **Whether only nodes that own a branch have nodes in it.** -/
def IsShaped : Forest → Prop
  | nil => True
  | cons n branch rest => (n.branch = none → branch = nil) ∧ branch.IsShaped ∧ rest.IsShaped

theorem isShaped_append : (f.append g).IsShaped ↔ f.IsShaped ∧ g.IsShaped := by
  induction f with
  | nil => simp [append, IsShaped]
  | cons n branch rest _ ih => simp [append, IsShaped, ih, and_assoc]

theorem isShaped_single {t : Subtree} :
    (single t).IsShaped ↔ (t.node.branch = none → t.branch = nil) ∧ t.branch.IsShaped := by
  simp [single, IsShaped]

/-- **Forests of the same shape with related nodes.** -/
inductive Rel (R : Node → Node → Prop) : Forest → Forest → Prop
  | nil : Rel R nil nil
  | cons {n m : Node} {branch branch' rest rest' : Forest} (hnode : R n m)
      (hbranch : Rel R branch branch') (hrest : Rel R rest rest') :
      Rel R (cons n branch rest) (cons m branch' rest')

namespace Rel

theorem refl (hR : ∀ n, R n n) (f : Forest) : Rel R f f := by
  induction f with
  | nil => exact .nil
  | cons n branch rest ihb ihr => exact .cons (hR n) ihb ihr

theorem trans {T : Node → Node → Prop} (hT : ∀ {l m n}, R l m → S m n → T l n) (hfg : Rel R f g)
    (hgh : Rel S g h) : Rel T f h := by
  induction hfg generalizing h with
  | nil => cases hgh; exact .nil
  | cons hnode _ _ ihb ihr =>
      cases hgh with
      | cons hnode' hbranch' hrest' => exact .cons (hT hnode hnode') (ihb hbranch') (ihr hrest')

theorem map {change : Node → Node} (hR : ∀ n, R n (change n)) (f : Forest) :
    Rel R f (f.map change) := by
  induction f with
  | nil => exact .nil
  | cons n branch rest ihb ihr => exact .cons (hR n) ihb ihr

theorem nodes (hfg : Rel R f g) : List.Forall₂ R f.nodes g.nodes := by
  induction hfg with
  | nil => exact .nil
  | cons hnode _ _ ihb ihr => exact .cons hnode (List.rel_append ihb ihr)

theorem eq_nil_iff (hfg : Rel R f g) : f = .nil ↔ g = .nil := by
  cases hfg <;> simp

theorem isShaped (hR : ∀ {n m}, R n m → n.branch.isNone = m.branch.isNone) (hfg : Rel R f g)
    (h : f.IsShaped) : g.IsShaped := by
  induction hfg with
  | nil => trivial
  | @cons n m _ _ _ _ hnode hbranch _ ihb ihr =>
      refine ⟨fun hnone => hbranch.eq_nil_iff.1 (h.1 ?_), ihb h.2.1, ihr h.2.2⟩
      have := hR hnode
      rw [hnone] at this
      simpa using this

end Rel

end Forest

end SiteAnalysis
