import SiteAnalysis.Proofs.Tree.Naming
import SiteAnalysis.Tree.TextReader

set_option autoImplicit false

/-! # Forests that are read again

Nodes are given identities one after the other in the order in which they stand
(`Forest.reissue`), which changes the old identities one by one (`Forest.exists_reissue_eq_map`).
Whether a forest that is read again can be put in its place depends on its names only
(`Forest.nodup_names_cons`).
-/

namespace SiteAnalysis

variable {P : String → Prop} {lookup : Lookup}

/-- **A forest that comes back from what is written of it**: every node does, may be made and has
the name it needs. -/
structure Forest.IsRestorable (P : String → Prop) (lookup : Lookup) (f : Forest) : Prop where
  shaped : f.IsShaped
  fits : ∀ n ∈ f.nodes, n.IsRestorable P lookup.catalogue
  admitted : ∀ n ∈ f.nodes, lookup.registry.admits n.type = true
  named : ∀ n ∈ f.nodes, n.lacksName = false

/-- **A forest that can be written**, whether or not what is written can be read. -/
structure Forest.IsWritable (P : String → Prop) (lookup : Lookup) (f : Forest) : Prop where
  shaped : f.IsShaped
  fits : ∀ n ∈ f.nodes, n.IsWritable P lookup.catalogue
  admitted : ∀ n ∈ f.nodes, lookup.registry.admits n.type = true
  named : ∀ n ∈ f.nodes, n.lacksName = false

namespace Forest

variable {f : Forest} {n : Node} {branch rest : Forest}

theorem IsRestorable.isWritable (h : f.IsRestorable P lookup) : f.IsWritable P lookup :=
  { h with fits := fun n hn => (h.fits n hn).isWritable }

theorem IsWritable.isRestorable (h : f.IsWritable P lookup)
    (hcounted : ∀ n ∈ f.nodes, n.isCounted = true) : f.IsRestorable P lookup :=
  { h with fits := fun n hn => (h.fits n hn).isRestorable (hcounted n hn) }

namespace IsWritable

variable (h : (cons n branch rest).IsWritable P lookup)
include h

theorem of_branch : branch.IsWritable P lookup :=
  ⟨h.shaped.2.1, fun m hm => h.fits m (by simp [nodes, hm]),
    fun m hm => h.admitted m (by simp [nodes, hm]), fun m hm => h.named m (by simp [nodes, hm])⟩

theorem of_rest : rest.IsWritable P lookup :=
  ⟨h.shaped.2.2, fun m hm => h.fits m (by simp [nodes, hm]),
    fun m hm => h.admitted m (by simp [nodes, hm]), fun m hm => h.named m (by simp [nodes, hm])⟩

theorem of_node : n.IsWritable P lookup.catalogue := h.fits n (by simp [nodes])

end IsWritable

namespace IsRestorable

variable (h : (cons n branch rest).IsRestorable P lookup)
include h

theorem of_branch : branch.IsRestorable P lookup :=
  ⟨h.shaped.2.1, fun m hm => h.fits m (by simp [nodes, hm]),
    fun m hm => h.admitted m (by simp [nodes, hm]), fun m hm => h.named m (by simp [nodes, hm])⟩

theorem of_rest : rest.IsRestorable P lookup :=
  ⟨h.shaped.2.2, fun m hm => h.fits m (by simp [nodes, hm]),
    fun m hm => h.admitted m (by simp [nodes, hm]), fun m hm => h.named m (by simp [nodes, hm])⟩

theorem of_tree : (single ⟨n, branch⟩).IsRestorable P lookup :=
  ⟨⟨h.shaped.1, h.shaped.2.1, trivial⟩,
    fun m hm => h.fits m (by simpa [nodes] using .imp_right .inl (by simpa using hm)),
    fun m hm => h.admitted m (by simpa [nodes] using .imp_right .inl (by simpa using hm)),
    fun m hm => h.named m (by simpa [nodes] using .imp_right .inl (by simpa using hm))⟩

theorem of_node : n.IsRestorable P lookup.catalogue := h.fits n (by simp [nodes])

end IsRestorable

/-! ## New identities -/

/-- **A forest with new identities**, given out in the order of the nodes, in a context. -/
def reissue (c : Context) : Forest → Nat → Forest
  | nil, _ => nil
  | cons n branch rest, i =>
    cons (n.reissued ⟨i⟩ c) (branch.reissue c (i + 1)) (rest.reissue c (i + 1 + branch.nodes.length))

theorem reissue_setContext (c c' : Context) (f : Forest) (i : Nat) :
    (f.reissue c i).setContext c' = f.reissue c' i := by
  induction f generalizing i with
  | nil => rfl
  | cons n branch rest ihb ihr =>
      have hnode : { n.reissued ⟨i⟩ c with
          branch := (n.reissued ⟨i⟩ c).branch.map fun l => { l with context := c' } } =
          n.reissued ⟨i⟩ c' := by
        simp only [Node.reissued, Option.map_map]
        rfl
      have hbranch := ihb (i + 1)
      have hrest := ihr (i + 1 + branch.nodes.length)
      rw [setContext] at hbranch hrest ⊢
      rw [reissue, map, hnode, hbranch, hrest]
      rfl

/-- The nodes keep what identities have no part in. -/
theorem forall_nodes_reissue {p : Node → Prop} {c : Context}
    (hp : ∀ n id, p n → p (n.reissued id c)) {f : Forest} (h : ∀ n ∈ f.nodes, p n) (i : Nat) :
    ∀ n ∈ (f.reissue c i).nodes, p n := by
  induction f generalizing i with
  | nil => exact h
  | cons n branch rest ihb ihr =>
      simp only [nodes, List.forall_mem_cons, List.forall_mem_append] at h
      simp only [reissue, nodes, List.forall_mem_cons, List.forall_mem_append]
      exact ⟨hp n _ h.1, ihb h.2.1 _, ihr h.2.2 _⟩

theorem names_cons (n : Node) (branch rest : Forest) :
    (cons n branch rest).names = (single ⟨n, branch⟩).names ++ rest.names := by
  have happend : cons n branch rest = (single ⟨n, branch⟩).append rest := rfl
  rw [happend, names_append]

theorem names_reissue (c : Context) (f : Forest) (i : Nat) : (f.reissue c i).names = f.names := by
  induction f generalizing i with
  | nil => rfl
  | cons n branch rest ihb ihr =>
      rw [reissue, names_cons, names_cons, names_single, names_single, ihb, ihr]
      rfl

/-- New identities in the order of the nodes are a change of the old ones. -/
theorem reissue_eq_map {f : Forest} {σ : NodeId → NodeId} {i : Nat}
    (h : f.nodes.map (fun n => (σ n.id).value) = List.range' i f.nodes.length) (c : Context) :
    f.reissue c i = f.map fun n => n.reissued (σ n.id) c := by
  induction f generalizing i with
  | nil => rfl
  | cons n branch rest ihb ihr =>
      simp only [nodes, List.map_cons, List.map_append, List.length_cons, List.length_append] at h
      rw [List.range'_succ, List.cons.injEq, ← List.range'_append_1] at h
      obtain ⟨hn, h⟩ := h
      obtain ⟨hbranch, hrest⟩ := List.append_inj h (by simp)
      have hhead : σ n.id = ⟨i⟩ := congrArg NodeId.mk hn
      rw [reissue, map, hhead, ihb hbranch, ihr hrest]

/-- **Distinct identities stay distinct** when new ones are given out. -/
theorem exists_reissue_eq_map {f : Forest} (hids : (f.nodes.map Node.id).Nodup) (c : Context)
    (i : Nat) : ∃ σ : NodeId → NodeId,
      (∀ m ∈ f.nodes, ∀ n ∈ f.nodes, σ m.id = σ n.id → m.id = n.id) ∧
        f.reissue c i = f.map fun n => n.reissued (σ n.id) c := by
  have hnext : f.nodes.map (fun n => i + (f.nodes.map Node.id).idxOf n.id) =
      List.range' i f.nodes.length := by
    refine List.ext_getElem (by simp) fun k hk hk' => ?_
    have hindex := hids.idxOf_getElem k (by simpa using hk)
    rw [List.getElem_map] at hindex
    simp only [List.getElem_map, List.getElem_range', hindex, Nat.one_mul]
  refine ⟨fun id => ⟨i + (f.nodes.map Node.id).idxOf id⟩, fun m hm n hn heq => ?_,
    reissue_eq_map (σ := fun id => ⟨i + (f.nodes.map Node.id).idxOf id⟩) hnext c⟩
  rw [NodeId.mk.injEq, Nat.add_left_cancel_iff] at heq
  exact (List.idxOf_inj (List.mem_map.2 ⟨m, hm, rfl⟩)).1 heq

/-! ## Names -/

/-- **When a forest can be put behind others**, one tree after the other. -/
theorem nodup_names_cons {taken : List String} :
    (taken ++ (cons n branch rest).names).Nodup ↔
      (taken ++ (single ⟨n, branch⟩).names).Nodup ∧
        ((taken ++ (single ⟨n, branch⟩).names) ++ rest.names).Nodup := by
  rw [names_cons, List.append_assoc]
  exact ⟨fun h => ⟨h.sublist (List.Sublist.append_left (List.sublist_append_left _ _) taken), h⟩,
    And.right⟩

/-- **A tree that was read again is placed** behind the others exactly if no name is taken or occurs
twice. -/
theorem IsRestorable.place_reissued (hf : (single ⟨n, branch⟩).IsRestorable P lookup)
    {s : Sequence}
    (hrelevant : ∀ m ∈ (single ⟨n, branch⟩).nodes, m.type.isRelevantIn s.level.context = true)
    (htaken : s.nodes.names.Nodup) (hbranch : branch.names.Nodup) (start : Nat) (naming : Bool) :
    let placed := s.place ⟨n.reissued ⟨start⟩ .any, branch.reissue .any (start + 1)⟩ none
      s.nodes.names naming
    if (s.nodes.names ++ (single ⟨n, branch⟩).names).Nodup then
      placed = .ok ⟨s.level, s.nodes.append ((single ⟨n, branch⟩).reissue s.level.context start)⟩
    else ∃ name, placed = .error (.duplicateName name) := by
  intro placed
  let t : Subtree := ⟨n.reissued ⟨start⟩ .any, branch.reissue .any (start + 1)⟩
  have hsingle : single t = (single ⟨n, branch⟩).reissue .any start := rfl
  have hplaced : placed = _ := @Sequence.place_named s t s.nodes.names naming
    (by rw [hsingle]; exact forall_nodes_reissue (fun _ _ hm => hm) hf.named _)
    (by rw [hsingle]; exact forall_nodes_reissue (fun _ _ hm => hm) hrelevant _)
  have hclash := Sequence.clash?_eq_none_iff (t := t) htaken (by rw [names_reissue]; exact hbranch)
  rw [hsingle, names_reissue] at hclash
  rw [hplaced, hsingle, reissue_setContext]
  cases hcases : Sequence.clash? s.nodes.names t with
  | none => rw [if_pos (hclash.1 hcases)]
  | some name =>
      rw [if_neg fun hnodup => by rw [hclash.2 hnodup] at hcases; cases hcases]
      exact ⟨name, rfl⟩

end Forest

end SiteAnalysis
