import SiteAnalysis.Proofs.Text.Plain
import SiteAnalysis.Proofs.Tree.Forest
import SiteAnalysis.Tree.Links

set_option autoImplicit false

/-! # Links in trees that differ in identities

References by name mean corresponding nodes in two trees of the same shape whose nodes have the same
names and types (`Forest.Relocates`). Main statement:

* `Forest.Relocates.resolve?_named`: what a reference by name should be, in both trees.
-/

namespace SiteAnalysis

/-! ## References by name -/

namespace Forest

variable {f : Forest} {id : NodeId} {r : NodeRef} {treeWide : Bool} {filter : NodeFilter}

/-- A reference by name means a node of this name. -/
theorem sameName_of_target? {n : Node} (hnamed : r.id = none)
    (h : f.target? id r treeWide = some n) : sameName n.name r.name = true := by
  unfold target? at h
  rw [hnamed] at h
  dsimp only at h
  split at h
  · next m hm =>
      obtain rfl := Option.some.inj h
      have hfound := List.find?_some hm
      simp only [Bool.and_eq_true] at hfound
      exact hfound.1.2
  · split at h
    · have hfound := List.find?_some h
      simp only [Bool.and_eq_true] at hfound
      exact hfound.1.2
    · cases h

/-- A reference that should be another has the name of that one, up to case. -/
theorem sameName_of_resolve? {r' : NodeRef} (hnamed : r.id = none)
    (h : f.resolve? id treeWide filter r = some r') : sameName r'.name r.name = true := by
  unfold resolve? at h
  split at h
  · next n hn =>
      split at h
      · obtain rfl := Option.some.inj h
        exact sameName_of_target? hnamed hn
      · cases h
  · cases h

/-- Names that differ in case only mean the same node. -/
theorem target?_named_congr {s t : String} (h : sameName s t = true) :
    f.target? id (.named s) treeWide = f.target? id (.named t) treeWide := by
  simp only [target?, NodeRef.named, inScope?, search?, Node.isNamed, sameName_congr_right h]

theorem resolve?_named_congr {s t : String} (h : sameName s t = true) :
    f.resolve? id treeWide filter (.named s) = f.resolve? id treeWide filter (.named t) := by
  rw [resolve?, resolve?, target?_named_congr h]

end Forest

/-! ## Changes of identities -/

/-- **A change of the nodes of a forest that gives them other identities**, as distinct as they
were, and keeps names and types. -/
structure Forest.Relocates (f : Forest) (σ : NodeId → NodeId) (change : Node → Node) : Prop where
  identity : ∀ n, (change n).id = σ n.id
  name : ∀ n, (change n).name = n.name
  type : ∀ n, (change n).type = n.type
  injective : ∀ m ∈ f.nodes, ∀ n ∈ f.nodes, σ m.id = σ n.id → m.id = n.id

namespace Forest.Relocates

variable {f : Forest} {σ : NodeId → NodeId} {change : Node → Node}

theorem branch {n : Node} {branch rest : Forest}
    (h : (cons n branch rest).Relocates σ change) : branch.Relocates σ change :=
  { h with injective := fun m hm k hk =>
      h.injective m (by simp [nodes, hm]) k (by simp [nodes, hk]) }

theorem rest {n : Node} {branch rest : Forest}
    (h : (cons n branch rest).Relocates σ change) : rest.Relocates σ change :=
  { h with injective := fun m hm k hk =>
      h.injective m (by simp [nodes, hm]) k (by simp [nodes, hk]) }

/-- The identities of a node in both trees, compared with one of the first tree. -/
theorem identity_eq_iff (h : f.Relocates σ change) {from_ n : Node} (hfrom : from_ ∈ f.nodes)
    (hn : n ∈ f.nodes) : (change n).id = σ from_.id ↔ n.id = from_.id := by
  rw [h.identity]
  exact ⟨h.injective n hn from_ hfrom, fun heq => by rw [heq]⟩

/-- The nodes seen from a node correspond to those seen from its counterpart. -/
theorem visibleBehind (h : f.Relocates σ change) {id : NodeId}
    (hid : ∀ n ∈ f.nodes, σ n.id = σ id → n.id = id) (before : List Node) :
    (f.map change).visibleBehind (σ id) (before.map change) =
      (f.visibleBehind id before).map (List.map change) := by
  induction f generalizing before with
  | nil => rfl
  | cons n branch rest ihb ihr =>
      have hbranch := ihb h.branch (fun m hm => hid m (by simp [nodes, hm])) []
      have hrest := ihr h.rest (fun m hm => hid m (by simp [nodes, hm])) (n :: before)
      have hn : (change n).id = σ id ↔ n.id = id := by
        rw [h.identity]
        exact ⟨hid n (by simp [nodes]), fun heq => by rw [heq]⟩
      rw [map, Forest.visibleBehind, Forest.visibleBehind]
      by_cases heq : n.id = id
      · rw [if_pos heq, if_pos (hn.2 heq)]
        rfl
      · rw [if_neg heq, if_neg (mt hn.1 heq)]
        rw [List.map_nil] at hbranch
        rw [List.map_cons] at hrest
        rw [hbranch, hrest]
        cases branch.visibleBehind id [] with
        | none => rfl
        | some inner => simp

variable {from_ : Node} (h : f.Relocates σ change) (hfrom : from_ ∈ f.nodes)
include h hfrom

theorem visible : (f.map change).visible (σ from_.id) = (f.visible from_.id).map change := by
  have hid : ∀ n ∈ f.nodes, σ n.id = σ from_.id → n.id = from_.id :=
    fun n hn heq => h.injective n hn from_ hfrom heq
  have hbehind := h.visibleBehind hid []
  rw [List.map_nil] at hbehind
  rw [Forest.visible, Forest.visible, hbehind]
  cases f.visibleBehind from_.id [] <;> rfl

omit h hfrom in
/-- The nodes seen from a node are nodes of the tree. -/
theorem mem_of_mem_visibleBehind {f : Forest} {id : NodeId} {before seen : List Node}
    (h : f.visibleBehind id before = some seen) : ∀ n ∈ seen, n ∈ before ∨ n ∈ f.nodes := by
  induction f generalizing before seen with
  | nil => cases h
  | cons m branch rest ihb ihr =>
      unfold Forest.visibleBehind at h
      intro n hn
      -- The node itself, or one of its branch, or one behind it.
      split at h
      · obtain rfl := Option.some.inj h
        rcases List.mem_cons.1 hn with rfl | hn
        · exact .inr (by simp [nodes])
        · exact .inl hn
      · split at h
        · next inner hinner =>
            obtain rfl := Option.some.inj h
            rcases List.mem_append.1 hn with hn | hn
            · rcases ihb hinner n hn with hnil | hbranch
              · cases hnil
              · exact .inr (by simp [nodes, hbranch])
            · rcases List.mem_cons.1 hn with rfl | hn
              · exact .inr (by simp [nodes])
              · exact .inl hn
        · rcases ihr h n hn with hbefore | hrest
          · rcases List.mem_cons.1 hbefore with rfl | hbefore
            · exact .inr (by simp [nodes])
            · exact .inl hbefore
          · exact .inr (by simp [nodes, hrest])

omit h hfrom in
theorem mem_of_mem_visible {f : Forest} {id : NodeId} {n : Node} (h : n ∈ f.visible id) :
    n ∈ f.nodes := by
  unfold Forest.visible at h
  cases hseen : f.visibleBehind id [] with
  | none => rw [hseen] at h; cases h
  | some seen =>
      rw [hseen] at h
      rcases mem_of_mem_visibleBehind hseen n h with hnil | hmem
      · cases hnil
      · exact hmem

/-- A test on names that excepts the node that refers. -/
theorem passes_iff (name : String) {n : Node} (hn : n ∈ f.nodes) :
    (some (change n).id != some (σ from_.id) && (change n).isNamed name &&
      NodeFilter.any.admits (change n).type) =
      (some n.id != some from_.id && n.isNamed name && NodeFilter.any.admits n.type) := by
  have hid : (some (change n).id != some (σ from_.id)) = (some n.id != some from_.id) := by
    rw [Bool.eq_iff_iff]
    simp [h.identity_eq_iff hfrom hn]
  rw [hid, Node.isNamed, Node.isNamed, h.name, h.type]

/-- **The node that a reference by name means**, in both trees. -/
theorem target?_named (name : String) (treeWide : Bool) :
    (f.map change).target? (σ from_.id) (.named name) treeWide =
      (f.target? from_.id (.named name) treeWide).map change := by
  -- Identities are renamed without clashes, and names stay, so both searches stop at the same node.
  have hfind : ∀ l : List Node, (∀ n ∈ l, n ∈ f.nodes) →
      (l.map change).find? (fun n => some n.id != some (σ from_.id) && n.isNamed name &&
        NodeFilter.any.admits n.type) =
      (l.find? fun n => some n.id != some from_.id && n.isNamed name &&
        NodeFilter.any.admits n.type).map change := fun l hl => by
    rw [List.find?_map]
    congr 1
    refine List.find?_congr fun n hn => ?_
    exact h.passes_iff hfrom name (hl n hn)
  have hscope : (f.map change).inScope? (σ from_.id) name (some (σ from_.id)) .any =
      (f.inScope? from_.id name (some from_.id) .any).map change := by
    rw [inScope?, inScope?, h.visible hfrom]
    exact hfind _ fun n hn => mem_of_mem_visible hn
  have hsearch : (f.map change).search? name (some (σ from_.id)) .any =
      (f.search? name (some from_.id) .any).map change := by
    rw [search?, search?, nodes_map]
    exact hfind _ fun n hn => hn
  simp only [target?, NodeRef.named, hscope, hsearch]
  cases f.inScope? from_.id name (some from_.id) .any with
  | some n => rfl
  | none => cases treeWide <;> rfl

/-- **What a reference by name should be**, in both trees. -/
theorem resolve?_named (name : String) (treeWide : Bool) (filter : NodeFilter) :
    (f.map change).resolve? (σ from_.id) treeWide filter (.named name) =
      (f.resolve? from_.id treeWide filter (.named name)).map fun r =>
        { r with id := r.id.map σ } := by
  rw [resolve?, resolve?, h.target?_named hfrom]
  cases f.target? from_.id (.named name) treeWide with
  | none => rfl
  | some n =>
      simp only [Option.map_some, h.type, h.name, h.identity]
      split <;> rfl

end Forest.Relocates

end SiteAnalysis
