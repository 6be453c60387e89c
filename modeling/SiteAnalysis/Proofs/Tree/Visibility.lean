import Mathlib.Data.List.Nodup
import SiteAnalysis.Proofs.Tree.Forest
import SiteAnalysis.Tree.Scope

set_option autoImplicit false

/-! # Visible nodes

Which nodes are seen from a node, told by the order in which the nodes are declared and by the lists
they stand in. A list is known by the nodes that enclose it (`Placed.owners`). Main statements:

* `Forest.visible_eq_scopeLevels`: what is seen is gathered along the path to a node, which a search
  with backtracking finds.
* `Forest.visible_follows_declarations`: seen are the nodes declared no later, in the lists that
  enclose the node.
-/

namespace SiteAnalysis

/-! ## Places of nodes -/

/-- **A node and the list it stands in**, known by its owners. -/
structure Placed where
  node : Node
  /-- The nodes in whose branches it is, the innermost first. -/
  owners : List NodeId

namespace Forest

/-- **All nodes with their places**, in the order they are declared. -/
def placed : List NodeId → Forest → List Placed
  | _, nil => []
  | owners, cons n branch rest =>
    ⟨n, owners⟩ :: (branch.placed (n.id :: owners) ++ rest.placed owners)

variable {f branch rest : Forest} {n : Node} {m : Placed} {owners : List NodeId}

theorem map_node_placed (f : Forest) (owners : List NodeId) :
    (f.placed owners).map Placed.node = f.nodes := by
  induction f generalizing owners with
  | nil => rfl
  | cons n branch rest ihb ihr => simp [placed, nodes, ihb, ihr]

theorem node_mem_of_mem_placed (h : m ∈ f.placed owners) : m.node ∈ f.nodes := by
  rw [← map_node_placed f owners]
  exact List.mem_map_of_mem h

/-- The owners around a forest enclose its nodes, and the others are nodes of the forest. -/
theorem exists_owners_eq (h : m ∈ f.placed owners) :
    ∃ inner, m.owners = inner ++ owners ∧ ∀ id ∈ inner, id ∈ f.nodes.map Node.id := by
  induction f generalizing owners with
  | nil => cases h
  | cons n branch rest ihb ihr =>
      simp only [placed, List.mem_cons, List.mem_append] at h
      rcases h with rfl | h | h
      · exact ⟨[], rfl, by simp⟩
      · obtain ⟨inner, hinner, hids⟩ := ihb h
        refine ⟨inner ++ [n.id], by simpa using hinner, fun id hid => ?_⟩
        rcases List.mem_append.1 hid with hid | hid
        · simp only [nodes, List.map_cons, List.map_append, List.mem_cons, List.mem_append]
          exact .inr (.inl (hids id hid))
        · simp [nodes, List.mem_singleton.1 hid]
      · obtain ⟨inner, hinner, hids⟩ := ihr h
        refine ⟨inner, hinner, fun id hid => ?_⟩
        simp only [nodes, List.map_cons, List.map_append, List.mem_cons, List.mem_append]
        exact .inr (.inr (hids id hid))

/-- A place is that of the first node, or one in its branch, or one behind. -/
theorem placed_cases {i : Nat} (h : ((cons n branch rest).placed owners)[i]? = some m) :
    (i = 0 ∧ m = ⟨n, owners⟩) ∨
    (∃ j, i = j + 1 ∧ j < (branch.placed (n.id :: owners)).length ∧
      (branch.placed (n.id :: owners))[j]? = some m) ∨
    ∃ j, i = (branch.placed (n.id :: owners)).length + j + 1 ∧
      (rest.placed owners)[j]? = some m := by
  cases i with
  | zero => exact .inl ⟨rfl, by simpa [placed] using h.symm⟩
  | succ j =>
      rw [placed, List.getElem?_cons_succ] at h
      by_cases hj : j < (branch.placed (n.id :: owners)).length
      · rw [List.getElem?_append_left hj] at h
        exact .inr (.inl ⟨j, rfl, hj, h⟩)
      · rw [List.getElem?_append_right (by omega)] at h
        exact .inr (.inr ⟨_, by omega, h⟩)

/-! ## The search for a node -/

/-- **The search for a node**, with a stack of the lists on the way down and the place in each. A
list is entered before its node is looked at and left again where nothing is found. -/
def pathTo (id : NodeId) (list : Forest) :
    Nat → Forest → List (Forest × Nat) → Bool × List (Forest × Nat)
  | _, nil, path => (false, path)
  | i, cons n branch rest, path =>
    if n.id = id then (true, (list, i) :: path)
    else match pathTo id branch 0 branch ((list, i) :: path) with
      | (true, path) => (true, path)
      | (false, path) => pathTo id list (i + 1) rest path.tail

/-- **The lists that enclose a node** with the place in each, the innermost first. -/
def scopeLevels (f : Forest) (id : NodeId) : List (Forest × Nat) := (pathTo id f 0 f []).2

/-- The nodes up to a place of a list, the nearest first. -/
def nearest (level : Forest × Nat) : List Node := (level.1.roots.take (level.2 + 1)).reverse

/-- **A search finds the nodes that are seen**, and leaves no trace where it fails. -/
theorem pathTo_spec (id : NodeId) (list : Forest) (before : List Node) (f : Forest)
    (hlist : list.roots = before.reverse ++ f.roots) (path : List (Forest × Nat)) :
    (f.visibleBehind id before = none → pathTo id list before.length f path = (false, path)) ∧
    ∀ seen, f.visibleBehind id before = some seen →
      ∃ levels, pathTo id list before.length f path = (true, levels ++ path) ∧
        levels.flatMap nearest = seen := by
  induction f generalizing list before path with
  | nil => exact ⟨fun _ => rfl, nofun⟩
  | cons n branch rest ihb ihr =>
      have hnearest : nearest (list, before.length) = n :: before := by
        have hroots : list.roots = (n :: before).reverse ++ rest.roots := by
          rw [hlist, roots, List.reverse_cons, List.append_assoc]
          rfl
        have hlength : before.length + 1 = (n :: before).reverse.length := by simp
        rw [nearest, hroots, hlength, List.take_left, List.reverse_reverse]
      have hrest := ihr list (n :: before) (by simpa [roots] using hlist) path
      obtain ⟨hnone, hsome⟩ := ihb branch [] rfl ((list, before.length) :: path)
      rw [pathTo, visibleBehind]
      by_cases hid : n.id = id
      · rw [if_pos hid, if_pos hid]
        refine ⟨nofun, fun seen hseen => ⟨[(list, before.length)], rfl, ?_⟩⟩
        rw [← Option.some.inj hseen, ← hnearest]
        exact List.append_nil _
      · rw [if_neg hid, if_neg hid]
        cases hbranch : branch.visibleBehind id [] with
        | none =>
            -- the failed descent hands back the stack it was given
            have hfailed := hnone hbranch
            rw [List.length_nil] at hfailed
            rw [hfailed]
            exact hrest
        | some inner =>
            obtain ⟨levels, hfound, hlevels⟩ := hsome inner hbranch
            rw [List.length_nil] at hfound
            rw [hfound]
            refine ⟨nofun, fun seen hseen => ?_⟩
            refine ⟨levels ++ [(list, before.length)], by simp, ?_⟩
            rw [List.flatMap_append, hlevels, ← Option.some.inj hseen, ← hnearest]
            exact congrArg (inner ++ ·) (List.append_nil _)

/-- **What is seen from a node is gathered along the path to it**: in each list that encloses it
the nodes up to the place of the path, the nearest first. -/
theorem visible_eq_scopeLevels (f : Forest) (id : NodeId) :
    f.visible id = (f.scopeLevels id).flatMap nearest := by
  obtain ⟨hnone, hsome⟩ := pathTo_spec id f [] f rfl []
  rw [List.length_nil] at hnone hsome
  rw [visible, scopeLevels]
  cases hseen : f.visibleBehind id [] with
  | none =>
      rw [hnone hseen]
      rfl
  | some seen =>
      obtain ⟨levels, hfound, hlevels⟩ := hsome seen hseen
      rw [hfound, List.append_nil]
      exact hlevels.symm

/-! ## What is seen -/

theorem visibleBehind_eq_none {id : NodeId} (h : id ∉ f.nodes.map Node.id) (before : List Node) :
    f.visibleBehind id before = none := by
  induction f generalizing before with
  | nil => rfl
  | cons n branch rest ihb ihr =>
      simp only [nodes, List.map_cons, List.map_append, List.mem_cons, List.mem_append,
        not_or] at h
      rw [visibleBehind, if_neg (Ne.symm h.1), ihb h.2.1]
      exact ihr h.2.2 (n :: before)

/-- Nothing in a branch stands in a list that encloses a node behind the branch. -/
theorem not_suffix_of_branch {p : Placed} (hn : n.id ∉ rest.nodes.map Node.id)
    (hp : p ∈ branch.placed (n.id :: owners)) (hm : m ∈ rest.placed owners) :
    ¬ p.owners <:+ m.owners := by
  intro hsuffix
  obtain ⟨inner, hinner, -⟩ := exists_owners_eq hp
  obtain ⟨outer, houter, hids⟩ := exists_owners_eq hm
  have hlong : n.id :: owners <:+ outer ++ owners :=
    ((List.suffix_append inner _).trans (hinner ▸ List.suffix_rfl)).trans (houter ▸ hsuffix)
  obtain ⟨front, hfront⟩ := hlong
  have houter' : front ++ [n.id] = outer := by
    have hsame : front ++ [n.id] ++ owners = outer ++ owners := by
      rw [List.append_assoc]
      exact hfront
    exact List.append_cancel_right hsame
  exact hn (hids n.id (houter' ▸ by simp))

/-- **What is seen from a node**, with the nodes seen before the forest was entered. -/
theorem visibleBehind_eq (hids : (f.nodes.map Node.id).Nodup) (before : List Node) {i : Nat}
    (h : (f.placed owners)[i]? = some m) :
    f.visibleBehind m.node.id before =
      some (((((f.placed owners).take (i + 1)).filter fun p => p.owners <:+ m.owners).map
        Placed.node).reverse ++ before) := by
  induction f generalizing owners before i with
  | nil => cases h
  | cons n branch rest ihb ihr =>
      obtain ⟨⟨hbranch, hrest⟩, hbranchIds, hrestIds, hapart⟩ := nodup_ids_cons hids
      rw [visibleBehind]
      rcases placed_cases h with ⟨rfl, rfl⟩ | ⟨j, rfl, hj, hm⟩ | ⟨j, rfl, hm⟩
      · rw [if_pos rfl]
        simp [placed]
      · have hmem := List.mem_of_getElem? hm
        have hne : n.id ≠ m.node.id := fun heq =>
          hbranch (heq ▸ List.mem_map_of_mem (node_mem_of_mem_placed hmem))
        -- the owner of the branch comes before it
        have hn : owners <:+ m.owners := by
          obtain ⟨inner, hinner, -⟩ := exists_owners_eq hmem
          rw [hinner]
          exact (List.suffix_cons n.id owners).trans (List.suffix_append inner _)
        rw [if_neg hne, ihb hbranchIds [] hm]
        simp [placed, List.take_append_of_le_length hj, hn]
      · have hmem := List.mem_of_getElem? hm
        have hmid := List.mem_map_of_mem (f := Node.id) (node_mem_of_mem_placed hmem)
        have hne : n.id ≠ m.node.id := fun heq => hrest (heq ▸ hmid)
        have hnone : branch.visibleBehind m.node.id [] = none :=
          visibleBehind_eq_none (fun hin => hapart _ hin hmid) []
        have hn : owners <:+ m.owners := by
          obtain ⟨inner, hinner, -⟩ := exists_owners_eq hmem
          exact hinner ▸ List.suffix_append inner owners
        have hskip : (branch.placed (n.id :: owners)).filter (fun p => p.owners <:+ m.owners) = [] :=
          List.filter_eq_nil_iff.2 fun p hp => by simpa using not_suffix_of_branch hrest hp hmem
        have htake : ((cons n branch rest).placed owners).take
            ((branch.placed (n.id :: owners)).length + j + 1 + 1) =
            ⟨n, owners⟩ :: (branch.placed (n.id :: owners) ++ (rest.placed owners).take (j + 1)) := by
          rw [placed, List.take_succ_cons, Nat.add_assoc, List.take_length_add_append]
        rw [if_neg hne, hnone, htake]
        dsimp only
        rw [ihr hrestIds (n :: before) hm, List.filter_cons_of_pos (by simpa using hn),
          List.filter_append, hskip]
        simp

/-- Every owner around a node is a node declared before, in a list that encloses it. -/
theorem exists_owner {i : Nat} (h : (f.placed owners)[i]? = some m) {o : NodeId}
    (ho : o ∈ m.owners) : o ∈ owners ∨
      ∃ j ≤ i, ∃ p, (f.placed owners)[j]? = some p ∧ p.node.id = o ∧ p.owners <:+ m.owners := by
  induction f generalizing owners i with
  | nil => cases h
  | cons n branch rest ihb ihr =>
      rcases placed_cases h with ⟨rfl, rfl⟩ | ⟨j, rfl, hj, hm⟩ | ⟨j, rfl, hm⟩
      · exact .inl ho
      -- Around a node of the branch its own node is one owner more.
      · rcases ihb hm with hown | ⟨k, hk, p, hp, hid, hsuffix⟩
        · rcases List.mem_cons.1 hown with rfl | hown
          · obtain ⟨inner, hinner, -⟩ := exists_owners_eq (List.mem_of_getElem? hm)
            refine .inr ⟨0, by omega, ⟨n, owners⟩, rfl, rfl, ?_⟩
            rw [hinner]
            exact (List.suffix_cons n.id owners).trans (List.suffix_append inner _)
          · exact .inl hown
        · refine .inr ⟨k + 1, by omega, p, ?_, hid, hsuffix⟩
          rw [placed, List.getElem?_cons_succ, List.getElem?_append_left (by omega)]
          exact hp
      · rcases ihr hm with hown | ⟨k, hk, p, hp, hid, hsuffix⟩
        · exact .inl hown
        · refine .inr ⟨(branch.placed (n.id :: owners)).length + k + 1, by omega, p, ?_, hid,
            hsuffix⟩
          rw [placed, List.getElem?_cons_succ, List.getElem?_append_right (by omega),
            Nat.add_sub_cancel_left]
          exact hp

section Places

variable (hids : (f.nodes.map Node.id).Nodup) {i : Nat} (h : (f.placed [])[i]? = some m)
include hids h

/-- **The nodes seen from a node are those declared no later** that stand in a list which encloses
it, the last declared first. -/
theorem visible_eq : f.visible m.node.id =
    ((((f.placed []).take (i + 1)).filter fun p => p.owners <:+ m.owners).map
      Placed.node).reverse := by
  rw [visible, visibleBehind_eq hids [] h, List.append_nil]
  rfl

theorem nodup_visible : (f.visible m.node.id).Nodup := by
  rw [visible_eq hids h, List.nodup_reverse]
  have hnodes : ((f.placed []).map Placed.node).Nodup := by
    rw [map_node_placed]
    exact hids.of_map
  exact hnodes.sublist ((List.filter_sublist.trans (List.take_sublist _ _)).map _)

theorem head?_visible : (f.visible m.node.id).head? = some m.node := by
  have hi : i < (f.placed []).length := (List.getElem?_eq_some_iff.1 h).1
  have hget : (f.placed [])[i] = m := (List.getElem?_eq_some_iff.1 h).2
  rw [visible_eq hids h, List.take_succ_eq_append_getElem hi, hget, List.filter_append]
  simp

/-- A node of another place is seen if it was declared no later, in a list that encloses. -/
theorem mem_visible_iff {j : Nat} {p : Placed} (hp : (f.placed [])[j]? = some p) :
    p.node ∈ f.visible m.node.id ↔ j ≤ i ∧ p.owners <:+ m.owners := by
  rw [visible_eq hids h, List.mem_reverse, List.mem_map]
  constructor
  · rintro ⟨q, hq, hnode⟩
    obtain ⟨htake, hsuffix⟩ := List.mem_filter.1 hq
    obtain ⟨k, hk⟩ := List.mem_iff_getElem?.1 htake
    have hki : k < i + 1 := by
      by_contra hlate
      rw [List.getElem?_take_eq_none (by omega)] at hk
      cases hk
    rw [List.getElem?_take_of_lt hki] at hk
    -- two places of one node are the same place
    have hsame : k = j := by
      have hlength : k < (f.nodes.map Node.id).length := by
        rw [← map_node_placed f [], List.length_map, List.length_map]
        exact (List.getElem?_eq_some_iff.1 hk).1
      apply (List.getElem?_inj hlength hids).1
      rw [← map_node_placed f []]
      simp [hk, hp, hnode]
    subst hsame
    obtain rfl : q = p := Option.some.inj (hk.symm.trans hp)
    exact ⟨by omega, by simpa using hsuffix⟩
  · rintro ⟨hj, hsuffix⟩
    refine ⟨p, List.mem_filter.2 ⟨?_, by simpa using hsuffix⟩, rfl⟩
    apply List.mem_of_getElem?
    rw [List.getElem?_take_of_lt (by omega : j < i + 1)]
    exact hp

theorem owner_mem_visible {o : NodeId} (ho : o ∈ m.owners) :
    ∃ n ∈ f.visible m.node.id, n.id = o := by
  rcases exists_owner h ho with hnil | ⟨j, hj, p, hp, hid, hsuffix⟩
  · cases hnil
  · exact ⟨p.node, (mem_visible_iff hids h hp).2 ⟨hj, hsuffix⟩, hid⟩

end Places

/-- **Visibility follows the order of declarations.** Where identities are distinct, the nodes seen
from a node are those whose place in depth-first order is no later and whose list is one of those
that enclose the node, from the last declared to the first. None of them occurs twice, the node
itself is the first, and its owners are among them. From what is not in the tree nothing is seen. -/
theorem visible_follows_declarations (hids : (f.nodes.map Node.id).Nodup) :
    (∀ i from_, (f.placed [])[i]? = some from_ →
      f.visible from_.node.id =
        ((((f.placed []).take (i + 1)).filter fun p => p.owners <:+ from_.owners).map
          Placed.node).reverse ∧
      (f.visible from_.node.id).Nodup ∧
      (f.visible from_.node.id).head? = some from_.node ∧
      (∀ o ∈ from_.owners, ∃ n ∈ f.visible from_.node.id, n.id = o) ∧
      ∀ j p, (f.placed [])[j]? = some p →
        (p.node ∈ f.visible from_.node.id ↔ j ≤ i ∧ p.owners <:+ from_.owners)) ∧
    ∀ id, id ∉ f.nodes.map Node.id → f.visible id = [] := by
  refine ⟨fun i from_ hfrom => ⟨visible_eq hids hfrom, nodup_visible hids hfrom,
    head?_visible hids hfrom, fun o => owner_mem_visible hids hfrom,
    fun j p => mem_visible_iff hids hfrom⟩, fun id hid => ?_⟩
  rw [visible, visibleBehind_eq_none hid]
  rfl

/-- A selection with an exclusion and a second selection in its branch, and a box behind it. A
distance stands in the branch of the second selection. -/
def nestedSelections : Forest :=
  cons (.ofType ⟨0⟩ .select)
    (cons (.ofType ⟨1⟩ .exclude) nil
      (cons (.ofType ⟨2⟩ .select) (cons (.ofType ⟨3⟩ .distance) nil nil) nil))
    (cons (.ofType ⟨4⟩ .box) nil nil)

/-- From the distance one sees all but the box; from the box, the first selection. -/
theorem visible_nestedSelections :
    (nestedSelections.nodes.map Node.id).Nodup ∧
    (nestedSelections.visible ⟨3⟩).map Node.id = [⟨3⟩, ⟨2⟩, ⟨1⟩, ⟨0⟩] ∧
    (nestedSelections.visible ⟨4⟩).map Node.id = [⟨4⟩, ⟨0⟩] ∧
    nestedSelections.visible ⟨5⟩ = [] := by
  have hids : (nestedSelections.nodes.map Node.id).Nodup := by decide
  obtain ⟨hseen, hnone⟩ := visible_follows_declarations hids
  refine ⟨hids, ?_, ?_, hnone ⟨5⟩ (by decide)⟩
  · exact (congrArg (List.map Node.id) (hseen 3 _ rfl).1).trans rfl
  · exact (congrArg (List.map Node.id) (hseen 4 _ rfl).1).trans rfl

end Forest

end SiteAnalysis
