import SiteAnalysis.Proofs.Tree.Dropping
import SiteAnalysis.Proofs.Tree.Uncounted

set_option autoImplicit false

/-! # What is left of a tree

Nodes are taken out of a tree with their branches (`Forest.PartOf`), and then the references that
mean no node any more are dropped (`Forest.remains`). What is left can be written, and where names
are distinct its references do not need their links. Main statements:

* `Forest.partOf_of_remove?`: what one removal leaves.
* `Forest.IsRestorable.isWritable_remains`, `Forest.IsRestorable.isResolvedByName_remains`.
-/

namespace SiteAnalysis

variable {P : String → Prop} {lookup : Lookup}

/-! ## Nodes that are taken out -/

namespace Forest

variable {f g : Forest}

/-- **A forest that is left of another one** from which nodes were taken out with their
branches. -/
structure PartOf (g f : Forest) : Prop where
  nodes : g.nodes.Sublist f.nodes
  shaped : f.IsShaped → g.IsShaped

/-- **What one removal leaves.** -/
theorem partOf_of_remove? {id : NodeId} {t : Subtree} (h : f.remove? id = some (t, g)) :
    g.PartOf f := by
  induction f generalizing g t with
  | nil => cases h
  | cons n branch rest ihb ihr =>
      rw [remove?] at h
      split at h
      · obtain ⟨-, rfl⟩ := Prod.mk.inj (Option.some.inj h)
        refine ⟨?_, fun hshaped => hshaped.2.2⟩
        rw [nodes]
        exact (List.sublist_append_right _ _).trans (List.sublist_cons_self _ _)
      · split at h
        · next t' branch' hbranch =>
            obtain ⟨-, rfl⟩ := Prod.mk.inj (Option.some.inj h)
            obtain ⟨hnodes, hshape⟩ := ihb hbranch
            refine ⟨?_, fun hshaped => ⟨fun hnone => ?_, hshape hshaped.2.1, hshaped.2.2⟩⟩
            · rw [nodes, nodes]
              exact (hnodes.append_right _).cons_cons n
            -- Nothing can be taken out of a branch that is not there.
            · rw [hshaped.1 hnone] at hbranch
              cases hbranch
        · obtain ⟨⟨t', rest'⟩, hrest, heq⟩ := Option.map_eq_some_iff.1 h
          obtain ⟨-, rfl⟩ := Prod.mk.inj heq
          obtain ⟨hnodes, hshape⟩ := ihr hrest
          refine ⟨?_, fun hshaped => ⟨hshaped.1, hshaped.2.1, hshape hshaped.2.2⟩⟩
          rw [nodes, nodes]
          exact (hnodes.append_left _).cons_cons n

theorem PartOf.isRestorable (hgf : g.PartOf f) (hf : f.IsRestorable P lookup) :
    g.IsRestorable P lookup :=
  ⟨hgf.shaped hf.shaped, fun n hn => hf.fits n (hgf.nodes.subset hn),
    fun n hn => hf.admitted n (hgf.nodes.subset hn), fun n hn => hf.named n (hgf.nodes.subset hn)⟩

theorem PartOf.nodup_ids (hgf : g.PartOf f) (hids : (f.nodes.map Node.id).Nodup) :
    (g.nodes.map Node.id).Nodup := hids.sublist (hgf.nodes.map Node.id)

end Forest

/-! ## Keywords that are not set -/

/-- The node with the keywords that are not set as they were declared. -/
def Node.tidied (n : Node) : Node := { n with keywords := n.keywords.tidied }

theorem Node.isCounted_tidied (n : Node) : n.tidied.isCounted = n.isCounted := by
  rw [isCounted, isCounted, tidied, KeywordStore.setKeywords_tidied]

/-- What is not set is not written. -/
theorem Forest.lines_map_tidied (f : Forest) : (f.map Node.tidied).lines = f.lines := by
  induction f with
  | nil => rfl
  | cons n branch rest ihb ihr =>
      have hheader : n.tidied.header = n.header := rfl
      have hbranch : n.tidied.branch = n.branch := rfl
      have hterminator : n.tidied.terminator = n.terminator := rfl
      have hlines : n.tidied.lines = n.lines := by
        simp only [Node.lines, Node.tidied, KeywordStore.lines_tidied]
      rw [map, lines, lines, hheader, hlines, hbranch, hterminator, ihb, ihr]

/-! ## References that are dropped -/

theorem IsWordName.fitsLine {s : String} (h : IsWordName s) : FitsLine s := by
  by_cases hempty : s = ""
  · rw [hempty]
    exact ⟨by decide, by decide⟩
  · exact (h.isPlain hempty).fitsLine

namespace Forest

variable {f : Forest}

/-- **What is left of a tree once references were dropped**, with the keywords that are not set as
they were declared. -/
def remains (f : Forest) : Forest := (f.map f.pruned).map Node.tidied

theorem lines_remains (f : Forest) : f.remains.lines = (f.map f.pruned).lines :=
  lines_map_tidied _

theorem names_remains (f : Forest) : f.remains.names = (f.map f.pruned).names :=
  names_map (fun n => (rfl : n.tidied.name = n.name)) _

theorem ids_remains (f : Forest) : f.remains.nodes.map Node.id = f.nodes.map Node.id := by
  simp only [remains, nodes_map, List.map_map]
  rfl

theorem forall_isCounted_remains : (∀ n ∈ f.remains.nodes, n.isCounted = true) ↔
    ∀ n ∈ (f.map f.pruned).nodes, n.isCounted = true := by
  rw [remains, nodes_map, List.forall_mem_map]
  exact forall₂_congr fun n _ => by rw [n.isCounted_tidied]

section

variable (hids : (f.nodes.map Node.id).Nodup) (h : f.IsRestorable FitsLine lookup)
include hids h

/-- **What is left of a tree can be written.** -/
theorem IsRestorable.isWritable_remains : f.remains.IsWritable FitsLine lookup := by
  have hremains : f.remains = f.map fun n => (f.pruned n).tidied := map_map _ _ _
  have hbranch : ∀ n : Node, n.branch.isNone = (f.pruned n).tidied.branch.isNone := fun _ => rfl
  have hbranches : Rel (fun n m => n.branch.isNone = m.branch.isNone) f
      (f.map fun n => (f.pruned n).tidied) := .map hbranch f
  rw [hremains]
  refine ⟨hbranches.isShaped (fun h => h) h.shaped, ?_, ?_, ?_⟩
  all_goals rw [nodes_map]; refine List.forall_mem_map.2 fun n hn => ?_
  · have hn' := h.fits n hn
    refine { hn' with
      keywords := hn'.keywords.pruned n.type.isDeclared_keywords n.type.isTidy_keywords
        fun r hr => ?_ }
    -- A reference that is left has the name of a node.
    rw [KeywordStore.refs_prune] at hr
    obtain ⟨r', -, heq⟩ := List.mem_filterMap.1 hr
    obtain ⟨now, hnow, rfl⟩ := Option.map_eq_some_iff.1 heq
    obtain ⟨m, hmeans, -, rfl⟩ := (resolve?_eq_some_iff hids).1 hnow
    exact (h.fits m hmeans.mem).name.fitsLine
  · exact h.admitted n hn
  · exact h.named n hn

/-- **What is left of a tree does not need its links**, if names are distinct. -/
theorem IsRestorable.isResolvedByName_remains (hnames : f.remains.names.Nodup) :
    f.remains.IsResolvedByName := by
  have hwritable := isWritable_remains hids h
  have hids' : (f.remains.nodes.map Node.id).Nodup := by rwa [ids_remains]
  intro n hn r hr
  obtain ⟨d, hd, hfilter⟩ := (hwritable.fits n hn).keywords.exists_filter
    n.type.isDeclared_keywords hr
  have hresolved : f.remains.resolve? n.id (n.keywords.isTreeWide r.1) r.2.1 r.2.2 =
      some r.2.2 := by
    rw [remains, nodes_map] at hn
    obtain ⟨n, hleft, rfl⟩ := List.mem_map.1 hn
    rw [Node.tidied, KeywordStore.refs_tidied] at hr
    rw [remains, resolve?_map (fun n => (rfl : n.tidied.id = n.id)) (fun _ => rfl) fun _ => rfl]
    have hslot : (⟨n.id, n.name, r.1, n.keywords.isTreeWide r.1, r.2.1, r.2.2⟩ : Slot) ∈
        (f.map f.pruned).slots := List.mem_flatMap.2 ⟨n, hleft, List.mem_map.2 ⟨r, hr, rfl⟩⟩
    rw [Node.tidied, KeywordStore.isTreeWide_tidied]
    exact now?_map_pruned hids hslot
  obtain ⟨m, hmeans, hadmits, hm⟩ := (resolve?_eq_some_iff hids').1 hresolved
  -- The node of a reference has a name, since the filter admits it.
  have hne : m.name ≠ "" := by
    have hlacks := hwritable.named m hmeans.mem
    rw [Node.lacksName, NodeType.needsName_of_admits hd hfilter hadmits, Bool.and_true] at hlacks
    simpa using hlacks
  rw [hm]
  exact (resolve?_eq_some_iff hids').2 ⟨m, (means_named_iff hnames hne).2
    ⟨hmeans.mem, sameName_refl m.name, hmeans.ne, hmeans.seen⟩, hadmits, rfl⟩

end

end Forest

end SiteAnalysis
