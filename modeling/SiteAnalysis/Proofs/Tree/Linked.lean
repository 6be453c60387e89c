import SiteAnalysis.Proofs.Tree.Links
import SiteAnalysis.Proofs.Tree.Reading
import SiteAnalysis.Proofs.Tree.Restored
import SiteAnalysis.Tree.Text

set_option autoImplicit false

/-! # Trees that were read and linked

A procedure holds a tree that was read and then linked. What is written of it names the nodes that
its references mean, and linking what is read again finds these nodes again. Main statements:

* `Forest.link_eq_ok_iff`: what linking does if it finds all nodes.
* `Forest.fits_refreshed`: the nodes of a linked tree can be written and read again.
* `Forest.IsResolvedByName.link_reissue`: a linked tree that comes back with other identities and
  without its links is linked to the same tree again.
-/

namespace SiteAnalysis

variable {P : String → Prop} {lookup : Lookup}

/-! ## Trees apart from identities -/

theorem renumbered_renumbered (parameters : List Declared) :
    renumbered (renumbered parameters) = renumbered parameters := by
  simp [renumbered, Function.comp_def]

theorem KeywordStore.unlinked_unlinked (s : KeywordStore) : s.unlinked.unlinked = s.unlinked := by
  rw [unlinked, unlinked, mapRefs_mapRefs]
  rfl

namespace Node

/-- **A node apart from what only its reader knows**: its identity and those of the nodes its
references mean, the context, the numbers of its parameters and of names given out. -/
def bare (n : Node) : Node := n.reissued ⟨0⟩ .any

theorem bare_reissued (id : NodeId) (c : Context) (n : Node) : (n.reissued id c).bare = n.bare := by
  have hbranch : (n.branch.map fun l => { Level.branch id l.keyword with context := c }).map
      (fun l => { Level.branch ⟨0⟩ l.keyword with context := .any }) =
      n.branch.map fun l => { Level.branch ⟨0⟩ l.keyword with context := .any } := by
    rw [Option.map_map]
    rfl
  simp only [bare, reissued, n.keywords.unlinked_unlinked, renumbered_renumbered, hbranch]

theorem bare_withKeywords {n : Node} {keywords : KeywordStore}
    (h : keywords.unlinked = n.keywords.unlinked) : { n with keywords }.bare = n.bare := by
  simp only [bare, reissued, h]

end Node

/-- The nodes of a forest apart from what only their reader knows. -/
def Forest.bare (f : Forest) : Forest := f.map Node.bare

/-! ### Lines -/

/-- A reference is written by the name of its node. -/
@[simp] theorem KeywordData.lines_unlinked (d : KeywordData) : d.unlinked.lines = d.lines := by
  cases d with
  | node target filter => cases target <;> rfl
  | observable target index filter => cases target <;> rfl
  | nodes targets filter min max => cases targets <;> simp [unlinked, mapRefs, lines, NodeRef.named]
  | _ => rfl

@[simp] theorem KeywordStore.lines_unlinked (s : KeywordStore) : s.unlinked.lines = s.lines := by
  have hlines : Keyword.lines ∘ Keyword.unlinked = Keyword.lines := by
    funext k
    simp [Keyword.unlinked, Keyword.lines]
  simp only [lines, setKeywords, unlinked_eq, List.filter_map, List.flatMap_def, List.map_map, hlines]
  rfl

theorem map_renumbered {α : Type} (write : Parameter → α) (parameters : List Declared) :
    (renumbered parameters).map (fun d => write d.parameter) =
      parameters.map fun d => write d.parameter :=
  List.ext_getElem (by simp [renumbered]) (by simp [renumbered])

theorem Node.lines_reissued (id : NodeId) (c : Context) (n : Node) :
    (n.reissued id c).lines = n.lines := by
  have hparameters := map_renumbered (fun d : Parameter =>
    String.intercalate "  " [parameterKeyword, quote d.name, d.value.text]) n.parameters
  simp only [lines, reissued, KeywordStore.lines_unlinked, hparameters]

/-- **The lines of a forest tell nothing of what only its reader knows.** -/
theorem Forest.lines_bare (f : Forest) : f.bare.lines = f.lines := by
  induction f with
  | nil => rfl
  | cons n branch rest ihb ihr =>
      have hheader : n.bare.header = n.header := rfl
      have hterminator : n.bare.terminator = n.terminator := rfl
      rw [bare] at ihb ihr ⊢
      rw [map, lines, lines, Node.bare, Node.lines_reissued, ← Node.bare, ihr, ihb, hheader,
        hterminator]
      cases hbranch : n.branch with
      | none => simp [Node.bare, Node.reissued, hbranch]
      | some level =>
          simp only [Node.bare, Node.reissued, hbranch, Option.map_some]
          rfl

/-! ## Linking -/

namespace Forest

variable {f g : Forest}

theorem staleRefs_eq_nil_iff {n : Node} : f.staleRefs n = [] ↔
    ∀ r ∈ n.keywords.refs,
      (f.resolve? n.id (n.keywords.isTreeWide r.1) r.2.1 r.2.2).isSome = true := by
  simp only [staleRefs, List.filterMap_eq_nil_iff]
  refine forall₂_congr fun r _ => ?_
  obtain ⟨keyword, filter, r⟩ := r
  dsimp only
  cases f.resolve? n.id (n.keywords.isTreeWide keyword) filter r <;> simp

/-- **Linking succeeds if every reference means a node**, and then brings all up to date. -/
theorem link_eq_ok_iff : f.link = (g, .ok ()) ↔ g = f.map f.refreshed ∧
    ∀ n ∈ f.nodes, ∀ r ∈ n.keywords.refs,
      (f.resolve? n.id (n.keywords.isTreeWide r.1) r.2.1 r.2.2).isSome = true := by
  have hstale : (f.nodes.flatMap f.staleRefs).isEmpty = true ↔ ∀ n ∈ f.nodes, ∀ r ∈ n.keywords.refs,
      (f.resolve? n.id (n.keywords.isTreeWide r.1) r.2.1 r.2.2).isSome = true := by
    simp only [List.isEmpty_iff, List.flatMap_eq_nil_iff, staleRefs_eq_nil_iff]
  rw [link, relink, ← hstale]
  dsimp only
  cases (f.nodes.flatMap f.staleRefs).isEmpty <;> simp [eq_comm]

variable {n : Node}

/-- What a reference of a node is once it is brought up to date. -/
def resolved (f : Forest) (n : Node) (keyword : String) (filter : NodeFilter) (r : NodeRef) :
    NodeRef :=
  (f.resolve? n.id (n.keywords.isTreeWide keyword) filter r).getD r

theorem keywords_refreshed (f : Forest) (n : Node) :
    (f.refreshed n).keywords = n.keywords.mapRefs (f.resolved n) := rfl

theorem name_of_resolve? {id : NodeId} {treeWide : Bool} {filter : NodeFilter} {r r' : NodeRef}
    (hnamed : r = .named r.name) (h : f.resolve? id treeWide filter r = some r') :
    sameName r'.name r.name = true :=
  sameName_of_resolve? (by rw [hnamed]; rfl) h

/-- **A node of a linked tree can be written and read again.** -/
theorem fits_refreshed (hP : IsTextClass P) (hn : n.IsReadFrom P lookup)
    (hrefs : ∀ r ∈ n.keywords.refs,
      (f.resolve? n.id (n.keywords.isTreeWide r.1) r.2.1 r.2.2).isSome = true) :
    (f.refreshed n).IsRestorable P lookup.catalogue := by
  have hkeywords := hn.fits.keywords.mapRefs (f := f.resolved n) hP
    (NodeType.isDeclared_keywords _) fun r hr => ?_
  · exact { hn.fits with keywords := hkeywords }
  obtain ⟨r', hr'⟩ := Option.isSome_iff_exists.1 (hrefs r hr)
  rw [resolved, hr', Option.getD_some]
  have hnamed := hn.fits.keywords.eq_named (NodeType.isDeclared_keywords _) r hr
  exact name_of_resolve? hnamed hr'

/-! ## Linking again -/

/-- **Whether names are enough**: every reference is what it should be by its name alone. -/
def IsResolvedByName (f : Forest) : Prop := ∀ n ∈ f.nodes, ∀ r ∈ n.keywords.refs,
  f.resolve? n.id (n.keywords.isTreeWide r.1) r.2.1 (.named r.2.2.name) = some r.2.2

/-- A tree that was read and linked does not need its links. -/
theorem IsReadFrom.isResolvedByName (hf : f.IsReadFrom P lookup) (hlink : f.link = (g, .ok ())) :
    g.IsResolvedByName := by
  obtain ⟨rfl, hrefs⟩ := link_eq_ok_iff.1 hlink
  rw [IsResolvedByName, nodes_map]
  refine List.forall_mem_map.2 fun n hn now hnow => ?_
  have hsame : f.Relocates id f.refreshed := ⟨fun _ => rfl, fun _ => rfl, fun _ => rfl,
    fun _ _ _ _ heq => heq⟩
  rw [keywords_refreshed, KeywordStore.refs_mapRefs] at hnow
  obtain ⟨r, hr, rfl⟩ := List.mem_map.1 hnow
  obtain ⟨r', hr'⟩ := Option.isSome_iff_exists.1 (hrefs n hn r hr)
  have hnamed := (hf.nodes n hn).fits.keywords.eq_named (NodeType.isDeclared_keywords _) r hr
  have hback := hsame.resolve?_named hn r'.name (n.keywords.isTreeWide r.1) r.2.1
  rw [resolve?_named_congr (name_of_resolve? hnamed hr') (f := f), ← hnamed, hr', Option.map_some,
    Option.map_id] at hback
  rw [keywords_refreshed, KeywordStore.isTreeWide_mapRefs]
  dsimp only
  rw [resolved, hr', Option.getD_some]
  exact hback

/-- **A tree that comes back with other identities and without its links** is linked to the same
tree again. -/
theorem IsResolvedByName.link_reissue (h : f.IsResolvedByName) (hids : (f.nodes.map Node.id).Nodup)
    (c : Context) (i : Nat) : ∃ g, (f.reissue c i).link = (g, .ok ()) ∧ g.bare = f.bare := by
  obtain ⟨σ, hinjective, hback⟩ := exists_reissue_eq_map hids c i
  rw [hback]
  generalize hreissued : (f.map fun n => n.reissued (σ n.id) c) = back
  have hrelocates : f.Relocates σ fun n => n.reissued (σ n.id) c :=
    ⟨fun _ => rfl, fun _ => rfl, fun _ => rfl, hinjective⟩
  have hkeywords : ∀ n : Node, (n.reissued (σ n.id) c).keywords =
      n.keywords.mapRefs fun _ _ r => .named r.name := fun _ => rfl
  -- By its name alone every reference finds the node it named, under its new identity.
  have hagain : ∀ n ∈ f.nodes, ∀ r ∈ n.keywords.refs,
      back.resolve? (σ n.id) (n.keywords.isTreeWide r.1) r.2.1 (.named r.2.2.name) =
        some { r.2.2 with id := r.2.2.id.map σ } := by
    intro n hn r hr
    rw [← hreissued, hrelocates.resolve?_named hn, h n hn r hr]
    rfl
  refine ⟨back.map back.refreshed, link_eq_ok_iff.2 ⟨rfl, ?_⟩, ?_⟩
  · rw [← hreissued, nodes_map, hreissued]
    refine List.forall_mem_map.2 fun n hn now hnow => ?_
    rw [hkeywords, KeywordStore.refs_mapRefs] at hnow
    obtain ⟨r, hr, rfl⟩ := List.mem_map.1 hnow
    rw [hkeywords, KeywordStore.isTreeWide_mapRefs]
    exact Option.isSome_iff_exists.2 ⟨_, hagain n hn r hr⟩
  · have hnode : ∀ n ∈ f.nodes, (back.refreshed (n.reissued (σ n.id) c)).bare = n.bare := by
      intro n hn
      have hsame : (back.refreshed (n.reissued (σ n.id) c)).keywords.unlinked =
          n.keywords.unlinked := by
        rw [keywords_refreshed, hkeywords, KeywordStore.unlinked, KeywordStore.unlinked,
          KeywordStore.mapRefs_mapRefs, KeywordStore.mapRefs_mapRefs]
        refine KeywordStore.mapRefs_congr fun r hr => ?_
        rw [resolved, hkeywords, KeywordStore.isTreeWide_mapRefs]
        exact congrArg (fun r : Option NodeRef => NodeRef.named (r.getD _).name) (hagain n hn r hr)
      rw [← Node.bare_reissued (σ n.id) c n]
      refine Node.bare_withKeywords (hsame.trans ?_)
      exact (KeywordStore.unlinked_unlinked n.keywords).symm
    rw [bare, bare, ← hreissued, map_map, map_map, hreissued]
    exact map_congr hnode

end Forest

end SiteAnalysis
