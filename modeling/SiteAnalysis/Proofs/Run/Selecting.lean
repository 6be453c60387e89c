import SiteAnalysis.Proofs.Run.Candidates
import SiteAnalysis.Proofs.Run.Standing

set_option autoImplicit false

/-! # Selecting sites

A selection that executes notes the sites it chose and counts them, and its branch leaves both as
they are. Main statements:

* `Node.Reorders.selection`: the order of the sources matters to the order of the sites alone.
* `Forest.execute_keeps_noted`: nodes change no notes but their own.
* `Node.selects_offered_and_wanted`: what a selection chooses, and what it notes of it.
-/

namespace SiteAnalysis

namespace Node

variable {n n' : Node} {job job' : Job} {run run' : Run} {blocks blocks' : List DynamicSite}
  {sites : List Site}

/-! ## Sources in another order -/

/-- **The same selection with its sources in another order**, where expressions have the same
values. -/
structure Reorders (n n' : Node) (job job' : Job) (run : Run) (blocks blocks' : List DynamicSite) :
    Prop where
  entries : (n.keywords.sites "Site").Perm (n'.keywords.sites "Site")
  blocks : blocks.Perm blocks'
  others : ∀ keyword, sameName keyword "Site" = false →
    n'.keywords.find? keyword = n.keywords.find? keyword
  settings : job'.settings = job.settings
  bindings : run.bindings job'.tree n'.id = run.bindings job.tree n.id

namespace Reorders

variable (h : n.Reorders n' job job' run blocks blocks')
include h

theorem data? {keyword : String} (hname : sameName keyword "Site" = false) :
    n'.keywords.data? keyword = n.keywords.data? keyword := by
  rw [KeywordStore.data?, h.others keyword hname, KeywordStore.data?]

theorem offers_iff (r : SiteRecord) : n'.Offers blocks' r ↔ n.Offers blocks r := by
  simp only [Offers, h.entries.mem_iff, h.blocks.mem_iff]

theorem isLimit {keyword : String} {otherwise x : Float} (hname : sameName keyword "Site" = false)
    (hx : n.IsLimit job run keyword otherwise x) : n'.IsLimit job' run keyword otherwise x := by
  have hscalar : n'.keywords.scalar? keyword = n.keywords.scalar? keyword := by
    rw [KeywordStore.scalar?, h.data? hname, KeywordStore.scalar?]
  have hset : n'.keywords.isSet keyword = n.keywords.isSet keyword := by
    rw [KeywordStore.isSet, h.others keyword hname, KeywordStore.isSet]
  cases hx with
  | given hv hisSet hvalue =>
      refine .given (hscalar.trans hv) (hset.trans hisSet) ?_
      rw [h.settings, h.bindings, hvalue]
  | missing hmissing => exact .missing fun v hv => hset.trans (hmissing v (hscalar.symm.trans hv))

theorem node? {keyword : String} (hname : sameName keyword "Site" = false) :
    n'.keywords.node? keyword = n.keywords.node? keyword := by
  simp only [KeywordStore.node?, h.data? hname]

theorem heldSites {keyword : String} (hname : sameName keyword "Site" = false) :
    n'.heldSites run keyword = n.heldSites run keyword := by
  simp only [Node.heldSites, KeywordStore.nodes, h.data? hname]

theorem asksMolecule {molecule : Option Nat} (hm : n.AsksMolecule run molecule) :
    n'.AsksMolecule run molecule := by
  have hnode : n'.keywords.node? "SameMoleculeAsSite" = n.keywords.node? "SameMoleculeAsSite" :=
    h.node? (by decide)
  cases hm with
  | none hr => exact .none (hnode.trans hr)
  | some hr hheld => exact .some (hnode.trans hr) hheld

theorem asksWindow {window : Option (Vec3 Float × Float × Float)}
    (hw : n.AsksWindow job run window) : n'.AsksWindow job' run window := by
  have hnode : n'.keywords.node? "ReferenceSite" = n.keywords.node? "ReferenceSite" :=
    h.node? (by decide)
  cases hw with
  | none hr => exact .none (hnode.trans hr)
  | some hr hheld hleast hgreatest =>
      exact .some (hnode.trans hr) hheld (h.isLimit (by decide) hleast)
        (h.isLimit (by decide) hgreatest)

/-- **The same is asked of sites.** -/
theorem asks {c : Criteria} (hc : n.Asks job run c) : n'.Asks job' run c where
  otherSites := hc.otherSites.trans (h.heldSites (by decide)).symm
  otherMolecules := hc.otherMolecules.trans (h.heldSites (by decide)).symm
  molecule := h.asksMolecule hc.molecule
  window := h.asksWindow hc.window

/-- **Sources in another order** give the same sites, in some order. -/
theorem selection (hsites : n.selection job blocks run = (.ok sites, run')) :
    ∃ sites', n'.selection job' blocks' run = (.ok sites', run) ∧ sites.Perm sites' := by
  obtain ⟨⟨c, hc, -⟩, -⟩ := run_selection.1 hsites
  have hsites' : n'.selection job' blocks' run = (.ok ((firstOffers ∅
      (n'.offers blocks' run.configuration)).filter (c.admits run.configuration.cell)), run) :=
    run_selection.2 ⟨⟨c, h.asks hc, rfl⟩, rfl⟩
  refine ⟨_, hsites', (List.perm_ext_iff_of_nodup (nodup_selection hsites).of_map
    (nodup_selection hsites').of_map).2 fun s => ?_⟩
  rw [mem_selection_iff hsites, mem_selection_iff hsites', ← hc.admits_iff,
    ← (h.asks hc).admits_iff]
  simp only [h.offers_iff]

end Reorders

end Node

/-! ## Notes of selections -/

/-- **What is noted of a selection**: the sites it chose last, and its counts. -/
def Run.noted (id : NodeId) (run : Run) : Option (List Site) × Option SelectionCount :=
  (run.chosen.find? id, run.counts.find? id)

section Noted

variable {n : Node} {job : Job} {id : NodeId}

namespace Node

/-- **What a node does by itself** changes no notes of other nodes. -/
theorem keeps_plan_noted (hid : id ≠ n.id) : (n.plan job).Keeps (Run.noted id) := by
  unfold Node.plan
  cases n.kind with
  | select blocks chosen =>
      refine .bind (keeps_selection blocks) fun sites =>
        .bind (.modify fun run => ?_) fun _ => .pure _
      exact congrArg₂ Prod.mk (NodeTable.find?_set_of_ne _ _ hid)
        (NodeTable.find?_set_of_ne _ _ hid)
  | exclude => exact .bind keeps_standApart fun _ => .pure _
  | distance | angle | vector => exact .bind (keeps_measure_of fun _ _ => rfl) fun _ => .pure _
  | collect d => exact .bind (keeps_binPresent_of (fun _ _ => rfl) job d) fun _ => .pure _
  | box => exact .bind (keeps_executeBox_of fun _ _ => rfl) fun _ => .pure _
  | ifInRange => exact .bind (keeps_liesInRange job) fun _ => .pure _
  | recorder r => exact .bind (keeps_refuse r .execute) fun _ => .pure _
  | _ => exact .pure _

/-- **Behind its own work** a node that executes changes no notes, if its branch does not. -/
theorem execute_noted {branch : Step Outcome} (hbranch : branch.Keeps (Run.noted id)) (run : Run) :
    ((n.execute job branch) run).2.noted id = (n.plan job run).2.noted id := by
  have hsame : Chains fun (noted : Option (List Site) × Option SelectionCount) (_ : List Unit)
      (last : Option (List Site) × Option SelectionCount) => last = noted :=
    ⟨fun _ => rfl, fun h h' => h'.trans h⟩
  let nothing : Run → List Unit := fun _ => []
  have hspares : ∀ run run' plan, n.plan job run = (.ok plan, run') → plan.Spares (Run.noted id) :=
    fun _ _ _ => spares_of_plan ⟨fun _ _ => rfl, fun _ _ => rfl⟩
  exact @execute_chains _ _ _ _ hsame _ n job nothing hspares hbranch run

end Node

/-- **Nodes change no notes but their own.** -/
theorem Forest.execute_keeps_noted {f : Forest} (hid : id ∉ f.nodes.map Node.id) :
    (f.execute job).Keeps (Run.noted id) := by
  induction f with
  | nil => exact .pure _
  | cons n branch rest ihb ihr =>
      simp only [nodes, List.map_cons, List.map_append, List.mem_cons, List.mem_append,
        not_or] at hid
      obtain ⟨hn, hb, hr⟩ := hid
      intro run
      have hnode : ((n.execute job (branch.execute job)) (n.called .execute run)).2.noted id =
          run.noted id :=
        (Node.execute_noted (ihb hb) _).trans (Node.keeps_plan_noted hn _)
      rw [execute_cons]
      cases hrun : n.execute job (branch.execute job) (n.called .execute run) with
      | mk r between =>
          rw [hrun] at hnode
          cases r with
          | error e => exact hnode
          | ok outcome =>
              cases outcome with
              | declined => exact hnode
              | success => exact (ihr hr between).trans hnode

end Noted

/-! ## What a selection chooses -/

namespace Node

variable {n : Node} {job : Job} {run run' : Run} {blocks : List DynamicSite} {sites : List Site}

/-- **A selection that executes** notes the sites it chose and counts them, however its branch comes
out. -/
theorem execute_notes {chosen : List Site} (hkind : n.kind = .select blocks chosen)
    (hsites : n.selection job blocks run = (.ok sites, run')) {branch : Forest}
    (hbranch : n.id ∉ branch.nodes.map Node.id) :
    ((n.execute job (branch.execute job)) run).2.noted n.id =
      (some sites, some ((run.count n.id).record sites.length)) := by
  obtain rfl : run' = run := (run_selection.1 hsites).2
  rw [execute_noted (Forest.execute_keeps_noted hbranch)]
  have hplan : (n.plan job run').2 = { run' with
      chosen := run'.chosen.set n.id sites
      counts := run'.counts.set n.id ((run'.count n.id).record sites.length) } := by
    unfold plan
    rw [hkind]
    dsimp only
    rw [Step.run_bind, hsites]
    rfl
  rw [hplan]
  exact congrArg₂ Prod.mk (NodeTable.find?_set _ _ _) (NodeTable.find?_set _ _ _)

/-- **What a selection chooses.** If the sites it asks for are there, it chooses those that are
offered and wanted, each once and in the order of their first offers, so that the order of the
sources matters to the order of the sites alone. When it has executed, its parameter and its last
count are the number of these sites, and all its counts together have grown by it. -/
theorem selects_offered_and_wanted {chosen : List Site} (hkind : n.kind = .select blocks chosen)
    (hsites : n.selection job blocks run = (.ok sites, run')) :
    (sites.map Site.index).Nodup ∧
      (∀ s, s ∈ sites ↔
        (∃ r, run.configuration.HasSite r s ∧ n.Offers blocks r) ∧ n.Wants job run s) ∧
      (sites.Pairwise fun s t => firstOffer (n.offers blocks run.configuration) s.index <
        firstOffer (n.offers blocks run.configuration) t.index) ∧
      (∀ n' job' blocks', n.Reorders n' job job' run blocks blocks' →
        ∃ sites', n'.selection job' blocks' run = (.ok sites', run) ∧ sites.Perm sites') ∧
      ∀ branch : Forest, n.id ∉ branch.nodes.map Node.id →
        let after := ((n.execute job (branch.execute job)) run).2
        after.chosen.find? n.id = some sites ∧
          (∀ d : Declared, d.serial = 0 → (after.present n d).value = .int sites.length) ∧
          (after.count n.id).last = sites.length ∧
          (after.count n.id).total = (run.count n.id).total + sites.length := by
  refine ⟨nodup_selection hsites, fun s => mem_selection_iff hsites, pairwise_selection hsites,
    fun n' job' blocks' h => h.selection hsites, fun branch hbranch => ?_⟩
  obtain ⟨hchosen, hcounts⟩ := Prod.mk.inj (execute_notes hkind hsites hbranch)
  refine ⟨hchosen, fun d hserial => ?_, ?_, ?_⟩
  · simp [Run.present, hkind, hchosen, hserial]
  · rw [Run.count, hcounts]
    rfl
  · rw [Run.count, hcounts]
    rfl

/-- A selection of oxygens and, by a block, of all sites of water, other than the one at which
another selection stands. -/
def oxygenFirst : Node := { ofType ⟨1⟩ .select with
  name := "OxygenFirst"
  keywords := ⟨[⟨"Site", .sites [("Water", "O")], true, false⟩,
    ⟨"ExcludeSameSite", .nodes [⟨"Hydrogen", some ⟨0⟩⟩] .selection 1 none, true, false⟩], []⟩
  kind := .select [⟨[], ["water"]⟩] [] }

/-- Two molecules on a line, with a selection at the first hydrogen. -/
def atFirstHydrogen : Run :=
  let record := fun site molecule x => ⟨"Water", site, molecule, ⟨x, 0, 0⟩⟩
  let records := [record "H" 0 0, record "O" 0 1, record "H" 1 2, record "O" 1 3]
  { Run.start ⟨"Line", .unitCube, records, 0⟩ .empty .empty with
    current := [(⟨0⟩, ⟨0, 0, ⟨0, 0, 0⟩⟩)] }

/-- The oxygens come first, and the hydrogen that is left comes last. -/
theorem selects_oxygenFirst :
    let job : Job := ⟨.nil, {}, .serial, "Group", "now"⟩
    let n := oxygenFirst
    let block : DynamicSite := ⟨[], ["water"]⟩
    ∃ sites, n.selection job [block] atFirstHydrogen = (.ok sites, atFirstHydrogen) ∧
      sites.map Site.index = [1, 3, 2] ∧
      (∀ s, s ∈ sites ↔ (∃ r, atFirstHydrogen.configuration.HasSite r s ∧ n.Offers [block] r) ∧
        n.Wants job atFirstHydrogen s) ∧
      let after := ((n.execute job (Forest.nil.execute job)) atFirstHydrogen).2
      (after.count n.id).last = 3 ∧ (after.count n.id).total = 3 := by
  intro job n block
  let site := fun index molecule x => (⟨index, molecule, ⟨x, 0, 0⟩⟩ : Site)
  let asked : Criteria := ⟨[], [site 0 0 0], none, none⟩
  have hasks : n.Asks job atFirstHydrogen asked := ⟨rfl, rfl, .none rfl, .none rfl⟩
  have hoffers : n.offers [block] atFirstHydrogen.configuration =
      [site 1 0 1, site 3 1 3, site 0 0 0, site 1 0 1, site 2 1 2, site 3 1 3] := rfl
  have hfirst : firstOffers ∅ (n.offers [block] atFirstHydrogen.configuration) =
      [site 1 0 1, site 3 1 3, site 0 0 0, site 2 1 2] := by
    simp [hoffers, firstOffers, site]
  have hsites : n.selection job [block] atFirstHydrogen = (.ok ((firstOffers ∅
      (n.offers [block] atFirstHydrogen.configuration)).filter
        (asked.admits atFirstHydrogen.configuration.cell)), atFirstHydrogen) :=
    run_selection.2 ⟨⟨asked, hasks, rfl⟩, rfl⟩
  have hindices : ((firstOffers ∅ (n.offers [block] atFirstHydrogen.configuration)).filter
      (asked.admits atFirstHydrogen.configuration.cell)).map Site.index = [1, 3, 2] := by
    rw [hfirst]
    rfl
  have hlength := congrArg List.length hindices
  rw [List.length_map] at hlength
  obtain ⟨-, hmem, -, -, hnotes⟩ := selects_offered_and_wanted rfl hsites
  obtain ⟨-, -, hlast, htotal⟩ := hnotes .nil List.not_mem_nil
  exact ⟨_, hsites, hindices, hmem, hlast.trans hlength, htotal.trans (by rw [hlength]; rfl)⟩

end Node

end SiteAnalysis
