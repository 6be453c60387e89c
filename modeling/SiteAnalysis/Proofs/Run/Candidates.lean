import SiteAnalysis.Proofs.Run.Frames

set_option autoImplicit false

/-! # Candidates of a selection

A selection is offered sites by its keywords and by its blocks, takes each up where it is offered
first, and keeps those that are what it asks for. Main statements:

* `firstOffers_pairwise`, `mem_firstOffers_iff`: each site that is offered is taken up once, in the
  order of the first offers.
* `Node.mem_offers_iff`: the sites that are offered.
* `Node.run_criteria`: what a selection asks of its sites, as the other selections stand.
* `Node.mem_selection_iff`: the sites of a selection.
-/

namespace SiteAnalysis

/-! ## First offers -/

section FirstOffers

variable {seen : Std.HashSet Nat} {offers : List Site} {s : Site}

theorem mem_of_mem_firstOffers (h : s ∈ firstOffers seen offers) :
    s ∈ offers ∧ seen.contains s.index = false := by
  induction offers generalizing seen with
  | nil => cases h
  | cons t offers ih =>
      unfold firstOffers at h
      split at h
      · next ht => exact ⟨List.mem_cons_of_mem _ (ih h).1, (ih h).2⟩
      · next ht =>
        rcases List.mem_cons.1 h with rfl | h
        · exact ⟨List.mem_cons_self, by simpa using ht⟩
        · obtain ⟨hmem, hnew⟩ := ih h
          rw [Std.HashSet.contains_insert, Bool.or_eq_false_iff] at hnew
          exact ⟨List.mem_cons_of_mem _ hmem, hnew.2⟩

/-- A site that was not seen is taken up in the place of those with its index. -/
theorem exists_mem_firstOffers (hmem : s ∈ offers) (hnew : seen.contains s.index = false) :
    ∃ t ∈ firstOffers seen offers, t.index = s.index := by
  induction offers generalizing seen with
  | nil => cases hmem
  | cons t offers ih =>
      unfold firstOffers
      split
      · next ht =>
        refine ih ((List.mem_cons.1 hmem).resolve_left ?_) hnew
        rintro rfl
        rw [hnew] at ht
        cases ht
      · by_cases hst : t.index = s.index
        · exact ⟨t, List.mem_cons_self, hst⟩
        · have hrest : s ∈ offers := (List.mem_cons.1 hmem).resolve_left fun h => hst (h ▸ rfl)
          have hnew' : (seen.insert t.index).contains s.index = false := by
            rw [Std.HashSet.contains_insert, hnew, Bool.or_false]
            simpa using hst
          obtain ⟨u, hu, hindex⟩ := ih hrest hnew'
          exact ⟨u, List.mem_cons_of_mem _ hu, hindex⟩

/-- **The place of the first offer** of an index. -/
def firstOffer (offers : List Site) (index : Nat) : Nat := (offers.map Site.index).idxOf index

theorem firstOffer_cons_of_ne {t : Site} {index : Nat} (h : index ≠ t.index) :
    firstOffer (t :: offers) index = firstOffer offers index + 1 := by
  rw [firstOffer, List.map_cons, List.idxOf_cons, beq_false_of_ne (Ne.symm h)]
  rfl

/-- **Sites are taken up in the order of their first offers.** -/
theorem firstOffers_pairwise (seen : Std.HashSet Nat) (offers : List Site) :
    (firstOffers seen offers).Pairwise fun s t =>
      firstOffer offers s.index < firstOffer offers t.index := by
  induction offers generalizing seen with
  | nil => exact .nil
  | cons t offers ih =>
      -- Behind the first offer no site has its index, and all places move on by one.
      have hrest : ∀ seen : Std.HashSet Nat, seen.contains t.index = true →
          (firstOffers seen offers).Pairwise fun s u =>
            firstOffer (t :: offers) s.index < firstOffer (t :: offers) u.index := by
        intro seen ht
        refine (ih seen).imp_of_mem fun {s u} hs hu hlt => ?_
        have hne : ∀ s ∈ firstOffers seen offers, s.index ≠ t.index := by
          intro s hs heq
          have hnew := (mem_of_mem_firstOffers hs).2
          rw [heq, ht] at hnew
          cases hnew
        rw [firstOffer_cons_of_ne (hne s hs), firstOffer_cons_of_ne (hne u hu)]
        exact Nat.succ_lt_succ hlt
      unfold firstOffers
      split
      · next ht => exact hrest seen ht
      · refine .cons (fun u hu => ?_) (hrest _ (by simp))
        have hnew := (mem_of_mem_firstOffers hu).2
        rw [Std.HashSet.contains_insert, Bool.or_eq_false_iff, beq_eq_false_iff_ne] at hnew
        rw [firstOffer_cons_of_ne (Ne.symm hnew.1), firstOffer, List.map_cons, List.idxOf_cons_self]
        exact Nat.succ_pos _

/-- **All sites that are offered** are taken up, if the index tells which site is meant. -/
theorem mem_firstOffers_iff (hindex : ∀ s ∈ offers, ∀ t ∈ offers, s.index = t.index → s = t) :
    s ∈ firstOffers ∅ offers ↔ s ∈ offers := by
  refine ⟨fun h => (mem_of_mem_firstOffers h).1, fun h => ?_⟩
  obtain ⟨t, ht, hst⟩ := exists_mem_firstOffers h Std.HashSet.contains_empty
  exact hindex t (mem_of_mem_firstOffers ht).1 s h hst ▸ ht

end FirstOffers

/-! ## Offers -/

namespace Configuration

theorem mem_sitesFrom_iff {p : SiteRecord → Bool} {records : List SiteRecord} {first : Nat}
    {s : Site} : s ∈ sitesFrom p first records ↔
      ∃ i r, records[i]? = some r ∧ p r = true ∧ s = r.toSite (first + i) := by
  induction records generalizing first with
  | nil => simp [sitesFrom]
  | cons r records ih =>
      have htail : (∃ i q, (r :: records)[i]? = some q ∧ p q = true ∧ s = q.toSite (first + i)) ↔
          (p r = true ∧ s = r.toSite first) ∨ s ∈ sitesFrom p (first + 1) records := by
        rw [ih]
        constructor
        · rintro ⟨i, q, hq, hp, hs⟩
          cases i with
          | zero =>
              obtain rfl := Option.some.inj hq
              exact .inl ⟨hp, hs⟩
          | succ i => exact .inr ⟨i, q, hq, hp, by rw [hs, Nat.add_assoc, Nat.add_comm 1]⟩
        · rintro (⟨hp, hs⟩ | ⟨i, q, hq, hp, hs⟩)
          · exact ⟨0, r, rfl, hp, hs⟩
          · exact ⟨i + 1, q, hq, hp, by rw [hs, Nat.add_assoc, Nat.add_comm 1]⟩
      rw [htail, sitesFrom]
      split <;> simp_all

/-- **The site at an index** of a configuration is one with the molecule and the point recorded
there. -/
def HasSite (c : Configuration) (r : SiteRecord) (s : Site) : Prop :=
  c.records[s.index]? = some r ∧ s = r.toSite s.index

theorem mem_sitesWhere_iff {c : Configuration} {p : SiteRecord → Bool} {s : Site} :
    s ∈ c.sitesWhere p ↔ ∃ r, c.HasSite r s ∧ p r = true := by
  rw [sitesWhere, mem_sitesFrom_iff]
  constructor
  · rintro ⟨i, r, hr, hp, rfl⟩
    rw [Nat.zero_add]
    exact ⟨r, ⟨hr, rfl⟩, hp⟩
  · rintro ⟨r, ⟨hr, hs⟩, hp⟩
    exact ⟨s.index, r, hr, hp, by rw [Nat.zero_add, ← hs]⟩

theorem HasSite.unique {c : Configuration} {r q : SiteRecord} {s t : Site} (hs : c.HasSite r s)
    (ht : c.HasSite q t) (h : s.index = t.index) : s = t := by
  have hrecords : r = q := Option.some.inj (hs.1.symm.trans (h ▸ ht.1))
  rw [hs.2, ht.2, h, hrecords]

end Configuration

namespace Node

/-- **Whether a site is offered** to a selection: by an entry that names its species and itself, or
by a block that names one of them. -/
def Offers (n : Node) (blocks : List DynamicSite) (r : SiteRecord) : Prop :=
  (∃ e ∈ n.keywords.sites "Site", sameName r.species e.1 = true ∧ sameName r.site e.2 = true) ∨
    ∃ b ∈ blocks, (∃ name ∈ b.siteNames, sameName name r.site = true) ∨
      ∃ name ∈ b.species, sameName name r.species = true

variable {n : Node} {blocks : List DynamicSite} {c : Configuration} {s : Site}

/-- **The sites that are offered.** -/
theorem mem_offers_iff : s ∈ n.offers blocks c ↔ ∃ r, c.HasSite r s ∧ n.Offers blocks r := by
  simp only [offers, List.mem_append, List.mem_flatMap, Configuration.sitesOf, DynamicSite.sites,
    Configuration.mem_sitesWhere_iff, Offers, Bool.and_eq_true, Bool.or_eq_true, List.any_eq_true]
  constructor
  · rintro (⟨e, he, r, hr, hnames⟩ | ⟨b, hb, r, hr, hnames⟩)
    · exact ⟨r, hr, .inl ⟨e, he, hnames⟩⟩
    · exact ⟨r, hr, .inr ⟨b, hb, hnames⟩⟩
  · rintro ⟨r, hr, ⟨e, he, hnames⟩ | ⟨b, hb, hnames⟩⟩
    · exact .inl ⟨e, he, r, hr, hnames⟩
    · exact .inr ⟨b, hb, r, hr, hnames⟩

theorem eq_of_mem_offers {t : Site} (hs : s ∈ n.offers blocks c) (ht : t ∈ n.offers blocks c)
    (h : s.index = t.index) : s = t := by
  obtain ⟨r, hr, -⟩ := mem_offers_iff.1 hs
  obtain ⟨q, hq, -⟩ := mem_offers_iff.1 ht
  exact hr.unique hq h

end Node

/-! ## What a selection asks of its sites -/

namespace Node

variable {n : Node} {job : Job} {run run' : Run}

theorem run_requireSite {r : NodeRef} {held : Site} :
    n.requireSite r run = (.ok held, run') ↔ run.currentSite? r = some held ∧ run' = run := by
  change Step.orFail n _ (run.currentSite? r) run = _ ↔ _
  cases run.currentSite? r with
  | none => exact ⟨nofun, nofun⟩
  | some site => exact Step.pure_eq_ok_iff.trans (by rw [Option.some.injEq])

theorem run_evaluate {v : Scalar} {x : Float} : job.evaluate n v run = (.ok x, run') ↔
    v.evaluate job.settings.expression (run.bindings job.tree n.id) = .ok x ∧ run' = run := by
  have hget : ∀ f : Run → Step Float, (get >>= f) run = f run run := fun _ => rfl
  rw [Job.evaluate, hget]
  cases v.evaluate job.settings.expression (run.bindings job.tree n.id) with
  | error problem => exact ⟨nofun, nofun⟩
  | ok y => exact Step.pure_eq_ok_iff.trans (by rw [Except.ok.injEq])

/-- **A limit of the distance**: the value of its keyword if that is set, and else the number that
stands in for it. -/
inductive IsLimit (n : Node) (job : Job) (run : Run) (keyword : String) (otherwise : Float) :
    Float → Prop
  | given {v : Scalar} {x : Float} (hscalar : n.keywords.scalar? keyword = some v)
      (hset : n.keywords.isSet keyword = true)
      (hvalue : v.evaluate job.settings.expression (run.bindings job.tree n.id) = .ok x) :
      IsLimit n job run keyword otherwise x
  | missing (h : ∀ v, n.keywords.scalar? keyword = some v → n.keywords.isSet keyword = false) :
      IsLimit n job run keyword otherwise otherwise

theorem IsLimit.unique {keyword : String} {otherwise x y : Float}
    (hx : n.IsLimit job run keyword otherwise x) (hy : n.IsLimit job run keyword otherwise y) :
    x = y := by
  cases hx with
  | given hscalar hset hvalue =>
      cases hy with
      | given hscalar' _ hvalue' =>
          obtain rfl := Option.some.inj (hscalar.symm.trans hscalar')
          exact Except.ok.inj (hvalue.symm.trans hvalue')
      | missing h => exact absurd (hset.symm.trans (h _ hscalar)) nofun
  | missing h =>
      cases hy with
      | given hscalar hset _ => exact absurd (hset.symm.trans (h _ hscalar)) nofun
      | missing _ => rfl

theorem run_distanceLimit {keyword : String} {otherwise x : Float} :
    n.distanceLimit job keyword otherwise run = (.ok x, run') ↔
      n.IsLimit job run keyword otherwise x ∧ run' = run := by
  unfold distanceLimit
  cases hscalar : n.keywords.scalar? keyword with
  | none =>
      have hmissing : n.IsLimit job run keyword otherwise otherwise :=
        .missing fun v hv => nomatch hscalar.symm.trans hv
      exact Step.pure_eq_ok_iff.trans
        (and_congr_left' ⟨fun h => h ▸ hmissing, hmissing.unique⟩)
  | some v =>
      dsimp only
      split
      · next hset =>
        refine run_evaluate.trans (and_congr_left' ⟨.given hscalar hset, fun h => ?_⟩)
        cases h with
        | given hscalar' _ hvalue => exact Option.some.inj (hscalar.symm.trans hscalar') ▸ hvalue
        | missing h => exact absurd (hset.symm.trans (h v hscalar)) nofun
      · next hset =>
        have hmissing : n.IsLimit job run keyword otherwise otherwise :=
          .missing fun _ _ => Bool.not_eq_true _ ▸ hset
        exact Step.pure_eq_ok_iff.trans
          (and_congr_left' ⟨fun h => h ▸ hmissing, hmissing.unique⟩)

/-- The molecule a site has to belong to: that of the site at which a selection stands. -/
def wantedMolecule (n : Node) : Step (Option Nat) :=
  match n.keywords.node? "SameMoleculeAsSite" with
  | some r => do return some (← n.requireSite r).molecule
  | none => return none

/-- The window a site has to lie in: a point, and the least and greatest distance from it. -/
def wantedWindow (n : Node) (job : Job) : Step (Option (Vec3 Float × Float × Float)) :=
  match n.keywords.node? "ReferenceSite" with
  | some r => do
    let held ← n.requireSite r
    let least ← n.distanceLimit job "MinDistance" 0.0
    let greatest ← n.distanceLimit job "MaxDistance" (1.0 / 0.0)
    return some (held.origin, least, greatest)
  | none => return none

theorem criteria_eq (n : Node) (job : Job) : n.criteria job = (do
    let run ← get
    let molecule ← n.wantedMolecule
    let window ← n.wantedWindow job
    return {
      otherMolecules := n.heldSites run "ExcludeSameMolecule"
      otherSites := n.heldSites run "ExcludeSameSite"
      molecule, window }) := by
  unfold criteria wantedMolecule wantedWindow
  cases n.keywords.node? "SameMoleculeAsSite" <;> cases n.keywords.node? "ReferenceSite" <;>
    simp only [bind_assoc, pure_bind]

/-- **The molecule a selection asks for**: none, or that of the site at which another stands. -/
inductive AsksMolecule (n : Node) (run : Run) : Option Nat → Prop
  | none (hr : n.keywords.node? "SameMoleculeAsSite" = none) : AsksMolecule n run none
  | some {r : NodeRef} {held : Site} (hr : n.keywords.node? "SameMoleculeAsSite" = some r)
      (hheld : run.currentSite? r = some held) : AsksMolecule n run (some held.molecule)

/-- **The window a selection asks for**: none, or one around the site at which another stands. -/
inductive AsksWindow (n : Node) (job : Job) (run : Run) : Option (Vec3 Float × Float × Float) → Prop
  | none (hr : n.keywords.node? "ReferenceSite" = none) : AsksWindow n job run none
  | some {r : NodeRef} {held : Site} {least greatest : Float}
      (hr : n.keywords.node? "ReferenceSite" = some r) (hheld : run.currentSite? r = some held)
      (hleast : n.IsLimit job run "MinDistance" 0.0 least)
      (hgreatest : n.IsLimit job run "MaxDistance" (1.0 / 0.0) greatest) :
      AsksWindow n job run (some (held.origin, least, greatest))

/-- **What a selection asks of its sites**, as the other selections stand. -/
structure Asks (n : Node) (job : Job) (run : Run) (c : Criteria) : Prop where
  otherSites : c.otherSites = n.heldSites run "ExcludeSameSite"
  otherMolecules : c.otherMolecules = n.heldSites run "ExcludeSameMolecule"
  molecule : n.AsksMolecule run c.molecule
  window : n.AsksWindow job run c.window

theorem run_wantedMolecule {molecule : Option Nat} :
    n.wantedMolecule run = (.ok molecule, run') ↔ n.AsksMolecule run molecule ∧ run' = run := by
  unfold wantedMolecule
  cases hr : n.keywords.node? "SameMoleculeAsSite" with
  | none =>
      refine Step.pure_eq_ok_iff.trans (and_congr_left' ⟨?_, fun hasks => ?_⟩)
      · rintro rfl
        exact .none hr
      · cases hasks with
        | none => rfl
        | some hr' => cases hr.symm.trans hr'
  | some r =>
      simp only [Step.bind_eq_ok_iff, run_requireSite, Step.pure_eq_ok_iff]
      constructor
      · rintro ⟨held, _, ⟨hheld, rfl⟩, rfl, rfl⟩
        exact ⟨.some hr hheld, rfl⟩
      · rintro ⟨hasks, rfl⟩
        cases hasks with
        | none hr' => cases hr.symm.trans hr'
        | some hr' hheld =>
            obtain rfl := Option.some.inj (hr.symm.trans hr')
            exact ⟨_, _, ⟨hheld, rfl⟩, rfl, rfl⟩

theorem run_wantedWindow {window : Option (Vec3 Float × Float × Float)} :
    n.wantedWindow job run = (.ok window, run') ↔ n.AsksWindow job run window ∧ run' = run := by
  unfold wantedWindow
  cases hr : n.keywords.node? "ReferenceSite" with
  | none =>
      refine Step.pure_eq_ok_iff.trans (and_congr_left' ⟨?_, fun hasks => ?_⟩)
      · rintro rfl
        exact .none hr
      · cases hasks with
        | none => rfl
        | some hr' => cases hr.symm.trans hr'
  | some r =>
      simp only [Step.bind_eq_ok_iff, run_requireSite, run_distanceLimit, Step.pure_eq_ok_iff]
      constructor
      · rintro ⟨held, _, ⟨hheld, rfl⟩, least, _, ⟨hleast, rfl⟩, greatest, _, ⟨hgreatest, rfl⟩, rfl,
          rfl⟩
        exact ⟨.some hr hheld hleast hgreatest, rfl⟩
      · rintro ⟨hasks, rfl⟩
        cases hasks with
        | none hr' => cases hr.symm.trans hr'
        | some hr' hheld hleast hgreatest =>
            obtain rfl := Option.some.inj (hr.symm.trans hr')
            exact ⟨_, _, ⟨hheld, rfl⟩, _, _, ⟨hleast, rfl⟩, _, _, ⟨hgreatest, rfl⟩, rfl, rfl⟩

/-- **The criteria of a selection** are what it asks. -/
theorem run_criteria {c : Criteria} :
    n.criteria job run = (.ok c, run') ↔ n.Asks job run c ∧ run' = run := by
  rw [criteria_eq, Step.bind_eq_ok_iff]
  simp only [Step.bind_eq_ok_iff, run_wantedMolecule, run_wantedWindow, Step.pure_eq_ok_iff]
  constructor
  · rintro ⟨_, _, hget, molecule, _, ⟨hmolecule, rfl⟩, window, _, ⟨hwindow, rfl⟩, rfl, rfl⟩
    cases hget
    exact ⟨⟨rfl, rfl, hmolecule, hwindow⟩, rfl⟩
  · rintro ⟨⟨hsites, hmolecules, hmolecule, hwindow⟩, rfl⟩
    refine ⟨_, _, rfl, c.molecule, _, ⟨hmolecule, rfl⟩, c.window, _, ⟨hwindow, rfl⟩, ?_, rfl⟩
    rw [← hsites, ← hmolecules]

/-! ## Sites that are wanted -/

/-- **A site shares the molecule** of the site at which the selection of `SameMoleculeAsSite`
stands, if there is such a selection. -/
def SharesMolecule (n : Node) (run : Run) (s : Site) : Prop :=
  ∀ r, n.keywords.node? "SameMoleculeAsSite" = some r →
    ∃ held, run.currentSite? r = some held ∧ s.molecule = held.molecule

/-- **A site lies in the window** around the site at which the selection of `ReferenceSite` stands,
if there is such a selection: it is not nearer than the least distance and not farther than the
greatest. -/
def LiesInWindow (n : Node) (job : Job) (run : Run) (s : Site) : Prop :=
  ∀ r, n.keywords.node? "ReferenceSite" = some r →
    ∃ held least greatest, run.currentSite? r = some held ∧
      n.IsLimit job run "MinDistance" 0.0 least ∧
      n.IsLimit job run "MaxDistance" (1.0 / 0.0) greatest ∧
      ¬ run.configuration.cell.minimumDistance held.origin s.origin < least ∧
      ¬ greatest < run.configuration.cell.minimumDistance held.origin s.origin

/-- **What a selection wants of a site.** The sites at which the selections of its keywords stand
are read from the run; a selection that is to be kept apart and stands nowhere leaves out
nothing. -/
structure Wants (n : Node) (job : Job) (run : Run) (s : Site) : Prop where
  otherSites : ∀ r ∈ n.keywords.nodes "ExcludeSameSite", ∀ held,
    run.currentSite? r = some held → s.index ≠ held.index
  otherMolecules : ∀ r ∈ n.keywords.nodes "ExcludeSameMolecule", ∀ held,
    run.currentSite? r = some held → s.molecule ≠ held.molecule
  molecule : n.SharesMolecule run s
  window : n.LiesInWindow job run s

variable {c : Criteria} {s : Site}

theorem all_heldSites_iff {keyword : String} {p : Site → Prop} :
    (∀ held ∈ n.heldSites run keyword, p held) ↔
      ∀ r ∈ n.keywords.nodes keyword, ∀ held, run.currentSite? r = some held → p held := by
  simp only [heldSites, List.mem_filterMap]
  exact ⟨fun h r hr held hheld => h held ⟨r, hr, hheld⟩,
    fun h held ⟨r, hr, hheld⟩ => h r hr held hheld⟩

theorem AsksMolecule.all_iff {molecule : Option Nat} (h : n.AsksMolecule run molecule) :
    (molecule.all fun m => m == s.molecule) = true ↔ n.SharesMolecule run s := by
  cases h with
  | none hr => simp [SharesMolecule, hr]
  | @some r held hr hheld =>
      simp only [Option.all_some, beq_iff_eq]
      constructor
      · intro heq r' hr'
        obtain rfl := Option.some.inj (hr.symm.trans hr')
        exact ⟨held, hheld, heq.symm⟩
      · intro h
        obtain ⟨held', hheld', heq⟩ := h r hr
        rw [heq, Option.some.inj (hheld.symm.trans hheld')]

theorem AsksWindow.isNear_iff (h : n.AsksWindow job run c.window) :
    c.isNear run.configuration.cell s = true ↔ n.LiesInWindow job run s := by
  generalize hwindow : c.window = window at h
  unfold Criteria.isNear
  rw [hwindow]
  cases h with
  | none hr => simp [LiesInWindow, hr]
  | @some r held least greatest hr hheld hleast hgreatest =>
      simp only [Bool.not_eq_true', Bool.or_eq_false_iff, decide_eq_false_iff_not]
      constructor
      · rintro ⟨hlow, hhigh⟩ r' hr'
        obtain rfl := Option.some.inj (hr.symm.trans hr')
        exact ⟨held, least, greatest, hheld, hleast, hgreatest, hlow, hhigh⟩
      · intro h
        obtain ⟨held', least', greatest', hheld', hleast', hgreatest', hlow, hhigh⟩ := h r hr
        obtain rfl := Option.some.inj (hheld.symm.trans hheld')
        rw [hleast.unique hleast', hgreatest.unique hgreatest']
        exact ⟨hlow, hhigh⟩

/-- **Criteria admit the sites that are wanted.** -/
theorem Asks.admits_iff (h : n.Asks job run c) :
    c.admits run.configuration.cell s = true ↔ n.Wants job run s := by
  obtain ⟨hsites, hmolecules, hmolecule, hwindow⟩ := h
  simp only [Criteria.admits, Bool.and_eq_true, Bool.not_eq_true', List.any_eq_false, beq_iff_eq,
    hsites, hmolecules, hmolecule.all_iff, hwindow.isNear_iff, all_heldSites_iff,
    eq_comm (b := s.index), eq_comm (b := s.molecule)]
  exact ⟨fun ⟨⟨⟨h, h'⟩, h''⟩, h'''⟩ => ⟨h, h', h'', h'''⟩,
    fun ⟨h, h', h'', h'''⟩ => ⟨⟨⟨h, h'⟩, h''⟩, h'''⟩⟩

/-! ## The sites of a selection -/

variable {blocks : List DynamicSite} {sites : List Site}

/-- **The list of a selection**: the sites offered, each where it is offered first, as far as its
criteria admit them. -/
theorem run_selection : n.selection job blocks run = (.ok sites, run') ↔
    (∃ c, n.Asks job run c ∧
      sites = (firstOffers ∅ (n.offers blocks run.configuration)).filter
        (c.admits run.configuration.cell)) ∧ run' = run := by
  unfold selection
  simp only [Step.bind_eq_ok_iff, run_criteria, Step.pure_eq_ok_iff]
  constructor
  · rintro ⟨c, _, ⟨hasks, rfl⟩, _, _, hget, rfl, rfl⟩
    cases hget
    exact ⟨⟨c, hasks, rfl⟩, rfl⟩
  · rintro ⟨⟨c, hasks, rfl⟩, rfl⟩
    exact ⟨c, _, ⟨hasks, rfl⟩, _, _, rfl, rfl, rfl⟩

/-- **The sites of a selection** are those that are offered and wanted. -/
theorem mem_selection_iff (h : n.selection job blocks run = (.ok sites, run')) :
    s ∈ sites ↔
      (∃ r, run.configuration.HasSite r s ∧ n.Offers blocks r) ∧ n.Wants job run s := by
  obtain ⟨⟨c, hasks, rfl⟩, -⟩ := run_selection.1 h
  rw [List.mem_filter, mem_firstOffers_iff fun _ hs _ ht => eq_of_mem_offers hs ht, mem_offers_iff,
    hasks.admits_iff]

/-- **The sites of a selection** appear in the order of their first offers. -/
theorem pairwise_selection (h : n.selection job blocks run = (.ok sites, run')) :
    sites.Pairwise fun s t => firstOffer (n.offers blocks run.configuration) s.index <
      firstOffer (n.offers blocks run.configuration) t.index := by
  obtain ⟨⟨c, hasks, rfl⟩, -⟩ := run_selection.1 h
  exact (firstOffers_pairwise ∅ _).filter _

theorem nodup_selection (h : n.selection job blocks run = (.ok sites, run')) :
    (sites.map Site.index).Nodup := by
  refine List.pairwise_map.2 ((pairwise_selection h).imp fun hlt heq => ?_)
  rw [heq] at hlt
  exact Nat.lt_irrefl _ hlt

end Node

end SiteAnalysis
