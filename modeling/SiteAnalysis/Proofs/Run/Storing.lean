import Mathlib.Data.String.Basic
import SiteAnalysis.Proofs.Run.Standing

set_option autoImplicit false

/-! # What nodes store

A node of a type `collect` keeps a histogram in the results, and one of a type `process` or `fit`
keeps data. Nodes are followed through a run by their works: what each does by itself, apart from
the branch it may run. Main statements:

* `Node.spares_prepare`, `Node.spares_plan`, `Node.spares_finalise`: in no phase does a node touch
  an item under another key than its own.
* `Job.works_handed`: the works of a run hand the results on, so that nothing else changes them.
-/

namespace SiteAnalysis

/-! ## Items under other keys -/

/-- What is kept under other keys is found as before. -/
theorem lookup_insertSorted_of_ne {κ α : Type} [BEq κ] [LawfulBEq κ] {lt : κ → κ → Bool}
    (htotal : ∀ a b, lt a b = false → lt b a = false → a = b) {k key : κ} (value : α) (h : k ≠ key)
    (l : List (κ × α)) : (insertSorted lt key value l).lookup k = l.lookup k := by
  induction l with
  | nil => exact lookup_cons_of_ne [] value h
  | cons e l ih =>
      obtain ⟨other, v⟩ := e
      unfold insertSorted
      split
      · exact lookup_cons_of_ne _ value h
      · next hbelow =>
          split
          · rw [List.lookup_cons, List.lookup_cons, ih]
          · next habove =>
              obtain rfl := htotal key other (by simpa using hbelow) (by simpa using habove)
              rw [lookup_cons_of_ne _ value h, lookup_cons_of_ne _ v h]

theorem ResultKey.eq_of_not_lt (a b : ResultKey) (hab : a.lt b = false) (hba : b.lt a = false) :
    a = b := by
  simp only [lt, Bool.or_eq_false_iff, decide_eq_false_iff_not, not_lt, Bool.and_eq_false_iff,
    beq_eq_false_iff_ne] at hab hba
  have hname : a.name = b.name := le_antisymm hba.1 hab.1
  have hgroup : a.group = b.group :=
    le_antisymm (hba.2.resolve_left (· hname.symm)) (hab.2.resolve_left (· hname))
  cases a
  cases b
  exact congrArg₂ ResultKey.mk hname hgroup

namespace Results

variable {k key : ResultKey} (s : Results)

theorem find?_insert_of_ne (item : Item) (h : k ≠ key) :
    (s.insert key item).find? k = s.find? k :=
  lookup_insertSorted_of_ne ResultKey.eq_of_not_lt item h s.entries

theorem find?_mapHistogram_of_ne (f : Histogram Float → Histogram Float) (h : k ≠ key) :
    (s.mapHistogram key f).find? k = s.find? k := by
  obtain ⟨entries⟩ := s
  simp only [find?, mapHistogram]
  induction entries with
  | nil => rfl
  | cons e entries ih =>
      obtain ⟨other, item⟩ := e
      rw [List.map_cons]
      by_cases hother : other = key
      · simp only [if_pos hother]
        rw [lookup_cons_of_ne _ _ (hother ▸ h), lookup_cons_of_ne _ _ (hother ▸ h), ih]
      · simp only [if_neg hother]
        rw [List.lookup_cons, List.lookup_cons, ih]

theorem find?_realise_of_ne (fresh : Item) (h : k ≠ key) :
    (s.realise key fresh).2.find? k = s.find? k := by
  unfold realise
  split
  · rfl
  · exact s.find?_insert_of_ne fresh h

end Results

/-! ## Own items -/

/-- **What a node may keep in the results.** -/
inductive Holding where
  | histogram
  | data
  deriving DecidableEq

/-- What the name of a held item ends with. -/
def Holding.suffix : Holding → String
  | histogram => "_Bins"
  | data => ""

/-- What a node keeps in the results, if it keeps anything. -/
def Node.holding? (n : Node) : Option Holding :=
  match n.kind with
  | .collect _ => some .histogram
  | .process _ | .fit _ _ => some .data
  | _ => none

/-- **The key of the item of a node** in runs over the configuration of a name. -/
def Node.itemKey? (n : Node) (job : Job) (configuration : String) : Option ResultKey :=
  n.holding?.map fun h => job.key (n.name ++ "_" ++ (niceName configuration ++ h.suffix))

/-- The name of the configuration and the results. -/
def Run.stock (run : Run) : String × Results := (run.configuration.name, run.results)

/-- **A step spares an item**: in runs over the configuration of a name it touches neither the item
nor the name. -/
def Step.Spares {α : Type} (configuration : String) (key : ResultKey) (s : Step α) : Prop :=
  ∀ run, run.configuration.name = configuration →
    (s run).2.configuration.name = configuration ∧
      (s run).2.results.find? key = run.results.find? key

namespace Step.Spares

variable {α β : Type} {configuration : String} {key : ResultKey} {s : Step α}

theorem of_keeps (h : s.Keeps Run.stock) : s.Spares configuration key := by
  intro run hname
  obtain ⟨hname', hresults⟩ := Prod.mk.inj (h run)
  exact ⟨hname'.trans hname, by rw [hresults]⟩

theorem bind {f : α → Step β} (hs : s.Spares configuration key)
    (hf : ∀ a, (f a).Spares configuration key) : (s >>= f).Spares configuration key := by
  intro run hname
  obtain ⟨hname', hitem⟩ := hs run hname
  rw [run_bind]
  cases hrun : s run with
  | mk r run' =>
      rw [hrun] at hname' hitem
      cases r with
      | error e => exact ⟨hname', hitem⟩
      | ok a =>
          obtain ⟨hname'', hitem'⟩ := hf a run' hname'
          exact ⟨hname'', hitem'.trans hitem⟩

/-- A step that sets the run it has read. -/
theorem of_get {f : Run → Step α} (h : ∀ run, run.configuration.name = configuration →
    (f run run).2.configuration.name = configuration ∧
      (f run run).2.results.find? key = run.results.find? key) :
    (MonadState.get >>= f).Spares configuration key := h

/-- What a step reads is a run over the configuration. -/
theorem get_bind {f : Run → Step α} (h : ∀ run, run.configuration.name = configuration →
    (f run).Spares configuration key) : (MonadState.get >>= f).Spares configuration key :=
  fun run hname => h run hname run hname

theorem modify {f : Results → Results} (h : ∀ s, (f s).find? key = s.find? key) :
    Spares configuration key (modify fun run => { run with results := f run.results } : Step Unit) :=
  fun run hname => ⟨hname, h run.results⟩

theorem ite {c : Prop} [Decidable c] {s t : Step α} (hs : s.Spares configuration key)
    (ht : t.Spares configuration key) : (if c then s else t).Spares configuration key := by
  split
  · exact hs
  · exact ht

end Step.Spares

namespace Node

variable {n : Node} {job : Job} {configuration : String} {key : ResultKey}

/-! ### Works that store nothing -/

theorem stock_save (file text : String) : (job.save file text).Keeps Run.stock := by
  refine .modify fun run => ?_
  split <;> rfl

theorem stock_prepareSelect (blocks : List DynamicSite) :
    (n.prepareSelect blocks).Keeps Run.stock :=
  .ite (.fail_bind n _ _) (.modify fun _ => rfl)

theorem stock_prepareFit : n.prepareFit.Keeps Run.stock := by
  unfold prepareFit
  refine .bind (.modify fun _ => rfl) fun _ => .bind keeps_prepareSource fun _ => ?_
  split
  · exact .pure _
  · exact .throw _

/-! ### Works that store -/

section Storing

variable (d : Dimension) {run : Run}

theorem binsKey_eq (hname : run.configuration.name = configuration) (hkind : n.kind = .collect d) :
    some (n.binsKey job run) = n.itemKey? job configuration := by
  subst hname
  simp only [itemKey?, holding?, hkind, Option.map_some, Holding.suffix, binsKey, binsName,
    Run.dataName, Configuration.niceName, String.append_assoc]

theorem dataKey_eq (hname : run.configuration.name = configuration)
    (hkind : n.holding? = some .data) :
    some (job.key (run.dataName n.name)) = n.itemKey? job configuration := by
  subst hname
  simp only [itemKey?, hkind, Option.map_some, Holding.suffix, Run.dataName, Configuration.niceName,
    String.append_empty]

theorem ne_binsKey (hname : run.configuration.name = configuration) (hkind : n.kind = .collect d)
    (h : n.itemKey? job configuration ≠ some key) : key ≠ n.binsKey job run := by
  rintro rfl
  exact h (binsKey_eq d hname hkind).symm

theorem spares_prepareCollect (hkind : n.kind = .collect d)
    (h : n.itemKey? job configuration ≠ some key) :
    (n.prepareCollect job d).Spares configuration key := by
  unfold prepareCollect
  refine .bind (.of_keeps (.forIn (fun _ _ => .ite (.bind (.fail n _) fun _ => .pure _) (.pure _))
    _ _)) fun _ => ?_
  refine .of_get fun run hname => ?_
  have hother : key ≠ n.binsKey job run := ne_binsKey d hname hkind h
  have hrealise := run.results.find?_realise_of_ne (.histogram (.ofAxes (n.histogramAxes d))) hother
  dsimp only
  generalize run.results.realise _ _ = found at hrealise
  obtain ⟨found, results⟩ := found
  cases found with
  | error e => exact ⟨hname, rfl⟩
  | ok item => exact ⟨hname, (results.find?_mapHistogram_of_ne _ hother).trans hrealise⟩

theorem spares_binPresent (hkind : n.kind = .collect d)
    (h : n.itemKey? job configuration ≠ some key) :
    (n.binPresent job d).Spares configuration key := by
  unfold binPresent
  refine .bind (.of_keeps (.mapM (fun _ => keeps_quantity _) _)) fun values =>
    .get_bind fun before hname => .get_bind fun run _ => ?_
  have hother : key ≠ n.binsKey job before := ne_binsKey d hname hkind h
  cases run.results.histogram (n.binsKey job before) d.toNat with
  | ok held =>
      exact .bind (.of_keeps (.pure _)) fun _ =>
        .bind (.modify fun s => s.find?_mapHistogram_of_ne _ hother) fun _ => .of_keeps (.pure _)
  | error e => exact .of_keeps (.throw_bind e _)

theorem spares_finaliseCollect (hkind : n.kind = .collect d)
    (h : n.itemKey? job configuration ≠ some key) :
    (n.finaliseCollect job d).Spares configuration key := by
  refine .of_get fun run hname => ?_
  have hother : key ≠ n.binsKey job run := ne_binsKey d hname hkind h
  cases run.results.histogram (n.binsKey job run) d.toNat with
  | error e => exact ⟨hname, rfl⟩
  | ok held =>
      dsimp only
      cases held.endPass job.pool with
      | error e => exact ⟨hname, rfl⟩
      | ok held => exact ⟨hname, run.results.find?_insert_of_ne _ hother⟩

/-- Data are stored under the key of the node. -/
theorem spares_store (hholding : n.holding? = some .data)
    (h : n.itemKey? job configuration ≠ some key) (hname : run.configuration.name = configuration)
    (item : Item) : Step.Spares configuration key (modify fun last =>
      { last with results := last.results.insert (job.key (run.dataName n.name)) item }) :=
  .modify fun s => s.find?_insert_of_ne item fun heq =>
    h (by rw [← dataKey_eq hname hholding, heq])

theorem spares_finaliseProcess (hholding : n.holding? = some .data)
    (h : n.itemKey? job configuration ≠ some key) :
    (n.finaliseProcess job d).Spares configuration key := by
  unfold finaliseProcess
  refine .bind (.of_keeps (keeps_requireTarget _ _)) fun source => .get_bind fun run hname => ?_
  dsimp only
  cases run.results.histogram (job.key (binsName (run.dataName source.1.name))) d.toNat with
  | error e => exact .of_keeps (.throw_bind e _)
  | ok held =>
      refine .bind (.of_keeps (.pure held)) fun held =>
        .bind (.of_keeps (keeps_divideByPopulations _)) fun data =>
        .bind (.of_keeps (keeps_divideByFactor _)) fun data => ?_
      exact .ite (.bind (.of_keeps (stock_save _ _)) fun _ => spares_store hholding h hname _)
        (spares_store hholding h hname _)

theorem spares_finaliseFit (hholding : n.holding? = some .data)
    (h : n.itemKey? job configuration ≠ some key) :
    (n.finaliseFit job).Spares configuration key := by
  unfold finaliseFit
  refine .bind (.of_keeps keeps_fitProblem) fun problem => ?_
  dsimp only
  cases n.minimiser.minimise job.settings.minimiser problem.cost n.startingValues with
  | error e => exact .of_keeps (.throw_bind e _)
  | ok found =>
      refine .bind (.of_keeps (.pure found)) fun found => .ite (.of_keeps ?_) ?_
      · split
        · exact .fail_bind n _ _
        · exact .fail_bind n _ _
      · refine .get_bind fun run hname => ?_
        cases problem.curve found.best.point with
        | error fault => exact .of_keeps (.throw_bind _ _)
        | ok curve =>
            refine .bind (.of_keeps (.pure _)) fun curve =>
              .bind (.of_keeps (.modify fun _ => rfl)) fun _ => ?_
            exact .ite
              (.bind (.of_keeps (stock_save _ _)) fun _ => spares_store hholding h hname _)
              (spares_store hholding h hname _)

end Storing

/-- **Preparing** touches no item but the node's own. -/
theorem spares_prepare (h : n.itemKey? job configuration ≠ some key) :
    (n.prepare job).Spares configuration key := by
  unfold prepare
  split
  · exact .of_keeps (stock_prepareSelect _)
  · next d hkind => exact spares_prepareCollect d hkind h
  · exact .of_keeps keeps_prepareSource
  · exact .of_keeps stock_prepareFit
  · exact .of_keeps (keeps_refuse _ _)
  · exact .of_keeps (.pure _)

/-- **Executing** touches no item but the node's own, apart from what the branch does. -/
theorem spares_plan (h : n.itemKey? job configuration ≠ some key) :
    (n.plan job).Spares configuration key := by
  unfold plan
  split
  · exact .of_keeps <| .bind (keeps_selection _) fun _ => .bind (.modify fun _ => rfl) fun _ =>
      .pure _
  · exact .of_keeps (.bind keeps_standApart fun _ => .pure _)
  · exact .of_keeps (.bind (keeps_measure_of fun _ _ => rfl) fun _ => .pure _)
  · exact .of_keeps (.bind (keeps_measure_of fun _ _ => rfl) fun _ => .pure _)
  · exact .of_keeps (.bind (keeps_measure_of fun _ _ => rfl) fun _ => .pure _)
  · next d hkind => exact .bind (spares_binPresent d hkind h) fun _ => .of_keeps (.pure _)
  · exact .of_keeps (.bind (keeps_executeBox_of fun _ _ => rfl) fun _ => .pure _)
  · exact .of_keeps (.bind (.bind (keeps_evaluateScalar _) fun _ =>
      .bind (keeps_evaluateScalar _) fun _ => .bind (keeps_evaluateScalar _) fun _ => .pure _)
      fun _ => .pure _)
  · exact .of_keeps (.bind (keeps_refuse _ _) fun _ => .pure _)
  · exact .of_keeps (.pure _)

/-- **Finalising** touches no item but the node's own. -/
theorem spares_finalise (h : n.itemKey? job configuration ≠ some key) :
    (n.finalise job).Spares configuration key := by
  unfold finalise
  split
  · next d hkind => exact spares_finaliseCollect d hkind h
  · next d hkind => exact spares_finaliseProcess d (by rw [holding?, hkind]) h
  · next hkind => exact spares_finaliseFit (by rw [holding?, hkind]) h
  · exact .of_keeps (keeps_refuse _ _)
  · exact .of_keeps (.pure _)

end Node

/-! ## Works -/

/-- **What a node does by itself** at a call: the run at the call, and the run it leaves. -/
structure Work where
  node : Node
  before : Run
  after : Run

/-- **The works of some nodes in a phase**, up to the first that fails. -/
def sweepWorks (p : Phase) (work : Node → Step Unit) : List Node → Run → List Work
  | [], _ => []
  | n :: rest, run =>
    let called := n.called p run
    ⟨n, called, (work n called).2⟩ ::
      match work n called with
      | (.ok _, run) => sweepWorks p work rest run
      | (.error _, _) => []

/-- What a node does by itself at a visit, before its branch runs. -/
def Visit.work (job : Job) (v : Visit) : Work :=
  ⟨v.place.node, v.run, (v.place.node.plan job v.run).2⟩

/-- **The works of a run**, in the order they are done. -/
def Job.works (job : Job) (run : Run) : List Work :=
  sweepWorks .prepare (fun n => n.prepare job) job.tree.nodes run ++
    match job.tree.prepare job run with
    | (.error _, _) => []
    | (.ok _, run) => (job.tree.visits job [] run).map (Visit.work job) ++
      match job.tree.execute job run with
      | (.error _, _) => []
      | (.ok _, run) => sweepWorks .finalise (fun n => n.finalise job) job.tree.nodes run

/-- **Works hand on what a view shows**: each finds it as the one before has left it. -/
inductive Handed {γ : Type} (view : Run → γ) : γ → List Work → γ → Prop
  | nil {c : γ} : Handed view c [] c
  | cons {c last : γ} {w : Work} {rest : List Work} (hfound : view w.before = c)
      (hrest : Handed view (view w.after) rest last) : Handed view c (w :: rest) last

section Handed

variable {γ δ : Type} {view : Run → γ} {first between last : γ} {ws vs : List Work}

namespace Handed

theorem append (h : Handed view first ws between) (h' : Handed view between vs last) :
    Handed view first (ws ++ vs) last := by
  induction h with
  | nil => exact h'
  | cons hfound hrest ih => exact .cons hfound (ih h')

theorem map (g : γ → δ) (h : Handed view first ws last) :
    Handed (fun run => g (view run)) (g first) ws (g last) := by
  induction h with
  | nil => exact .nil
  | cons hfound hrest ih => exact .cons (congrArg g hfound) ih

/-- Some works after others find what those have left. -/
theorem exists_between (h : Handed view first (ws ++ vs) last) :
    ∃ between, Handed view first ws between ∧ Handed view between vs last := by
  induction ws generalizing first with
  | nil => exact ⟨first, .nil, h⟩
  | cons w ws ih =>
      cases h with
      | cons hfound hrest =>
          obtain ⟨between, hws, hvs⟩ := ih hrest
          exact ⟨between, .cons hfound hws, hvs⟩

/-- What no work changes is found by all. -/
theorem eq_first (h : Handed view first ws last) (hkeeps : ∀ w ∈ ws, view w.after = view w.before) :
    ∀ w ∈ ws, view w.before = first := by
  induction h with
  | nil => exact fun _ => nofun
  | cons hfound hrest ih =>
      refine List.forall_mem_cons.2 ⟨hfound, fun w hw => ?_⟩
      rw [ih (fun w hw => hkeeps w (List.mem_cons_of_mem _ hw)) w hw, hkeeps _ List.mem_cons_self,
        hfound]

theorem chains : Chains (Handed view) := ⟨fun _ => .nil, fun h h' => h.append h'⟩

end Handed

/-- **A phase over nodes** hands on the stock, if calls do not show in the view. -/
theorem sweepWorks_handed (hcalled : ∀ (n : Node) (p : Phase) (run : Run),
    view (n.called p run) = view run) (p : Phase) (title : String) (work : Node → Step Unit)
    (l : List Node) (run : Run) : Handed view (view run) (sweepWorks p work l run)
      (view ((l.forM fun n => n.enter p title (work n)) run).2) := by
  induction l generalizing run with
  | nil => exact .nil
  | cons n l ih =>
      rw [List.forM_eq_forM, List.forM_cons, Step.run_bind, Node.run_enter, sweepWorks]
      refine .cons (hcalled n p run) ?_
      cases hrun : work n (n.called p run) with
      | mk r run' =>
          cases r with
          | error e => exact .nil
          | ok u => exact ih run'

end Handed

/-! ### Stock -/

/-- **Executions hand on the stock** from visit to visit. -/
theorem Forest.visits_handed (job : Job) (f : Forest) (owners : List NodeId) (run : Run) :
    Handed Run.stock run.stock ((f.visits job owners run).map (Visit.work job))
      (f.execute job run).2.stock :=
  visits_chain Handed.chains job (Visit.work job)
    (fun _ _ _ _ => Node.spares_of_plan ⟨fun _ _ => rfl, fun _ _ => rfl⟩)
    (fun _ _ _ => .cons rfl .nil) f owners run

/-- **Runs hand on the stock** from work to work: nothing else changes the results. -/
theorem Job.works_handed (job : Job) (run : Run) :
    Handed Run.stock run.stock (job.works run) (job.run run).2.stock := by
  have hprepare : Handed Run.stock _ _ (job.tree.prepare job run).2.stock :=
    sweepWorks_handed (fun _ _ _ => rfl) .prepare "Prepare" (fun n => n.prepare job)
      job.tree.nodes run
  rw [Job.run, Step.run_bind, Step.run_within, works]
  refine hprepare.append ?_
  cases hrun : job.tree.prepare job run with
  | mk r run₁ =>
      cases r with
      | error e => exact .nil
      | ok u =>
          have hexecute := job.tree.visits_handed job [] run₁
          dsimp only [Except.mapError]
          rw [Step.run_bind, Step.discard_eq, Step.run_bind, Step.run_within]
          refine hexecute.append ?_
          cases hdone : job.tree.execute job run₁ with
          | mk r run₂ =>
              cases r with
              | error e => exact .nil
              | ok outcome =>
                  dsimp only [Except.mapError, Step.run_pure]
                  rw [Step.run_within]
                  exact sweepWorks_handed (fun _ _ _ => rfl) .finalise "Finalise"
                    (fun n => n.finalise job) job.tree.nodes run₂

/-! ## What works touch -/

/-- **A work of a job** is done by a node of the tree, for the same configuration, and touches no
item but the node's own. -/
structure Job.Owns (job : Job) (w : Work) : Prop where
  mem : w.node ∈ job.tree.nodes
  name : w.after.configuration.name = w.before.configuration.name
  spares : ∀ key, w.node.itemKey? job w.before.configuration.name ≠ some key →
    w.after.results.find? key = w.before.results.find? key

theorem Job.Owns.of_step {α : Type} {job : Job} {n : Node} {s : Step α} {run : Run}
    (hmem : n ∈ job.tree.nodes) (htold : s.Keeps Run.told)
    (hspares : ∀ key, n.itemKey? job run.configuration.name ≠ some key →
      s.Spares run.configuration.name key) : job.Owns ⟨n, run, (s run).2⟩ :=
  ⟨hmem, (Prod.mk.inj (htold run)).1, fun key hkey => (hspares key hkey run rfl).2⟩

theorem exists_of_mem_sweepWorks {p : Phase} {work : Node → Step Unit} {l : List Node} {run : Run}
    {w : Work} (h : w ∈ sweepWorks p work l run) :
    ∃ n ∈ l, ∃ run, w = ⟨n, run, (work n run).2⟩ := by
  induction l generalizing run with
  | nil => cases h
  | cons n l ih =>
      rw [sweepWorks, List.mem_cons] at h
      rcases h with rfl | h
      · exact ⟨n, List.mem_cons_self, _, rfl⟩
      · cases hrun : work n (n.called p run) with
        | mk r run' =>
            rw [hrun] at h
            cases r with
            | error e => cases h
            | ok u =>
                obtain ⟨m, hm, hw⟩ := ih h
                exact ⟨m, List.mem_cons_of_mem _ hm, hw⟩

theorem Forest.mem_nodes_of_mem_visits {job : Job} {f : Forest} {owners : List NodeId} {run : Run}
    {v : Visit} (h : v ∈ f.visits job owners run) : v.place.node ∈ f.nodes := by
  induction f generalizing owners run with
  | nil => cases h
  | cons n branch rest ihb ihr =>
      rw [nodes, List.mem_cons, List.mem_append]
      rw [visits, List.mem_cons, List.mem_append, List.mem_flatMap] at h
      rcases h with rfl | ⟨start, -, h⟩ | h
      · exact .inl rfl
      · exact .inr (.inl (ihb h))
      · cases hrun : n.execute job (branch.execute job) (n.called .execute run) with
        | mk r run' =>
            rw [hrun] at h
            rcases r with e | (_ | _)
            · cases h
            · exact .inr (.inr (ihr h))
            · cases h

/-- **All works of a run are the job's own.** -/
theorem Job.owns_of_mem_works {job : Job} {run : Run} {w : Work} (h : w ∈ job.works run) :
    job.Owns w := by
  have hprepare : ∀ run, w ∈ sweepWorks .prepare (fun n => n.prepare job) job.tree.nodes run →
      job.Owns w := by
    intro run hw
    obtain ⟨n, hn, run, rfl⟩ := exists_of_mem_sweepWorks hw
    exact .of_step hn Node.keeps_prepare fun key => Node.spares_prepare
  have hfinalise : ∀ run, w ∈ sweepWorks .finalise (fun n => n.finalise job) job.tree.nodes run →
      job.Owns w := by
    intro run hw
    obtain ⟨n, hn, run, rfl⟩ := exists_of_mem_sweepWorks hw
    exact .of_step hn (fun run => Run.told_of_frame (Node.keeps_finalise run)) fun key =>
      Node.spares_finalise
  have hexecute : ∀ run, w ∈ (job.tree.visits job [] run).map (Visit.work job) → job.Owns w := by
    intro run hw
    obtain ⟨v, hv, rfl⟩ := List.mem_map.1 hw
    exact .of_step (Forest.mem_nodes_of_mem_visits hv) (v.place.node.keeps_plan job) fun key =>
      Node.spares_plan
  rw [works, List.mem_append] at h
  rcases h with h | h
  · exact hprepare run h
  cases hrun : job.tree.prepare job run with
  | mk r run₁ =>
      rw [hrun] at h
      cases r with
      | error e => cases h
      | ok u =>
          rcases List.mem_append.1 h with h | h
          · exact hexecute run₁ h
          · cases hdone : job.tree.execute job run₁ with
            | mk r run₂ =>
                rw [hdone] at h
                cases r with
                | error e => cases h
                | ok outcome => exact hfinalise run₂ h

/-- **All works of a run are for its configuration.** -/
theorem Job.name_of_mem_works {job : Job} {run : Run} {w : Work} (h : w ∈ job.works run) :
    w.before.configuration.name = run.configuration.name :=
  ((job.works_handed run).map Prod.fst).eq_first (fun _ hw => (owns_of_mem_works hw).name) w h

end SiteAnalysis
