import SiteAnalysis.Run.Phases

set_option autoImplicit false

/-! # What steps leave as it is

A step keeps a view of the run if the view shows the same before and behind it, whether the step
fails or not (`Step.Keeps`). The work that a node does by itself, apart from the branch it may run,
keeps the frame of the run (`Run.frame`): the sites at which selections stand, what they chose, the
name of the configuration and the calls of nodes so far. Only selections change their own entries.
Main statements:

* `Node.keeps_measure`, `Node.keeps_executeBox`, `Node.keeps_selection` and their like: each kind of
  work keeps the frame.
* `Node.keeps_prepare`, `Node.keeps_finalise`: in their phases nodes make no calls and leave the
  name of the configuration.
-/

namespace SiteAnalysis

/-! ## Tables -/

section Tables

variable {α β : Type} [BEq α] [LawfulBEq α] {k key : α} (l : List (α × β))

theorem lookup_cons_of_ne (b : β) (h : k ≠ key) : ((key, b) :: l).lookup k = l.lookup k := by
  rw [List.lookup_cons, beq_false_of_ne h]

/-- What is kept under other keys is found as before. -/
theorem lookup_filter_ne (h : k ≠ key) : (l.filter fun e => e.1 != key).lookup k = l.lookup k := by
  induction l with
  | nil => rfl
  | cons e l ih =>
      by_cases he : e.1 = key
      · rw [List.filter_cons_of_neg (by simp [he]), ih, ← lookup_cons_of_ne l e.2 (he ▸ h)]
      · rw [List.filter_cons_of_pos (by simp [he]), List.lookup_cons, List.lookup_cons, ih]

end Tables

namespace NodeTable

variable {α : Type} (t : NodeTable α) (id : NodeId) (a : α)

@[simp] theorem find?_erase : (t.erase id).find? id = none := by
  rw [find?, erase, List.lookup_eq_none_iff]
  intro e he
  simpa using Ne.symm (bne_iff_ne.1 (List.mem_filter.1 he).2)

@[simp] theorem find?_set : (t.set id a).find? id = some a := by
  rw [find?, set, List.lookup_cons_self]

variable {id : NodeId}

theorem find?_erase_of_ne {other : NodeId} (h : other ≠ id) :
    (t.erase id).find? other = t.find? other := lookup_filter_ne t h

theorem find?_set_of_ne {other : NodeId} (h : other ≠ id) :
    (t.set id a).find? other = t.find? other :=
  (lookup_cons_of_ne _ a h).trans (t.find?_erase_of_ne h)

end NodeTable

/-! ## Views that are kept -/

namespace Step

variable {α β γ : Type}

@[simp] theorem run_pure (a : α) (run : Run) : (pure a : Step α) run = (.ok a, run) := rfl

theorem run_bind (s : Step α) (f : α → Step β) (run : Run) :
    (s >>= f) run = match s run with
      | (.ok a, run) => f a run
      | (.error e, run) => (.error e, run) := by
  change (ExceptT.bindCont f (s run).1) (s run).2 = _
  cases hs : s run with
  | mk r run' => cases r <;> rfl

/-- **Two steps succeed** if the first one does and the second one does behind it. -/
theorem bind_eq_ok_iff {s : Step α} {f : α → Step β} {b : β} {run run' : Run} :
    (s >>= f) run = (.ok b, run') ↔
      ∃ a between, s run = (.ok a, between) ∧ f a between = (.ok b, run') := by
  rw [run_bind]
  cases hs : s run with
  | mk r between =>
      cases r with
      | error e =>
          constructor
          · nofun
          · rintro ⟨_, _, heq, -⟩
            cases heq
      | ok a =>
          constructor
          · exact fun h => ⟨a, between, rfl, h⟩
          · rintro ⟨_, _, heq, h⟩
            cases heq
            exact h

theorem pure_eq_ok_iff {a b : α} {run run' : Run} :
    (pure a : Step α) run = (.ok b, run') ↔ a = b ∧ run' = run := by
  rw [run_pure, Prod.mk.injEq, Except.ok.injEq, eq_comm (a := run)]

theorem run_within (context : String) (s : Step α) (run : Run) :
    (within context s) run = ((s run).1.mapError (Error.withContext context), (s run).2) := by
  unfold within
  cases s run with
  | mk r run' => cases r <;> rfl

/-- **A step keeps a view of the run**, whether it fails or not. -/
def Keeps (view : Run → γ) (s : Step α) : Prop := ∀ run, view (s run).2 = view run

variable {view : Run → γ} {s : Step α}

namespace Keeps

theorem pure (a : α) : Keeps view (Pure.pure a : Step α) := fun _ => rfl

theorem throw (e : Error) : Keeps view (MonadExcept.throw e : Step α) := fun _ => rfl

theorem fail (n : Node) (fault : RunFault) : Keeps view (Step.fail n fault : Step α) := fun _ => rfl

theorem throw_bind (e : Error) (f : α → Step β) :
    Keeps view ((MonadExcept.throw e : Step α) >>= f) := fun _ => rfl

theorem fail_bind (n : Node) (fault : RunFault) (f : α → Step β) :
    Keeps view ((Step.fail n fault : Step α) >>= f) := fun _ => rfl

theorem get : Keeps view (MonadState.get : Step Run) := fun _ => rfl

/-- A step that sets the run it has read. -/
theorem get_bind {f : Run → Step α} (h : ∀ run, view (f run run).2 = view run) :
    Keeps view (MonadState.get >>= f) := h

theorem modify {f : Run → Run} (h : ∀ run, view (f run) = view run) :
    Keeps view (modify f : Step Unit) := h

theorem bind {f : α → Step β} (hs : s.Keeps view) (hf : ∀ a, (f a).Keeps view) :
    (s >>= f).Keeps view := by
  intro run
  have hstep := hs run
  rw [run_bind]
  cases hrun : s run with
  | mk r run' =>
      rw [hrun] at hstep
      cases r with
      | ok a => exact (hf a run').trans hstep
      | error e => exact hstep

theorem orFail (n : Node) (fault : RunFault) (o : Option α) :
    Keeps view (Step.orFail n fault o) := by
  cases o with
  | none => exact .fail n fault
  | some a => exact .pure a

theorem ite {c : Prop} [Decidable c] {s t : Step α} (hs : s.Keeps view) (ht : t.Keeps view) :
    (if c then s else t).Keeps view := by
  split
  · exact hs
  · exact ht

theorem mapM {f : β → Step α} (hf : ∀ b, (f b).Keeps view) (l : List β) :
    (l.mapM f).Keeps view := by
  induction l with
  | nil => exact .pure []
  | cons b l ih =>
      rw [List.mapM_cons]
      exact (hf b).bind fun a => ih.bind fun as => .pure (a :: as)

theorem foldlM {f : α → β → Step α} (hf : ∀ a b, (f a b).Keeps view) (l : List β) (a : α) :
    (l.foldlM f a).Keeps view := by
  induction l generalizing a with
  | nil => exact .pure a
  | cons b l ih =>
      rw [List.foldlM_cons]
      exact (hf a b).bind ih

theorem forIn {f : β → α → Step (ForInStep α)} (hf : ∀ b a, (f b a).Keeps view) (l : List β)
    (a : α) : (ForIn.forIn l a f).Keeps view := by
  induction l generalizing a with
  | nil => exact .pure a
  | cons b l ih =>
      rw [List.forIn_cons]
      refine (hf b a).bind fun r => ?_
      cases r with
      | done a => exact .pure a
      | yield a => exact ih a

end Keeps

end Step

/-! ## The frame of a run -/

/-- Whether an event is the call of a node in a phase. -/
def Event.isCall : Event → Bool
  | entered _ _ _ => true
  | declined _ _ => false

/-- The call of a node in a phase. -/
def Node.call (p : Phase) (n : Node) : Event := .entered p n.id n.name

/-- The error of a node, told with the node. -/
def Node.failure (n : Node) (title : String) (e : Error) : Error :=
  e.withContext (title ++ " failed in " ++ n.type.keyword ++ " node '" ++ n.name ++ "'")

/-- The run once a node is called. -/
def Node.called (p : Phase) (n : Node) (run : Run) : Run :=
  { run with events := n.call p :: run.events }

theorem Node.run_enter {α : Type} (p : Phase) (title : String) (n : Node) (s : Step α) (run : Run) :
    n.enter p title s run =
      ((s (n.called p run)).1.mapError (n.failure title), (s (n.called p run)).2) := by
  rw [enter, Step.run_within]
  rfl

/-- **The calls of nodes so far**, the first one first. -/
def Run.calls (run : Run) : List Event := run.events.reverse.filter Event.isCall

@[simp] theorem Node.calls_called (p : Phase) (n : Node) (run : Run) :
    (n.called p run).calls = run.calls ++ [n.call p] := by
  simp [Run.calls, called, call, Event.isCall]

/-- **What the own work of a node leaves as it is.** -/
structure Frame where
  chosen : NodeTable (List Site)
  current : NodeTable Site
  name : String
  calls : List Event

/-- The frame of a run. -/
def Run.frame (run : Run) : Frame :=
  ⟨run.chosen, run.current, run.configuration.name, run.calls⟩

/-- The name of the configuration and the calls so far. -/
def Run.told (run : Run) : String × List Event := (run.configuration.name, run.calls)

theorem Run.told_of_frame {run run' : Run} (h : run'.frame = run.frame) : run'.told = run.told :=
  congrArg (fun frame => (frame.name, frame.calls)) h

namespace Node

variable {γ : Type} {view : Run → γ} {n : Node} {job : Job}

/-! ### Reading the run -/

theorem keeps_evaluate (v : Scalar) : (job.evaluate n v).Keeps view := by
  unfold Job.evaluate
  refine .bind .get fun run => ?_
  split
  · exact .pure _
  · exact .throw _

theorem keeps_requireSite (r : NodeRef) : (n.requireSite r).Keeps view := by
  unfold requireSite
  exact .bind .get fun run => .orFail n _ _

theorem keeps_requireTarget (keyword : String) (r : Option NodeRef) :
    (n.requireTarget keyword r).Keeps view := by
  cases r with
  | none => exact .fail n _
  | some r => exact .bind (.orFail n _ _) fun id => .pure _

theorem keeps_distanceLimit (keyword : String) (otherwise : Float) :
    (n.distanceLimit job keyword otherwise).Keeps view := by
  unfold distanceLimit
  split
  · exact .ite (keeps_evaluate _) (.pure _)
  · exact .pure _

theorem keeps_criteria : (n.criteria job).Keeps view := by
  have hwindow : ∀ (r : NodeRef) (make : Option (Vec3 Float × Float × Float) → Criteria),
      Step.Keeps view (do
        let site ← n.requireSite r
        let least ← n.distanceLimit job "MinDistance" 0.0
        let greatest ← n.distanceLimit job "MaxDistance" (1.0 / 0.0)
        let window ← pure (some (site.origin, least, greatest))
        return make window) := fun _ _ =>
    .bind (keeps_requireSite _) fun _ => .bind (keeps_distanceLimit _ _) fun _ =>
      .bind (keeps_distanceLimit _ _) fun _ => .bind (.pure _) fun _ => .pure _
  unfold criteria
  refine .bind .get fun run => ?_
  cases n.keywords.node? "SameMoleculeAsSite" with
  | none =>
      refine .bind (.pure _) fun molecule => ?_
      cases n.keywords.node? "ReferenceSite" with
      | none => exact .bind (.pure _) fun _ => .pure _
      | some reference => exact hwindow reference _
  | some r =>
      refine .bind (keeps_requireSite _) fun site => .bind (.pure _) fun molecule => ?_
      cases n.keywords.node? "ReferenceSite" with
      | none => exact .bind (.pure _) fun _ => .pure _
      | some reference => exact hwindow reference _

theorem keeps_selection (blocks : List DynamicSite) : (n.selection job blocks).Keeps view :=
  .bind keeps_criteria fun _ => .bind .get fun _ => .pure _

theorem keeps_origins : n.origins.Keeps view :=
  .mapM (fun _ => .bind (keeps_requireSite _) fun _ => .pure _) _

theorem keeps_standApart : n.standApart.Keeps view :=
  .bind (.mapM (fun _ => .bind (keeps_requireSite _) fun _ => .pure _) _) fun _ => .pure _

theorem keeps_evaluateTriple (keyword : String) : (n.evaluateTriple job keyword).Keeps view := by
  unfold evaluateTriple
  split
  · exact .fail n _
  · exact .bind (keeps_evaluate _) fun _ => .bind (keeps_evaluate _) fun _ =>
      .bind (keeps_evaluate _) fun _ => .pure _

theorem keeps_evaluateScalar (keyword : String) : (n.evaluateScalar job keyword).Keeps view := by
  unfold evaluateScalar
  split
  · exact keeps_evaluate _
  · exact .pure _

theorem keeps_quantity (keyword : String) : (n.quantity keyword).Keeps view :=
  .bind (keeps_requireTarget _ _) fun _ => .bind .get fun _ => .orFail n _ _

theorem keeps_refuse (r : Recorder) (p : Phase) : (n.refuse r p).Keeps view :=
  .ite (.fail n _) (.pure _)

theorem keeps_prepareSource : n.prepareSource.Keeps view := .ite (.fail n _) (.pure _)

theorem keeps_population (keyword : String) (r : NodeRef) :
    (n.population keyword r).Keeps view :=
  .bind (keeps_requireTarget _ _) fun _ => .bind .get fun _ => .ite (.fail n _) (.pure _)

theorem keeps_divideByPopulations (data : Grid Float) :
    (n.divideByPopulations data).Keeps view :=
  .bind (.foldlM (fun _ _ => .bind (keeps_population _ _) fun _ => .pure _) _ _) fun _ =>
    .bind .get fun _ => .foldlM (fun _ _ => .bind (keeps_population _ _) fun _ => .pure _) _ _

theorem keeps_divideByFactor (data : Grid Float) : (n.divideByFactor job data).Keeps view := by
  unfold divideByFactor
  split
  · exact .pure _
  · exact .bind (keeps_evaluate _) fun _ => .ite (.fail n _) (.pure _)

theorem keeps_referenceData : (n.referenceData job).Keeps view := by
  have hhistogram : ∀ run name, (referenceData.histogramData job run name).Keeps view := by
    intro run name
    unfold referenceData.histogramData
    split
    · exact .pure _
    · exact .throw _
  unfold referenceData
  refine .bind (keeps_requireTarget _ _) fun source => .bind .get fun run => ?_
  dsimp only
  split
  · exact .ite (.pure _) (hhistogram _ _)
  · exact hhistogram _ _

theorem keeps_fitProblem : (n.fitProblem job).Keeps view := by
  unfold fitProblem
  refine .bind keeps_referenceData fun data => .ite (.fail_bind n _ _) ?_
  cases n.equation with
  | error e => exact .throw_bind e _
  | ok source =>
      refine .bind (.pure source) fun source => ?_
      dsimp only
      cases job.settings.expression.compile source with
      | error fault => exact .throw_bind _ _
      | ok e => exact .bind (.pure e) fun _ => .bind .get fun _ => .pure _

/-! ### Working on the run -/

theorem keeps_save (file text : String) : (job.save file text).Keeps Run.frame := by
  refine .modify fun run => ?_
  split <;> rfl

theorem keeps_store (key : ResultKey) (item : Item) : Step.Keeps Run.frame
    (modify fun run => { run with results := run.results.insert key item }) :=
  .modify fun _ => rfl

/-- **Measuring** changes nothing but the observables. -/
theorem keeps_measure_of (hview : ∀ (run : Run) observed, view { run with observed } = view run) :
    n.measure.Keeps view := by
  have hpublish : ∀ values, (n.publish values).Keeps view := fun _ => .modify fun _ => hview _ _
  unfold measure
  refine .bind keeps_origins fun points => .bind .get fun run => ?_
  dsimp only
  split
  · exact hpublish _
  · exact hpublish _
  · exact hpublish _
  · exact .pure _

theorem keeps_measure : n.measure.Keeps Run.frame := keeps_measure_of fun _ _ => rfl

/-- **A cell node** changes nothing but the cell. -/
theorem keeps_executeBox_of (hview : ∀ (run : Run) cell,
    view { run with configuration := run.configuration.setCell cell } = view run) :
    (n.executeBox job).Keeps view := by
  unfold executeBox
  refine .bind (keeps_evaluateTriple _) fun lengths =>
    .bind (keeps_evaluateTriple _) fun angles => ?_
  split
  · exact .modify fun _ => hview _ _
  · exact .fail n _
  · exact .fail n _

theorem keeps_executeBox : (n.executeBox job).Keeps Run.frame := keeps_executeBox_of fun _ _ => rfl

theorem keeps_prepareCollect (d : Dimension) : (n.prepareCollect job d).Keeps Run.frame := by
  unfold prepareCollect
  refine .bind (.forIn (fun _ _ => .ite (.bind (.fail n _) fun _ => .pure _) (.pure _)) _ _)
    fun _ => ?_
  refine .get_bind fun run => ?_
  dsimp only
  generalize run.results.realise _ _ = found
  obtain ⟨found, results⟩ := found
  cases found <;> rfl

theorem keeps_prepareFit : n.prepareFit.Keeps Run.frame := by
  unfold prepareFit
  refine .bind (.modify fun _ => rfl) fun _ => .bind keeps_prepareSource fun _ => ?_
  split
  · exact .pure _
  · exact .throw _

theorem keeps_finaliseCollect (d : Dimension) : (n.finaliseCollect job d).Keeps Run.frame := by
  refine .get_bind fun run => ?_
  cases run.results.histogram (n.binsKey job run) d.toNat with
  | error e => rfl
  | ok h =>
      dsimp only
      cases h.endPass job.pool <;> rfl

theorem keeps_finaliseProcess (d : Dimension) : (n.finaliseProcess job d).Keeps Run.frame := by
  unfold finaliseProcess
  refine .bind (keeps_requireTarget _ _) fun source => .bind .get fun run => ?_
  dsimp only
  cases run.results.histogram (job.key (binsName (run.dataName source.1.name))) d.toNat with
  | error e => exact .throw_bind e _
  | ok h =>
      refine .bind (.pure h) fun h => .bind (keeps_divideByPopulations _) fun data =>
        .bind (keeps_divideByFactor _) fun data => ?_
      exact .ite (.bind (keeps_save _ _) fun _ => keeps_store _ _) (keeps_store _ _)

theorem keeps_finaliseFit : (n.finaliseFit job).Keeps Run.frame := by
  unfold finaliseFit
  refine .bind keeps_fitProblem fun problem => ?_
  dsimp only
  cases n.minimiser.minimise job.settings.minimiser problem.cost n.startingValues with
  | error e => exact .throw_bind e _
  | ok found =>
      refine .bind (.pure found) fun found => .ite ?_ ?_
      · split
        · exact .fail_bind n _ _
        · exact .fail_bind n _ _
      · refine .bind .get fun run => ?_
        cases problem.curve found.best.point with
        | error fault => exact .throw_bind _ _
        | ok curve =>
            refine .bind (.pure _) fun curve => .bind (.modify fun _ => rfl) fun _ => ?_
            exact .ite (.bind (keeps_save _ _) fun _ => keeps_store _ _) (keeps_store _ _)

/-- **Preparing** makes no calls and leaves the name of the configuration. -/
theorem keeps_prepare : (n.prepare job).Keeps Run.told := by
  unfold prepare
  split
  · unfold prepareSelect
    exact .ite (.fail_bind n _ _) (.modify fun _ => rfl)
  · exact fun run => Run.told_of_frame (keeps_prepareCollect _ run)
  · exact keeps_prepareSource
  · exact fun run => Run.told_of_frame (keeps_prepareFit run)
  · exact keeps_refuse _ _
  · exact .pure _

/-- **Finalising** keeps the frame. -/
theorem keeps_finalise : (n.finalise job).Keeps Run.frame := by
  unfold finalise
  split
  · exact keeps_finaliseCollect _
  · exact keeps_finaliseProcess _
  · exact keeps_finaliseFit
  · exact keeps_refuse _ _
  · exact .pure _

end Node

/-- The cube of side one. -/
def Cell.unitCube : Cell Float :=
  ⟨⟨1, 1, 1⟩, ⟨90, 90, 90⟩, ⟨1, 0, 0⟩, ⟨0, 1, 0⟩, ⟨0, 0, 1⟩, ⟨1, 0, 0⟩, ⟨0, 1, 0⟩, ⟨0, 0, 1⟩, 1,
    true⟩

end SiteAnalysis
