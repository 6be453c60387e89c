import SiteAnalysis.Proofs.Run.Frames

set_option autoImplicit false

/-! # Passes through branches

A node that executes does some work of its own, then runs its branch once for each of some passes,
and then ends (`Plan`). What the branch declines is nothing to the node, and an error of the branch
is an error of the node. Main statements:

* `Node.execute_eq`: this is how every node executes.
* `Node.plans`: only selections set up their passes, one for every site they chose.
-/

namespace SiteAnalysis

/-- **How a node goes about its branch**: what it sets up before each pass, and how it ends once all
passes came out. -/
structure Plan where
  passes : List (Run → Run)
  finish : List Outcome → Step Outcome

namespace Plan

/-- A node that runs no branch. -/
def leaf (outcome : Outcome) : Plan := ⟨[], fun _ => return outcome⟩

/-- A node that runs its branch once or not at all. -/
def once (runs : Bool) : Plan := ⟨if runs then [fun run => run] else [], fun _ => return .success⟩

end Plan

/-- **Passes through a branch**, one after the other. -/
def Step.runPasses (branch : Step Outcome) (passes : List (Run → Run)) : Step (List Outcome) :=
  passes.mapM fun enter => do
    modify enter
    branch

namespace Step

variable {branch : Step Outcome}

@[simp] theorem runPasses_nil : branch.runPasses [] = pure [] := rfl

theorem runPasses_cons (enter : Run → Run) (passes : List (Run → Run)) :
    branch.runPasses (enter :: passes) = (do
      modify enter
      let outcome ← branch
      let outcomes ← branch.runPasses passes
      return outcome :: outcomes) := by
  simp only [runPasses, List.mapM_cons, bind_assoc]

/-- A pass that sets up nothing. -/
theorem runPasses_plain : branch.runPasses [fun run => run] = (do return [← branch]) := by
  have hmodify : (modify fun run => run : Step Unit) = pure () := rfl
  simp only [runPasses_cons, hmodify, runPasses_nil, pure_bind]

theorem discard_eq (s : Step Outcome) : (discard s : Step Unit) = (do let _ ← s; return ()) := rfl

/-- Passing through a list for its effects alone. -/
theorem forIn_passes {α β : Type} (l : List α) (enter : α → Run → Run) (next : PUnit → Step β) :
    (forIn l PUnit.unit (fun a _ => do
      modify (enter a)
      discard branch
      return ForInStep.yield PUnit.unit) >>= next) =
    branch.runPasses (l.map enter) >>= fun _ => next PUnit.unit := by
  induction l with
  | nil => rfl
  | cons a l ih =>
      simp only [discard_eq, bind_assoc, pure_bind] at ih
      simp only [List.forIn_cons, List.map_cons, runPasses_cons, discard_eq, bind_assoc, pure_bind,
        ih]

end Step

namespace Node

/-- Puts a selection at a site. -/
def stand (n : Node) (site : Site) (run : Run) : Run :=
  { run with current := run.current.set n.id site }

/-- Counts the present observables; the answer says whether they lie on the axes. -/
def binPresent (n : Node) (job : Job) (d : Dimension) : Step Bool := do
  let values ← d.axisNames.mapM fun a => n.quantity ("Quantity" ++ a)
  let key := n.binsKey job (← get)
  let binned ← match (← get).results.histogram key d.toNat with
    | .ok h => pure (Histogram.place h.axes values).isSome
    | .error e => throw e
  modify fun run => { run with results := run.results.mapHistogram key fun h => (h.bin values).2 }
  return binned

/-- Whether a value lies within limits. -/
def liesInRange (n : Node) (job : Job) : Step Bool := do
  let value ← n.evaluateScalar job "Value"
  let least ← n.evaluateScalar job "Min"
  let greatest ← n.evaluateScalar job "Max"
  return !(value < least || greatest < value)

/-- A selection goes through the sites it chose, and stands nowhere in the end. -/
def passOver (n : Node) (sites : List Site) : Plan where
  passes := sites.map n.stand
  finish := fun _ => do
    modify fun run => { run with current := run.current.erase n.id }
    return .success

/-- A recorder declines, or runs its branch and notes whether that declined. -/
def record (n : Node) (r : Recorder) : Plan :=
  if r.declines then .leaf .declined
  else ⟨[fun run => run], fun outcomes => do
    if outcomes = [.declined] then Step.note (.declined n.id n.name)
    return .success⟩

/-- **What a node does by itself** before its branch runs, and what it then goes about. -/
def plan (n : Node) (job : Job) : Step Plan :=
  match n.kind with
  | .select blocks _ => do
    let sites ← n.selection job blocks
    modify fun run => { run with
      chosen := run.chosen.set n.id sites
      counts := run.counts.set n.id ((run.count n.id).record sites.length) }
    return n.passOver sites
  | .exclude => do return .leaf (if ← n.standApart then .success else .declined)
  | .distance | .angle | .vector => do n.measure; return .leaf .success
  | .collect d => do return .once (← n.binPresent job d)
  | .box => do n.executeBox job; return .leaf .success
  | .ifInRange => do return .once (← n.liesInRange job)
  | .recorder r => do
    n.refuse r .execute
    return n.record r
  | _ => return .leaf .success

/-- A branch that may run once. -/
theorem once_eq (branch : Step Outcome) (runs : Bool) :
    ((if runs then discard branch else pure ()) >>= fun _ => pure Outcome.success) =
      branch.runPasses (Plan.once runs).passes >>= (Plan.once runs).finish := by
  cases runs with
  | false => rfl
  | true =>
      simp only [Plan.once, Step.runPasses_plain, Step.discard_eq, if_true, bind_assoc, pure_bind]

/-- **How nodes execute**: after some work of their own they run their branch, once for each pass,
and then they end. -/
theorem execute_eq (n : Node) (job : Job) (branch : Step Outcome) :
    n.execute job branch = (do
      let plan ← n.plan job
      plan.finish (← branch.runPasses plan.passes)) := by
  unfold execute plan
  -- Most kinds have no branch to run; a selection passes once for each site, the rest at most once.
  cases n.kind with
  | select blocks sites =>
      simp only [executeSelect, bind_assoc, pure_bind]
      exact bind_congr fun sites => bind_congr fun _ => Step.forIn_passes sites n.stand _
  | exclude => simp only [Plan.leaf, Step.runPasses_nil, bind_assoc, pure_bind]
  | ifInRange =>
      simp only [executeIfInRange, liesInRange, bind_assoc, pure_bind, ← once_eq]
      refine bind_congr fun value => bind_congr fun least => bind_congr fun greatest => ?_
      cases decide (value < least) || decide (greatest < value) <;> rfl
  | collect d =>
      simp only [executeCollect, binPresent, bind_assoc, pure_bind, ← once_eq]
      refine bind_congr fun values => bind_congr fun before => bind_congr fun run => ?_
      cases run.results.histogram (n.binsKey job before) d.toNat with
      | ok h => simp only [bind_assoc, pure_bind]
      | error e => rfl
  | recorder r =>
      simp only [executeRecorder, bind_assoc, pure_bind]
      refine bind_congr fun _ => ?_
      unfold record
      cases r.declines with
      | true => rfl
      | false => simp [Step.runPasses_plain]
  | _ => simp only [Plan.leaf, Step.runPasses_nil, bind_assoc, pure_bind]

/-! ## What nodes go about -/

/-- **How often a node may run its branch** in one execution: a selection once for every site it
chose, and others once at most if they own a branch. -/
def AllowsPasses (n : Node) (passes : Nat) : Prop :=
  match n.kind with
  | .select _ _ => True
  | .collect _ | .ifInRange | .recorder _ => passes ≤ 1
  | _ => passes = 0

/-- **Whether a node may decline** and so end the list it stands in. -/
def MayDecline (n : Node) : Prop :=
  match n.kind with
  | .exclude => True
  | .recorder r => r.declines = true
  | _ => False

end Node

/-- **A plan that changes nothing around the branch**, and cannot fail behind it. -/
structure Plan.IsPlain (n : Node) (plan : Plan) : Prop where
  passes : ∀ enter ∈ plan.passes, enter = fun run => run
  allowed : n.AllowsPasses plan.passes.length
  finish : ∀ outcomes run, ∃ outcome run', plan.finish outcomes run = (.ok outcome, run') ∧
    run'.frame = run.frame ∧ (outcome = .declined → n.MayDecline ∧ plan.passes = [])

namespace Node

variable {n : Node}

/-- **What the own work of a node comes to**, and what it leaves of the run. -/
inductive Plans (n : Node) (run : Run) : Except Error Plan × Run → Prop
  | fails {e : Error} {run' : Run} (hframe : run'.frame = run.frame) : Plans n run (.error e, run')
  | selects {sites : List Site} {run' : Run}
      (hkind : ∃ blocks chosen, n.kind = .select blocks chosen)
      (hframe : run'.frame = { run.frame with chosen := run.frame.chosen.set n.id sites }) :
      Plans n run (.ok (n.passOver sites), run')
  | plain {plan : Plan} {run' : Run} (htype : n.type ≠ .select) (hplan : plan.IsPlain n)
      (hframe : run'.frame = run.frame) : Plans n run (.ok plan, run')

theorem Plans.of_keeps {α : Type} {s : Step α} {plan : α → Plan} (run : Run)
    (htype : n.type ≠ .select) (hs : s.Keeps Run.frame) (hplan : ∀ a, (plan a).IsPlain n) :
    n.Plans run ((do return plan (← s) : Step Plan) run) := by
  have hframe := hs run
  rw [Step.run_bind]
  cases hrun : s run with
  | mk r run' =>
      rw [hrun] at hframe
      cases r with
      | ok a => exact .plain htype (hplan a) hframe
      | error e => exact .fails hframe

/-- **Counting observables** changes nothing but the results. -/
theorem keeps_binPresent_of {γ : Type} {view : Run → γ}
    (hview : ∀ (run : Run) results, view { run with results } = view run) (job : Job)
    (d : Dimension) : (n.binPresent job d).Keeps view := by
  unfold binPresent
  refine .bind (.mapM (fun _ => keeps_quantity _) _) fun values => .bind .get fun before =>
    .bind .get fun run => ?_
  cases run.results.histogram (n.binsKey job before) d.toNat with
  | ok h => exact .bind (.pure _) fun _ => .bind (.modify fun _ => hview _ _) fun _ => .pure _
  | error e => exact .throw_bind e _

theorem keeps_binPresent (job : Job) (d : Dimension) : (n.binPresent job d).Keeps Run.frame :=
  keeps_binPresent_of (fun _ _ => rfl) job d

theorem keeps_liesInRange {γ : Type} {view : Run → γ} (job : Job) :
    (n.liesInRange job).Keeps view :=
  .bind (keeps_evaluateScalar _) fun _ => .bind (keeps_evaluateScalar _) fun _ =>
    .bind (keeps_evaluateScalar _) fun _ => .pure _

/-- A node without passes declines only if it may. -/
theorem isPlain_leaf {outcome : Outcome} (h : n.AllowsPasses 0)
    (hdeclines : outcome = .declined → n.MayDecline) : (Plan.leaf outcome).IsPlain n where
  passes := nofun
  allowed := h
  finish := fun _ run => ⟨outcome, run, rfl, rfl, fun heq => ⟨hdeclines heq, rfl⟩⟩

theorem isPlain_once {runs : Bool} (h : ∀ k ≤ 1, n.AllowsPasses k) :
    (Plan.once runs).IsPlain n where
  passes := by cases runs <;> simp [Plan.once]
  allowed := h _ (by cases runs <;> simp [Plan.once])
  finish := fun _ run => ⟨.success, run, rfl, rfl, nofun⟩

/-- That a branch declined is no call. -/
theorem frame_declined (n : Node) (run : Run) :
    Run.frame { run with events := .declined n.id n.name :: run.events } = run.frame := by
  simp [Run.frame, Run.calls, Event.isCall]

theorem isPlain_record {r : Recorder} (h : n.kind = .recorder r) : (n.record r).IsPlain n := by
  unfold record
  cases hdeclines : r.declines with
  | true =>
      exact isPlain_leaf (by simp [AllowsPasses, h]) fun _ => by simp [MayDecline, h, hdeclines]
  | false =>
      refine ⟨by simp, by simp [AllowsPasses, h], fun outcomes run => ⟨.success, ?_⟩⟩
      by_cases houtcomes : outcomes = [.declined]
      · subst houtcomes
        exact ⟨_, rfl, frame_declined n run, nofun⟩
      · exact ⟨run, by simp [houtcomes], rfl, nofun⟩

/-- **Only selections change the frame**: they choose sites, go through them and stand nowhere in
the end. -/
theorem plans (n : Node) (job : Job) (run : Run) : n.Plans run (n.plan job run) := by
  -- A node that owns no branch does its work and is done.
  have hleaf : ∀ s : Step Unit, n.type ≠ .select → n.AllowsPasses 0 → s.Keeps Run.frame →
      n.Plans run ((do s; return .leaf .success : Step Plan) run) := fun s htype hpasses hs =>
    .of_keeps run htype hs fun _ => isPlain_leaf hpasses nofun
  unfold plan
  cases hkind : n.kind with
  | select blocks chosen =>
      have hkeeps : (n.selection job blocks).Keeps Run.frame := keeps_selection blocks
      have hframe := hkeeps run
      dsimp only
      rw [Step.run_bind]
      cases hrun : n.selection job blocks run with
      | mk r run' =>
          rw [hrun] at hframe
          cases r with
          | error e => exact .fails hframe
          | ok sites =>
              refine .selects ⟨_, _, hkind⟩ ?_
              rw [← hframe]
              rfl
  | exclude =>
      refine .of_keeps run (by simp [type, NodeKind.type, hkind]) keeps_standApart fun b =>
        isPlain_leaf (by simp [AllowsPasses, hkind]) fun _ => by simp [MayDecline, hkind]
  | collect d =>
      exact .of_keeps run (by simp [type, NodeKind.type, hkind]) (keeps_binPresent job d) fun _ =>
        isPlain_once fun k hk => by simpa [AllowsPasses, hkind] using hk
  | ifInRange =>
      exact .of_keeps run (by simp [type, NodeKind.type, hkind]) (keeps_liesInRange job) fun _ =>
        isPlain_once fun k hk => by simpa [AllowsPasses, hkind] using hk
  | recorder r =>
      exact .of_keeps run (by simp [type, NodeKind.type, hkind]) (keeps_refuse r .execute) fun _ =>
        isPlain_record hkind
  | distance | angle | vector =>
      exact hleaf _ (by simp [type, NodeKind.type, hkind]) (by simp [AllowsPasses, hkind])
        keeps_measure
  | box =>
      exact hleaf _ (by simp [type, NodeKind.type, hkind]) (by simp [AllowsPasses, hkind])
        keeps_executeBox
  | _ =>
      exact hleaf (pure ()) (by simp [type, NodeKind.type, hkind]) (by simp [AllowsPasses, hkind])
        (.pure ())

/-- What a node does by itself makes no calls. -/
theorem keeps_plan (n : Node) (job : Job) : (n.plan job).Keeps Run.told := by
  intro run
  have hplans := n.plans job run
  generalize n.plan job run = planned at hplans ⊢
  cases hplans with
  | fails hframe => exact Run.told_of_frame hframe
  | selects hkind hframe => exact congrArg (fun frame => (frame.name, frame.calls)) hframe
  | plain htype hplan hframe => exact Run.told_of_frame hframe

/-- **What all plans of a node have in common**: only their branch makes calls, and they end
well. -/
structure Suits (n : Node) (plan : Plan) : Prop where
  enters : ∀ enter ∈ plan.passes, ∀ run, (enter run).told = run.told
  allowed : n.AllowsPasses plan.passes.length
  finish : ∀ outcomes run, ∃ outcome run', plan.finish outcomes run = (.ok outcome, run') ∧
    run'.told = run.told ∧ (outcome = .declined → n.MayDecline ∧ plan.passes = [])

theorem suits_of_plan {job : Job} {run : Run} {plan : Plan} (h : (n.plan job run).1 = .ok plan) :
    n.Suits plan := by
  have hplans := n.plans job run
  generalize n.plan job run = planned at hplans h
  cases hplans with
  | fails hframe => cases h
  | selects hkind hframe =>
      obtain ⟨blocks, chosen, hkind⟩ := hkind
      obtain rfl := Except.ok.inj h
      refine ⟨fun enter henter run => ?_, by simp [AllowsPasses, hkind], fun outcomes run =>
        ⟨.success, _, rfl, rfl, nofun⟩⟩
      obtain ⟨site, -, rfl⟩ := List.mem_map.1 henter
      rfl
  | plain htype hplan hframe =>
      obtain rfl := Except.ok.inj h
      refine ⟨fun enter henter run => by rw [hplan.passes enter henter], hplan.allowed,
        fun outcomes run => ?_⟩
      obtain ⟨outcome, run', hfinish, hframe, hdeclines⟩ := hplan.finish outcomes run
      exact ⟨outcome, run', hfinish, Run.told_of_frame hframe, hdeclines⟩

end Node

end SiteAnalysis
