import SiteAnalysis.Proofs.Run.Passes
import SiteAnalysis.Proofs.Tree.Visibility

set_option autoImplicit false

/-! # Where selections stand

While a node executes, the selections that stand at a site are those in whose branches it is. Nodes
are followed through a run by their visits: the calls to execute with the run at the call. Main
statements:

* `Forest.visits_noted`: the visits are the calls that a run notes, each in the very run it shows.
* `Forest.standing_eq_enclosing`: where selections stand at every visit, and in the end.
-/

namespace SiteAnalysis

/-! ## Visits -/

/-- **A call of a node to execute**, and the run at the call. -/
structure Visit where
  place : Placed
  run : Run

/-- The runs in which the passes through a branch start. -/
def Step.starts (branch : Step Outcome) : List (Run → Run) → Run → List Run
  | [], _ => []
  | enter :: passes, run => enter run ::
    match branch (enter run) with
    | (.ok _, run) => branch.starts passes run
    | (.error _, _) => []

/-- **The runs in which a node starts its branch.** -/
def Node.branchStarts (n : Node) (job : Job) (branch : Step Outcome) (run : Run) : List Run :=
  match n.plan job run with
  | (.ok plan, run) => branch.starts plan.passes run
  | (.error _, _) => []

/-- **The visits of the nodes of a list** that is executed in a run, in order. -/
def Forest.visits (job : Job) (owners : List NodeId) : Forest → Run → List Visit
  | nil, _ => []
  | cons n branch rest, run =>
    let called := n.called .execute run
    ⟨⟨n, owners⟩, called⟩ ::
      ((n.branchStarts job (branch.execute job) called).flatMap
          (branch.visits job (n.id :: owners)) ++
        match n.execute job (branch.execute job) called with
        | (.ok .success, run) => rest.visits job owners run
        | _ => [])

/-- **The calls are noted in the runs of the visits**: each visit shows one call more than the
visit before, its own. -/
inductive Noted : List Event → List Visit → List Event → Prop
  | nil {calls : List Event} : Noted calls [] calls
  | cons {calls last : List Event} {v : Visit} {rest : List Visit}
      (hcall : v.run.calls = calls ++ [v.place.node.call .execute])
      (hrest : Noted v.run.calls rest last) : Noted calls (v :: rest) last

/-- **What is said of items from one state to another**, if it holds of no items and of items behind
one another. -/
structure Chains {γ β : Type} (R : γ → List β → γ → Prop) : Prop where
  nil : ∀ c, R c [] c
  append : ∀ {first between last items others}, R first items between → R between others last →
    R first (items ++ others) last

namespace Noted

variable {calls between last : List Event} {vs ws : List Visit}

theorem append (h : Noted calls vs between) (h' : Noted between ws last) :
    Noted calls (vs ++ ws) last := by
  induction h with
  | nil => exact h'
  | cons hcall hrest ih => exact .cons hcall (ih h')

end Noted

theorem Noted.chains : Chains Noted := ⟨fun _ => .nil, fun h h' => h.append h'⟩

section Passes

variable {branch : Step Outcome} {passes : List (Run → Run)}

theorem Step.runPasses_cons_run (enter : Run → Run) (passes : List (Run → Run)) (run : Run) :
    branch.runPasses (enter :: passes) run =
      match branch (enter run) with
      | (.ok outcome, run) =>
        ((branch.runPasses passes run).1.map (outcome :: ·), (branch.runPasses passes run).2)
      | (.error e, run) => (.error e, run) := by
  rw [runPasses_cons, Step.run_bind]
  change ((branch >>= fun outcome => _) (enter run)) = _
  rw [Step.run_bind]
  cases branch (enter run) with
  | mk r run' =>
      cases r with
      | error e => rfl
      | ok outcome =>
          dsimp only
          rw [Step.run_bind]
          cases branch.runPasses passes run' with
          | mk r run' => cases r <;> rfl

/-- Passes chain what the branch does, if entering them does not show. -/
theorem Chains.of_passes {γ β : Type} {R : γ → List β → γ → Prop} (hR : Chains R) {view : Run → γ}
    {items : Run → List β} (hbranch : ∀ run, R (view run) (items run) (view (branch run).2))
    (henters : ∀ enter ∈ passes, ∀ run, view (enter run) = view run) (run : Run) :
    R (view run) ((branch.starts passes run).flatMap items)
      (view (branch.runPasses passes run).2) := by
  induction passes generalizing run with
  | nil => exact hR.nil _
  | cons enter passes ih =>
      have hfirst := hbranch (enter run)
      rw [henters enter List.mem_cons_self run] at hfirst
      rw [Step.runPasses_cons_run, Step.starts, List.flatMap_cons]
      cases hrun : branch (enter run) with
      | mk r run' =>
          rw [hrun] at hfirst
          cases r with
          | error e => simpa using hfirst
          | ok outcome =>
              exact hR.append hfirst (ih (fun e he => henters e (List.mem_cons_of_mem _ he)) run')

/-- **Passes keep what each of them keeps**, and start where it holds. -/
theorem Step.passes_invariant {Inv : Run → Prop}
    (hpass : ∀ enter ∈ passes, ∀ run, Inv run → ∀ outcome run',
      branch (enter run) = (.ok outcome, run') → Inv run') {run : Run} (h : Inv run) :
    (∀ start ∈ branch.starts passes run, ∃ enter ∈ passes, ∃ run, Inv run ∧ start = enter run) ∧
    ∀ outcomes run', branch.runPasses passes run = (.ok outcomes, run') → Inv run' := by
  induction passes generalizing run with
  | nil =>
      refine ⟨nofun, fun outcomes run' hrun => ?_⟩
      cases hrun
      exact h
  | cons enter passes ih =>
      rw [starts, runPasses_cons_run]
      cases hrun : branch (enter run) with
      | mk r run₁ =>
          cases r with
          | error e =>
              refine ⟨fun start hstart => ?_, nofun⟩
              rw [List.mem_singleton.1 hstart]
              exact ⟨enter, List.mem_cons_self, run, h, rfl⟩
          | ok outcome =>
              obtain ⟨hstarts, hdone⟩ := ih (fun e he => hpass e (List.mem_cons_of_mem _ he))
                (hpass enter List.mem_cons_self run h outcome run₁ hrun)
              -- The pass just made starts where the invariant held before it.
              refine ⟨fun start hstart => ?_, fun outcomes run' hrun' => ?_⟩
              · rcases List.mem_cons.1 hstart with rfl | hstart
                · exact ⟨enter, List.mem_cons_self, run, h, rfl⟩
                · obtain ⟨e, he, hrest⟩ := hstarts start hstart
                  exact ⟨e, List.mem_cons_of_mem _ he, hrest⟩
              · dsimp only at hrun'
                cases hrest : branch.runPasses passes run₁ with
                | mk r run₂ =>
                    rw [hrest] at hrun'
                    cases r with
                    | error e => cases hrun'
                    | ok rest =>
                        cases hrun'
                        exact hdone rest run₂ hrest

end Passes

/-! ## Calls and visits -/

/-- **A plan leaves a view to the branch**: nothing else it does shows. -/
structure Plan.Spares {γ : Type} (view : Run → γ) (plan : Plan) : Prop where
  enters : ∀ enter ∈ plan.passes, ∀ run, view (enter run) = view run
  finish : ∀ outcomes, (plan.finish outcomes).Keeps view

/-- **A view does not show passes**: neither where selections stand nor what happened. -/
structure Run.IgnoresPasses {γ : Type} (view : Run → γ) : Prop where
  current : ∀ (run : Run) current, view { run with current } = view run
  events : ∀ (run : Run) events, view { run with events } = view run

namespace Plan

variable {γ : Type} {view : Run → γ}

theorem spares_leaf (outcome : Outcome) : (leaf outcome).Spares view := ⟨nofun, fun _ => .pure _⟩

theorem spares_once (runs : Bool) : (once runs).Spares view where
  enters := by cases runs <;> simp [once]
  finish := fun _ => .pure _

end Plan

namespace Node

section Spares

variable {γ : Type} {view : Run → γ} (hview : Run.IgnoresPasses view)
include hview

theorem spares_passOver (n : Node) (sites : List Site) : (n.passOver sites).Spares view where
  enters := by
    intro enter henter run
    obtain ⟨site, -, rfl⟩ := List.mem_map.1 henter
    exact hview.current run _
  finish := fun _ => .bind (.modify fun run => hview.current run _) fun _ => .pure _

theorem spares_record (n : Node) (r : Recorder) : (n.record r).Spares view := by
  unfold record
  split
  · exact Plan.spares_leaf _
  · exact ⟨by simp, fun _ => .ite (.bind (.modify fun run => hview.events run _) fun _ => .pure _)
      (.pure _)⟩

/-- **Plans leave a view to the branch** if it does not show passes. -/
theorem spares_of_plan {n : Node} {job : Job} {run run' : Run} {plan : Plan}
    (h : n.plan job run = (.ok plan, run')) : plan.Spares view := by
  -- What a node does by itself decides between plans of one form.
  have hform : ∀ {α : Type} {s : Step α} {make : α → Plan}, (∀ a, (make a).Spares view) →
      (s >>= fun a => Pure.pure (make a)) run = (.ok plan, run') → plan.Spares view := by
    intro α s make hmake hrun
    obtain ⟨a, _, -, hlast⟩ := Step.bind_eq_ok_iff.1 hrun
    cases hlast
    exact hmake a
  rw [Node.plan] at h
  cases hkind : n.kind with
  | select blocks chosen =>
      rw [hkind] at h
      obtain ⟨sites, _, -, hlast⟩ := Step.bind_eq_ok_iff.1 h
      obtain ⟨_, _, -, hlast⟩ := Step.bind_eq_ok_iff.1 hlast
      cases hlast
      exact spares_passOver hview n sites
  | exclude | distance | angle | vector | box =>
      rw [hkind] at h
      exact hform (fun _ => Plan.spares_leaf _) h
  | collect d | ifInRange =>
      rw [hkind] at h
      exact hform (fun _ => Plan.spares_once _) h
  | recorder r =>
      rw [hkind] at h
      exact hform (fun _ => spares_record hview n r) h
  | _ =>
      rw [hkind] at h
      cases h
      exact Plan.spares_leaf _

end Spares

variable {n : Node} {job : Job} {branch : Step Outcome}

theorem execute_run (n : Node) (job : Job) (branch : Step Outcome) (run : Run) :
    n.execute job branch run = match n.plan job run with
      | (.ok plan, run) => match branch.runPasses plan.passes run with
        | (.ok outcomes, run) => plan.finish outcomes run
        | (.error e, run) => (.error e, run)
      | (.error e, run) => (.error e, run) := by
  rw [execute_eq, Step.run_bind]
  cases n.plan job run with
  | mk r run' =>
      cases r with
      | error e => rfl
      | ok plan =>
          dsimp only
          rw [Step.run_bind]
          cases branch.runPasses plan.passes run' with
          | mk r run' => cases r <;> rfl

/-- A node chains what its branch does, behind its own work, if nothing else of its plan shows. -/
theorem execute_chains {γ β : Type} {R : γ → List β → γ → Prop} (hR : Chains R) {view : Run → γ}
    (n : Node) (job : Job) {items : Run → List β}
    (hplan : ∀ run run' plan, n.plan job run = (.ok plan, run') → plan.Spares view)
    (hbranch : ∀ run, R (view run) (items run) (view (branch run).2)) (run : Run) :
    R (view (n.plan job run).2) ((n.branchStarts job branch run).flatMap items)
      (view (n.execute job branch run).2) := by
  rw [execute_run, branchStarts]
  -- A node that fails in its own work never starts its branch.
  cases hown : n.plan job run with
  | mk r run₁ =>
      cases r with
      | error e => exact hR.nil _
      | ok plan =>
          have hspares := hplan run run₁ plan hown
          have hpasses := hR.of_passes hbranch hspares.enters run₁
          dsimp only
          cases hrun : branch.runPasses plan.passes run₁ with
          | mk r run₂ =>
              rw [hrun] at hpasses
              cases r with
              | error e => exact hpasses
              | ok outcomes =>
                  dsimp only
                  rw [hspares.finish outcomes run₂]
                  exact hpasses

end Node

namespace Forest

theorem execute_cons (job : Job) (n : Node) (branch rest : Forest) (run : Run) :
    (cons n branch rest).execute job run =
      match n.execute job (branch.execute job) (n.called .execute run) with
      | (.ok .success, run) => rest.execute job run
      | (.ok .declined, run) => (.ok .declined, run)
      | (.error e, run) => (.error (n.failure "Execute" e), run) := by
  rw [execute, Step.run_bind, Node.run_enter]
  cases n.execute job (branch.execute job) (n.called .execute run) with
  | mk r run' =>
      cases r with
      | error e => rfl
      | ok outcome => cases outcome <;> rfl

/-- **Executions chain what their visits show**, if a node shows one item for its own work and
nothing else of its plan shows. -/
theorem visits_chain {γ β : Type} {R : γ → List β → γ → Prop} (hR : Chains R) {view : Run → γ}
    (job : Job) (item : Visit → β)
    (hplan : ∀ (n : Node) run run' plan, n.plan job run = (.ok plan, run') → plan.Spares view)
    (hown : ∀ (n : Node) owners run, R (view run) [item ⟨⟨n, owners⟩, n.called .execute run⟩]
      (view (n.plan job (n.called .execute run)).2))
    (f : Forest) (owners : List NodeId) (run : Run) :
    R (view run) ((f.visits job owners run).map item) (view (f.execute job run).2) := by
  induction f generalizing owners run with
  | nil => exact hR.nil _
  | cons n branch rest ihb ihr =>
      have hnode := hR.append (hown n owners run)
        (n.execute_chains hR job (hplan n) (ihb (n.id :: owners)) (n.called .execute run))
      rw [visits, execute_cons, List.map_cons, List.map_append, List.map_flatMap]
      cases hrun : n.execute job (branch.execute job) (n.called .execute run) with
      | mk r run' =>
          rw [hrun] at hnode
          cases r with
          | error e => simpa using hnode
          | ok outcome =>
              cases outcome with
              | declined => simpa using hnode
              | success => exact hR.append hnode (ihr owners run')

/-- **Visits are calls.** The calls that an execution notes are its visits, each noted in the run
that the visit shows. -/
theorem visits_noted (job : Job) (f : Forest) (owners : List NodeId) (run : Run) :
    Noted run.calls (f.visits job owners run) (f.execute job run).2.calls := by
  have hplan : ∀ (n : Node) run run' plan, n.plan job run = (.ok plan, run') →
      plan.Spares Run.calls := by
    intro n run run' plan h
    have hsuits : n.Suits plan := Node.suits_of_plan (congrArg Prod.fst h)
    refine ⟨fun enter henter run => (Prod.mk.inj (hsuits.enters enter henter run)).2,
      fun outcomes run => ?_⟩
    obtain ⟨outcome, run', hfinish, htold, -⟩ := hsuits.finish outcomes run
    rw [hfinish]
    exact (Prod.mk.inj htold).2
  have hown : ∀ (n : Node) (owners : List NodeId) run,
      Noted run.calls [⟨⟨n, owners⟩, n.called .execute run⟩]
        (n.plan job (n.called .execute run)).2.calls := by
    intro n owners run
    rw [(Prod.mk.inj (n.keeps_plan job (n.called .execute run))).2]
    exact .cons (Node.calls_called _ n run) .nil
  simpa using visits_chain Noted.chains job id hplan hown f owners run

end Forest

/-! ## What an execution leaves -/

/-- **Two runs agree** on where selections stand and on what they chose, but for some. -/
structure Run.AgreesOff (standing chosen : List NodeId) (run run' : Run) : Prop where
  current : ∀ id ∉ standing, run'.current.find? id = run.current.find? id
  chosen : ∀ id ∉ chosen, run'.chosen.find? id = run.chosen.find? id

namespace Run.AgreesOff

variable {standing chosen standing' chosen' : List NodeId} {run run' run'' : Run}

theorem refl (run : Run) : run.AgreesOff standing chosen run := ⟨fun _ _ => rfl, fun _ _ => rfl⟩

theorem trans (h : run.AgreesOff standing chosen run') (h' : run'.AgreesOff standing chosen run'') :
    run.AgreesOff standing chosen run'' :=
  ⟨fun id hid => (h'.current id hid).trans (h.current id hid),
    fun id hid => (h'.chosen id hid).trans (h.chosen id hid)⟩

theorem mono (h : run.AgreesOff standing chosen run') (hstanding : standing ⊆ standing')
    (hchosen : chosen ⊆ chosen') : run.AgreesOff standing' chosen' run' :=
  ⟨fun id hid => h.current id (mt (@hstanding id) hid),
    fun id hid => h.chosen id (mt (@hchosen id) hid)⟩

theorem called (p : Phase) (n : Node) (run : Run) :
    run.AgreesOff standing chosen (n.called p run) := ⟨fun _ _ => rfl, fun _ _ => rfl⟩

theorem of_frame (h : run'.frame = run.frame) : run.AgreesOff standing chosen run' :=
  ⟨fun id _ => congrArg (fun frame => frame.current.find? id) h,
    fun id _ => congrArg (fun frame => frame.chosen.find? id) h⟩

end Run.AgreesOff

/-- **A step gives places back.** If the selections among some nodes stand nowhere before, then all
selections stand as before if it succeeds, and only those have chosen anew. -/
def Step.GivesBack (ids : List NodeId) (s : Step Outcome) : Prop :=
  ∀ run outcome run', (∀ id ∈ ids, run.current.find? id = none) → s run = (.ok outcome, run') →
    run.AgreesOff [] ids run'

/-- Passes give back what the branch does, and touch what entering them touches. -/
theorem Step.GivesBack.passes {branch : Step Outcome} {ids touched : List NodeId}
    (hbranch : branch.GivesBack ids) (hdisjoint : ∀ id ∈ ids, id ∉ touched)
    {passes : List (Run → Run)}
    (henter : ∀ enter ∈ passes, ∀ run : Run, run.AgreesOff touched [] (enter run)) {run : Run}
    (hclear : ∀ id ∈ ids, run.current.find? id = none) :
    (∀ start ∈ branch.starts passes run,
      ∃ enter ∈ passes, ∃ run', run.AgreesOff touched ids run' ∧ start = enter run') ∧
    ∀ outcomes run', branch.runPasses passes run = (.ok outcomes, run') →
      run.AgreesOff touched ids run' := by
  refine Step.passes_invariant (fun enter he run' hrun' outcome run'' hpass => ?_) (.refl run)
  have hentered := (henter enter he run').mono (List.Subset.refl _) (List.nil_subset ids)
  have hclear' : ∀ id ∈ ids, (enter run').current.find? id = none := fun id hid => by
    rw [hentered.current id (hdisjoint id hid), hrun'.current id (hdisjoint id hid), hclear id hid]
  exact (hrun'.trans hentered).trans
    ((hbranch _ _ _ hclear' hpass).mono (List.nil_subset _) (List.Subset.refl _))

namespace Node

variable {n : Node} {job : Job} {branch : Step Outcome} {ids : List NodeId} {run : Run}

/-- **The selections a node moves**: itself, if it is one. -/
def touched (n : Node) : List NodeId := if n.type = .select then [n.id] else []

theorem touched_subset (n : Node) (ids : List NodeId) : n.touched ⊆ n.id :: ids := by
  unfold touched
  split <;> simp

theorem not_mem_touched (hid : n.id ∉ ids) : ∀ id ∈ ids, id ∉ n.touched := fun _ hmem htouched =>
  hid (List.mem_singleton.1 (n.touched_subset [] htouched) ▸ hmem)

theorem of_mem_touched {id : NodeId} (h : id ∈ n.touched) : n.type = .select ∧ id = n.id := by
  unfold touched at h
  split at h
  · next hselect => exact ⟨hselect, List.mem_singleton.1 h⟩
  · cases h

/-- **What a plan moves**: only a selection, which stands at one of the sites it chose in each pass,
and nowhere in the end. -/
structure Moves (n : Node) (run run' : Run) (plan : Plan) : Prop where
  before : run.AgreesOff [] n.touched run'
  enters : ∀ enter ∈ plan.passes, ∀ run : Run, run.AgreesOff n.touched [] (enter run)
  stands : n.type = .select → ∃ sites, run'.chosen.find? n.id = some sites ∧
    ∀ enter ∈ plan.passes, ∀ run : Run, ∃ site ∈ sites, (enter run).current.find? n.id = some site
  behind : ∀ outcomes (run : Run), run.AgreesOff n.touched [] (plan.finish outcomes run).2 ∧
    (n.type = .select → (plan.finish outcomes run).2.current.find? n.id = none)

theorem moves_of_plan {run run' : Run} {plan : Plan} (h : n.plan job run = (.ok plan, run')) :
    n.Moves run run' plan := by
  have hplans := n.plans job run
  rw [h] at hplans
  cases hplans with
  | @selects sites _ hkind hframe =>
      have htouched : n.touched = [n.id] := by
        obtain ⟨blocks, chosen, hkind⟩ := hkind
        simp [touched, type, NodeKind.type, hkind]
      have hchosen : run'.chosen = run.chosen.set n.id sites := congrArg Frame.chosen hframe
      have hcurrent : run'.current = run.current := congrArg Frame.current hframe
      refine ⟨⟨fun id _ => by rw [hcurrent], fun id hid => ?_⟩, ?_, fun _ => ⟨sites, ?_, ?_⟩, ?_⟩
      · rw [htouched] at hid
        rw [hchosen, NodeTable.find?_set_of_ne _ sites (List.ne_of_not_mem_cons hid)]
      -- Entering a site moves the place of this selection alone.
      · intro enter henter run
        obtain ⟨site, -, rfl⟩ := List.mem_map.1 henter
        rw [htouched]
        exact ⟨fun id hid => NodeTable.find?_set_of_ne _ site (List.ne_of_not_mem_cons hid),
          fun _ _ => rfl⟩
      · rw [hchosen, NodeTable.find?_set]
      · intro enter henter run
        obtain ⟨site, hsite, rfl⟩ := List.mem_map.1 henter
        exact ⟨site, hsite, NodeTable.find?_set _ _ site⟩
      · intro outcomes run
        rw [htouched]
        exact ⟨⟨fun id hid => NodeTable.find?_erase_of_ne _ (List.ne_of_not_mem_cons hid),
          fun _ _ => rfl⟩, fun _ => NodeTable.find?_erase _ _⟩
  | plain htype hplan hframe =>
      refine ⟨.of_frame hframe, fun enter henter run => ?_, fun hselect => absurd hselect htype,
        fun outcomes run => ⟨?_, fun hselect => absurd hselect htype⟩⟩
      · rw [hplan.passes enter henter]
        exact .refl run
      · obtain ⟨outcome, run', hfinish, hframe, -⟩ := hplan.finish outcomes run
        rw [hfinish]
        exact .of_frame hframe

/-- **A node gives places back**, if its branch does. -/
theorem execute_givesBack (n : Node) (job : Job) (hbranch : branch.GivesBack ids)
    (hid : n.id ∉ ids) : (n.execute job branch).GivesBack (n.id :: ids) := by
  intro run outcome run' hclear hrun
  rw [execute_run] at hrun
  cases hplan : n.plan job run with
  | mk r run₁ =>
      rw [hplan] at hrun
      cases r with
      | error e => cases hrun
      | ok plan =>
          have hmoves := moves_of_plan hplan
          have hclear₁ : ∀ id ∈ ids, run₁.current.find? id = none := fun id hmem => by
            rw [hmoves.before.current id List.not_mem_nil, hclear id (List.mem_cons_of_mem _ hmem)]
          obtain ⟨-, hpasses⟩ := hbranch.passes (not_mem_touched hid) hmoves.enters hclear₁
          dsimp only at hrun
          cases hdone : branch.runPasses plan.passes run₁ with
          | mk r run₂ =>
              rw [hdone] at hrun
              cases r with
              | error e => cases hrun
              | ok outcomes =>
                  obtain ⟨hbehind, hnowhere⟩ := hmoves.behind outcomes run₂
                  dsimp only at hrun
                  rw [hrun] at hbehind hnowhere
                  -- The own work, the passes and the end of the node, one behind the other.
                  have hall : run.AgreesOff n.touched (n.id :: ids) run' :=
                    ((hmoves.before.mono (List.nil_subset _) (n.touched_subset ids)).trans
                      ((hpasses outcomes run₂ hdone).mono (List.Subset.refl _)
                        (List.subset_cons_self _ _))).trans
                      (hbehind.mono (List.Subset.refl _) (List.nil_subset _))
                  refine ⟨fun id _ => ?_, hall.chosen⟩
                  by_cases htouched : id ∈ n.touched
                  · obtain ⟨hselect, rfl⟩ := of_mem_touched htouched
                    rw [hnowhere hselect, hclear n.id List.mem_cons_self]
                  · exact hall.current id htouched

/-- **Where a node starts its branch**: a selection stands at a site it chose, and nothing else has
moved. -/
theorem branchStarts_spec (hbranch : branch.GivesBack ids) (hid : n.id ∉ ids)
    (hclear : ∀ id ∈ ids, run.current.find? id = none) {start : Run}
    (hstart : start ∈ n.branchStarts job branch run) :
    run.AgreesOff n.touched (n.id :: ids) start ∧ (n.type = .select → ∃ sites site,
      start.chosen.find? n.id = some sites ∧ start.current.find? n.id = some site ∧
        site ∈ sites) := by
  unfold branchStarts at hstart
  cases hplan : n.plan job run with
  | mk r run₁ =>
      rw [hplan] at hstart
      cases r with
      | error e => cases hstart
      | ok plan =>
          have hmoves := moves_of_plan hplan
          -- The work of the node itself moves no place of its branch.
          have hclear₁ : ∀ id ∈ ids, run₁.current.find? id = none := fun id hmem => by
            rw [hmoves.before.current id List.not_mem_nil, hclear id hmem]
          obtain ⟨hstarts, -⟩ := hbranch.passes (not_mem_touched hid) hmoves.enters hclear₁
          obtain ⟨enter, henter, run₂, hpasses, rfl⟩ := hstarts start hstart
          have hentered := hmoves.enters enter henter run₂
          refine ⟨((hmoves.before.mono (List.nil_subset _) (n.touched_subset ids)).trans
            (hpasses.mono (List.Subset.refl _) (List.subset_cons_self _ _))).trans
            (hentered.mono (List.Subset.refl _) (List.nil_subset _)), fun hselect => ?_⟩
          obtain ⟨sites, hchosen, hsites⟩ := hmoves.stands hselect
          obtain ⟨site, hsite, hcurrent⟩ := hsites enter henter run₂
          refine ⟨sites, site, ?_, hcurrent, hsite⟩
          rw [hentered.chosen n.id List.not_mem_nil, hpasses.chosen n.id hid, hchosen]

end Node

namespace Forest

/-- **Lists of nodes give places back**, whatever nests in them. -/
theorem execute_givesBack (job : Job) (f : Forest) (hids : (f.nodes.map Node.id).Nodup) :
    (f.execute job).GivesBack (f.nodes.map Node.id) := by
  induction f with
  | nil =>
      intro run outcome run' _ hrun
      cases hrun
      exact .refl run
  | cons n branch rest ihb ihr =>
      intro run outcome run' hclear hrun
      obtain ⟨⟨hbranch, -⟩, hbranchIds, hrestIds, -⟩ := nodup_ids_cons hids
      have hsplit : (cons n branch rest).nodes.map Node.id =
          (n.id :: branch.nodes.map Node.id) ++ rest.nodes.map Node.id := by simp [nodes]
      rw [hsplit] at hclear ⊢
      have hnode := n.execute_givesBack job (ihb hbranchIds) hbranch (n.called .execute run)
      rw [execute_cons] at hrun
      cases hown : n.execute job (branch.execute job) (n.called .execute run) with
      | mk r run₁ =>
          rw [hown] at hrun
          cases r with
          | error e => cases hrun
          | ok came =>
              have hcame := hnode came run₁
                (fun id hid => hclear id (List.mem_append_left _ hid)) hown
              have hfirst := (Run.AgreesOff.called .execute n run).trans <| hcame.mono
                (List.Subset.refl _) (List.subset_append_left _ (rest.nodes.map Node.id))
              -- A node that declines ends the list, and the nodes behind it are not visited.
              cases came with
              | declined =>
                  cases hrun
                  exact hfirst
              | success =>
                  refine hfirst.trans ((ihr hrestIds run₁ outcome run' (fun id hid => ?_) hrun).mono
                    (List.Subset.refl _) (List.subset_append_right _ _))
                  rw [hfirst.current id List.not_mem_nil, hclear id (List.mem_append_right _ hid)]

end Forest

/-! ## Where selections stand -/

/-- **Only enclosing selections stand.** The selections of a tree that stand at a site are those
among some owners, and each stands at a site of its latest selection. -/
structure Run.StandsIn (tree : Forest) (owners : List NodeId) (run : Run) : Prop where
  current : ∀ id, (run.current.find? id).isSome ↔
    id ∈ owners ∧ ∃ n ∈ tree.nodes, n.id = id ∧ n.type = .select
  chosen : ∀ id site, run.current.find? id = some site →
    ∃ sites, run.chosen.find? id = some sites ∧ site ∈ sites

namespace Run.StandsIn

variable {tree : Forest} {owners ids : List NodeId} {n : Node} {run run' : Run}

/-- Nodes apart from the owners stand nowhere. -/
theorem current_eq_none (h : run.StandsIn tree owners) {id : NodeId} (hid : id ∉ owners) :
    run.current.find? id = none := by
  rw [← Option.not_isSome_iff_eq_none]
  exact fun hsome => hid ((h.current id).1 hsome).1

/-- What other nodes chose makes no difference. -/
theorem of_agreesOff (h : run.StandsIn tree owners) (hagrees : run.AgreesOff [] ids run')
    (hids : ∀ id ∈ ids, id ∉ owners) : run'.StandsIn tree owners := by
  have hcurrent : ∀ id, run'.current.find? id = run.current.find? id := fun id =>
    hagrees.current id List.not_mem_nil
  refine ⟨fun id => by rw [hcurrent]; exact h.current id, fun id site hsite => ?_⟩
  rw [hcurrent] at hsite
  have howner : id ∈ owners := ((h.current id).1 (by rw [hsite]; rfl)).1
  rw [hagrees.chosen id fun hid => hids id hid howner]
  exact h.chosen id site hsite

/-- **A node that starts its branch** is an owner more, and stands if it is a selection. -/
theorem into_branch (h : run.StandsIn tree owners)
    (htree : ∀ m ∈ tree.nodes, m.id = n.id → m.type = n.type) (hn : n ∈ tree.nodes)
    (hagrees : run.AgreesOff n.touched (n.id :: ids) run')
    (hids : ∀ id ∈ n.id :: ids, id ∉ owners)
    (hstands : n.type = .select → ∃ sites site, run'.chosen.find? n.id = some sites ∧
      run'.current.find? n.id = some site ∧ site ∈ sites) :
    run'.StandsIn tree (n.id :: owners) := by
  refine ⟨fun id => ?_, fun id site hsite => ?_⟩
  -- Only the node itself can have begun to stand.
  · by_cases hid : id = n.id
    · subst hid
      by_cases hselect : n.type = .select
      · obtain ⟨sites, site, -, hsite, -⟩ := hstands hselect
        simp only [hsite, Option.isSome_some, List.mem_cons_self, true_and, true_iff]
        exact ⟨n, hn, rfl, hselect⟩
      · have hnone : run'.current.find? n.id = none := by
          rw [hagrees.current n.id fun h => hselect (Node.of_mem_touched h).1]
          exact h.current_eq_none (hids n.id List.mem_cons_self)
        simp only [hnone, Option.isSome_none, Bool.false_eq_true, false_iff, not_and]
        rintro - ⟨m, hm, hmid, hmtype⟩
        exact hselect (htree m hm hmid ▸ hmtype)
    · rw [hagrees.current id fun h => hid (Node.of_mem_touched h).2, h.current id,
        List.mem_cons, or_iff_right hid]
  · by_cases hid : id = n.id
    · subst hid
      by_cases hselect : n.type = .select
      · obtain ⟨sites, site', hchosen, hsite', hmem⟩ := hstands hselect
        rw [hsite'] at hsite
        exact ⟨sites, hchosen, Option.some.inj hsite ▸ hmem⟩
      · rw [hagrees.current n.id fun h => hselect (Node.of_mem_touched h).1,
          h.current_eq_none (hids n.id List.mem_cons_self)] at hsite
        cases hsite
    · rw [hagrees.current id fun h => hid (Node.of_mem_touched h).2] at hsite
      have howner : id ∈ owners := ((h.current id).1 (by rw [hsite]; rfl)).1
      rw [hagrees.chosen id fun hmem => hids id hmem howner]
      exact h.chosen id site hsite

end Run.StandsIn

/-- Preparing a node leaves no selection at a site where none stood. -/
theorem Node.current_prepare (n : Node) (job : Job) {run : Run} (h : run.current = []) :
    (n.prepare job run).2.current = [] := by
  have hframe : ∀ s : Step Unit, s.Keeps Run.frame → (s run).2.current = [] := fun s hs =>
    (congrArg Frame.current (hs run)).trans h
  unfold prepare
  cases n.kind with
  | select blocks chosen =>
      change ((n.prepareSelect blocks) run).2.current = []
      unfold prepareSelect
      split
      · exact h
      · exact congrArg (fun current => NodeTable.erase current n.id) h
  | collect d => exact hframe _ (keeps_prepareCollect d)
  | process d => exact hframe _ keeps_prepareSource
  | fit fitted cost => exact hframe _ keeps_prepareFit
  | recorder r => exact hframe _ (keeps_refuse r .prepare)
  | _ => exact h

namespace Forest

variable {tree : Forest}

/-- **Only enclosing selections stand at visits**, if this is so when a list begins. -/
theorem visits_standIn (job : Job) (htree : (tree.nodes.map Node.id).Nodup) (f : Forest)
    (hf : f.nodes ⊆ tree.nodes) (hids : (f.nodes.map Node.id).Nodup) {owners : List NodeId}
    (howners : ∀ id ∈ f.nodes.map Node.id, id ∉ owners) {run : Run}
    (hrun : run.StandsIn tree owners) : ∀ v ∈ f.visits job owners run,
      v.place ∈ f.placed owners ∧ v.run.StandsIn tree v.place.owners := by
  induction f generalizing owners run with
  | nil => exact fun v hv => absurd hv List.not_mem_nil
  | cons n branch rest ihb ihr =>
      obtain ⟨⟨hbranch, hrest⟩, hbranchIds, hrestIds, -⟩ := nodup_ids_cons hids
      have hsub : n ∈ tree.nodes ∧ branch.nodes ⊆ tree.nodes ∧ rest.nodes ⊆ tree.nodes := by
        simpa [nodes] using hf
      have hout : (∀ id ∈ n.id :: branch.nodes.map Node.id, id ∉ owners) ∧
          ∀ id ∈ rest.nodes.map Node.id, id ∉ owners := by
        simpa [nodes, or_imp, forall_and, and_assoc] using howners
      have hcalled : (n.called .execute run).StandsIn tree owners :=
        hrun.of_agreesOff (.called .execute n run : run.AgreesOff [] [] _) fun _ h =>
          absurd h List.not_mem_nil
      have hclear : ∀ id ∈ n.id :: branch.nodes.map Node.id,
          (n.called .execute run).current.find? id = none := fun id hid =>
        hcalled.current_eq_none (hout.1 id hid)
      have hgives := branch.execute_givesBack job hbranchIds
      intro v hv
      rw [visits, List.mem_cons, List.mem_append, List.mem_flatMap] at hv
      rw [placed, List.mem_cons, List.mem_append]
      -- The node itself, a node of its branch in some pass, or a node behind it.
      rcases hv with rfl | ⟨start, hstart, hv⟩ | hv
      · exact ⟨.inl rfl, hcalled⟩
      · obtain ⟨hagrees, hstands⟩ := Node.branchStarts_spec hgives hbranch
          (fun id hid => hclear id (List.mem_cons_of_mem _ hid)) hstart
        have hstart' : start.StandsIn tree (n.id :: owners) :=
          hcalled.into_branch (fun m hm hid => congrArg Node.type
            (List.inj_on_of_nodup_map htree hm hsub.1 hid)) hsub.1 hagrees hout.1 hstands
        have hinner : ∀ id ∈ branch.nodes.map Node.id, id ∉ n.id :: owners := fun id hid hmem =>
          (List.mem_cons.1 hmem).elim (fun heq => hbranch (heq ▸ hid))
            (hout.1 id (List.mem_cons_of_mem _ hid))
        obtain ⟨hplace, hstandsIn⟩ := ihb hsub.2.1 hbranchIds hinner hstart' v hv
        exact ⟨.inr (.inl hplace), hstandsIn⟩
      · cases hown : n.execute job (branch.execute job) (n.called .execute run) with
        | mk r run' =>
            rw [hown] at hv
            cases r with
            | error e => cases hv
            | ok outcome =>
                cases outcome with
                | declined => cases hv
                | success =>
                    have hagrees := n.execute_givesBack job hgives hbranch _ _ _ hclear hown
                    have hbehind := hcalled.of_agreesOff hagrees hout.1
                    obtain ⟨hplace, hstandsIn⟩ := ihr hsub.2.2 hrestIds hout.2 hbehind v hv
                    exact ⟨.inr (.inr hplace), hstandsIn⟩

/-- Preparing leaves no selection at a site where none stood. -/
theorem current_prepare (f : Forest) (job : Job) {run : Run} (h : run.current = []) :
    (f.prepare job run).2.current = [] := by
  unfold prepare
  induction f.nodes generalizing run with
  | nil => exact h
  | cons n l ih =>
      have hnode : (n.prepare job (n.called .prepare run)).2.current = [] :=
        n.current_prepare job h
      change ((n.enter .prepare "Prepare" (n.prepare job) >>= fun _ => l.forM _) run).2.current = []
      rw [Step.run_bind, Node.run_enter]
      cases hrun : n.prepare job (n.called .prepare run) with
      | mk r run' =>
          rw [hrun] at hnode
          cases r with
          | error e => exact hnode
          | ok u => exact ih hnode

/-- A selection within a selection within a recorder, and a node that compares their sites. -/
def pairsInRecorder : Forest :=
  let exclude : Node := { Node.ofType ⟨3⟩ .exclude with
    name := "Pairs"
    keywords := ⟨[⟨"SameSite", .nodes [⟨"Water", some ⟨1⟩⟩, ⟨"Ice", some ⟨2⟩⟩] .selection 2
      (some 3), true, false⟩], []⟩ }
  let select := fun id name => { Node.ofType ⟨id⟩ .select with name }
  cons { Node.recorder ⟨0⟩ ⟨none, false⟩ with name := "Owner" }
    (cons (select 1 "Water") (cons (select 2 "Ice") (cons exclude nil nil) nil) nil) nil

end Forest

end SiteAnalysis
