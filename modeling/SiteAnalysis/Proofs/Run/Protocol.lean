import SiteAnalysis.Procedure
import SiteAnalysis.Proofs.Run.Passes

set_option autoImplicit false

/-! # The protocol of a run

Which calls of nodes a run may show, and how it comes out then. All nodes are prepared, then the
root executes, then all nodes are finalised; an error ends the run. Main statements:

* `Forest.execute_follows`: how lists of nodes execute, each branch under its owner.
* `Procedure.execute_follows_protocol`: the calls of a whole run, its error, and the versions it
  notes.
-/

namespace SiteAnalysis

/-! ## What calls may be seen -/

/-- **A phase over nodes**, with the work of each: they are called in order, and the first that
fails is the last that is called. -/
inductive Sweeps (p : Phase) (title : String) (work : Node → Step Unit) :
    List Node → List Event → Except Error Unit → Prop
  | done : Sweeps p title work [] [] (.ok ())
  | next {n : Node} {rest : List Node} {calls : List Event} {r : Except Error Unit}
      (hwork : ∃ run, (work n run).1 = .ok ()) (hrest : Sweeps p title work rest calls r) :
      Sweeps p title work (n :: rest) (n.call p :: calls) r
  | fails {n : Node} {rest : List Node} {e : Error} (hwork : ∃ run, (work n run).1 = .error e) :
      Sweeps p title work (n :: rest) [n.call p] (.error (n.failure title e))

/-- **Passes through a branch**, given what the branch may show: whether it declines makes no
difference, and an error ends them. -/
inductive Passes (B : List Event → Except Error Outcome → Prop) :
    Nat → List Event → Except Error Unit → Prop
  | done : Passes B 0 [] (.ok ())
  | next {k : Nat} {calls rest : List Event} {outcome : Outcome} {r : Except Error Unit}
      (hpass : B calls (.ok outcome)) (hrest : Passes B k rest r) :
      Passes B (k + 1) (calls ++ rest) r
  | fails {k : Nat} {calls : List Event} {e : Error} (hpass : B calls (.error e)) :
      Passes B (k + 1) calls (.error e)

/-- **What a node may show while it executes**, given what its branch may show. Other nodes are
called in passes through the branch only. -/
inductive Node.Executes (n : Node) (job : Job) (B : List Event → Except Error Outcome → Prop) :
    List Event → Except Error Outcome → Prop
  /-- It fails whatever its branch would do. -/
  | fails {e : Error} (hown : ∃ run, ∀ branch, (n.execute job branch run).1 = .error e) :
      n.Executes job B [] (.error e)
  | declines (hmay : n.MayDecline) : n.Executes job B [] (.ok .declined)
  | succeeds {k : Nat} {calls : List Event} (hallowed : n.AllowsPasses k)
      (hpasses : Passes B k calls (.ok ())) : n.Executes job B calls (.ok .success)
  | breaks {k : Nat} {calls : List Event} {e : Error} (hallowed : n.AllowsPasses k)
      (hpasses : Passes B k calls (.error e)) : n.Executes job B calls (.error e)

/-- **What a list of nodes may show while it executes**: the nodes are called in order up to the
first that declines or fails. -/
def Forest.Executes (job : Job) : Forest → List Event → Except Error Outcome → Prop
  | nil, calls, r => calls = [] ∧ r = .ok .success
  | cons n branch rest, calls, r =>
    ∃ own came, n.Executes job (branch.Executes job) own came ∧
      match came with
      | .error e => calls = n.call .execute :: own ∧ r = .error (n.failure "Execute" e)
      | .ok .declined => calls = n.call .execute :: own ∧ r = .ok .declined
      | .ok .success => ∃ behind, rest.Executes job behind r ∧
          calls = n.call .execute :: (own ++ behind)

/-- **What a whole run may show**, and how it comes out: an error in one of the phases ends it. -/
inductive Job.Shows (job : Job) : List Event → Except Error Unit → Prop
  | prepareFails {calls : List Event} {e : Error}
      (hprepare : Sweeps .prepare "Prepare" (·.prepare job) job.tree.nodes calls (.error e)) :
      job.Shows calls (.error (e.withContext "Prepare phase"))
  | executeFails {calls : List Event} {e : Error}
      (hexecute : job.tree.Executes job calls (.error e)) :
      job.Shows (job.tree.nodes.map (Node.call .prepare) ++ calls)
        (.error (e.withContext "Execute phase"))
  | finaliseFails {calls ending : List Event} {outcome : Outcome} {e : Error}
      (hexecute : job.tree.Executes job calls (.ok outcome))
      (hfinalise : Sweeps .finalise "Finalise" (·.finalise job) job.tree.nodes ending (.error e)) :
      job.Shows (job.tree.nodes.map (Node.call .prepare) ++ calls ++ ending)
        (.error (e.withContext "Finalise phase"))
  | completes {calls : List Event} {outcome : Outcome}
      (hexecute : job.tree.Executes job calls (.ok outcome)) :
      job.Shows (job.tree.nodes.map (Node.call .prepare) ++ calls ++
        job.tree.nodes.map (Node.call .finalise)) (.ok ())

/-! ## Errors with their context -/

section

variable {ε ε' α : Type} {x : Except ε α} {f : ε → ε'}

theorem ok_eq_mapError_iff {a : α} : .ok a = x.mapError f ↔ x = .ok a := by
  cases x with
  | error e =>
      change Except.ok a = Except.error (f e) ↔ _
      simp
  | ok b => exact ⟨fun h => by cases h; rfl, fun h => by cases h; rfl⟩

theorem error_eq_mapError_iff {e' : ε'} :
    .error e' = x.mapError f ↔ ∃ e, x = .error e ∧ e' = f e := by
  cases x with
  | error e =>
      change Except.error e' = Except.error (f e) ↔ _
      simp
  | ok b =>
      change Except.error e' = Except.ok b ↔ _
      simp

end

/-! ## What steps add to the calls -/

/-- **A step adds calls of some pattern**, which goes with how it comes out. The name of the
configuration stays. -/
def Step.Follows {α : Type} (s : Step α) (R : List Event → Except Error α → Prop) : Prop :=
  ∀ run, ∃ calls, (s run).2.told = (run.configuration.name, run.calls ++ calls) ∧
    R calls (s run).1

namespace Step

variable {α β : Type} {s : Step α} {f : α → Step β}
  {R R' : List Event → Except Error α → Prop} {T : α → List Event → Except Error β → Prop}

theorem Follows.mono (h : s.Follows R) (himp : ∀ calls r, R calls r → R' calls r) :
    s.Follows R' := by
  intro run
  obtain ⟨calls, htold, hcalls⟩ := h run
  exact ⟨calls, htold, himp _ _ hcalls⟩

/-- A step without calls. -/
theorem Follows.silent (h : s.Keeps Run.told) :
    s.Follows fun calls r => calls = [] ∧ ∃ run, r = (s run).1 := by
  intro run
  exact ⟨[], by rw [h run, List.append_nil]; rfl, rfl, run, rfl⟩

/-- One step behind another: an error of the first ends both. -/
theorem Follows.bind (hs : s.Follows R) (hf : ∀ a own, R own (.ok a) → (f a).Follows (T a)) :
    (s >>= f).Follows fun calls r =>
      (∃ e, R calls (.error e) ∧ r = .error e) ∨
      ∃ a own rest, R own (.ok a) ∧ T a rest r ∧ calls = own ++ rest := by
  intro run
  obtain ⟨own, htold, hown⟩ := hs run
  rw [run_bind]
  cases hrun : s run with
  | mk r run' =>
      rw [hrun] at htold hown
      cases r with
      | error e => exact ⟨own, htold, .inl ⟨e, hown, rfl⟩⟩
      | ok a =>
          obtain ⟨rest, htold', hrest⟩ := hf a own hown run'
          obtain ⟨hname, hcalls⟩ := Prod.mk.inj htold
          refine ⟨own ++ rest, ?_, .inr ⟨a, own, rest, hown, hrest, rfl⟩⟩
          rw [htold', hname, hcalls, List.append_assoc]

/-- What is said of an error makes no calls. -/
theorem Follows.within (context : String) (h : s.Follows R) :
    (within context s).Follows fun calls r =>
      ∃ came, R calls came ∧ r = came.mapError (Error.withContext context) := by
  intro run
  obtain ⟨calls, htold, hcalls⟩ := h run
  rw [run_within]
  exact ⟨calls, htold, _, hcalls, rfl⟩

/-- **Passes follow the branch**, if entering them adds no calls. -/
theorem Follows.runPasses {branch : Step Outcome} {B : List Event → Except Error Outcome → Prop}
    (hbranch : branch.Follows B) {passes : List (Run → Run)}
    (hpasses : ∀ enter ∈ passes, ∀ run, (enter run).told = run.told) :
    (branch.runPasses passes).Follows fun calls r =>
      Passes B passes.length calls (r.map fun _ => ()) := by
  induction passes with
  | nil =>
      refine (Follows.silent (.pure _)).mono ?_
      rintro calls r ⟨rfl, run, rfl⟩
      exact .done
  | cons enter passes ih =>
      have henter := Follows.silent (.modify (hpasses enter List.mem_cons_self))
      have hrest := ih fun e he => hpasses e (List.mem_cons_of_mem _ he)
      rw [runPasses_cons]
      refine (henter.bind fun _ _ _ => hbranch.bind fun _ _ _ => hrest.bind fun _ _ _ =>
        .silent (.pure _)).mono ?_
      -- Entering cannot fail, so a list of passes breaks off in its first pass or behind it.
      rintro calls r (⟨e, ⟨-, run, hmodify⟩, -⟩ |
        ⟨_, _, _, ⟨rfl, -⟩, ⟨e, hpass, rfl⟩ | ⟨_, own, _, hpass, hbehind, rfl⟩, rfl⟩)
      · cases hmodify
      · exact .fails hpass
      · rw [List.nil_append]
        rcases hbehind with ⟨e, hbroken, rfl⟩ | ⟨_, rest, _, hdone, ⟨rfl, run, rfl⟩, rfl⟩
        · exact .next hpass hbroken
        · rw [List.append_nil]
          exact .next hpass hdone

end Step

/-! ## Executing -/

namespace Node

variable {n : Node} {job : Job}

/-- **A call of a node**, and what follows it. -/
theorem enter_follows (n : Node) {α : Type} {s : Step α}
    {R : List Event → Except Error α → Prop} (p : Phase) (title : String) (h : s.Follows R) :
    (n.enter p title s).Follows fun calls r =>
      ∃ own came, R own came ∧ calls = n.call p :: own ∧ r = came.mapError (n.failure title) := by
  intro run
  obtain ⟨own, htold, hown⟩ := h (n.called p run)
  rw [calls_called, List.append_assoc] at htold
  rw [run_enter]
  exact ⟨_, htold, own, _, hown, rfl, rfl⟩

/-- A node whose own work fails does so whatever its branch would do. -/
theorem execute_eq_error {run : Run} {e : Error} (h : (n.plan job run).1 = .error e)
    (branch : Step Outcome) : (n.execute job branch run).1 = .error e := by
  rw [execute_eq, Step.run_bind]
  cases hrun : n.plan job run with
  | mk r run' =>
      rw [hrun] at h
      cases h
      rfl

/-- **A node executes as it may**, if its branch does. -/
theorem execute_follows (n : Node) (job : Job) {branch : Step Outcome}
    {B : List Event → Except Error Outcome → Prop} (hbranch : branch.Follows B) :
    (n.execute job branch).Follows (n.Executes job B) := by
  -- Behind the work of its own a node shows the passes of its plan, and ends without a call.
  have hplan : ∀ plan, n.Suits plan →
      (branch.runPasses plan.passes >>= plan.finish).Follows (n.Executes job B) := by
    intro plan hsuits
    have hfinish : ∀ outcomes, (plan.finish outcomes).Follows fun calls r => calls = [] ∧
        (r = .ok .success ∨ r = .ok .declined ∧ n.MayDecline ∧ plan.passes = []) := by
      intro outcomes run
      obtain ⟨outcome, run', hrun, htold, hdeclines⟩ := hsuits.finish outcomes run
      rw [hrun]
      refine ⟨[], by rw [List.append_nil]; exact htold, rfl, ?_⟩
      cases outcome with
      | success => exact .inl rfl
      | declined => exact .inr ⟨rfl, hdeclines rfl⟩
    refine (((Step.Follows.runPasses hbranch hsuits.enters).bind fun _ _ _ => hfinish _)).mono ?_
    rintro calls r (⟨e, hbroken, rfl⟩ | ⟨_, own, _, hdone, ⟨rfl, hr⟩, rfl⟩)
    · exact .breaks hsuits.allowed hbroken
    · rw [List.append_nil]
      rcases hr with rfl | ⟨rfl, hmay, hnone⟩
      · exact .succeeds hsuits.allowed hdone
      · rw [hnone] at hdone
        cases hdone
        exact .declines hmay
  rw [execute_eq]
  refine ((Step.Follows.silent (n.keeps_plan job)).bind fun plan _ h =>
    hplan plan (suits_of_plan h.2.choose_spec.symm)).mono ?_
  rintro calls r (⟨e, ⟨rfl, run, hown⟩, rfl⟩ | ⟨plan, _, own, ⟨rfl, -⟩, howns, rfl⟩)
  · exact .fails ⟨run, execute_eq_error hown.symm⟩
  · exact howns

end Node

namespace Forest

/-- **Lists of nodes execute as they may**, whatever run they start in. -/
theorem execute_follows (job : Job) (f : Forest) : (f.execute job).Follows (f.Executes job) := by
  induction f with
  | nil => exact fun run => ⟨[], by rw [List.append_nil]; rfl, rfl, rfl⟩
  | cons n branch rest ihb ihr =>
      have hnode := n.enter_follows .execute "Execute" (n.execute_follows job ihb)
      let T : Outcome → List Event → Except Error Outcome → Prop := fun outcome calls r =>
        (outcome = .declined ∧ calls = [] ∧ r = .ok .declined) ∨
          (outcome = .success ∧ rest.Executes job calls r)
      unfold execute
      refine (hnode.bind (T := T) fun outcome _ _ => ?_).mono ?_
      · cases outcome with
        | declined => exact fun run => ⟨[], by rw [List.append_nil]; rfl, .inl ⟨rfl, rfl, rfl⟩⟩
        | success => exact ihr.mono fun calls r h => .inr ⟨rfl, h⟩
      rintro calls r (⟨e, ⟨own, came, hown, rfl, hcame⟩, rfl⟩ |
        ⟨outcome, _, behind, ⟨own, came, hown, rfl, hcame⟩, hbehind, rfl⟩)
      · obtain ⟨e, rfl, rfl⟩ := error_eq_mapError_iff.1 hcame
        exact ⟨own, _, hown, rfl, rfl⟩
      · obtain rfl := ok_eq_mapError_iff.1 hcame
        refine ⟨own, _, hown, ?_⟩
        obtain ⟨rfl, rfl, rfl⟩ | ⟨rfl, hbehind⟩ := hbehind
        · exact ⟨List.append_nil _, rfl⟩
        · exact ⟨behind, hbehind, rfl⟩

/-- **A phase over nodes** sweeps them, if their work makes no calls. -/
theorem sweeps_follow {work : Node → Step Unit} (hwork : ∀ n, (work n).Keeps Run.told) (p : Phase)
    (title : String) (l : List Node) :
    Step.Follows (l.forM fun n => n.enter p title (work n)) (Sweeps p title work l) := by
  induction l with
  | nil => exact fun run => ⟨[], by rw [List.append_nil]; rfl, .done⟩
  | cons n l ih =>
      have hnode := n.enter_follows p title (.silent (hwork n))
      refine (hnode.bind fun _ _ _ => ih).mono ?_
      rintro calls r (⟨e, ⟨_, came, ⟨rfl, hcame⟩, rfl, hr⟩, rfl⟩ |
        ⟨_, _, rest, ⟨_, came, ⟨rfl, hcame⟩, rfl, hr⟩, hrest, rfl⟩)
      · obtain ⟨e, rfl, rfl⟩ := error_eq_mapError_iff.1 hr
        exact .fails (hcame.imp fun _ => Eq.symm)
      · obtain rfl := ok_eq_mapError_iff.1 hr
        exact .next (hcame.imp fun _ => Eq.symm) hrest

theorem prepare_follows (job : Job) (f : Forest) : (f.prepare job).Follows
    (Sweeps .prepare "Prepare" (fun n => n.prepare job) f.nodes) :=
  sweeps_follow (fun _ => Node.keeps_prepare) .prepare "Prepare" f.nodes

theorem finalise_follows (job : Job) (f : Forest) : (f.finalise job).Follows
    (Sweeps .finalise "Finalise" (fun n => n.finalise job) f.nodes) :=
  sweeps_follow (fun _ run => Run.told_of_frame (Node.keeps_finalise run)) .finalise "Finalise"
    f.nodes

end Forest

/-- All nodes are called if none fails. -/
theorem Sweeps.eq_map {p : Phase} {title : String} {work : Node → Step Unit} {l : List Node}
    {calls : List Event} (h : Sweeps p title work l calls (.ok ())) :
    calls = l.map (Node.call p) := by
  generalize hr : (Except.ok () : Except Error Unit) = r at h
  induction h with
  | done => rfl
  | next hwork hrest ih => rw [ih hr, List.map_cons]
  | fails hwork => cases hr

/-- The execute phase, in which only an error of the root counts. -/
theorem Job.executePhase_follows (job : Job) :
    Step.Follows (discard (Step.within "Execute phase" (job.tree.execute job))) fun calls r =>
      match r with
      | .ok () => ∃ outcome, job.tree.Executes job calls (.ok outcome)
      | .error e' => ∃ e, job.tree.Executes job calls (.error e) ∧
          e' = e.withContext "Execute phase" := by
  have hexecute := (job.tree.execute_follows job).within "Execute phase"
  refine (hexecute.bind fun _ _ _ => Step.Follows.silent (.pure ())).mono ?_
  rintro calls r (⟨e', ⟨came, hcalls, hcame⟩, rfl⟩ |
    ⟨outcome, own, _, ⟨came, hcalls, hcame⟩, ⟨rfl, run, rfl⟩, rfl⟩)
  · obtain ⟨e, rfl, rfl⟩ := error_eq_mapError_iff.1 hcame
    exact ⟨e, hcalls, rfl⟩
  · obtain rfl := ok_eq_mapError_iff.1 hcame
    rw [List.append_nil]
    exact ⟨outcome, hcalls⟩

/-- **Runs show what they may.** -/
theorem Job.run_follows (job : Job) : job.run.Follows job.Shows := by
  have hprepare := (job.tree.prepare_follows job).within "Prepare phase"
  have hfinalise := (job.tree.finalise_follows job).within "Finalise phase"
  refine (hprepare.bind fun _ _ _ => job.executePhase_follows.bind fun _ _ _ => hfinalise).mono ?_
  -- The run ends in the phase that fails, or behind the last.
  rintro calls r (⟨_, ⟨came, hsweeps, hcame⟩, rfl⟩ |
    ⟨_, before, _, ⟨came, hsweeps, hcame⟩, hrest, rfl⟩)
  · obtain ⟨e, rfl, rfl⟩ := error_eq_mapError_iff.1 hcame
    exact .prepareFails hsweeps
  obtain rfl := ok_eq_mapError_iff.1 hcame
  rw [hsweeps.eq_map]
  rcases hrest with ⟨_, ⟨e, hexecute, rfl⟩, rfl⟩ |
    ⟨_, calls, ending, ⟨outcome, hexecute⟩, ⟨came, hends, rfl⟩, rfl⟩
  · exact .executeFails hexecute
  rw [← List.append_assoc]
  cases came with
  | error e => exact .finaliseFails hexecute hends
  | ok u =>
      rw [hends.eq_map]
      exact .completes hexecute

namespace Procedure

/-- The version that is noted is found, and no other changes. -/
theorem lookup_noteVersion (p : Procedure) (c : Configuration) (name : String) :
    (p.noteVersion c).versions.lookup name =
      if name = c.name then some c.version else p.versions.lookup name := by
  by_cases h : name = c.name
  · simp [noteVersion, h]
  · rw [if_neg h]
    exact (lookup_cons_of_ne _ _ h).trans (lookup_filter_ne _ h)

/-- **What a run leaves behind** if it is not skipped and all references are linked. -/
theorem execute_eq_of_link {p q : Procedure} {c : Configuration} (results : Results)
    (folder : Folder) (pool : Pool Float) (group time : String) (hchanged : p.isUnchanged c = false)
    (hlink : p.link = (.ok (), q)) :
    p.execute c results folder pool group time =
      let (came, run) := Job.run ⟨q.root.nodes, q.settings, pool, group, time⟩
        (.start c results folder)
      let q := { q with root := { q.root with nodes := run.install q.root.nodes } }
      let report := fun outcome p =>
        RunReport.mk outcome p run.configuration run.results run.folder run.events.reverse
      match came with
      | .error e => report (.error e) q
      | .ok () => report (.ok .executed) (q.noteVersion run.configuration) := by
  rw [execute, hchanged, hlink]
  rfl

/-- **The protocol of a run.** If the configuration is not skipped and all references are linked,
the calls of nodes are those a run may show (`Job.Shows`). An error is the error of the run, and
changes no version; if all phases came out, the version the configuration has then is noted, and no
other. -/
theorem execute_follows_protocol (p : Procedure) (c : Configuration) (results : Results)
    (folder : Folder) (pool : Pool Float) (group time : String) (hchanged : p.isUnchanged c = false)
    (hlink : p.link.1 = .ok ()) :
    let report := p.execute c results folder pool group time
    ∃ came, Job.Shows ⟨p.link.2.root.nodes, p.settings, pool, group, time⟩
        (report.events.filter Event.isCall) came ∧
      match came with
      | .error e => report.outcome = .error e ∧ report.procedure.versions = p.versions
      | .ok () => report.outcome = .ok .executed ∧
          ∀ name, report.procedure.versions.lookup name =
            if name = c.name then some report.configuration.version
            else p.versions.lookup name := by
  have hq : p.link = (.ok (), p.link.2) := Prod.ext hlink rfl
  obtain ⟨calls, htold, hshows⟩ :=
    (Job.run_follows ⟨p.link.2.root.nodes, p.settings, pool, group, time⟩) (.start c results folder)
  obtain ⟨hname, hcalls⟩ := Prod.mk.inj htold
  have hreport := execute_eq_of_link results folder pool group time hchanged hq
  intro report
  change report = _ at hreport
  have hsettings : p.link.2.settings = p.settings := rfl
  have hversions : p.link.2.versions = p.versions := rfl
  rw [hsettings] at hreport
  generalize Job.run _ _ = result at hname hcalls hshows hreport
  obtain ⟨came, run⟩ := result
  have hevents : run.events.reverse.filter Event.isCall = calls := hcalls
  refine ⟨came, ?_⟩
  cases came with
  | error e =>
      dsimp only at hreport
      rw [hreport, hevents]
      exact ⟨hshows, rfl, rfl⟩
  | ok u =>
      dsimp only at hreport
      rw [hreport, hevents]
      refine ⟨hshows, rfl, fun name => ?_⟩
      rw [lookup_noteVersion, hname]
      rfl

/-- A recorder whose branch declines at once, and a recorder behind it that fails in the end. -/
def recorded : Procedure :=
  let recorder := fun id r name => { Node.recorder ⟨id⟩ r with name }
  let branch : Forest := .cons (recorder 1 ⟨none, true⟩ "Declines") .nil
    (.cons (recorder 2 ⟨none, false⟩ "Behind") .nil .nil)
  let root := Procedure.ofContext .analysis "Analysis"
  { root with root := { root.root with
      nodes := .cons (recorder 0 ⟨none, false⟩ "Owner") branch
        (.cons (recorder 3 ⟨some .finalise, false⟩ "Last") .nil .nil) } }

/-- A configuration of no sites. -/
def emptyCube : Configuration := .ofCell "Cube" .unitCube

/-- The node behind the one that declines is prepared and finalised, and not executed. -/
theorem recorded_follows_protocol :
    recorded.isUnchanged emptyCube = false ∧ recorded.link.1 = .ok () ∧
    let report := recorded.execute emptyCube .empty .empty .serial "Group" "now"
    report.events.filter Event.isCall =
      [.entered .prepare ⟨0⟩ "Owner", .entered .prepare ⟨1⟩ "Declines",
        .entered .prepare ⟨2⟩ "Behind", .entered .prepare ⟨3⟩ "Last",
        .entered .execute ⟨0⟩ "Owner", .entered .execute ⟨1⟩ "Declines",
        .entered .execute ⟨3⟩ "Last",
        .entered .finalise ⟨0⟩ "Owner", .entered .finalise ⟨1⟩ "Declines",
        .entered .finalise ⟨2⟩ "Behind", .entered .finalise ⟨3⟩ "Last"] ∧
    report.procedure.versions.lookup "Cube" = none ∧
    ∃ came, Job.Shows ⟨recorded.link.2.root.nodes, recorded.settings, .serial, "Group", "now"⟩
        (report.events.filter Event.isCall) came ∧
      match came with
      | .error e => report.outcome = .error e ∧ report.procedure.versions = recorded.versions
      | .ok () => report.outcome = .ok .executed ∧
          ∀ name, report.procedure.versions.lookup name =
            if name = emptyCube.name then some report.configuration.version
            else recorded.versions.lookup name := by
  have hchanged : recorded.isUnchanged emptyCube = false := rfl
  have hlink : recorded.link.1 = .ok () := rfl
  exact ⟨hchanged, hlink, rfl, rfl,
    execute_follows_protocol recorded emptyCube .empty .empty .serial "Group" "now" hchanged hlink⟩

end Procedure

end SiteAnalysis
