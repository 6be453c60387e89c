import SiteAnalysis.Proofs.Histogram.Averages
import SiteAnalysis.Proofs.Run.Storing

set_option autoImplicit false

/-! # Collecting in passes

A node of a type `collect` keeps its histogram under a key of its own. Here its phases are followed
from one pass to the next, with executions of the node and anything else in between. Main
statements:

* `Node.histogram_of_prepareCollect`, `Node.Counts.histogram`, `Node.finaliseCollect_eq_ok_iff`:
  what each phase does to the histogram.
* `Job.Collects.foldlM_run`: all passes together make of the histogram what `Pass.run` makes of it.
* `Job.collects_averages`: in exact numbers this is the mean over the passes since the axes last
  changed.
-/

namespace SiteAnalysis

/-! ## Own items of nodes -/

theorem lookup_insertSorted_self {κ α : Type} [BEq κ] [LawfulBEq κ] {lt : κ → κ → Bool} {key : κ}
    (hirrefl : lt key key = false) (value : α) (l : List (κ × α)) :
    (insertSorted lt key value l).lookup key = some value := by
  induction l with
  | nil => exact List.lookup_cons_self
  | cons e l ih =>
      obtain ⟨other, v⟩ := e
      unfold insertSorted
      split
      · exact List.lookup_cons_self
      · split
        · next hother =>
            have hne : key ≠ other := by
              rintro rfl
              rw [hirrefl] at hother
              cases hother
            rw [lookup_cons_of_ne _ v hne, ih]
        · exact List.lookup_cons_self

namespace Results

/-- The histogram under a key, whatever its dimensions. -/
def histogram? (s : Results) (key : ResultKey) : Option (Histogram Float) :=
  match s.find? key with
  | some (.histogram h) => some h
  | _ => none

variable {s : Results} {key : ResultKey} {h : Histogram Float}

theorem histogram?_eq_some_iff : s.histogram? key = some h ↔ s.find? key = some (.histogram h) := by
  unfold histogram?
  split
  · next g hg => rw [hg, Option.some.injEq, Option.some.injEq, Item.histogram.injEq]
  · next hnone =>
      constructor
      · nofun
      · exact fun hfound => absurd hfound (hnone h)

theorem find?_insert_self (item : Item) : (s.insert key item).find? key = some item := by
  refine lookup_insertSorted_self ?_ item s.entries
  simp [ResultKey.lt]

theorem find?_mapHistogram (f : Histogram Float → Histogram Float)
    (hfound : s.find? key = some (.histogram h)) :
    (s.mapHistogram key f).find? key = some (.histogram (f h)) := by
  obtain ⟨entries⟩ := s
  simp only [find?, mapHistogram] at hfound ⊢
  induction entries with
  | nil => cases hfound
  | cons e entries ih =>
      obtain ⟨other, item⟩ := e
      rw [List.map_cons]
      by_cases hother : key = other
      · subst hother
        rw [List.lookup_cons_self, Option.some.injEq] at hfound
        subst hfound
        simp only [if_pos, List.lookup_cons_self]
      · rw [lookup_cons_of_ne _ _ hother] at hfound
        simp only [if_neg (Ne.symm hother)]
        rw [lookup_cons_of_ne _ _ hother, ih hfound]

theorem histogram_eq_ok_iff {dimensions : Nat} : s.histogram key dimensions = .ok h ↔
    s.histogram? key = some h ∧ h.axes.length = dimensions := by
  rw [histogram?_eq_some_iff]
  unfold histogram retrieve
  cases hfound : s.find? key with
  | none => simp
  | some item =>
      cases item with
      | double x => simp [asType, Item.type]
      | integer z => simp [asType, Item.type]
      | data g => simp [asType, Item.type]
      | histogram g =>
          by_cases hd : g.axes.length = dimensions
          · simp only [asType, Item.type, hd, if_true]
            constructor
            · rintro ⟨⟩
              exact ⟨rfl, hd⟩
            · rintro ⟨⟨⟩, -⟩
              rfl
          · simp only [asType, Item.type, ItemType.histogram.injEq, hd, if_false]
            constructor
            · nofun
            · rintro ⟨⟨⟩, hlen⟩
              exact absurd hlen hd

/-- **A histogram that is there or stored now** is under its key, with the dimensions asked for. -/
theorem histogram_of_realise (s : Results) (key : ResultKey) (fresh : Histogram Float)
    (found : Item × Bool) (hfound : (s.realise key (.histogram fresh)).1 = .ok found) :
    (s.realise key (.histogram fresh)).2.histogram key fresh.axes.length =
      .ok ((s.histogram? key).getD fresh) := by
  rw [histogram_eq_ok_iff, histogram?_eq_some_iff]
  unfold realise at hfound ⊢
  unfold histogram?
  cases hitem : s.find? key with
  | none => exact ⟨find?_insert_self _, rfl⟩
  | some item =>
      rw [hitem] at hfound
      cases item with
      | histogram h =>
          refine ⟨hitem, ?_⟩
          by_contra hlen
          have hlen' : h.axes.length ≠ fresh.axes.length := hlen
          simp [asType, Item.type, hlen', Except.map] at hfound
      | double x => simp [asType, Item.type, Except.map] at hfound
      | integer z => simp [asType, Item.type, Except.map] at hfound
      | data g => simp [asType, Item.type, Except.map] at hfound

/-- An item is realised if nothing of another type is in the way. -/
theorem exists_realise_iff (s : Results) (key : ResultKey) (fresh : Item) :
    (∃ found, (s.realise key fresh).1 = .ok found) ↔
      ∀ item, s.find? key = some item → item.type = fresh.type := by
  unfold realise
  cases s.find? key with
  | none => simp
  | some item =>
      by_cases htype : item.type = fresh.type
      · simp [asType, htype, Except.map]
      · simp [asType, htype, Except.map]

/-- Only the item under its key makes a histogram. -/
theorem histogram_congr {t : Results} {dimensions : Nat} (hitem : t.find? key = s.find? key) :
    t.histogram key dimensions = s.histogram key dimensions := by
  simp only [histogram, retrieve, hitem]

theorem histogram_mapHistogram {dimensions : Nat} {f : Histogram Float → Histogram Float}
    (hf : (f h).axes.length = h.axes.length) (hfound : s.histogram key dimensions = .ok h) :
    (s.mapHistogram key f).histogram key dimensions = .ok (f h) := by
  rw [histogram_eq_ok_iff, histogram?_eq_some_iff] at hfound ⊢
  exact ⟨find?_mapHistogram f hfound.1, hf.trans hfound.2⟩

end Results

/-! ## Phases of a collection -/

/-- A check of every member of a list passes if no member fails it. -/
theorem Step.forIn_check_eq_ok_iff {β : Type} {n : Node} {c : β → Bool} {fault : β → RunFault}
    (l : List β) {u : PUnit} {run run' : Run} :
    (forIn (m := Step) l PUnit.unit fun b _ => do
      if c b then Step.fail n (fault b)
      return ForInStep.yield PUnit.unit) run = (.ok u, run') ↔
      (∀ b ∈ l, c b = false) ∧ run' = run := by
  induction l with
  | nil =>
      show (Pure.pure PUnit.unit : Step PUnit) run = (.ok u, run') ↔ _
      rw [Step.pure_eq_ok_iff]
      simp
  | cons b l ih =>
      rw [List.forIn_cons]
      cases hb : c b with
      | true =>
          constructor
          · intro h
            obtain ⟨_, _, hstep, -⟩ := Step.bind_eq_ok_iff.1 h
            obtain ⟨_, _, hfail, -⟩ := Step.bind_eq_ok_iff.1 hstep
            cases hfail
          · rintro ⟨hall, -⟩
            simp [hb] at hall
      | false =>
          have hpass : (∀ a ∈ b :: l, c a = false) ↔ ∀ a ∈ l, c a = false := by
            simp [hb]
          rw [hpass, ← ih]
          rfl

theorem Step.run_get_bind {α : Type} (f : Run → Step α) (run : Run) :
    (MonadState.get >>= f) run = f run run := rfl

namespace Node

variable {n : Node} {job : Job} {d : Dimension} {run run' : Run} {h : Histogram Float}

theorem length_histogramAxes : (n.histogramAxes d).length = d.toNat := by
  rw [histogramAxes, List.length_map]
  cases d <;> rfl

/-- **Preparing** realises the histogram of the node and begins a pass over its axes. -/
theorem prepareCollect_eq_ok_iff : n.prepareCollect job d run = (.ok (), run') ↔
    (∀ a ∈ d.axisNames, (n.keywords.observable? ("Quantity" ++ a)).isNone = false) ∧
      (∃ found, (run.results.realise (n.binsKey job run)
        (.histogram (.ofAxes (n.histogramAxes d)))).1 = .ok found) ∧
      run' = { run with
        results := (run.results.realise (n.binsKey job run)
          (.histogram (.ofAxes (n.histogramAxes d)))).2.mapHistogram (n.binsKey job run)
            (·.beginPass (n.histogramAxes d)) } := by
  constructor
  · intro hprepare
    obtain ⟨_, between, hset, hrest⟩ := Step.bind_eq_ok_iff.1 hprepare
    obtain ⟨hall, rfl⟩ := (Step.forIn_check_eq_ok_iff _).1 hset
    rw [Step.run_get_bind] at hrest
    dsimp only at hrest
    cases hfound : (between.results.realise (n.binsKey job between)
        (.histogram (.ofAxes (n.histogramAxes d)))).1 with
    | error e =>
        rw [hfound] at hrest
        cases hrest
    | ok found =>
        rw [hfound] at hrest
        cases hrest
        exact ⟨hall, ⟨found, rfl⟩, rfl⟩
  · rintro ⟨hall, ⟨found, hfound⟩, rfl⟩
    refine Step.bind_eq_ok_iff.2
      ⟨PUnit.unit, run, (Step.forIn_check_eq_ok_iff _).2 ⟨hall, rfl⟩, ?_⟩
    rw [Step.run_get_bind]
    dsimp only
    rw [hfound]
    rfl

/-- **Preparing** succeeds if every quantity is set and nothing of another type is in the way. -/
theorem exists_prepareCollect_iff : (∃ run', n.prepareCollect job d run = (.ok (), run')) ↔
    (∀ a ∈ d.axisNames, (n.keywords.observable? ("Quantity" ++ a)).isNone = false) ∧
      ∀ item, run.results.find? (n.binsKey job run) = some item →
        item.type = .histogram d.toNat := by
  have htype : (Item.histogram (.ofAxes (n.histogramAxes d))).type = .histogram d.toNat :=
    congrArg ItemType.histogram length_histogramAxes
  rw [← htype, ← Results.exists_realise_iff]
  constructor
  · rintro ⟨run', hprepare⟩
    obtain ⟨hall, hfound, -⟩ := prepareCollect_eq_ok_iff.1 hprepare
    exact ⟨hall, hfound⟩
  · rintro ⟨hall, hfound⟩
    exact ⟨_, prepareCollect_eq_ok_iff.2 ⟨hall, hfound, rfl⟩⟩

/-- **Preparing** leaves the histogram at the beginning of a pass over the axes of the node. -/
theorem histogram_of_prepareCollect (hprepare : n.prepareCollect job d run = (.ok (), run')) :
    run'.configuration = run.configuration ∧
      run'.results.histogram (n.binsKey job run) d.toNat =
        .ok (((run.results.histogram? (n.binsKey job run)).getD
          (.ofAxes (n.histogramAxes d))).beginPass (n.histogramAxes d)) := by
  obtain ⟨-, ⟨found, hfound⟩, rfl⟩ := prepareCollect_eq_ok_iff.1 hprepare
  have hlen : (Histogram.ofAxes (n.histogramAxes d)).axes.length = d.toNat := length_histogramAxes
  have hstored := run.results.histogram_of_realise (n.binsKey job run)
    (.ofAxes (n.histogramAxes d)) found hfound
  rw [hlen] at hstored
  refine ⟨rfl, Results.histogram_mapHistogram ?_ hstored⟩
  rw [Histogram.length_axes_beginPass, length_histogramAxes]
  exact (Results.histogram_eq_ok_iff.1 hstored).2.symm

/-- **Finalising** stores the histogram as the end of the pass leaves it. -/
theorem finaliseCollect_eq_ok_iff
    (hstored : run.results.histogram (n.binsKey job run) d.toNat = .ok h) :
    n.finaliseCollect job d run = (.ok (), run') ↔ ∃ h', h.endPass job.pool = .ok h' ∧
      run' = { run with
        results := run.results.insert (n.binsKey job run) (.histogram h') } := by
  unfold finaliseCollect
  rw [Step.run_get_bind, hstored]
  dsimp only
  cases h.endPass job.pool with
  | error e =>
      constructor
      · nofun
      · nofun
  | ok h' =>
      constructor
      · intro hrun
        cases hrun
        exact ⟨h', rfl, rfl⟩
      · rintro ⟨h', heq, rfl⟩
        cases heq
        rfl

/-- The values of the observables that a node counts. -/
def quantities (n : Node) (d : Dimension) : Step (List Float) :=
  d.axisNames.mapM fun a => n.quantity ("Quantity" ++ a)

/-- Reading observables changes nothing. -/
theorem quantities_eq_ok {values : List Float} (hread : n.quantities d run = (.ok values, run')) :
    run' = run := by
  have hkeeps : (n.quantities d).Keeps fun run => run := .mapM (fun _ => keeps_quantity _) _
  have hrun := hkeeps run
  rw [hread] at hrun
  exact hrun

/-- The run with a tuple of values counted. -/
def counting (n : Node) (job : Job) (values : List Float) (run : Run) : Run :=
  { run with results := run.results.mapHistogram (n.binsKey job run) fun h => (h.bin values).2 }

/-- **Executing** counts the present values, and then the branch runs if they lie on the axes. -/
theorem executeCollect_eq (branch : Step Unit) : n.executeCollect job d branch =
    n.binPresent job d >>= fun binned => if binned then branch else pure () := by
  unfold executeCollect binPresent
  simp only [bind_assoc, pure_bind]
  refine bind_congr fun values => bind_congr fun before => bind_congr fun run => ?_
  cases run.results.histogram (n.binsKey job before) d.toNat with
  | ok h => simp only [bind_assoc, pure_bind]
  | error e => rfl

/-- **Counting** succeeds if the values are there and so is the histogram. -/
theorem binPresent_eq_ok_iff {binned : Bool} : n.binPresent job d run = (.ok binned, run') ↔
    ∃ values h, n.quantities d run = (.ok values, run) ∧
      run.results.histogram (n.binsKey job run) d.toNat = .ok h ∧ binned = (h.bin values).1 ∧
      run' = n.counting job values run := by
  -- Finding the bin of the values and counting in it agree on whether there is one.
  have hbinned : ∀ (h : Histogram Float) (values : List Float),
      (Histogram.place h.axes values).isSome = (h.bin values).1 := by
    intro h values
    unfold Histogram.bin
    cases Histogram.place h.axes values <;> rfl
  constructor
  · intro hbin
    obtain ⟨values, between, hread, hrest⟩ := Step.bind_eq_ok_iff.1 hbin
    obtain rfl : between = run := quantities_eq_ok hread
    rw [Step.run_get_bind, Step.run_get_bind] at hrest
    cases hstored : between.results.histogram (n.binsKey job between) d.toNat with
    | error e =>
        rw [hstored] at hrest
        cases hrest
    | ok h =>
        rw [hstored] at hrest
        cases hrest
        exact ⟨values, h, hread, rfl, hbinned h values, rfl⟩
  · rintro ⟨values, h, hread, hstored, rfl, rfl⟩
    refine Step.bind_eq_ok_iff.2 ⟨values, run, hread, ?_⟩
    rw [Step.run_get_bind, Step.run_get_bind, hstored, ← hbinned]
    rfl

/-! ### Executions -/

theorem binsKey_congr (hname : run'.configuration.name = run.configuration.name) :
    n.binsKey job run' = n.binsKey job run := by
  simp only [binsKey, Run.dataName, Configuration.niceName, hname]

/-- **Executions of a node** in a row, with the tuples they count. Whatever happens between them,
the branch of the node included, spares the histogram. -/
inductive Counts (n : Node) (job : Job) (d : Dimension) : List (List Float) → Run → Run → Prop
  | nil (run : Run) : Counts n job d [] run run
  | execute {values : List Float} {tuples : List (List Float)} {branch : Step Unit}
      {run next last : Run} (hread : n.quantities d run = (.ok values, run))
      (hspares : branch.Spares run.configuration.name (n.binsKey job run))
      (hexecute : n.executeCollect job d branch run = (.ok (), next))
      (hrest : Counts n job d tuples next last) : Counts n job d (values :: tuples) run last
  | other {α : Type} {tuples : List (List Float)} {s : Step α} {run last : Run}
      (hspares : s.Spares run.configuration.name (n.binsKey job run))
      (hrest : Counts n job d tuples (s run).2 last) : Counts n job d tuples run last

/-- An execution counts the tuple it reads. -/
theorem histogram_of_executeCollect {values : List Float} {branch : Step Unit}
    (hread : n.quantities d run = (.ok values, run))
    (hspares : branch.Spares run.configuration.name (n.binsKey job run))
    (hexecute : n.executeCollect job d branch run = (.ok (), run'))
    (hstored : run.results.histogram (n.binsKey job run) d.toNat = .ok h) :
    run'.configuration.name = run.configuration.name ∧
      run'.results.histogram (n.binsKey job run) d.toNat = .ok (h.bin values).2 := by
  rw [executeCollect_eq] at hexecute
  obtain ⟨binned, between, hbin, hbranch⟩ := Step.bind_eq_ok_iff.1 hexecute
  obtain ⟨read, held, hread', -, -, rfl⟩ := binPresent_eq_ok_iff.1 hbin
  obtain rfl : values = read := by
    rw [hread] at hread'
    exact Except.ok.inj (congrArg Prod.fst hread')
  have hcounted : (n.counting job values run).results.histogram (n.binsKey job run) d.toNat =
      .ok (h.bin values).2 :=
    Results.histogram_mapHistogram (by rw [Histogram.axes_bin]) hstored
  -- Whether the branch runs or not, it leaves the counted histogram alone.
  have hrest : Step.Spares run.configuration.name (n.binsKey job run)
      (if binned then branch else pure ()) := by
    cases binned with
    | true => exact hspares
    | false => exact .of_keeps (.pure ())
  obtain ⟨hname, hitem⟩ := hrest (n.counting job values run) rfl
  rw [hbranch] at hname hitem
  exact ⟨hname, (Results.histogram_congr hitem).trans hcounted⟩

/-- **Executions in a row** count their tuples one after the other. -/
theorem Counts.histogram {tuples : List (List Float)} (hcounts : n.Counts job d tuples run run')
    (hstored : run.results.histogram (n.binsKey job run) d.toNat = .ok h) :
    run'.configuration.name = run.configuration.name ∧
      run'.results.histogram (n.binsKey job run) d.toNat =
        .ok (h.performAll (tuples.map .bin)) := by
  -- Each step hands on the name of the configuration, and the key of the histogram with it.
  induction hcounts generalizing h with
  | nil run => exact ⟨rfl, hstored⟩
  | execute hread hspares hexecute hrest ih =>
      obtain ⟨hname, hbinned⟩ := histogram_of_executeCollect hread hspares hexecute hstored
      rw [← binsKey_congr hname] at hbinned ⊢
      obtain ⟨hname', hlast⟩ := ih hbinned
      exact ⟨hname'.trans hname, hlast⟩
  | @other _ _ s run _ hspares hrest ih =>
      obtain ⟨hname, hitem⟩ := hspares run rfl
      have hstored' := (Results.histogram_congr hitem).trans hstored
      rw [← binsKey_congr hname] at hstored' ⊢
      obtain ⟨hname', hlast⟩ := ih hstored'
      exact ⟨hname'.trans hname, hlast⟩

/-! ### Passes -/

section

variable {tuples : List (List Float)} {before prepared counted after : Run}

/-- **Before its end** a pass has counted its tuples into the histogram that it found. -/
theorem histogram_of_counts (hprepare : n.prepareCollect job d before = (.ok (), prepared))
    (hcounts : n.Counts job d tuples prepared counted) :
    n.binsKey job counted = n.binsKey job before ∧
      counted.results.histogram (n.binsKey job before) d.toNat =
        .ok ((⟨n.histogramAxes d, tuples⟩ : Histogram.Pass Float).counted
          (before.results.histogram? (n.binsKey job before))) := by
  obtain ⟨hconfiguration, hbegun⟩ := histogram_of_prepareCollect hprepare
  have hname : prepared.configuration.name = before.configuration.name := by rw [hconfiguration]
  have hkey : n.binsKey job prepared = n.binsKey job before := binsKey_congr hname
  rw [← hkey] at hbegun
  obtain ⟨hname', hcounted⟩ := hcounts.histogram hbegun
  rw [hkey] at hcounted
  exact ⟨binsKey_congr (hname'.trans hname), hcounted⟩

/-- **A pass of a node** makes of the histogram what `Pass.run` makes of it. -/
theorem run_of_pass (hprepare : n.prepareCollect job d before = (.ok (), prepared))
    (hcounts : n.Counts job d tuples prepared counted)
    (hfinalise : n.finaliseCollect job d counted = (.ok (), after)) :
    ∃ h, (⟨n.histogramAxes d, tuples⟩ : Histogram.Pass Float).run job.pool
        (before.results.histogram? (n.binsKey job before)) = .ok h ∧
      after.results.histogram? (n.binsKey job before) = some h := by
  obtain ⟨hkey, hstored⟩ := histogram_of_counts hprepare hcounts
  rw [← hkey] at hstored
  obtain ⟨h, hend, rfl⟩ := (finaliseCollect_eq_ok_iff hstored).1 hfinalise
  rw [hkey] at hend ⊢
  exact ⟨h, hend, Results.histogram?_eq_some_iff.2 (Results.find?_insert_self _)⟩

/-- **One worker alone** ends every pass that has begun. -/
theorem exists_finaliseCollect (hserial : job.pool = .serial)
    (hprepare : n.prepareCollect job d before = (.ok (), prepared))
    (hcounts : n.Counts job d tuples prepared counted) :
    ∃ after, n.finaliseCollect job d counted = (.ok (), after) := by
  obtain ⟨hkey, hstored⟩ := histogram_of_counts hprepare hcounts
  rw [← hkey] at hstored
  obtain ⟨h, hend⟩ := Histogram.exists_endPass_serial
    ((⟨n.histogramAxes d, tuples⟩ : Histogram.Pass Float).counted
      (before.results.histogram? (n.binsKey job counted)))
  rw [← hserial] at hend
  exact ⟨_, (finaliseCollect_eq_ok_iff hstored).2 ⟨h, hend, rfl⟩⟩

end

end Node

/-- **Passes of nodes** that keep their histograms under one key, with the axes they begin over and
the tuples they count. Whatever happens between them spares the histogram. -/
inductive Job.Collects (job : Job) (key : ResultKey) :
    List (Histogram.Pass Float) → Run → Run → Prop
  | nil (run : Run) : job.Collects key [] run run
  | pass {n : Node} {d : Dimension} {tuples : List (List Float)}
      {passes : List (Histogram.Pass Float)} {first before prepared counted after : Run}
      (hpasses : job.Collects key passes first before) (hkey : n.binsKey job before = key)
      (hprepare : n.prepareCollect job d before = (.ok (), prepared))
      (hcounts : n.Counts job d tuples prepared counted)
      (hfinalise : n.finaliseCollect job d counted = (.ok (), after)) :
      job.Collects key (passes ++ [⟨n.histogramAxes d, tuples⟩]) first after
  | other {passes : List (Histogram.Pass Float)} {first last after : Run}
      (hpasses : job.Collects key passes first last)
      (hspares : after.results.find? key = last.results.find? key) :
      job.Collects key passes first after

/-- **All passes together** make of the histogram what the passes by themselves make of it. -/
theorem Job.Collects.foldlM_run {job : Job} {key : ResultKey}
    {passes : List (Histogram.Pass Float)} {first last : Run}
    (hcollects : job.Collects key passes first last) :
    passes.foldlM (fun stored p => (p.run job.pool stored).map some)
      (first.results.histogram? key) = .ok (last.results.histogram? key) := by
  induction hcollects with
  | nil run => rfl
  | pass hpasses hkey hprepare hcounts hfinalise ih =>
      obtain ⟨h, hrun, hstored⟩ := Node.run_of_pass hprepare hcounts hfinalise
      rw [hkey] at hrun hstored
      -- What earlier passes left is what the last one finds.
      rw [List.foldlM_append, ih, hstored]
      show Except.bind (Except.map some _) _ = _
      rw [hrun]
      rfl
  | other hpasses hspares ih =>
      rw [ih, Results.histogram?, Results.histogram?, hspares]

/-- **Collections average**: the passes of nodes over one key leave the histogram that the passes by
themselves leave, and one worker alone ends every pass that has begun. In exact numbers and for one
worker that histogram averages the passes since the axes last changed, and its bins count the cells
of the last one. A pass over the axes of the histogram goes on with its average, and one over other
axes begins anew. -/
theorem Job.collects_averages :
    (∀ (job : Job) (key : ResultKey) (passes : List (Histogram.Pass Float)) (first last : Run),
      job.Collects key passes first last → first.results.histogram? key = none →
        Histogram.Pass.runAll passes job.pool = .ok (last.results.histogram? key)) ∧
      (∀ (job : Job) (n : Node) (d : Dimension) (tuples : List (List Float))
        (before prepared counted : Run), job.pool = .serial →
        n.prepareCollect job d before = (.ok (), prepared) →
        n.Counts job d tuples prepared counted →
          ∃ after, n.finaliseCollect job d counted = (.ok (), after)) ∧
      (∀ (passes : List (Histogram.Pass ℝ)) (p : Histogram.Pass ℝ), ∃ h : Histogram ℝ,
        Histogram.Pass.runAll (passes ++ [p]) .serial = .ok (some h) ∧ h.axes = p.axes ∧
          h.Averages (Histogram.Pass.sinceChange passes p) ∧
          ∀ i < Histogram.sizeOf p.axes, h.bins[i]? = some (p.cell i)) ∧
      (∀ h : Histogram ℝ, (h.beginPass h.axes).accumulated = h.accumulated ∧
        (h.beginPass h.axes).passes = h.passes) ∧
      ∀ (h : Histogram ℝ) (axes : List (Axis ℝ)), h.axes ≠ axes →
        h.beginPass axes = .ofAxes axes := by
  refine ⟨?_, ?_, Histogram.Pass.exists_runAll, ?_, ?_⟩
  · intro job key passes first last hcollects hfirst
    have hrun := hcollects.foldlM_run
    rw [hfirst] at hrun
    exact hrun
  · intro job n d tuples before prepared counted hserial hprepare hcounts
    exact Node.exists_finaliseCollect hserial hprepare hcounts
  · intro h
    rw [Histogram.beginPass_same]
    exact ⟨rfl, rfl⟩
  · intro h axes hother
    exact Histogram.beginPass_other hother

end SiteAnalysis
