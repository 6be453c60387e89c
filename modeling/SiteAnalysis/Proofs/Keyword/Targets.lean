import SiteAnalysis.Proofs.Keyword.Rereading

set_option autoImplicit false

/-! # Variables of fits

The variables of a fit are gathered by lines or set one by one. A line gives a variable that is
known already another value (`setTarget`), while a variable that is set is put behind the others
whatever it is called. Main statements:

* `setTargets_eq_append_iff`: values that take the place of none stand behind those before.
* `targetValue?_setTargets`: the latest value of a variable counts.
* `KeywordStore.addTargets_agrees_iff`: both ways leave the same variables exactly if no name is
  given twice.
-/

namespace SiteAnalysis

/-! ## Setting values -/

/-- Sets the values of some variables, one after the other. -/
def setTargets (known targets : List (String × Float)) : List (String × Float) :=
  targets.foldl (fun known t => setTarget t.1 t.2 known) known

/-- The value of a variable; case does not count. -/
def targetValue? (targets : List (String × Float)) (name : String) : Option Float :=
  (targets.find? fun t => sameName t.1 name).map Prod.snd

/-- **No two variables have the same name.** -/
def AreDistinct (targets : List (String × Float)) : Prop :=
  targets.Pairwise fun s t => sameName s.1 t.1 = false

instance (targets : List (String × Float)) : Decidable (AreDistinct targets) := by
  unfold AreDistinct
  infer_instance

variable {known targets : List (String × Float)} {name : String} {value : Float}

/-- A known variable keeps its place. -/
theorem length_setTarget_of_known (h : ∃ t ∈ known, sameName t.1 name = true) (value : Float) :
    (setTarget name value known).length = known.length := by
  induction known with
  | nil => simp at h
  | cons t known ih =>
      rw [setTarget]
      split
      · rfl
      · next hne =>
          obtain ⟨u, hu, hname⟩ := h
          rcases List.mem_cons.1 hu with rfl | hu
          · exact absurd hname hne
          · simp [ih ⟨u, hu, hname⟩]

theorem length_setTarget_le (name : String) (value : Float) (known : List (String × Float)) :
    (setTarget name value known).length ≤ known.length + 1 := by
  by_cases h : ∃ t ∈ known, sameName t.1 name = true
  · rw [length_setTarget_of_known h]
    omega
  · have hnew : ∀ t ∈ known, sameName t.1 name = false := by simpa using h
    simp [KeywordData.setTarget_of_new hnew]

theorem length_setTargets_le (known targets : List (String × Float)) :
    (setTargets known targets).length ≤ known.length + targets.length := by
  induction targets generalizing known with
  | nil => simp [setTargets]
  | cons t targets ih =>
      have hrest := ih (setTarget t.1 t.2 known)
      have hfirst := length_setTarget_le t.1 t.2 known
      rw [setTargets, List.foldl_cons, List.length_cons]
      rw [setTargets] at hrest
      omega

/-- **Whether the names of some variables are new**, each of them but once. -/
def AreNew (known targets : List (String × Float)) : Prop :=
  (∀ s ∈ known, ∀ t ∈ targets, sameName s.1 t.1 = false) ∧ AreDistinct targets

theorem areNew_cons_iff {t : String × Float} : AreNew known (t :: targets) ↔
    (∀ s ∈ known, sameName s.1 t.1 = false) ∧ AreNew (known ++ [t]) targets := by
  simp only [AreNew, AreDistinct, List.forall_mem_cons, List.pairwise_cons, List.forall_mem_append,
    List.not_mem_nil, false_imp_iff, implies_true, and_true, forall_and]
  tauto

/-- **Values of new variables** stand behind those before, and only such do. -/
theorem setTargets_eq_append_iff :
    setTargets known targets = known ++ targets ↔ AreNew known targets := by
  induction targets generalizing known with
  | nil => simp [setTargets, AreNew, AreDistinct]
  | cons t targets ih =>
      have hcons : setTargets known (t :: targets) = setTargets (setTarget t.1 t.2 known) targets :=
        rfl
      rw [hcons, areNew_cons_iff]
      by_cases h : ∃ s ∈ known, sameName s.1 t.1 = true
      · -- The value of a known variable is missing from the length.
        refine iff_of_false (fun heq => ?_) fun hnew => ?_
        · have hlength := length_setTargets_le (setTarget t.1 t.2 known) targets
          rw [heq, length_setTarget_of_known h] at hlength
          simp at hlength
        · obtain ⟨s, hs, hname⟩ := h
          rw [hnew.1 s hs] at hname
          cases hname
      · have hnew : ∀ s ∈ known, sameName s.1 t.1 = false := by simpa using h
        have hrest : setTargets (known ++ [t]) targets = known ++ t :: targets ↔
            AreNew (known ++ [t]) targets := by
          rw [← ih, List.append_assoc, List.singleton_append]
        rw [KeywordData.setTarget_of_new hnew, hrest, and_iff_right hnew]

/-- Setting values keeps the names of variables distinct. -/
theorem areDistinct_setTargets (hknown : AreDistinct known) (targets : List (String × Float)) :
    AreDistinct (setTargets known targets) := by
  induction targets generalizing known with
  | nil => exact hknown
  | cons t targets ih => exact ih (KeywordData.pairwise_setTarget hknown t.1 t.2)

/-- A value that was set is found under its name, and other variables have theirs. -/
theorem targetValue?_setTarget (name : String) (value : Float) (known : List (String × Float))
    (other : String) :
    targetValue? (setTarget name value known) other =
      if sameName name other then some value else targetValue? known other := by
  induction known with
  | nil => by_cases h : sameName name other <;> simp [setTarget, targetValue?, h]
  | cons t known ih =>
      rw [setTarget]
      by_cases hsame : sameName t.1 name = true
      · have hother : sameName t.1 other = sameName name other := by
          rw [sameName_comm, sameName_congr_right hsame, sameName_comm]
        by_cases h : sameName name other <;> simp [targetValue?, hsame, hother, h]
      · rw [if_neg hsame]
        by_cases ht : sameName t.1 other = true
        · have hne : sameName name other = false := by
            rw [← sameName_congr_right ht, sameName_comm]
            simpa using hsame
          simp [targetValue?, ht, hne]
        · have hstep : ∀ l, targetValue? (t :: l) other = targetValue? l other := fun l => by
            simp [targetValue?, ht]
          rw [hstep, hstep, ih]

theorem targetValue?_append (front back : List (String × Float)) (name : String) :
    targetValue? (front ++ back) name =
      (targetValue? front name).or (targetValue? back name) := by
  unfold targetValue?
  rw [List.find?_append]
  cases front.find? fun t => sameName t.1 name <;> rfl

/-- **The latest value of a variable counts.** -/
theorem targetValue?_setTargets (known targets : List (String × Float)) (name : String) :
    targetValue? (setTargets known targets) name =
      targetValue? (targets.reverse ++ known) name := by
  induction targets generalizing known with
  | nil => rfl
  | cons t targets ih =>
      have hcons : setTargets known (t :: targets) = setTargets (setTarget t.1 t.2 known) targets :=
        rfl
      have hlatest : targetValue? (setTarget t.1 t.2 known) name =
          targetValue? ([t] ++ known) name := by
        rw [targetValue?_setTarget, targetValue?_append]
        by_cases h : sameName t.1 name = true <;> simp [targetValue?, h]
      rw [hcons, ih, targetValue?_append, hlatest, ← targetValue?_append, List.reverse_cons,
        List.append_assoc]

namespace KeywordStore

variable {s s' : KeywordStore} {catalogue : Catalogue} {k : Keyword} {lines : List (List String)}

/-! ## Both ways to give variables -/

/-- **The arguments of a line for a variable**: its name and a text for the value. -/
def GivesTarget (t : String × Float) (line : List String) : Prop :=
  ∃ text, line = [t.1, text] ∧ readFloat? text = some t.2

/-- The line that is written for a variable is such. -/
theorem givesTarget_precise (t : String × Float) :
    GivesTarget t [t.1, Layout.precise.text t.2] := ⟨_, rfl, Layout.readFloat?_precise t.2⟩

/-- Sets one variable after the other. -/
def addTargets (s : KeywordStore) (name : String) (targets : List (String × Float)) :
    Except Error KeywordStore :=
  targets.foldlM (fun s t => s.addTarget name t.1 t.2) s

/-- Reads one line after the other into a keyword; none if a line was not taken. -/
def takeLines? (s : KeywordStore) (catalogue : Catalogue) (name : String)
    (lines : List (List String)) : Option KeywordStore :=
  lines.foldlM (fun s values => s.take? catalogue name values) s

theorem targets_of_find? (hfind : s.find? name = some k) (hfit : k.data = .fit known) :
    s.targets name = known := by
  unfold KeywordStore.targets data?
  rw [hfind, Option.map_some, hfit]

/-- **Variables that are set** stand behind those before. -/
theorem addTargets_eq (hfind : s.find? name = some k) (hfit : k.data = .fit known)
    (targets : List (String × Float)) :
    ∃ added, s.addTargets name targets = .ok added ∧ added.targets name = known ++ targets := by
  induction targets generalizing s k known with
  | nil => exact ⟨s, rfl, by rw [List.append_nil, targets_of_find? hfind hfit]⟩
  | cons t targets ih =>
      have hstep : s.addTarget name t.1 t.2 =
          .ok (s.update name fun k => k.setTo (.fit (known ++ [t]))) := by
        rw [addTarget, setWith, hfind]
        dsimp only
        rw [hfit]
        rfl
      obtain ⟨added, hadded, htargets⟩ :=
        ih (find?_setTo hfind (.fit (known ++ [t]))) rfl
      refine ⟨added, ?_, by simpa using htargets⟩
      rw [addTargets, List.foldlM_cons, hstep]
      exact hadded

/-- **Variables that are read** are set by name. -/
theorem takeLines?_eq (catalogue : Catalogue) (hfind : s.find? name = some k)
    (hfit : k.data = .fit known) (hlines : List.Forall₂ GivesTarget targets lines) :
    ∃ read, s.takeLines? catalogue name lines = some read ∧
      read.targets name = setTargets known targets := by
  induction hlines generalizing s k known with
  | nil => exact ⟨s, rfl, targets_of_find? hfind hfit⟩
  | @cons t line targets lines hline _ ih =>
      obtain ⟨text, rfl, htext⟩ := hline
      have hread : k.data.read k.name catalogue [t.1, text] =
          .ok (.fit (setTarget t.1 t.2 known)) := by
        rw [hfit, KeywordData.read, KeywordData.readNumber_eq_ok_iff.2 htext]
        rfl
      have hstep : s.take? catalogue name [t.1, text] =
          some (s.update name fun k => k.setTo (.fit (setTarget t.1 t.2 known))) := by
        rw [take?_eq hfind, hread]
        rfl
      obtain ⟨read, hrest, htargets⟩ := ih (find?_setTo hfind _) rfl
      refine ⟨read, ?_, htargets⟩
      rw [takeLines?, List.foldlM_cons, hstep]
      exact hrest

/-- **Both ways leave the same variables** exactly if each is new when it is given. Lines leave at
most one variable of a name, with its latest value. -/
theorem addTargets_agrees_iff (hfind : s.find? name = some k) (hfit : k.data = .fit known)
    (hlines : List.Forall₂ GivesTarget targets lines) :
    ∃ added read, s.addTargets name targets = .ok added ∧
      s.takeLines? catalogue name lines = some read ∧
      (added.targets name = read.targets name ↔ AreNew known targets) ∧
      (AreDistinct known → AreDistinct (read.targets name)) ∧
      ∀ x, targetValue? (read.targets name) x = targetValue? (targets.reverse ++ known) x := by
  obtain ⟨added, hadd, hadded⟩ := addTargets_eq hfind hfit targets
  obtain ⟨read, htake, hread⟩ := takeLines?_eq catalogue hfind hfit hlines
  refine ⟨added, read, hadd, htake, ?_, fun hknown => ?_, fun x => ?_⟩
  · rw [hadded, hread, eq_comm, setTargets_eq_append_iff]
  · exact hread ▸ areDistinct_setTargets hknown targets
  · rw [hread, targetValue?_setTargets]

/-- Two variables of which one is given twice, in letters of either case. -/
def repeatedTargets : List (String × Float) := [("a", 1), ("b", 2), ("A", 3)]

/-- The lines that are written for them. -/
def repeatedLines : List (List String) :=
  repeatedTargets.map fun t => [t.1, Layout.precise.text t.2]

theorem givesTarget_repeatedLines : List.Forall₂ GivesTarget repeatedTargets repeatedLines :=
  List.forall₂_map_right_iff.2 (List.forall₂_same.2 fun t _ => givesTarget_precise t)

/-- Lines leave two variables, each under one name. -/
theorem addTargets_agrees_repeated :
    ∃ k, NodeType.fit.keywords.find? "Fit" = some k ∧ k.data = .fit [] ∧
      List.Forall₂ GivesTarget repeatedTargets repeatedLines ∧ ¬ AreNew [] repeatedTargets ∧
      ∃ added read, NodeType.fit.keywords.addTargets "Fit" repeatedTargets = .ok added ∧
        NodeType.fit.keywords.takeLines? .empty "Fit" repeatedLines = some read ∧
        (added.targets "Fit" = read.targets "Fit" ↔ AreNew [] repeatedTargets) ∧
        (AreDistinct [] → AreDistinct (read.targets "Fit")) ∧
        ∀ x, targetValue? (read.targets "Fit") x =
          targetValue? (repeatedTargets.reverse ++ []) x := by
  refine ⟨_, rfl, rfl, givesTarget_repeatedLines, fun hnew => ?_,
    addTargets_agrees_iff rfl rfl givesTarget_repeatedLines⟩
  revert hnew
  simp only [AreNew, List.not_mem_nil, false_imp_iff, implies_true, true_and]
  decide

/-- Setting these variables one by one leaves three, and reading their lines two. -/
theorem addTargets_disagrees :
    ∃ added read, NodeType.fit.keywords.addTargets "Fit" repeatedTargets = .ok added ∧
      NodeType.fit.keywords.takeLines? .empty "Fit" repeatedLines = some read ∧
      added.targets "Fit" ≠ read.targets "Fit" := by
  obtain ⟨k, hfind, hfit⟩ : ∃ k, NodeType.fit.keywords.find? "Fit" = some k ∧ k.data = .fit [] :=
    ⟨_, rfl, rfl⟩
  obtain ⟨added, hadd, hadded⟩ := addTargets_eq hfind hfit repeatedTargets
  obtain ⟨read, htake, hread⟩ := takeLines?_eq .empty hfind hfit givesTarget_repeatedLines
  refine ⟨added, read, hadd, htake, fun heq => ?_⟩
  have hlength := congrArg List.length (hadded.symm.trans (heq.trans hread))
  revert hlength
  decide

end KeywordStore

end SiteAnalysis
