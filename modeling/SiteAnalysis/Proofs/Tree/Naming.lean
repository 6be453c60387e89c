import SiteAnalysis.Proofs.Node.Restored
import SiteAnalysis.Proofs.Tree.Forest
import SiteAnalysis.Tree.Naming

set_option autoImplicit false

/-! # Placing trees that were read

A tree may be renamed and its branches may change their levels when it is placed (`Node.IsPlaced`).
Main statements:

* `Sequence.exists_of_place`: what a tree is like that has been placed.
* `Sequence.place_named`: a tree in which no name is missing is placed as it is, unless one of its
  names is taken.
-/

namespace SiteAnalysis

/-! ## Changes of nodes that are placed -/

/-- **A node that was placed**: another name and another level of its branch may be given to it. -/
def Node.IsPlaced (n m : Node) : Prop :=
  ∃ branch, branch.map Level.keyword = n.branch.map Level.keyword ∧
    (m = { n with branch } ∨ ∃ name, m = { n.rename name with branch })

namespace Node.IsPlaced

variable {l m n : Node} {P : String → Prop} {catalogue : Catalogue}
  {R : KeywordData → KeywordData → Prop}

theorem refl (n : Node) : n.IsPlaced n := ⟨n.branch, rfl, .inl rfl⟩

theorem rename (n : Node) (name : String) : n.IsPlaced (n.rename name) :=
  ⟨n.branch, rfl, .inr ⟨name, by simp only [Node.rename]⟩⟩

theorem identity (h : n.IsPlaced m) : m.id = n.id := by
  obtain ⟨branch, -, rfl | ⟨name, rfl⟩⟩ := h <;> rfl

theorem type (h : n.IsPlaced m) : m.type = n.type := by
  obtain ⟨branch, -, rfl | ⟨name, rfl⟩⟩ := h <;> simp only [Node.type, Node.rename]

theorem branch (h : n.IsPlaced m) : m.branch.map Level.keyword = n.branch.map Level.keyword := by
  obtain ⟨branch, hbranch, rfl | ⟨name, rfl⟩⟩ := h <;> exact hbranch

theorem branch_isNone (h : n.IsPlaced m) : n.branch.isNone = m.branch.isNone := by
  have := congrArg Option.isNone h.branch
  simpa using this.symm

theorem fits (h : n.IsPlaced m) (hn : n.Fits R P catalogue) : m.Fits R P catalogue := by
  obtain ⟨branch, hbranch, rfl | ⟨name, rfl⟩⟩ := h
  · exact hn.setBranch hbranch
  · exact (hn.rename name).setBranch (by rwa [Node.branch_rename])

theorem setBranch (h : n.IsPlaced m) {branch : Option Level}
    (hbranch : branch.map Level.keyword = n.branch.map Level.keyword) :
    n.IsPlaced { m with branch } := by
  obtain ⟨branch', -, rfl | ⟨name, rfl⟩⟩ := h
  · exact ⟨branch, hbranch, .inl rfl⟩
  · exact ⟨branch, hbranch, .inr ⟨name, rfl⟩⟩

theorem inContext {c : Context} (h : l.IsPlaced m)
    (hmn : { m with branch := m.branch.map fun l => { l with context := c } } = n) :
    l.IsPlaced n := by
  subst hmn
  refine h.setBranch ?_
  rw [← h.branch, Option.map_map]
  rfl

end Node.IsPlaced

/-! ## Naming -/

theorem isWordName_generatedName (t : NodeType) (number : Nat) :
    IsWordName (generatedName t number) := by
  have hdigits : IsWordName (toString number) := fun c hc => by
    rw [toList_toString_nat] at hc
    exact isWordChar_of_isDigit (areDigits_toDigits number c hc)
  have hzero : isWordChar '0' = true := by decide
  unfold generatedName IsWordName
  rw [String.toList_append]
  refine List.forall_mem_append.2 ⟨t.isWordChar_of_mem_keyword, ?_⟩
  split
  · rw [String.toList_append]
    exact List.forall_mem_append.2 ⟨by simpa using hzero, hdigits⟩
  · exact hdigits

/-- A name that is given out stays as it is when a node takes it. -/
theorem niceName_generatedName (t : NodeType) (number : Nat) :
    niceName (generatedName t number) = generatedName t number :=
  niceName_of_isWordName (isWordName_generatedName t number)

/-- A name that is given out is not empty. -/
theorem generatedName_ne (t : NodeType) (number : Nat) : generatedName t number ≠ "" := by
  intro hempty
  rw [generatedName, ← String.toList_inj, String.toList_append] at hempty
  exact t.isPlain_keyword.1 (List.append_eq_nil_iff.1 hempty).1

/-- Gives a name to a node that lacks it. -/
def Level.named (level : Level) (reserved : List String) (n : Node) :
    Node × Level × List String :=
  if n.lacksName then
    (n.rename (level.nextName n.type reserved).1, (level.nextName n.type reserved).2,
      foldCase (level.nextName n.type reserved).1 :: reserved)
  else (n, level, reserved)

namespace Forest

theorem nameAll_cons (n : Node) (branch rest : Forest) (level : Level) (reserved : List String) :
    (cons n branch rest).nameAll level reserved =
      match level.named reserved n with
      | (n, level, reserved) =>
        match n.branch with
        | none => (cons n branch (rest.nameAll level reserved).1, (rest.nameAll level reserved).2)
        | some inner =>
          match branch.nameAll inner reserved with
          | (branch, inner, reserved) =>
            (cons { n with branch := some inner } branch (rest.nameAll level reserved).1,
              (rest.nameAll level reserved).2) := by
  rfl

/-- Nothing is named where no name is missing. -/
theorem nameAll_of_named {f : Forest} (h : ∀ n ∈ f.nodes, n.lacksName = false) (level : Level)
    (reserved : List String) : f.nameAll level reserved = (f, level, reserved) := by
  induction f generalizing level reserved with
  | nil => rfl
  | cons n branch rest ihb ihr =>
      simp only [nodes, List.mem_cons, List.mem_append] at h
      have hn : level.named reserved n = (n, level, reserved) := by
        rw [Level.named, h n (.inl rfl)]
        rfl
      rw [nameAll_cons, hn]
      have hrest := ihr (fun m hm => h m (.inr (.inr hm))) level reserved
      dsimp only
      split
      · rw [hrest]
      · next inner hinner =>
          rw [ihb (fun m hm => h m (.inr (.inl hm))) inner reserved]
          dsimp only
          rw [hrest, ← hinner]

theorem named_spec (level : Level) (reserved : List String) (n : Node) :
    n.IsPlaced (level.named reserved n).1 ∧ (level.named reserved n).1.lacksName = false ∧
      (level.named reserved n).2.1 =
        { level with counters := (level.named reserved n).2.1.counters } := by
  unfold Level.named
  split
  · refine ⟨.rename n _, ?_, rfl⟩
    have hne := generatedName_ne n.type
      (freeNumber n.type reserved reserved.length (level.counter n.type + 1))
    simp [Node.lacksName, Node.rename, Level.nextName, niceName_generatedName, hne]
  · next hnamed => exact ⟨.refl n, by simpa using hnamed, rfl⟩

/-- **Naming gives a name to every node that needs one**, and changes nothing else but the levels
of branches. -/
theorem nameAll_spec (f : Forest) (level : Level) (reserved : List String) :
    Rel Node.IsPlaced f (f.nameAll level reserved).1 ∧
      (f.IsShaped → ∀ n ∈ (f.nameAll level reserved).1.nodes, n.lacksName = false) ∧
      (f.nameAll level reserved).2.1 =
        { level with counters := (f.nameAll level reserved).2.1.counters } := by
  induction f generalizing level reserved with
  | nil => exact ⟨.nil, by simp [nameAll, nodes], rfl⟩
  | cons n branch rest ihb ihr =>
      rw [nameAll_cons]
      obtain ⟨hplaced, hnamed, hlevel⟩ := named_spec level reserved n
      generalize level.named reserved n = named at *
      obtain ⟨m, level', reserved'⟩ := named
      dsimp only at hplaced hnamed hlevel ⊢
      -- A node without a branch has nothing in it that could lack a name.
      split
      · next hnone =>
          obtain ⟨hrest, hrestNamed, hrestLevel⟩ := ihr level' reserved'
          refine ⟨.cons hplaced (.refl Node.IsPlaced.refl branch) hrest, fun hshaped => ?_, ?_⟩
          · obtain rfl : branch = nil := hshaped.1 (by
              have := hplaced.branch_isNone
              rw [hnone] at this
              simpa using this)
            simpa [nodes, hnamed] using hrestNamed hshaped.2.2
          · dsimp only
            rw [hrestLevel, hlevel]
      · next inner hinner =>
          obtain ⟨hbranch, hbranchNamed, hinnerLevel⟩ := ihb inner reserved'
          obtain ⟨hrest, hrestNamed, hrestLevel⟩ := ihr level' (branch.nameAll inner reserved').2.2
          refine ⟨.cons (hplaced.setBranch ?_) hbranch hrest, fun hshaped => ?_, ?_⟩
          · have hkeyword := hplaced.branch
            rw [hinner] at hkeyword
            rw [← hkeyword, hinnerLevel]
            rfl
          · have hm : ∀ branch, Node.lacksName { m with branch } = false := fun _ => hnamed
            simpa [nodes, hm, or_imp, forall_and] using
              ⟨hbranchNamed hshaped.2.1, hrestNamed hshaped.2.2⟩
          · dsimp only
            rw [hrestLevel, hlevel]

/-- The names of a tree: that of its node, if it has one, and those in its branch. -/
theorem names_single (t : Subtree) : (single t).names =
    (if t.node.name.isEmpty then [] else [foldCase t.node.name]) ++ t.branch.names := by
  rw [names_eq, nodes_single, List.filter_cons]
  cases t.node.name.isEmpty <;> rfl

end Forest

/-! ## Placing -/

namespace Sequence

open Forest (single)

variable {s s' : Sequence} {t : Subtree} {taken : List String} {naming : Bool}

/-- What no name keeps out of a tree has no name twice. -/
theorem clash?_eq_none_iff (htaken : taken.Nodup) (hbranch : t.branch.names.Nodup) :
    clash? taken t = none ↔ (taken ++ (single t).names).Nodup := by
  rw [Forest.names_single]
  unfold clash?
  dsimp only
  -- Names of the branch are looked at first, then that of the node itself.
  cases hfind : t.branch.names.find? taken.contains with
  | some name =>
      have hmem : name ∈ taken := by simpa using List.find?_some hfind
      have hmem' := List.mem_of_find?_eq_some hfind
      refine iff_of_false (by simp) fun hnodup => ?_
      exact List.disjoint_of_nodup_append hnodup hmem (List.mem_append_right _ hmem')
  | none =>
      have hapart : ∀ x ∈ t.branch.names, x ∉ taken := by simpa using hfind
      dsimp only
      split
      · rw [List.nil_append]
        exact iff_of_true rfl (htaken.append hbranch fun x hx hx' => hapart x hx' hx)
      · split
        · next hclash =>
            refine iff_of_false (by simp) fun hnodup => ?_
            rw [List.singleton_append] at hnodup
            simp only [Bool.or_eq_true, List.contains_iff_mem] at hclash
            rcases hclash with hclash | hclash
            · exact List.disjoint_of_nodup_append hnodup hclash (by simp)
            · exact (List.nodup_cons.1 hnodup.of_append_right).1 hclash
        · next hfree =>
            simp only [Bool.or_eq_true, List.contains_iff_mem, not_or] at hfree
            refine iff_of_true rfl (htaken.append (List.nodup_cons.2 ⟨hfree.2, hbranch⟩) ?_)
            intro x hx hx'
            rcases List.mem_cons.1 hx' with rfl | hx'
            · exact hfree.1 hx
            · exact hapart x hx' hx

theorem irrelevant?_eq_none_iff {c : Context} :
    irrelevant? c t = none ↔ ∀ n ∈ (single t).nodes, n.type.isRelevantIn c = true := by
  simp [irrelevant?]

/-- The tree with its names as it is placed, and the level then. -/
def named (s : Sequence) (t : Subtree) (taken : List String) (naming : Bool) : Forest × Level :=
  if naming then
    (((single t).nameAll s.level (taken ++ t.branch.names)).1,
      ((single t).nameAll s.level (taken ++ t.branch.names)).2.1)
  else (single t, s.level)

theorem named_spec (s : Sequence) (t : Subtree) (taken : List String) (naming : Bool) :
    Forest.Rel Node.IsPlaced (single t) (s.named t taken naming).1 ∧
      ((single t).IsShaped → naming = true →
        ∀ n ∈ (s.named t taken naming).1.nodes, n.lacksName = false) ∧
      (s.named t taken naming).2 =
        { s.level with counters := (s.named t taken naming).2.counters } ∧
      (naming = false → (s.named t taken naming).2 = s.level) := by
  unfold named
  split
  · next hnaming =>
      obtain ⟨hplaced, hnamed, hlevel⟩ :=
        (single t).nameAll_spec s.level (taken ++ t.branch.names)
      exact ⟨hplaced, fun hshaped _ => hnamed hshaped, hlevel, by simp [hnaming]⟩
  · next hnaming =>
      exact ⟨.refl Node.IsPlaced.refl _, fun _ h => absurd h hnaming, rfl, fun _ => rfl⟩

/-- How a tree is named when it is placed. -/
theorem if_naming_eq (s : Sequence) (t : Subtree) (taken : List String) (naming : Bool) :
    (if naming then
      let (tree, level, _) := (single t).nameAll s.level (taken ++ t.branch.names)
      (tree, level)
    else (single t, s.level)) = s.named t taken naming := rfl

theorem place_eq (s : Sequence) (t : Subtree) (taken : List String) (naming : Bool) :
    s.place t none taken naming =
      match irrelevant? s.level.context t, clash? taken t with
      | some wrong, _ => .error (.wrongContext wrong.keyword s.level.context.keyword)
      | none, some name => .error (.duplicateName name)
      | none, none => .ok ⟨(s.named t taken naming).2,
          s.nodes.append ((s.named t taken naming).1.setContext s.level.context)⟩ := by
  obtain ⟨hplaced, -⟩ := s.named_spec t taken naming
  unfold place
  rw [if_naming_eq]
  generalize s.named t taken naming = tree at hplaced
  obtain ⟨f, level⟩ := tree
  cases irrelevant? s.level.context t with
  | some wrong => rfl
  | none =>
      cases clash? taken t with
      | some name => rfl
      | none =>
          -- One tree stays one tree.
          cases hplaced with
          | cons hnode hbranch hrest =>
              cases hrest
              rfl

/-- **What a tree is like that has been placed** behind all others. -/
theorem exists_of_place (hshaped : (single t).IsShaped)
    (h : s.place t none taken naming = .ok s') :
    ∃ f, s'.nodes = s.nodes.append f ∧ Forest.Rel Node.IsPlaced (single t) f ∧
      (naming = true → ∀ n ∈ f.nodes, n.lacksName = false) ∧
      (∀ n ∈ (single t).nodes, n.type.isRelevantIn s.level.context = true) ∧
      s'.level = { s.level with counters := s'.level.counters } ∧
      (naming = false → s'.level = s.level) := by
  obtain ⟨hplaced, hnamed, hlevel, hsame⟩ := s.named_spec t taken naming
  rw [place_eq] at h
  split at h
  · cases h
  · cases h
  · next hrelevant _ =>
      obtain rfl := Except.ok.inj h
      refine ⟨_, rfl, ?_, fun hnaming => ?_, irrelevant?_eq_none_iff.1 hrelevant, hlevel, hsame⟩
      · exact hplaced.trans (fun hlm hmn => hlm.inContext hmn) (.map (fun _ => rfl) _)
      · rw [Forest.setContext, Forest.nodes_map]
        exact List.forall_mem_map.2 (hnamed hshaped hnaming)

/-- **A tree in which no name is missing is placed as it is**, unless one of its names is taken. -/
theorem place_named (hnamed : ∀ n ∈ (single t).nodes, n.lacksName = false)
    (hrelevant : ∀ n ∈ (single t).nodes, n.type.isRelevantIn s.level.context = true) :
    s.place t none taken naming =
      match clash? taken t with
      | some name => .error (.duplicateName name)
      | none => .ok ⟨s.level, s.nodes.append ((single t).setContext s.level.context)⟩ := by
  have htree : s.named t taken naming = (single t, s.level) := by
    rw [named, Forest.nameAll_of_named hnamed]
    split <;> rfl
  rw [place_eq, irrelevant?_eq_none_iff.2 hrelevant, htree]
  cases clash? taken t <;> rfl

end Sequence

end SiteAnalysis
