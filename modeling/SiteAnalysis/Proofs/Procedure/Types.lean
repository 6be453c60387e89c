import SiteAnalysis.Proofs.Procedure.RoundTrip
import SiteAnalysis.Proofs.Tree.Types

set_option autoImplicit false

/-! # Types and contexts in a procedure

A procedure has a context, and readers are given a registry of the types they may make. Both are
about nodes; the blocks of dynamic sites in a selection escape them. Main statements:

* `Procedure.types_read_iff`: when all types in a tree that was read are registered.
* `Procedure.types_changed_iff`: when all types in a tree that was changed may occur in its context,
  which all its lists keep.
-/

namespace SiteAnalysis

namespace Procedure

variable {p p' : Procedure} {lookup : Lookup} {c : Context}

/-! ## Reading -/

/-- **What a procedure is read from.** -/
inductive Source where
  | text (text : String)
  | document (j : Json)
  | json (text : String)
  | toml (text : String)

/-- **Reads a procedure** from any source. -/
def read (p : Procedure) (lookup : Lookup) : Source → Except Error Unit × Procedure
  | .text text => p.readText lookup text
  | .document j => p.readDocument lookup j
  | .json text => p.readJson lookup text
  | .toml text => p.readToml lookup text

/-- What a tree that is taken over is like. -/
def IsTaken (lookup : Lookup) (p : Procedure) (s : Sequence) : Prop :=
  s.nodes.IsAdmitted lookup.registry ∧ s.IsIn p.root.level.context

theorem isTaken_of_takeOver {read : Except Error Sequence × NodeId}
    (hread : ∀ s, read.1 = .ok s → p.IsTaken lookup s) (h : p.takeOver read = (.ok (), p')) :
    p.IsTaken lookup p'.root := by
  obtain ⟨s, g, hs, hlink, rfl⟩ := takeOver_eq_ok_iff.1 h
  obtain ⟨hadmitted, hin⟩ := hread s hs
  exact ⟨hadmitted.link hlink, hin.link hlink⟩

theorem isTaken_of_readDocument {j : Json} (h : p.readDocument lookup j = (.ok (), p')) :
    p.IsTaken lookup p'.root := by
  refine isTaken_of_takeOver (fun s hs => ?_) h
  have hread : Sequence.ofJson lookup p.emptyRoot p.fresh j = (.ok s, _) := Prod.ext hs rfl
  have hin : s.IsIn p.emptyRoot.level.context := Sequence.isIn_ofJson hread
  exact ⟨Sequence.isAdmitted_ofJson hread, hin⟩

/-- **What was read is admitted by the registry and stands in the context.** -/
theorem isTaken_of_read {source : Source} (h : p.read lookup source = (.ok (), p')) :
    p.IsTaken lookup p'.root := by
  cases source with
  | text text =>
      refine isTaken_of_takeOver (fun s hs => ?_) h
      have hread : Sequence.ofText lookup p.emptyRoot p.fresh text = (.ok s, _) := Prod.ext hs rfl
      have hin : s.IsIn p.emptyRoot.level.context := Sequence.isIn_ofText hread
      exact ⟨Sequence.isAdmitted_ofText hread, hin⟩
  | document j => exact isTaken_of_readDocument h
  | json text =>
      rw [read, readJson] at h
      split at h
      · exact isTaken_of_readDocument h
      · cases h
  | toml text =>
      rw [read, readToml] at h
      split at h
      · exact isTaken_of_readDocument h
      · cases h

/-- A procedure keeps its tree when it cannot be read. -/
theorem root_takeOver_of_error {read : Except Error Sequence × NodeId} {e : Error}
    (h : (p.takeOver read).1 = .error e) : (p.takeOver read).2.root = p.root := by
  obtain ⟨read, fresh⟩ := read
  cases read with
  | error e' => rfl
  | ok s =>
      unfold takeOver at h ⊢
      dsimp only at h ⊢
      split
      · rfl
      · next hlink =>
          rw [hlink] at h
          cases h

theorem root_read_of_error {source : Source} {e : Error} (h : (p.read lookup source).1 = .error e) :
    (p.read lookup source).2.root = p.root := by
  cases source with
  | text text => exact root_takeOver_of_error h
  | document j => exact root_takeOver_of_error h
  | json text =>
      simp only [read, readJson] at h ⊢
      split at h
      · exact root_takeOver_of_error h
      · rfl
  | toml text =>
      simp only [read, readToml] at h ⊢
      split at h
      · exact root_takeOver_of_error h
      · rfl

/-- **When all types in a tree that was read are registered.** Those of its nodes are; the type of
dynamic sites has to be only if a selection holds a block of them. -/
theorem types_read_iff {source : Source} (h : p.read lookup source = (.ok (), p')) :
    (∀ n ∈ p'.root.nodes.nodes, lookup.registry.admits n.type = true) ∧
      ((∀ t ∈ p'.root.nodes.types, lookup.registry.admits t = true) ↔
        lookup.registry.admits .dynamicSite = true ∨ ∀ n ∈ p'.root.nodes.nodes, n.blocks = []) :=
  have hadmitted := (isTaken_of_read h).1
  ⟨hadmitted, Forest.forall_types_iff hadmitted⟩

/-- A text with a selection that holds a block. -/
def holding : String := "Select A\nDynamicSite\nEndDynamicSite\nEndSelect\n"

/-- A text with a selection that holds none. -/
def plain : String := "Select A\nForEach\nSelect B\nEndSelect\nEndForEach\nEndSelect\n"

/-- A registry of selections alone is enough for selections without blocks. -/
theorem types_read_plain :
    let lookup : Lookup := ⟨.empty, ⟨[.select]⟩⟩
    let read := (ofContext .analysis "Analysis").read lookup (.text plain)
    read.1 = .ok () ∧ read.2.root.nodes.types = [.select, .select] ∧
      ∀ t ∈ read.2.root.nodes.types, lookup.registry.admits t = true := by
  intro lookup read
  have hboth : read.1.isOk = true ∧ read.2.root.nodes.types = [.select, .select] ∧
      ∀ n ∈ read.2.root.nodes.nodes, n.blocks.isEmpty = true := by
    decide +kernel
  obtain ⟨hok, htypes, hblocks⟩ := hboth
  have hread : read = (.ok (), read.2) := eq_ok_of_isOk hok
  refine ⟨congrArg Prod.fst hread, htypes, (types_read_iff hread).2.2 (.inr fun n hn => ?_)⟩
  exact List.isEmpty_iff.1 (hblocks n hn)

/-- A registry without dynamic sites does not keep them out of a selection. -/
theorem types_read_holding :
    let lookup : Lookup := ⟨.empty, ⟨[.select]⟩⟩
    let read := (ofContext .analysis "Analysis").read lookup (.text holding)
    read.1.isOk = true ∧ read.2.root.nodes.types = [.select, .dynamicSite] ∧
      ¬ ∀ t ∈ read.2.root.nodes.types, lookup.registry.admits t = true := by
  decide +kernel

/-! ## Changes -/

/-- **A change of the tree of a procedure.** -/
inductive Change where
  | append (t : Subtree) (index : Option Nat)
  | appendToBranch (owner : NodeId) (t : Subtree) (index : Option Nat)
  | removeNode (id : NodeId)
  | read (lookup : Lookup) (source : Source)

/-- **Changes a procedure.** What fails leaves the tree as it was. -/
def change (p : Procedure) : Change → Procedure
  | .append t index =>
    match p.append t index with
    | .ok p => p
    | .error _ => p
  | .appendToBranch owner t index =>
    match p.appendToBranch owner t index with
    | .ok p => p
    | .error _ => p
  | .removeNode id =>
    match p.removeNode id with
    | some (_, p) => p
    | none => p
  | .read lookup source => (p.read lookup source).2

/-- Makes one change after the other. -/
def changeAll (p : Procedure) (changes : List Change) : Procedure := changes.foldl change p

/-- **A change leaves a tree in its context.** -/
theorem isIn_change (h : p.root.IsIn c) (change : Change) : (p.change change).root.IsIn c := by
  cases change with
  | append t index =>
      simp only [Procedure.change]
      split
      · next p' happend =>
          obtain ⟨root, hroot, heq⟩ := bind_eq_ok_iff.1 happend
          obtain rfl := Except.ok.inj heq
          exact h.append hroot
      · exact h
  | appendToBranch owner t index =>
      simp only [Procedure.change]
      split
      · next p' happend =>
          obtain ⟨root, hroot, heq⟩ := bind_eq_ok_iff.1 happend
          obtain rfl := Except.ok.inj heq
          exact h.appendToBranch hroot
      · exact h
  | removeNode id =>
      simp only [Procedure.change]
      split
      · next p' hsome =>
          obtain ⟨removed, hremove, heq⟩ := Option.map_eq_some_iff.1 hsome
          obtain ⟨-, rfl⟩ := Prod.mk.inj heq
          exact h.remove? hremove
      · exact h
  | read lookup source =>
      simp only [Procedure.change]
      cases hread : (p.read lookup source).1 with
      | error e =>
          rw [root_read_of_error hread]
          exact h
      | ok u => exact h.outermost ▸ (isTaken_of_read (Prod.ext hread rfl)).2

theorem isIn_changeAll (h : p.root.IsIn c) (changes : List Change) :
    (p.changeAll changes).root.IsIn c := by
  induction changes generalizing p with
  | nil => exact h
  | cons change changes ih => exact ih (isIn_change h change)

theorem isRelevantIn_dynamicSite {c : Context} :
    NodeType.isRelevantIn .dynamicSite c = true ↔ c ≠ .generation := by
  cases c <;> decide

/-- **When all types in a tree that was changed may occur in its context.** All its lists keep the
context and its nodes may occur there; blocks of dynamic sites that selections hold may not when
configurations are made. -/
theorem types_changed_iff (h : p.root.nodes = .nil) (changes : List Change) :
    let c := p.root.level.context
    let root := (p.changeAll changes).root
    (∀ l ∈ root.levels, l.context = c) ∧
      (∀ n ∈ root.nodes.nodes, n.type.isRelevantIn c = true) ∧
      ((∀ t ∈ root.nodes.types, t.isRelevantIn c = true) ↔
        c ≠ .generation ∨ ∀ n ∈ root.nodes.nodes, n.blocks = []) := by
  intro c root
  have hstart : p.root.IsIn c := ⟨rfl, fun n hn => by rw [h] at hn; cases hn⟩
  have hin : root.IsIn c := isIn_changeAll hstart changes
  have hrelevant : ∀ n ∈ root.nodes.nodes, n.type.isRelevantIn c = true := fun n hn =>
    (hin.nodes n hn).relevant
  refine ⟨hin.levels, hrelevant, ?_⟩
  rw [← isRelevantIn_dynamicSite]
  exact Forest.forall_types_iff hrelevant

/-- A text is read in which a selection stands in another, and the one inside is taken out. -/
def readAndRemoved : List Change :=
  [.read ⟨.empty, .full⟩ (.text plain), .append ⟨.ofType ⟨2⟩ .box, .nil⟩ (some 0),
    .appendToBranch ⟨0⟩ ⟨.ofType ⟨3⟩ .distance, .nil⟩ none, .removeNode ⟨1⟩]

/-- What is left when configurations are made: the box and the outer selection, since a distance
may not stand there. -/
theorem types_changed_readAndRemoved :
    let p := ofContext .generation "Generation"
    let root := (p.changeAll readAndRemoved).root
    p.root.nodes = .nil ∧ root.nodes.types = [.box, .select] ∧
      (∀ l ∈ root.levels, l.context = .generation) ∧
      ∀ t ∈ root.nodes.types, t.isRelevantIn .generation = true := by
  intro p root
  have hleft : root.nodes.types = [.box, .select] ∧
      ∀ n ∈ root.nodes.nodes, n.blocks.isEmpty = true := by
    decide +kernel
  obtain ⟨htypes, hblocks⟩ := hleft
  have hnone : p.root.nodes = .nil := rfl
  obtain ⟨hlevels, -, hiff⟩ := types_changed_iff hnone readAndRemoved
  exact ⟨hnone, htypes, hlevels, hiff.2 (.inr fun n hn => List.isEmpty_iff.1 (hblocks n hn))⟩

/-- A text with a block of dynamic sites is read when configurations are made, where they may not
occur. -/
theorem types_changed_holding :
    let p := ofContext .generation "Generation"
    let root := (p.changeAll [.read ⟨.empty, .full⟩ (.text holding)]).root
    (p.read ⟨.empty, .full⟩ (.text holding)).1.isOk = true ∧
      root.nodes.types = [.select, .dynamicSite] ∧
      ¬ ∀ t ∈ root.nodes.types, t.isRelevantIn .generation = true := by
  decide +kernel

end Procedure

end SiteAnalysis
