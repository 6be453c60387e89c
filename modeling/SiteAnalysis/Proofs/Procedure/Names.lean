import SiteAnalysis.Procedure
import SiteAnalysis.Proofs.Tree.DocumentNames

set_option autoImplicit false

/-! # Names that a procedure is given

Reading gives a name to every node that needs one and has none, node by node, and knows nothing of
the names that are still to come. So a name that is given to one node only is refused where it was
generated for an earlier one (`Procedure.CollidesInText`, `Procedure.CollidesInDocument`). This is
the only way in which distinct names can be refused as taken: `Procedure.refusesGenerated`.
-/

namespace SiteAnalysis

/-! ## Failures of a kind -/

/-- **Whether something fails** with an error of a kind. -/
def FailsWith {α : Type} (x : Except Error α) (P : Error → Prop) : Prop :=
  ∃ e, x = .error e ∧ P e

namespace Error

/-- Whether the cause of an error is a name that is taken. -/
def isDuplicateName (e : Error) : Bool :=
  match e.rootCause with
  | duplicateName _ => true
  | _ => false

theorem isNamesake_of_isDuplicateName {e : Error} (h : e.isDuplicateName = true) :
    e.IsNamesake := by
  induction e using problems.induct with
  | case1 es ih => cases h
  | case2 context source ih =>
      rw [IsNamesake, problems]
      exact ih h
  | case3 e h₁ h₂ =>
      have hproblems : e.problems = [e] := by
        rw [problems]
        · exact h₁
        · exact h₂
      refine ⟨e, by simp [hproblems], ?_⟩
      unfold isDuplicateName at h
      split at h
      · next name heq => exact ⟨name, heq⟩
      · cases h

/-- Whether a name is among the problems of reading. -/
def reportsName {α : Type} : Except Error α → Bool
  | .error (readFailed es) => es.any isDuplicateName
  | _ => false

theorem failsWith_of_reportsName {α : Type} {x : Except Error α} (h : reportsName x = true) :
    FailsWith x IsNamesake := by
  unfold reportsName at h
  split at h
  · next es =>
      obtain ⟨e, he, hname⟩ := List.any_eq_true.1 h
      exact ⟨_, rfl, isNamesake_readFailed.2 ⟨e, he, isNamesake_of_isDuplicateName hname⟩⟩
  · cases h

end Error

namespace Procedure

variable {p : Procedure} {lookup : Lookup} {e : Error}

/-! ## Names that are refused -/

/-- **The names that a text gives to nodes**, as they are compared. -/
def namesInText (p : Procedure) (lookup : Lookup) (text : String) : List String :=
  Reading.explicitNames lookup (.start p.emptyRoot p.fresh) (argumentLines text)

/-- **The names that a document gives to nodes**, as they are compared. -/
def namesInDocument (lookup : Lookup) (j : Json) : List String :=
  DocumentReading.itemNames lookup j.items

/-- Whether a text gives a name after it was generated for an earlier node. -/
def CollidesInText (p : Procedure) (lookup : Lookup) (text : String) : Prop :=
  Reading.Collides lookup (.start p.emptyRoot p.fresh) (argumentLines text)

/-- Whether a document gives a name after it was generated for an earlier node. -/
def CollidesInDocument (p : Procedure) (lookup : Lookup) (j : Json) : Prop :=
  DocumentReading.Collides lookup p.emptyRoot ⟨p.fresh, []⟩ j.items

/-- **How names are refused** that are all distinct: as taken only if one was generated before it
was given, and then a node is refused for its name or, if it may not stand there, for its type. -/
structure RefusesGenerated (read : Except Error Unit) (collides : Prop) : Prop where
  cause : FailsWith read Error.IsNamesake → collides
  refused : collides → FailsWith read fun e => e.IsNamesake ∨ e.IsMisplacement

/-- A reference that means no node is no name that is taken. -/
theorem not_isNamesake_link {f g : Forest} (h : f.link = (g, .error e)) : ¬ e.IsNamesake := by
  have hlink := congrArg Prod.snd h
  unfold Forest.link at hlink
  dsimp only at hlink
  split at hlink
  · cases hlink
  · obtain rfl := Except.error.inj hlink
    rw [Error.isNamesake_readFailed]
    rintro ⟨_, hstale, p, hp, name, hcause⟩
    obtain ⟨stale, -, rfl⟩ := List.mem_map.1 hstale
    have heq : p = stale.toError := by
      simpa [Forest.Stale.toError, Error.problems] using hp
    rw [heq] at hcause
    cases hcause

/-- A tree that is taken over is refused for the same reasons. -/
theorem RefusesGenerated.takeOver {read : Except Error Sequence × NodeId} {collides : Prop}
    (hcause : ∀ e, read.1 = .error e → e.IsNamesake → collides)
    (hrefused : collides → FailsWith read.1 fun e => e.IsNamesake ∨ e.IsMisplacement) :
    RefusesGenerated (p.takeOver read).1 collides := by
  obtain ⟨outcome, fresh⟩ := read
  cases outcome with
  | error e =>
      refine ⟨fun ⟨e', he', hname⟩ => hcause e rfl (Except.error.inj he' ▸ hname), fun h => ?_⟩
      obtain ⟨e', he', hname⟩ := hrefused h
      exact ⟨e', congrArg Except.error (Except.error.inj he'), hname⟩
  | ok root =>
      refine ⟨fun ⟨e, he, hname⟩ => ?_, fun h => ?_⟩
      · unfold Procedure.takeOver at he
        dsimp only at he
        split at he
        · next hlink =>
            rw [Except.error.inj he] at hlink
            exact absurd hname (not_isNamesake_link hlink)
        · cases he
      · obtain ⟨e, he, -⟩ := hrefused h
        cases he

/-- **Distinct names are refused as taken only where one was generated before it was given**, in a
text and in a document. -/
theorem refusesGenerated (p : Procedure) (lookup : Lookup) :
    (∀ text, (p.namesInText lookup text).Nodup →
      RefusesGenerated (p.readText lookup text).1 (p.CollidesInText lookup text)) ∧
    ∀ j, (namesInDocument lookup j).Nodup →
      RefusesGenerated (p.readDocument lookup j).1 (p.CollidesInDocument lookup j) := by
  have hroot : p.emptyRoot.level.owner.isSome = false := rfl
  refine ⟨fun text hnodup => ?_, fun j hnodup => ?_⟩
  · refine .takeOver (fun e he hname => ?_) fun h => Sequence.exists_refused_ofText h
    by_contra hcollides
    exact Sequence.not_isNamesake_ofText hnodup hcollides he hname
  · refine .takeOver (fun e he hname => ?_) fun h => Sequence.exists_refused_ofJson hroot h
    by_contra hcollides
    exact Sequence.not_isNamesake_ofJson hroot hnodup hcollides he hname

/-- A text with a name that was generated for the node before. -/
def overtaken : String := "Select\nEndSelect\nSelect Select01\nEndSelect\nEndAnalysis\n"

/-- The document that gives the same names. -/
def overtakenDocument : Json :=
  .array [.ofMembers [("type", .text "Select")],
    .ofMembers [("type", .text "Select"), ("name", .text "Select01")]]

/-- One name is given, and refused. -/
theorem names_overtaken :
    let start := ofContext .analysis "Analysis"
    (start.namesInText ⟨.empty, .full⟩ overtaken = ["select01"] ∧
      namesInDocument ⟨.empty, .full⟩ overtakenDocument = ["select01"]) ∧
      FailsWith (start.readText ⟨.empty, .full⟩ overtaken).1 Error.IsNamesake ∧
      FailsWith (start.readDocument ⟨.empty, .full⟩ overtakenDocument).1 Error.IsNamesake :=
  ⟨by decide +kernel, Error.failsWith_of_reportsName (by decide +kernel),
    Error.failsWith_of_reportsName (by decide +kernel)⟩

/-- The name was generated before it is given. -/
theorem collides_overtaken :
    let start := ofContext .analysis "Analysis"
    (start.namesInText ⟨.empty, .full⟩ overtaken).Nodup ∧
      start.CollidesInText ⟨.empty, .full⟩ overtaken ∧
      (namesInDocument ⟨.empty, .full⟩ overtakenDocument).Nodup ∧
      start.CollidesInDocument ⟨.empty, .full⟩ overtakenDocument := by
  obtain ⟨⟨htext, hdocument⟩, hreadText, hreadDocument⟩ := names_overtaken
  have hnodup := htext ▸ List.nodup_singleton "select01"
  have hnodup' := hdocument ▸ List.nodup_singleton "select01"
  obtain ⟨honText, honDocument⟩ := refusesGenerated (ofContext .analysis "Analysis") ⟨.empty, .full⟩
  exact ⟨hnodup, (honText _ hnodup).cause hreadText, hnodup',
    (honDocument _ hnodup').cause hreadDocument⟩

/-- Names that are all distinct can be refused as taken. -/
theorem refused_overtaken :
    let start := ofContext .analysis "Analysis"
    (start.namesInText ⟨.empty, .full⟩ overtaken).Nodup ∧
      FailsWith (start.readText ⟨.empty, .full⟩ overtaken).1 Error.IsNamesake ∧
      (namesInDocument ⟨.empty, .full⟩ overtakenDocument).Nodup ∧
      FailsWith (start.readDocument ⟨.empty, .full⟩ overtakenDocument).1 Error.IsNamesake := by
  obtain ⟨⟨htext, hdocument⟩, hreadText, hreadDocument⟩ := names_overtaken
  exact ⟨htext ▸ List.nodup_singleton _, hreadText, hdocument ▸ List.nodup_singleton _,
    hreadDocument⟩

end Procedure

end SiteAnalysis
