import SiteAnalysis.Proofs.Procedure.RoundTrip
import SiteAnalysis.Proofs.Tree.BadLines

set_option autoImplicit false

/-! # Procedures with bad lines

A procedure whose text can be read is refused, once bad lines are added to its blocks, for these
lines and for nothing else (`Procedure.readText_of_addBadLines`).
-/

namespace SiteAnalysis

/-- **Bad lines are isolated.** A text that can be read is refused once bad lines are added to its
blocks: for each of them with its number in the new text, in their order, and for nothing else. -/
theorem Procedure.readText_of_addBadLines {p : Procedure} {lookup : Lookup} {text text' : String}
    {lines : List EditedLine} (hread : (p.readText lookup text).1 = .ok ())
    (hold : linesOf text = lines.filterMap EditedLine.old?)
    (hnew : linesOf text' = lines.map EditedLine.new)
    (hbad : EditedLine.AddBadLines lookup.registry p.root.level.keyword (some []) lines)
    (hadded : ∃ line t, EditedLine.added line t ∈ lines) :
    (p.readText lookup text').1 = .error (.readFailed (EditedLine.complaints 1 lines)) := by
  obtain ⟨line, t, hmem⟩ := hadded
  obtain ⟨root, g, hroot, -⟩ := takeOver_eq_ok_iff.1
    (show p.readText lookup text = (.ok (), (p.readText lookup text).2) from Prod.ext hread rfl)
  have hread' : (Sequence.ofText lookup p.emptyRoot p.fresh text').1 =
      .error (.readFailed (EditedLine.complaints 1 lines)) := by
    rw [emptyRoot, Sequence.root, Sequence.ofText_of_addBadLines hroot hold hnew hbad, readOutcome,
      List.isEmpty_eq_false_iff.2 (EditedLine.complaints_ne_nil hmem 1)]
    rfl
  unfold readText
  generalize Sequence.ofText lookup p.emptyRoot p.fresh text' = result at *
  obtain ⟨_, fresh⟩ := result
  obtain rfl := hread'
  rfl

/-- A text with a block of dynamic sites and a block in a branch, and bad lines in each of its
blocks. -/
def patchwork : List EditedLine :=
  [.kept "Select Oxygens", .added "Colour Blue" .select, .kept "DynamicSite",
    .added "Ends O" .dynamicSite, .kept "EndDynamicSite", .kept "ForEach", .kept "Select",
    .added "Species \"O" .select, .kept "EndSelect", .kept "EndForEach",
    .added "SiteNames O" .select, .kept "EndSelect", .kept "EndAnalysis"]

/-- Four bad lines: one of them in a block of dynamic sites, and one that begins with a word of such
a block but stands behind it. -/
theorem Procedure.readText_patchwork :
    ((ofContext .analysis "Analysis").readText ⟨.empty, .full⟩
        (joinLines (patchwork.filterMap EditedLine.old?))).1 = .ok () ∧
      ((ofContext .analysis "Analysis").readText ⟨.empty, .full⟩
        (joinLines (patchwork.map EditedLine.new))).1 = .error (.readFailed [
          .onLine 2 (.unrecognisedKeyword "Select" "Colour"),
          .onLine 4 (.unrecognisedKeyword "DynamicSite" "Ends"),
          .onLine 8 (.invalidArgument "Species" (.unterminatedQuote '"')),
          .onLine 11 (.unrecognisedKeyword "Select" "SiteNames")]) := by
  have hread : ((ofContext .analysis "Analysis").readText ⟨.empty, .full⟩
      (joinLines (patchwork.filterMap EditedLine.old?))).1 = .ok () :=
    congrArg Prod.fst (eq_ok_of_isOk (by decide +kernel))
  have hbad : EditedLine.AddBadLines Registry.full "Analysis" (some []) patchwork := by
    decide +kernel
  have hold : linesOf (joinLines (patchwork.filterMap EditedLine.old?)) =
      patchwork.filterMap EditedLine.old? := by decide +kernel
  have hnew : linesOf (joinLines (patchwork.map EditedLine.new)) =
      patchwork.map EditedLine.new := by decide +kernel
  have hadded : ∃ line t, EditedLine.added line t ∈ patchwork :=
    ⟨"Colour Blue", .select, by simp [patchwork]⟩
  have hcomplaints : EditedLine.complaints 1 patchwork = [
      .onLine 2 (.unrecognisedKeyword "Select" "Colour"),
      .onLine 4 (.unrecognisedKeyword "DynamicSite" "Ends"),
      .onLine 8 (.invalidArgument "Species" (.unterminatedQuote '"')),
      .onLine 11 (.unrecognisedKeyword "Select" "SiteNames")] := by
    with_unfolding_all rfl
  -- What remains is the general theorem at these lines.
  rw [← hcomplaints]
  exact ⟨hread, readText_of_addBadLines hread hold hnew hbad hadded⟩

end SiteAnalysis
