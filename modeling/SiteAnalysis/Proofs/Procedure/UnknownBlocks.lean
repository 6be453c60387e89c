import SiteAnalysis.Proofs.Procedure.RoundTrip
import SiteAnalysis.Proofs.Tree.UnknownBlocks

set_option autoImplicit false

/-! # Procedures with blocks of unknown types

A text with a block of an unknown type is refused for the first line of the block, and for what the
text is refused for without the lines that are passed over (`Procedure.readText_unknownBlock`). Those
are all lines of the block exactly if every line in it can be split. If one cannot be, the lines
behind it are read as if they stood behind the block (`Procedure.readText_teleport_open`).
-/

namespace SiteAnalysis

/-- A text is read as its lines are. -/
theorem Sequence.ofText_eq_ofLines (lookup : Lookup) (root : Sequence) (fresh : NodeId) (text : String) :
    Sequence.ofText lookup root fresh text =
      let r := Reading.ofLines lookup root fresh (linesOf text)
      ((readOutcome r.problems).map fun _ => r.root, r.fresh) := by
  unfold Sequence.ofText
  rw [Reading.foldl_argumentLines]
  rfl

namespace Procedure

variable {p : Procedure} {lookup : Lookup} {text : String} {before after : List String}
  {b : TextBlock} {word : String}

/-- **The reader of a procedure behind some lines** of a text. -/
def readerBehind (p : Procedure) (lookup : Lookup) (lines : List String) : Reading :=
  (Reading.start p.emptyRoot p.fresh).takeLines lookup 1 lines

/-- **The reader of a procedure behind a text** of some lines, all blocks closed. -/
def readerOf (p : Procedure) (lookup : Lookup) (lines : List String) : Reading :=
  Reading.ofLines lookup p.emptyRoot p.fresh lines

/-- A text with problems is refused for them, and the procedure stays but for the next identity. -/
theorem readText_of_problems (h : (p.readerOf lookup (linesOf text)).problems ≠ []) :
    p.readText lookup text = (.error (.readFailed (p.readerOf lookup (linesOf text)).problems),
      { p with fresh := (p.readerOf lookup (linesOf text)).fresh }) := by
  unfold readText readerOf at *
  rw [Sequence.ofText_eq_ofLines]
  dsimp only
  rw [readOutcome, List.isEmpty_eq_false_iff.2 h]
  rfl

/-- **Blocks of unknown types in a text.** Where a list of nodes goes on with a block of a word that
names no registered type and does not end the list:

* The block is passed over as a whole, one problem being told of its first line, exactly if all lines
  in it can be split.
* In any case the text is read as the text without the lines that are passed over, with the numbers
  that its lines have in the text, and with one more problem for the first line of the block. -/
theorem readText_unknownBlock (htext : linesOf text = before ++ b.lines ++ after)
    (hplace : (p.readerBehind lookup before).place = .list)
    (hend : sameName word (p.readerBehind lookup before).level.terminator = false)
    (hunknown : ∀ t, lookup.registry.typeOf word ≠ .ok t) (hblock : b.IsOf word) :
    let earlier := p.readerBehind lookup before
    let shorter := p.readerOf lookup (before ++ b.left ++ after)
    (p.readerBehind lookup (before ++ b.lines) = earlier.reportUnknown (before.length + 1) word ↔
      ∀ line ∈ b.body, isSplittable line = true) ∧
    (b.left = [] ↔ ∀ line ∈ b.body, isSplittable line = true) ∧
    (p.readerOf lookup (linesOf text)).root = shorter.root ∧
    ∃ later, shorter.problems = earlier.problems ++ later ∧
      p.readText lookup text = (.error (.readFailed (earlier.problems ++
        .onLine (before.length + 1) (.unrecognisedNodeType (NodeType.spelling word)) ::
          later.map (Error.moved (before.length + 1) b.passed.length))),
        { p with fresh := shorter.fresh }) := by
  -- Lines are counted from one, while a list of lines has its first at zero.
  have hnested := (Reading.isNested_start p.emptyRoot p.fresh 1).takeLines lookup before
  rw [Nat.add_comm] at hnested
  obtain ⟨hroot, hfresh, later, hshorter, hlonger⟩ :=
    Reading.ofLines_block after hplace hend hunknown hblock
  dsimp only
  refine ⟨?_, TextBlock.left_eq_nil_iff, ?_, later, hshorter, ?_⟩
  · rw [← Reading.takeLines_block_iff hnested hplace hend hunknown hblock, readerBehind,
      Reading.takeLines_append, Nat.add_comm 1]
    rfl
  · rw [htext]
    exact hroot
  · have hproblems : (p.readerOf lookup (linesOf text)).problems = _ := htext ▸ hlonger
    rw [readText_of_problems (by rw [hproblems]; simp), hproblems, htext]
    exact congrArg (fun fresh => (_, { p with fresh })) hfresh

/-! ## Two blocks -/

/-- What is told where a procedure cannot be read. -/
def told : Except Error Unit → List String
  | .ok _ => []
  | .error (.readFailed problems) => problems.map Error.message
  | .error e => [e.message]

/-- A block of an unknown type with another of the same word in it. -/
def teleport : TextBlock :=
  ⟨"Teleport x", ["Select B", "teleport", "  EndTELEPORT # done", ""], "endTeleport"⟩

theorem isOf_teleport : teleport.IsOf "Teleport" :=
  ⟨by decide +kernel, ⟨"endTeleport", by decide +kernel, by decide +kernel⟩, by decide +kernel⟩

/-- A block of the same type with a line that cannot be split. -/
def openTeleport : TextBlock :=
  ⟨"Teleport", ["  Note 'open", "  Select A", "  EndSelect"], "EndTeleport"⟩

theorem isOf_openTeleport : openTeleport.IsOf "Teleport" :=
  ⟨by decide +kernel, ⟨"EndTeleport", by decide +kernel, by decide +kernel⟩, by decide +kernel⟩

theorem teleport_unknown (t : NodeType) : Registry.full.typeOf "Teleport" ≠ .ok t := by
  intro h
  have hunknown : (Registry.full.typeOf "Teleport").isOk = false := by decide +kernel
  rw [h] at hunknown
  cases hunknown

/-- A block in a branch is passed over, and what is told of the lines behind it is told with their
numbers. -/
theorem readText_teleport :
    let start := ofContext .analysis "Analysis"
    let before := ["Select A", "ForEach"]
    let after := ["Bogus", "EndBogus", "EndForEach"]
    let text := joinLines (before ++ teleport.lines ++ after)
    (linesOf text = before ++ teleport.lines ++ after ∧
      (start.readerBehind ⟨.empty, .full⟩ before).place = .list ∧
      sameName "Teleport" (start.readerBehind ⟨.empty, .full⟩ before).level.terminator = false ∧
      (∀ t, Registry.full.typeOf "Teleport" ≠ .ok t) ∧ teleport.IsOf "Teleport") ∧
    told (start.readText ⟨.empty, .full⟩ text).1 =
      ["Line 3: Unrecognised node type 'Teleport'", "Line 9: Unrecognised node type 'Bogus'",
        "Line 11: Unexpected end of input while looking for 'EndSelect'"] := by
  intro start before after text
  have htext : linesOf text = before ++ teleport.lines ++ after := by decide +kernel
  have hplace : (start.readerBehind ⟨.empty, .full⟩ before).place = .list :=
    Place.eq_list_of_isList (by decide +kernel)
  have hend : sameName "Teleport"
      (start.readerBehind ⟨.empty, .full⟩ before).level.terminator = false := by decide +kernel
  refine ⟨⟨htext, hplace, hend, teleport_unknown, isOf_teleport⟩, ?_⟩
  obtain ⟨-, -, -, later, hlater, hread⟩ :=
    readText_unknownBlock htext hplace hend teleport_unknown isOf_teleport
  have hearlier : (start.readerBehind ⟨.empty, .full⟩ before).problems = [] :=
    List.isEmpty_iff.1 (by decide +kernel)
  rw [hearlier, List.nil_append] at hlater
  rw [hread, hearlier, ← hlater]
  decide +kernel

/-- **A block with a line that cannot be split is not passed over.** Nothing is told of that line.
The lines behind it are read as nodes, up to the end of the block, of which a second problem is told
though it is balanced. -/
theorem readText_teleport_open :
    let start := ofContext .analysis "Analysis"
    let text := joinLines (openTeleport.lines ++ ["EndAnalysis"])
    (linesOf text = openTeleport.lines ++ ["EndAnalysis"] ∧
      (start.readerBehind ⟨.empty, .full⟩ []).place = .list ∧
      sameName "Teleport" (start.readerBehind ⟨.empty, .full⟩ []).level.terminator = false ∧
      (∀ t, Registry.full.typeOf "Teleport" ≠ .ok t) ∧ openTeleport.IsOf "Teleport") ∧
    told (start.readText ⟨.empty, .full⟩ (joinLines ["EndAnalysis"])).1 = [] ∧
    told (start.readText ⟨.empty, .full⟩ text).1 =
      ["Line 1: Unrecognised node type 'Teleport'", "Line 5: Unrecognised node type 'EndTeleport'"] ∧
    (start.readerOf ⟨.empty, .full⟩ (linesOf text)).root.nodes.names = ["a"] := by
  intro start text
  exact ⟨⟨by decide +kernel, rfl, by decide +kernel, teleport_unknown, isOf_openTeleport⟩,
    by decide +kernel, by decide +kernel, by decide +kernel⟩

end Procedure

end SiteAnalysis
