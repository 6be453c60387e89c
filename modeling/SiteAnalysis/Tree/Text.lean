import SiteAnalysis.Node.Entries
import SiteAnalysis.Text.Line
import SiteAnalysis.Tree.Forest

/-! # Trees as text

Every node is written as a block of lines, from its type to the word that closes it, with its
entries and its branch indented in between.
-/

namespace SiteAnalysis

/-- Lines one step further in. -/
def indent (lines : List String) : List String := lines.map ("  " ++ ·)

/-- The branch of a node in its block; nothing if there are no nodes in it. -/
def Level.enclose (l : Level) : List String → List String
  | [] => []
  | lines => l.keyword :: indent lines ++ [l.terminator]

namespace Forest

/-- **The lines of a forest.** -/
def lines : Forest → List String
  | nil => []
  | cons n branch rest =>
    let inner := match n.branch with
      | some level => level.enclose branch.lines
      | none => []
    n.header :: indent (n.lines ++ inner) ++ [n.terminator] ++ rest.lines

end Forest

/-- **The text of a sequence**, with the word that closes it. -/
def Sequence.text (s : Sequence) : String :=
  joinLines (s.nodes.lines ++ [s.level.terminator])

end SiteAnalysis
