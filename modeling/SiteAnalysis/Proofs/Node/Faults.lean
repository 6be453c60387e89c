import SiteAnalysis.Node.Entries
import SiteAnalysis.Node.Registry
import SiteAnalysis.Proofs.Node.Entries
import SiteAnalysis.Text.Line

set_option autoImplicit false

/-! # Faults of entries

What can be wrong with an entry of a node has to do with the entry only: a line is refused for its
arguments (`Error.IsFault`), and no entry for where its node stands or what it is called
(`Error.IsLocal`). Main statements:

* `Node.isFault_readLine`: a line that a node refuses.
* `Node.failsLocally_readMember`: a member of a document that a node refuses.
-/

namespace SiteAnalysis

/-! ## Local errors -/

namespace Error

/-- **An error that has nothing to do with the structure of a tree**, nor have the errors it
gathers. -/
def IsLocal (e : Error) : Prop := ∀ p ∈ e.problems, p.kind ≠ .structural

variable {e : Error} {es : List Error}

theorem problems_readFailed (es : List Error) :
    (readFailed es).problems = es.flatMap Error.problems := by
  rw [problems, List.flatMap_subtype (g := Error.problems) fun _ _ => rfl, List.unattach_attach]

theorem isLocal_readFailed : (readFailed es).IsLocal ↔ ∀ e ∈ es, e.IsLocal := by
  simp only [IsLocal, problems_readFailed, List.mem_flatMap]
  exact ⟨fun h e he p hp => h p ⟨e, he, hp⟩, fun h p ⟨e, he, hp⟩ => h e he p hp⟩

theorem isLocal_withContext {context : String} : (e.withContext context).IsLocal ↔ e.IsLocal := by
  rw [IsLocal, withContext, problems, IsLocal]

/-- **A fault of arguments**: there are too few or too many, or one of them is not taken. -/
inductive IsFault : Error → Prop
  | argumentCount {keyword expected : String} {found : Nat} :
      IsFault (argumentCount keyword expected found)
  | invalidArgument {keyword : String} {fault : ArgumentFault} :
      IsFault (invalidArgument keyword fault)
  | outOfRange {keyword limits : String} {value : Float} : IsFault (outOfRange keyword value limits)

theorem IsFault.isLocal (h : e.IsFault) : e.IsLocal := by
  cases h <;> simp [IsLocal, problems, kind]

theorem isLocal_unrecognisedKeyword (nodeType keyword : String) :
    (unrecognisedKeyword nodeType keyword).IsLocal := by simp [IsLocal, problems, kind]

theorem isLocal_unrecognisedNodeType (keyword : String) :
    (unrecognisedNodeType keyword).IsLocal := by simp [IsLocal, problems, kind]

end Error

/-- **A result that is not refused but with errors of a kind.** -/
def FailsOnly {α : Type} (P : Error → Prop) (x : Except Error α) : Prop :=
  ∀ e, x = .error e → P e

/-- A result that is not refused but for faults of arguments. -/
abbrev FailsByFault {α : Type} (x : Except Error α) : Prop := FailsOnly Error.IsFault x

/-- A result that is not refused but for local reasons. -/
abbrev FailsLocally {α : Type} (x : Except Error α) : Prop := FailsOnly Error.IsLocal x

namespace FailsOnly

variable {α β : Type} {P : Error → Prop} {x : Except Error α} {e : Error}

theorem ok (a : α) : FailsOnly P (.ok a) := fun _ h => by cases h

theorem error (h : P e) : FailsOnly P (.error e : Except Error α) := fun _ heq => by
  cases heq
  exact h

theorem map (h : FailsOnly P x) (f : α → β) : FailsOnly P (x.map f) := by
  intro e heq
  cases x with
  | ok a => cases heq
  | error e' => exact h e (by rw [Except.error.inj heq])

theorem bind (h : FailsOnly P x) {f : α → Except Error β} (hf : ∀ a, FailsOnly P (f a)) :
    FailsOnly P (x >>= f) := by
  intro e heq
  cases x with
  | ok a => exact hf a e heq
  | error e' => exact h e (by rw [Except.error.inj heq])

theorem ite {c : Prop} [Decidable c] {y : Except Error α} (hx : FailsOnly P x)
    (hy : FailsOnly P y) : FailsOnly P (if c then x else y) := by
  split
  · exact hx
  · exact hy

end FailsOnly

theorem FailsByFault.failsLocally {α : Type} {x : Except Error α} (h : FailsByFault x) :
    FailsLocally x := fun e he => (h e he).isLocal

open Error FailsOnly

/-! ## Arguments of keywords -/

section Arguments

variable (keyword : String) (catalogue : Catalogue)

theorem failsByFault_wrongCount {α : Type} (expected : String) (found : Nat) :
    FailsByFault (.error (wrongCount keyword expected found) : Except Error α) :=
  error .argumentCount

theorem failsByFault_invalid {α : Type} (fault : ArgumentFault) :
    FailsByFault (.error (.invalidArgument keyword fault) : Except Error α) :=
  error .invalidArgument

theorem failsByFault_checkInteger (n : Int) (min max : Option Int) :
    FailsByFault (checkInteger keyword n min max) := ite (error .outOfRange) (ok _)

theorem failsByFault_checkDouble (x : Float) (min max : Option Float) :
    FailsByFault (checkDouble keyword x min max) := ite (error .outOfRange) (ok _)

theorem failsByFault_checkIndex (i : Nat) : FailsByFault (checkIndex keyword i) :=
  ite (error .outOfRange) (ok _)

theorem failsByFault_readNumber (s : String) : FailsByFault (readNumber keyword s) := by
  unfold readNumber
  split
  · exact ok _
  · exact failsByFault_invalid _ _

theorem failsByFault_readTruth (s : String) : FailsByFault (readTruth keyword s) :=
  ite (ok _) (ite (ok _) (failsByFault_invalid _ _))

theorem failsByFault_readSite (species site : String) :
    FailsByFault (readSite keyword species site catalogue) := by
  unfold readSite
  split
  · exact ok _
  · exact failsByFault_invalid _ _

theorem failsByFault_readNodes (min : Nat) (max : Option Nat) (values : List String) :
    FailsByFault (KeywordData.readNodes keyword min max values) :=
  ite (failsByFault_wrongCount _ _ _) (ok _)

/-- **Arguments that a keyword refuses.** -/
theorem failsByFault_read (values : List String) (d : KeywordData) :
    FailsByFault (d.read keyword catalogue values) := by
  cases d with
  | flag b =>
      unfold KeywordData.read
      dsimp only
      split
      · exact ok _
      · exact (failsByFault_readTruth _ _).map _
      · exact failsByFault_wrongCount _ _ _
  | integer n min max =>
      unfold KeywordData.read
      dsimp only
      split
      · split
        · exact (failsByFault_checkInteger _ _ _ _).map _
        · exact failsByFault_invalid _ _
      · exact failsByFault_wrongCount _ _ _
  | double x min max =>
      unfold KeywordData.read
      dsimp only
      split
      · exact (failsByFault_readNumber _ _).bind fun _ =>
          (failsByFault_checkDouble _ _ _ _).bind fun _ => ok _
      · exact failsByFault_wrongCount _ _ _
  | text s =>
      unfold KeywordData.read
      dsimp only
      split
      · exact (FailsOnly.ite (ok _) (failsByFault_invalid _ _)).map _
      · exact failsByFault_wrongCount _ _ _
  | option s options =>
      unfold KeywordData.read
      dsimp only
      split
      · split
        · exact ok _
        · exact failsByFault_invalid _ _
      · exact failsByFault_wrongCount _ _ _
  | scalar v =>
      unfold KeywordData.read
      dsimp only
      split
      · exact ok _
      · exact failsByFault_wrongCount _ _ _
  | triple x y z =>
      unfold KeywordData.read
      dsimp only
      split
      · exact ok _
      · exact failsByFault_wrongCount _ _ _
  | range r =>
      unfold KeywordData.read
      dsimp only
      split
      · refine (failsByFault_readNumber _ _).bind fun _ => (failsByFault_readNumber _ _).bind
          fun _ => (failsByFault_readNumber _ _).bind fun _ => ?_
        split
        · exact ok _
        · exact failsByFault_invalid _ _
      · exact failsByFault_wrongCount _ _ _
  | node target filter =>
      unfold KeywordData.read
      dsimp only
      split
      · exact ok _
      · exact failsByFault_wrongCount _ _ _
  | observable target index filter =>
      unfold KeywordData.read
      dsimp only
      split
      · exact ok _
      · split
        · exact (failsByFault_checkIndex _ _).map _
        · exact failsByFault_invalid _ _
      · exact failsByFault_wrongCount _ _ _
  | nodes targets filter min max => exact (failsByFault_readNodes _ _ _ _).map _
  | sites known =>
      unfold KeywordData.read
      dsimp only
      split
      · exact (failsByFault_readSite _ _ _ _).bind fun _ => ok _
      · exact failsByFault_wrongCount _ _ _
  | fit targets =>
      unfold KeywordData.read
      dsimp only
      split
      · exact (failsByFault_readNumber _ _).map _
      · exact failsByFault_wrongCount _ _ _

/-! ## Document values of keywords -/

/-- **A document value that a keyword refuses.** -/
theorem failsByFault_given (j : Json) (d : KeywordData) : FailsByFault (d.given keyword j) := by
  intro e he
  have htakes := KeywordData.takes_given keyword d j
  rw [he] at htakes
  cases htakes with
  | refused expected => exact .invalidArgument

theorem failsByFault_readLines (values : List (List String)) (d : KeywordData) :
    FailsByFault (d.readLines keyword catalogue values).1 := by
  induction values generalizing d with
  | nil => exact ok _
  | cons line values ih =>
      have hread := failsByFault_read keyword catalogue line d
      unfold KeywordData.readLines
      split
      · exact ih _
      · next heq => exact error (hread _ heq)

/-- **A document value that a keyword refuses.** -/
theorem failsByFault_ofJson (j : Json) (d : KeywordData) :
    FailsByFault (d.ofJson keyword catalogue j).1 := by
  have hgiven := failsByFault_given keyword j d
  unfold KeywordData.ofJson
  split
  · next heq => exact error (hgiven _ heq)
  · exact ok _
  · exact failsByFault_readLines _ _ _ _

end Arguments

/-! ## Keyword stores -/

/-- An outcome that is no refusal but for local reasons. -/
def ReadOutcome.IsLocal : ReadOutcome → Prop
  | .failed e => e.IsLocal
  | _ => True

theorem ReadOutcome.isLocal_of_isFault {outcome : ReadOutcome}
    (h : ∀ e, outcome = .failed e → e.IsFault) : outcome.IsLocal := by
  cases outcome with
  | failed e => exact (h e rfl).isLocal
  | _ => trivial

namespace KeywordStore

variable (s : KeywordStore) (name : String) (catalogue : Catalogue)

theorem failsByFault_readKeyword (values : List String) :
    ∀ x ∈ s.readKeyword name values catalogue, FailsByFault x := by
  intro x hx
  obtain ⟨k, -, rfl⟩ := Option.map_eq_some_iff.1 hx
  exact (failsByFault_read _ _ _ _).map _

theorem isFault_read (values : List String) :
    ∀ e, (s.read name values catalogue).1 = .failed e → e.IsFault := by
  intro e he
  unfold read at he
  split at he
  · cases he
  · next e' heq =>
      obtain rfl := ReadOutcome.failed.inj he
      exact s.failsByFault_readKeyword name catalogue values _ heq e' rfl
  · split at he
    · cases he
    · next name' _ =>
        split at he
        · cases he
        · next e' heq =>
            obtain rfl := ReadOutcome.failed.inj he
            exact s.failsByFault_readKeyword name' catalogue values _ heq e' rfl
        · cases he

theorem failsLocally_readMember (j : Json) : FailsLocally (s.readMember name j catalogue).1 := by
  unfold readMember
  dsimp only
  split
  · exact ok _
  · next found _ =>
      split
      · exact error (isLocal_unrecognisedKeyword _ _)
      · next k _ =>
          have hofJson := (failsByFault_ofJson found catalogue j k.data).failsLocally
          split
          · exact ok _
          · next heq => exact error (hofJson _ (congrArg Prod.fst heq))

end KeywordStore

/-! ## Blocks of dynamic sites -/

namespace DynamicSite

variable (catalogue : Catalogue) (list : SourceList)

theorem failsByFault_addName (d : DynamicSite) (name : String) :
    FailsByFault (d.addName catalogue list name) := by
  unfold addName
  split
  · exact failsByFault_invalid _ _
  · exact FailsOnly.ite (failsByFault_invalid _ _) (ok _)

theorem failsByFault_addEach (names : List String) (d : DynamicSite) :
    FailsByFault (addEach catalogue list names d).1 := by
  induction names generalizing d with
  | nil => exact ok _
  | cons name names ih =>
      have hname := failsByFault_addName catalogue list d name
      unfold addEach
      split
      · exact ih _
      · next heq => exact error (hname _ heq)

theorem failsByFault_addNames (d : DynamicSite) (keyword : String) (names : List String) :
    FailsByFault (d.addNames catalogue keyword list names).1 := by
  unfold addNames
  split
  · exact error .argumentCount
  · exact failsByFault_addEach catalogue list names d

theorem isFault_readLine (d : DynamicSite) (keyword : String) (values : List String) :
    ∀ e, (d.readLine keyword values catalogue).1 = .failed e → e.IsFault := by
  intro e he
  unfold readLine at he
  split at he
  · cases he
  · next list _ =>
      have hnames := failsByFault_addNames catalogue list d keyword values
      split at he
      · cases he
      · next e' _ heq =>
          obtain rfl := ReadOutcome.failed.inj he
          exact hnames e' (congrArg Prod.fst heq)

theorem failsByFault_readMember (d : DynamicSite) (key : String) (j : Json) :
    FailsByFault (d.readMember key j catalogue).1 := by
  unfold readMember
  split
  · exact ok _
  · next list _ =>
      split
      · exact failsByFault_invalid _ _
      · next names _ => exact (failsByFault_addNames catalogue list d key names).map _

theorem isLocal_of_mem_readMembers (members : List (String × Json)) (d : DynamicSite) :
    ∀ e ∈ (readMembers catalogue members d).1, e.IsLocal := by
  induction members generalizing d with
  | nil => exact fun e he => by cases he
  | cons m members ih =>
      obtain ⟨key, j⟩ := m
      have hmember := (failsByFault_readMember catalogue d key j).failsLocally
      unfold readMembers
      split
      · exact ih d
      · dsimp only
        generalize d.readMember key j catalogue = result at *
        intro e he
        rcases List.mem_append.1 he with he | he
        · split at he
          · cases he
          · rw [List.mem_singleton.1 he]
            exact isLocal_unrecognisedKeyword _ _
          · next e' d' =>
              rw [List.mem_singleton.1 he]
              exact isLocal_withContext.2 (hmember _ rfl)
        · exact ih _ e he

theorem failsLocally_readBlocks (key : String) (items : List Json) (blocks : List DynamicSite) :
    FailsLocally (readBlocks catalogue key items blocks).1 := by
  induction items generalizing blocks with
  | nil => exact ok _
  | cons j items ih =>
      unfold readBlocks
      split
      · exact ok _
      · next members _ heq =>
          obtain ⟨rfl, rfl⟩ := List.cons.inj heq
          have hmembers := isLocal_of_mem_readMembers catalogue members .empty
          split
          · exact ih _
          · next problems _ heq =>
              rw [heq] at hmembers
              exact error (isLocal_readFailed.2 hmembers)
      · exact (failsByFault_invalid _ _).failsLocally

end DynamicSite

/-! ## Nodes -/

namespace Node

variable (n : Node) (catalogue : Catalogue)

theorem failsByFault_declareRead (name : String) (value : Expression.Number) :
    FailsByFault (n.declareRead name value) :=
  ite (ok _) (failsByFault_invalid _ _)

theorem failsByFault_readParameter (values : List String) :
    FailsByFault (n.readParameter values) := by
  unfold readParameter
  split
  · next name text =>
      refine FailsOnly.bind ?_ fun value => n.failsByFault_declareRead name value
      unfold readParameterValue
      split
      · exact ok _
      · split
        · exact ok _
        · exact failsByFault_invalid _ _
  · exact error .argumentCount

theorem failsByFault_readParameters (items : List Json) :
    FailsByFault (readParameters items n).1 := by
  induction items generalizing n with
  | nil => exact ok _
  | cons j items ih =>
      unfold readParameters
      split
      · exact ok _
      · next m _ _ name j' rest heq =>
          obtain ⟨rfl, rfl⟩ := List.cons.inj heq
          split
          · exact failsByFault_invalid _ _
          · next value _ =>
              have hdeclare := m.failsByFault_declareRead name value
              split
              · exact ih _
              · next heq => exact error (hdeclare _ heq)
      · exact failsByFault_invalid _ _

/-- **A line that a node refuses** is refused for its arguments. -/
theorem isFault_readLine (keyword : String) (values : List String) :
    ∀ e, (n.readLine keyword values catalogue).1 = .failed e → e.IsFault := by
  intro e he
  unfold readLine at he
  split at he
  · next block _ => exact block.isFault_readLine catalogue keyword values e he
  · have hparameter := n.failsByFault_readParameter values
    split at he
    · split at he
      · cases he
      · next e' heq =>
          obtain rfl := ReadOutcome.failed.inj he
          exact hparameter e' heq
    · exact n.keywords.isFault_read keyword catalogue values e he
  · exact n.keywords.isFault_read keyword catalogue values e he

/-- **A member of a document that a node refuses.** -/
theorem failsLocally_readMember (key : String) (j : Json) :
    FailsLocally (n.readMember key j catalogue).1 := by
  have hkeyword : FailsLocally (n.readKeywordMember key j catalogue).1 :=
    n.keywords.failsLocally_readMember key catalogue j
  unfold readMember
  split
  · split
    · split
      · exact (failsByFault_invalid _ _).failsLocally
      · exact (DynamicSite.failsLocally_readBlocks catalogue key _ _).map _
    · exact hkeyword
  · next block _ => exact (block.failsByFault_readMember catalogue key j).failsLocally
  · split
    · split
      · exact (failsByFault_invalid _ _).failsLocally
      · exact (n.failsByFault_readParameters _).failsLocally.map _
    · exact hkeyword
  · exact hkeyword

/-! ## What members leave alone -/

theorem keeps_readParameters (items : List Json) : n.Keeps (readParameters items n).2 := by
  induction items generalizing n with
  | nil => exact .refl _
  | cons j items ih =>
      unfold readParameters
      split
      · exact .refl _
      · next m _ _ name j' rest heq =>
          obtain ⟨rfl, rfl⟩ := List.cons.inj heq
          split
          · exact .refl _
          · split
            · next m' hdeclare =>
                unfold declareRead at hdeclare
                split at hdeclare
                · obtain rfl := Except.ok.inj hdeclare
                  obtain ⟨hid, hname, htype, hbranch⟩ := ih (m.declare name _)
                  exact ⟨hid, hname, htype, hbranch⟩
                · cases hdeclare
            · exact .refl _
      · exact .refl _

/-- A member that is not the branch leaves the node the same node. -/
theorem keeps_readMember (key : String) (j : Json) :
    n.Keeps (n.readMember key j catalogue).2 := by
  unfold readMember
  split
  · next blocks chosen hkind =>
      split
      · split
        · exact .refl n
        · exact ⟨rfl, rfl, by rw [type, type, hkind]; rfl, rfl⟩
      · exact ⟨rfl, rfl, rfl, rfl⟩
  · next block hkind => exact ⟨rfl, rfl, by rw [type, type, hkind]; rfl, rfl⟩
  · split
    · split
      · exact .refl n
      · exact n.keeps_readParameters _
    · exact ⟨rfl, rfl, rfl, rfl⟩
  · exact ⟨rfl, rfl, rfl, rfl⟩

end Node

end SiteAnalysis
