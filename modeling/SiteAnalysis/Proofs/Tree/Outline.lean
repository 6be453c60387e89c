import SiteAnalysis.Proofs.Text.Plain
import SiteAnalysis.Proofs.Tree.Reading

set_option autoImplicit false

/-! # The outline of a text

Which block or branch a line stands in, told from the first words of the lines before it alone
(`enclosedBy`). Main statements:

* `Reading.outline_step`: as long as it finds no problem, the reader is where the outline says.
* `Node.readLine_of_isForeign`: a line whose first word a block does not know is not recognised, and
  changes nothing.
-/

namespace SiteAnalysis

/-! ## Words of blocks -/

/-- Words that begin lines in the block of a type and are no keywords: for a block within it, or for
entries of its own. -/
def NodeType.ownWords : NodeType → List String
  | select => [dynamicSite.keyword]
  | parameters => [parameterKeyword]
  | dynamicSite => [SourceList.siteNames.keyword, SourceList.species.keyword]
  | _ => []

/-- **The words that the block of a type knows** at the beginning of lines: those that close it or
begin its branch, those of its own, its keywords and their old names. -/
def NodeType.blockWords (t : NodeType) : List String :=
  ("End" ++ t.keyword) :: t.branchKeyword?.toList ++ t.ownWords ++
    t.keywords.keywords.map Keyword.name ++ t.keywords.deprecated.map Prod.fst

/-- Whether a word is none of those that the block of a type knows; case does not count. -/
def NodeType.IsForeign (t : NodeType) (word : String) : Prop :=
  ∀ known ∈ t.blockWords, sameName known word = false

instance (t : NodeType) (word : String) : Decidable (t.IsForeign word) :=
  inferInstanceAs (Decidable (∀ known ∈ t.blockWords, sameName known word = false))

/-! ## Outlines -/

/-- **What a line may stand in** below the root. -/
inductive Enclosure where
  /-- The block of a node, or a block of dynamic sites. -/
  | block (t : NodeType)
  /-- The branch in the block of a node. -/
  | branch (t : NodeType)
  deriving DecidableEq, Repr

/-- The blocks around a list of nodes once a word began the block of a node. -/
def Registry.enter (registry : Registry) (word : String) (outer : List Enclosure) :
    List Enclosure :=
  match registry.typeOf word with
  | .ok t => .block t :: outer
  | .error _ => outer

/-- **What encloses a text behind a line**, told by the first word of the line and by what encloses
the line, the innermost first; nothing is read behind the end of the root. -/
def enclosedBy (registry : Registry) (root word : String) :
    Option (List Enclosure) → Option (List Enclosure)
  | none => none
  | some [] => if sameName word ("End" ++ root) then none else some (registry.enter word [])
  | some (.branch t :: outer) =>
    if t.branchKeyword?.any fun b => sameName word ("End" ++ b) then some outer
    else some (registry.enter word (.branch t :: outer))
  | some (.block t :: outer) =>
    if sameName word ("End" ++ t.keyword) then some outer
    else if t.branchKeyword?.any fun b => sameName word b then
      some (.branch t :: .block t :: outer)
    else if t = .select ∧ sameName word NodeType.dynamicSite.keyword then
      some (.block .dynamicSite :: .block t :: outer)
    else some (.block t :: outer)

/-- What encloses the lists in the open blocks of some types. -/
def Enclosure.ofTypes (types : List NodeType) : List Enclosure :=
  types.flatMap fun t => [.branch t, .block t]

namespace Reading

/-- The types of the nodes whose blocks are open, the innermost first. -/
def openTypes (r : Reading) : List NodeType := r.openNodes.map fun o => o.subtree.node.type

/-- **Where the reader is.** -/
def outline (r : Reading) : Option (List Enclosure) :=
  match r.place, r.openTypes with
  | .list, types => some (Enclosure.ofTypes types)
  | .block, t :: outer => some (.block t :: Enclosure.ofTypes outer)
  | .dynamicSite _, t :: outer =>
    some (.block .dynamicSite :: .block t :: Enclosure.ofTypes outer)
  | _, _ => none

end Reading

/-! ## Foreign words -/

namespace NodeType.IsForeign

variable {t : NodeType} {word : String}

theorem terminator (h : t.IsForeign word) : sameName word ("End" ++ t.keyword) = false := by
  rw [sameName_comm]
  exact h _ (by simp [blockWords])

theorem branchKeyword (h : t.IsForeign word) : ∀ b ∈ t.branchKeyword?, sameName word b = false := by
  intro b hb
  rw [sameName_comm]
  exact h b (by simp [blockWords, Option.mem_def.1 hb])

theorem own (h : t.IsForeign word) {own : String} (hown : own ∈ t.ownWords) :
    sameName own word = false := h own (by simp [blockWords, hown])

theorem keyword (h : t.IsForeign word) {k : Keyword} (hk : k ∈ t.keywords.keywords) :
    sameName k.name word = false := by
  refine h k.name ?_
  simp only [blockWords, List.mem_append]
  exact .inl (.inr (List.mem_map_of_mem hk))

theorem deprecated (h : t.IsForeign word) {old : String × String}
    (hold : old ∈ t.keywords.deprecated) : sameName old.1 word = false := by
  refine h old.1 ?_
  simp only [blockWords, List.mem_append]
  exact .inr (List.mem_map_of_mem hold)

end NodeType.IsForeign

theorem DynamicSite.readLine_of_isForeign {word : String}
    (h : NodeType.dynamicSite.IsForeign word) (d : DynamicSite) (values : List String)
    (catalogue : Catalogue) : d.readLine word values catalogue = (.unrecognised, d) := by
  have hnone : SourceList.ofKeyword? word = none := by
    refine List.find?_eq_none.2 fun list _ => ?_
    rw [Bool.not_eq_true]
    cases list <;> exact h.own (by simp [NodeType.ownWords])
  rw [readLine, hnone]

namespace Node

variable {P : String → Prop} {catalogue : Catalogue} {R : KeywordData → KeywordData → Prop}
  {n : Node} {word : String}

theorem readKeyword_of_isForeign (h : n.Fits R P catalogue) (hword : n.type.IsForeign word)
    (values : List String) : n.readKeyword word values catalogue = (.unrecognised, n) := by
  have hfind : n.keywords.find? word = none := by
    refine List.find?_eq_none.2 fun k hk => ?_
    obtain ⟨declared, hdeclared, hmatches⟩ := h.keywords.exists_declared hk
    rw [Keyword.isNamed, hmatches.name, hword.keyword hdeclared]
    exact Bool.false_ne_true
  have hreplacement : n.keywords.replacement? word = none := by
    rw [KeywordStore.replacement?, h.keywords.deprecated, Option.map_eq_none_iff]
    refine List.find?_eq_none.2 fun old hold => ?_
    exact Bool.not_eq_true _ ▸ hword.deprecated hold
  simp [readKeyword, KeywordStore.read, KeywordStore.readKeyword, hfind, hreplacement]

/-- **A line that begins with a foreign word** is not recognised, and changes nothing. -/
theorem readLine_of_isForeign (h : n.Fits R P catalogue) (hword : n.type.IsForeign word)
    (values : List String) : n.readLine word values catalogue = (.unrecognised, n) := by
  have hkeyword := readKeyword_of_isForeign h hword values
  unfold readLine
  split
  · next d hkind =>
      have htype : n.type = .dynamicSite := by rw [type, hkind]; rfl
      rw [DynamicSite.readLine_of_isForeign (htype ▸ hword)]
      dsimp only
      rw [← hkind]
  · next hkind =>
      have htype : n.type = .parameters := by rw [type, hkind]; rfl
      have hparameter : sameName word parameterKeyword = false := by
        rw [sameName_comm]
        exact (htype ▸ hword : NodeType.parameters.IsForeign word).own (by simp [NodeType.ownWords])
      rw [hparameter]
      exact hkeyword
  · exact hkeyword

end Node

namespace Reading

variable {P : String → Prop} {lookup : Lookup} {level : Level} {start : Nat} {r : Reading}

@[simp] theorem openTypes_mapOpen {f : Subtree → Subtree}
    (hf : ∀ t, (f t).node.type = t.node.type) (r : Reading) :
    (r.mapOpen f).openTypes = r.openTypes := by
  unfold mapOpen
  split
  · rfl
  · next o rest hopen => simp [openTypes, hopen, hf]

theorem type_addDynamicSite (d : DynamicSite) (t : Subtree) :
    (addDynamicSite d t).node.type = t.node.type := by
  cases hkind : t.node.kind <;> simp [addDynamicSite, Node.type, hkind, NodeKind.type]

/-- A node that is placed leaves the block that was open around it. -/
theorem outline_close {o : OpenNode} {rest : List OpenNode} (hopen : r.openNodes = o :: rest)
    (hok : r.close.problems = []) :
    r.close.outline = some (Enclosure.ofTypes (rest.map fun o => o.subtree.node.type)) := by
  have hcloses := closesBlock_close r
  generalize r.close = r' at hcloses hok ⊢
  cases hcloses with
  | nothing hnil =>
      rw [hopen] at hnil
      cases hnil
  | refused => exact absurd hok (problems_report_ne_nil _ _)
  | outermost hone =>
      obtain ⟨rfl, rfl⟩ := List.cons.inj (hopen.symm.trans hone)
      rfl
  | inside htwo =>
      obtain ⟨rfl, rfl⟩ := List.cons.inj (hopen.symm.trans htwo)
      rfl

/-- The branch of an open node has the keyword of its type. -/
theorem IsSound.branchKeyword (h : r.IsSound P lookup level start) {o : OpenNode}
    {rest : List OpenNode} (hopen : r.openNodes = o :: rest) :
    o.subtree.node.branch.map Level.keyword = o.subtree.node.type.branchKeyword? :=
  ((h.opened o (by simp [hopen])).nodes o.subtree.node (by simp)).fits.branch

/-- The word that closes the list in which a line stands, and what other words begin. -/
theorem enclosedBy_list (h : r.IsSound P lookup level start) (hplace : r.place = .list)
    (word : String) :
    enclosedBy lookup.registry level.keyword word r.outline =
      if sameName word r.level.terminator then
        match r.openTypes with
        | [] => none
        | t :: outer => some (.block t :: Enclosure.ofTypes outer)
      else some (lookup.registry.enter word (Enclosure.ofTypes r.openTypes)) := by
  have hsound := h.place
  rw [hplace] at hsound
  cases hopen : r.openNodes with
  | nil =>
      have hkeyword : r.root.level.keyword = level.keyword := by rw [h.outermost]
      simp [outline, hplace, openTypes, hopen, Enclosure.ofTypes, enclosedBy, Reading.level,
        Level.terminator, hkeyword]
  | cons o rest =>
      obtain ⟨inner, hinner⟩ := Option.isSome_iff_exists.1 (hsound o (by rw [hopen]; rfl))
      have hbranch := h.branchKeyword hopen
      rw [hinner] at hbranch
      simp [outline, hplace, openTypes, hopen, Enclosure.ofTypes, enclosedBy, Reading.level,
        Level.terminator, hinner, ← hbranch]

/-- The words that close the block of the innermost open node, or begin others in it. -/
theorem enclosedBy_block (h : r.IsSound P lookup level start) (hplace : r.place = .block)
    {o : OpenNode} {rest : List OpenNode} (hopen : r.openNodes = o :: rest) (word : String) :
    enclosedBy lookup.registry level.keyword word r.outline =
      let node := o.subtree.node
      let outer := Enclosure.ofTypes (rest.map fun o => o.subtree.node.type)
      if sameName word node.terminator then some outer
      else if node.branch.any fun l => sameName word l.keyword then
        some (.branch node.type :: .block node.type :: outer)
      else if node.type = .select ∧ sameName word NodeType.dynamicSite.keyword then
        some (.block .dynamicSite :: .block node.type :: outer)
      else some (.block node.type :: outer) := by
  have hbranch : (o.subtree.node.type.branchKeyword?.any fun b => sameName word b) =
      o.subtree.node.branch.any fun l => sameName word l.keyword := by
    rw [← h.branchKeyword hopen, Option.any_map]
  dsimp only
  rw [← hbranch]
  simp [outline, hplace, openTypes, hopen, enclosedBy, Node.terminator]
  rfl

theorem outline_listStep (h : r.IsSound P lookup level start) (hplace : r.place = .list)
    {line : Nat} {word : String} {values : List String}
    (hok : (r.listStep lookup line word values).problems = []) :
    (r.listStep lookup line word values).outline =
      enclosedBy lookup.registry level.keyword word r.outline := by
  rw [enclosedBy_list h hplace]
  have hacts := actsInList_listStep lookup r line word values
  generalize r.listStep lookup line word values = r' at hacts hok ⊢
  cases hacts with
  | ends hword =>
      rw [if_pos hword]
      cases hopen : r.openNodes <;> simp [outline, openTypes, hopen]
  | unknown => exact absurd hok (problems_report_ne_nil _ _)
  | opens hword htype => simp [outline, openTypes, Registry.enter, hword, htype]

theorem outline_blockStep (h : r.IsSound P lookup level start) (hplace : r.place = .block)
    {line : Nat} {word : String} {values : List String}
    (hok : (r.blockStep lookup line word values).problems = []) :
    (r.blockStep lookup line word values).outline =
      enclosedBy lookup.registry level.keyword word r.outline := by
  have hacts := actsInBlock_blockStep lookup r line word values
  generalize r.blockStep lookup line word values = r' at hacts hok ⊢
  -- An entry leaves the reader where it is; the other lines move it one place in or out.
  cases hacts with
  | nothing hopen => simp [outline, hplace, openTypes, hopen, enclosedBy]
  | ends hopen hend =>
      rw [enclosedBy_block h hplace hopen, outline_close hopen hok]
      exact (if_pos hend).symm
  | branch hopen hend hbranch hword =>
      rw [enclosedBy_block h hplace hopen]
      simp [outline, openTypes, hopen, Enclosure.ofTypes, hend, hbranch, hword]
  | sites hopen hend hbranch htype hword =>
      rw [enclosedBy_block h hplace hopen]
      simp [outline, openTypes, hopen, hend, hbranch, htype, hword]
  | @entry o rest outcome m hopen hend hbranch hsites hread =>
      have hkeeps := o.subtree.node.keeps_readLine word values lookup.catalogue
      rw [hread] at hkeeps
      rw [enclosedBy_block h hplace hopen, reportOutcome_eq_self hok]
      dsimp only
      rw [hend, hbranch, if_neg hsites]
      simp [outline, hplace, openTypes, hkeeps.type]

theorem outline_dynamicSiteStep {d : DynamicSite} (hplace : r.place = .dynamicSite d)
    {line : Nat} {word : String} {values : List String}
    (hok : (r.dynamicSiteStep lookup d line word values).problems = []) (root : String) :
    (r.dynamicSiteStep lookup d line word values).outline =
      enclosedBy lookup.registry root word r.outline := by
  have hacts := actsInSites_dynamicSiteStep lookup r d line word values
  generalize r.dynamicSiteStep lookup d line word values = r' at hacts hok ⊢
  cases hacts with
  | ends hend =>
      have htypes : (r.closeDynamicSite d).openTypes = r.openTypes :=
        openTypes_mapOpen (type_addDynamicSite d) r
      unfold outline
      rw [htypes, hplace, show (r.closeDynamicSite d).place = .block from rfl]
      cases r.openTypes with
      | nil => rfl
      | cons t outer => exact (if_pos hend).symm
  | entry hend _ =>
      rw [reportOutcome_eq_self hok]
      unfold outline openTypes
      rw [hplace]
      cases r.openNodes with
      | nil => rfl
      | cons o rest => exact (if_neg (Bool.eq_false_iff.1 hend)).symm

/-- **The reader is where the outline says**, as long as it finds no problem. -/
theorem outline_step (h : r.IsSound P lookup level start) {l : ArgumentLine} {word : String}
    {values : List String} (hargs : l.args = .ok (word :: values))
    (hok : (r.step lookup l).problems = []) :
    (r.step lookup l).outline = enclosedBy lookup.registry level.keyword word r.outline := by
  have hplace := h.place
  have hacts := acts_step lookup r l
  generalize r.step lookup l = r' at hacts hok ⊢
  cases hacts with
  | behind hbehind => simp [outline, hbehind, enclosedBy]
  | blank hblank => cases hargs.symm.trans hblank
  | resumes _ herror => cases hargs.symm.trans herror
  | unsplittable _ herror => cases hargs.symm.trans herror
  | inList hlist hwords =>
      cases hargs.symm.trans hwords
      exact outline_listStep h hlist hok
  | inBlock hblock hwords =>
      cases hargs.symm.trans hwords
      exact outline_blockStep h hblock hok
  | inSites hsites hwords =>
      cases hargs.symm.trans hwords
      exact outline_dynamicSiteStep hsites hok level.keyword
  | passedOver hskips => rw [hskips] at hplace; exact hplace.elim

end Reading

end SiteAnalysis
