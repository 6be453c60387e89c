import SiteAnalysis.Proofs.Node.Restored
import SiteAnalysis.Proofs.Tree.Lines

set_option autoImplicit false

/-! # Lines of nodes

The entries of a node as arguments of lines (`Node.entryArgs`), and what they do to the node that
is read again (`Node.Takes`). Main statements:

* `Node.Fits.areLinesOf`: the lines written of a node give these arguments.
* `Node.Progress.takes_keywords`: the lines of the keywords bring the keywords back.
* `Node.Progress.takes_parameters`, `Node.Progress.takes_block`: so do those of parameters and of
  the lists of a block of dynamic sites.
-/

namespace SiteAnalysis

variable {P : String → Prop} {catalogue : Catalogue}

/-! ## Arguments of the lines -/

namespace Keyword

/-- The lines of a keyword as their arguments, the keyword in front. -/
def args (k : Keyword) : List (List String) := k.data.args.map (k.name :: ·)

theorem lines_eq {k : Keyword} {declared : KeywordData} (hname : IsPlain k.name)
    (h : declared.HoldsUncounted catalogue k.data) :
    k.lines = k.args.map fun args => String.intercalate "  " (args.map quote) := by
  simp [lines, args, h.lines_eq, hname.quote]

end Keyword

namespace DynamicSite

/-- The lines of a block with the words that enclose it, as their arguments. -/
def blockArgs (d : DynamicSite) : List (List String) :=
  [NodeType.dynamicSite.keyword] :: d.args ++ [["End" ++ NodeType.dynamicSite.keyword]]

end DynamicSite

/-- The line of a parameter as its arguments. -/
def parameterArgs (d : Declared) : List String :=
  [parameterKeyword, d.parameter.name, d.parameter.value.text]

namespace Node

/-- The lines of a kind's own entries as their arguments. -/
def kindArgs (n : Node) : List (List String) :=
  match n.kind with
  | .select blocks _ => blocks.flatMap DynamicSite.blockArgs
  | .dynamicSite block => block.args
  | .parameters => n.parameters.map parameterArgs
  | _ => []

/-- **The lines of a node as their arguments.** -/
def entryArgs (n : Node) : List (List String) :=
  n.keywords.setKeywords.flatMap Keyword.args ++ n.kindArgs

/-- The first line of the block of a node as its arguments. -/
def headerArgs (n : Node) : List String :=
  if n.name.isEmpty then [n.type.keyword] else [n.type.keyword, n.name]

end Node

/-! ## Written lines give their arguments -/

theorem IsPlain.isLineOf {s : String} (h : IsPlain s) : IsLineOf s [s] := by
  have hfits : ∀ a ∈ [s], FitsLine a := by simpa using h.fitsLine
  have hline := IsLineOf.written (List.cons_ne_nil s []) hfits
  simpa [h.quote] using hline

/-- Lines of arguments with quotes where they need them. -/
theorem areLinesOf_written {lists : List (List String)}
    (h : ∀ args ∈ lists, args ≠ [] ∧ ∀ a ∈ args, FitsLine a) :
    AreLinesOf (lists.map fun args => String.intercalate "  " (args.map quote)) lists := by
  induction lists with
  | nil => exact .nil
  | cons args lists ih =>
      obtain ⟨⟨hne, hfits⟩, hlists⟩ := List.forall_mem_cons.1 h
      exact .cons (.written hne hfits) (ih hlists)

theorem AreLinesOf.flatMap {α : Type} {items : List α} {f : α → List String}
    {g : α → List (List String)} (h : ∀ a ∈ items, AreLinesOf (f a) (g a)) :
    AreLinesOf (items.flatMap f) (items.flatMap g) := by
  induction items with
  | nil => exact .nil
  | cons a items ih =>
      obtain ⟨ha, hitems⟩ := List.forall_mem_cons.1 h
      simpa using ha.append (ih hitems)

namespace DynamicSite

variable {d : DynamicSite}

theorem IsReadFrom.areLinesOf (h : d.IsReadFrom FitsLine catalogue) :
    AreLinesOf d.lines d.args := by
  rw [lines_eq]
  refine areLinesOf_written fun args hargs => ?_
  obtain ⟨list, -, rfl⟩ := mem_args_iff.1 hargs
  have hkeyword : IsPlain list.keyword := by cases list <;> decide
  exact ⟨by simp, List.forall_mem_cons.2 ⟨hkeyword.fitsLine, (h list).texts⟩⟩

theorem IsReadFrom.areLinesOf_block (h : d.IsReadFrom FitsLine catalogue) :
    AreLinesOf d.block d.blockArgs :=
  .append (.cons (NodeType.isPlain_keyword _).isLineOf h.areLinesOf.indented)
    (.cons (NodeType.isPlain_terminator _).isLineOf .nil)

end DynamicSite

namespace Node

variable {n now : Node}

theorem Fits.data_of_mem {R : KeywordData → KeywordData → Prop} (h : n.Fits R P catalogue)
    {k : Keyword} (hk : k ∈ n.keywords.setKeywords) : ∃ declared, R declared k.data := by
  obtain ⟨hmem, hset⟩ := List.mem_filter.1 hk
  obtain ⟨d, -, hmatch⟩ := h.keywords.exists_declared hmem
  have hdata := hmatch.data
  exact ⟨d.data, by simpa [hset] using hdata⟩

theorem isPlain_text (value : Expression.Number) : IsPlain value.text := by
  cases value with
  | int n => exact isPlain_toString_int n
  | float x => exact isPlain_precise x

theorem areLinesOf_parameters {parameters : List Declared} (h : AreReadParameters parameters) :
    AreLinesOf (parameters.map fun d =>
      String.intercalate "  " [parameterKeyword, quote d.parameter.name, d.parameter.value.text])
      (parameters.map parameterArgs) := by
  have hlines : (parameters.map fun d => String.intercalate "  "
      [parameterKeyword, quote d.parameter.name, d.parameter.value.text]) =
      (parameters.map parameterArgs).map fun args =>
        String.intercalate "  " (args.map quote) := by
    have hkeyword : IsPlain parameterKeyword := by decide
    simp [parameterArgs, hkeyword.quote, (isPlain_text _).quote]
  rw [hlines]
  refine areLinesOf_written (List.forall_mem_map.2 fun d hd => ⟨by simp [parameterArgs], ?_⟩)
  obtain ⟨hword, hne⟩ := isWordName_of_isIdentifier (h.names d hd)
  have hplain : ∀ a ∈ parameterArgs d, IsPlain a := by
    simpa [parameterArgs] using
      ⟨show IsPlain parameterKeyword by decide, hword.isPlain hne, isPlain_text _⟩
  exact fun a ha => (hplain a ha).fitsLine

/-- **The lines written of a node give the arguments of its entries.** -/
theorem Fits.areLinesOf (h : n.IsWritable FitsLine catalogue) :
    AreLinesOf n.lines n.entryArgs := by
  refine .append (.flatMap fun k hk => ?_) ?_
  · obtain ⟨declared, hdata⟩ := h.data_of_mem hk
    have hname := h.isPlain_name (List.mem_filter.1 hk).1
    rw [Keyword.lines_eq hname hdata.holds]
    refine areLinesOf_written (List.forall_mem_map.2 fun args hargs => ⟨by simp, ?_⟩)
    exact List.forall_mem_cons.2 ⟨hname.fitsLine, hdata.texts args hargs⟩
  · have hkind := h.kind
    have hparameters := h.parameters
    unfold HoldsParameters type at hparameters
    unfold kindArgs
    cases hcase : n.kind <;> rw [hcase] at hkind hparameters <;> try exact .nil
    · exact .flatMap fun d hd => (hkind.blocks.2 d hd).areLinesOf_block
    · exact hkind.block.areLinesOf
    · exact areLinesOf_parameters hparameters

theorem Fits.isLineOf_header {R : KeywordData → KeywordData → Prop}
    (h : n.Fits R FitsLine catalogue) :
    IsLineOf n.header n.headerArgs := by
  have hkeyword := n.type.isPlain_keyword
  unfold header headerArgs
  split
  · exact hkeyword.isLineOf
  · next hne =>
      have hname : IsPlain n.name := h.name.isPlain (by simpa using hne)
      have hfits : ∀ a ∈ [n.type.keyword, n.name], FitsLine a := by
        simpa using ⟨hkeyword.fitsLine, hname.fitsLine⟩
      have hline := IsLineOf.written (List.cons_ne_nil _ _) hfits
      rw [List.map_cons, hkeyword.quote] at hline
      exact hline

end Node

/-! ## Lines that a node takes -/

/-- Whether a line that starts with a keyword is an entry of its own in the block of a node, and no
mark of the block, of its branch or of a block of dynamic sites. -/
def NodeType.isEntry (t : NodeType) (keyword : String) : Bool :=
  !sameName keyword ("End" ++ t.keyword) && !(t.branchKeyword?.any fun b => sameName keyword b) &&
    !(t == .select && sameName keyword NodeType.dynamicSite.keyword)

theorem NodeType.isEntry_of_isReserved {t : NodeType} {s : String} (h : t.isReserved s = false) :
    t.isEntry s = true := by
  simp only [isReserved, Bool.or_eq_false_iff] at h
  simp [isEntry, h]

theorem NodeType.isEntry_keyword (list : SourceList) :
    NodeType.dynamicSite.isEntry list.keyword = true := by
  cases list <;> decide

namespace Node

/-- **The entries on some lines bring a node from one state to another.** -/
inductive Takes (catalogue : Catalogue) : Node → List (List String) → Node → Prop
  | nil (m : Node) : Takes catalogue m [] m
  | cons {m m' m'' : Node} {keyword : String} {values : List String} {lines : List (List String)}
      (hentry : m.type.isEntry keyword = true)
      (hread : m.readLine keyword values catalogue = (.success, m'))
      (hrest : Takes catalogue m' lines m'') : Takes catalogue m ((keyword :: values) :: lines) m''

theorem Takes.append {m m' m'' : Node} {lines more : List (List String)}
    (h : Takes catalogue m lines m') (h' : Takes catalogue m' more m'') :
    Takes catalogue m (lines ++ more) m'' := by
  induction h with
  | nil m => exact h'
  | cons hentry hread _ ih => exact .cons hentry hread (ih h')

theorem readLine_eq_readKeyword {m : Node} (hblock : m.type ≠ .dynamicSite)
    (hparameters : m.type ≠ .parameters) (keyword : String) (values : List String) :
    m.readLine keyword values catalogue = m.readKeyword keyword values catalogue := by
  unfold type at hblock hparameters
  unfold readLine
  cases hkind : m.kind <;> rw [hkind] at hblock hparameters <;>
    first | rfl | exact absurd rfl hblock | exact absurd rfl hparameters

/-! ### Keywords -/

theorem readKeyword_of_find? {m : Node} {k : Keyword} {name : String}
    (hfind : m.keywords.find? name = some k) {values : List String} {data : KeywordData}
    (hread : k.data.read k.name catalogue values = .ok data) :
    m.readKeyword name values catalogue =
      (.success, { m with keywords := m.keywords.update name fun k => k.setTo data }) := by
  simp [readKeyword, KeywordStore.read, KeywordStore.readKeyword, hfind, hread, Except.map]

/-- All lines of a keyword. -/
theorem takes_readLines {m : Node} (hblock : m.type ≠ .dynamicSite)
    (hparameters : m.type ≠ .parameters) {k : Keyword} {name : String}
    (hentry : m.type.isEntry name = true) (hfind : m.keywords.find? name = some k)
    (hname : k.name = name) {lists : List (List String)} (hne : lists ≠ []) {data : KeywordData}
    (hread : KeywordData.readLines name catalogue lists k.data = (.ok (), data)) :
    Takes catalogue m (lists.map (name :: ·))
      { m with keywords := m.keywords.update name fun k => k.setTo data } := by
  induction lists generalizing m k with
  | nil => exact absurd rfl hne
  | cons values lists ih =>
      rw [KeywordData.readLines] at hread
      cases hdata : k.data.read name catalogue values with
      | error e => rw [hdata] at hread; cases hread
      | ok data' =>
          rw [hdata] at hread
          dsimp only at hread
          have hline : m.readLine name values catalogue =
              (.success, { m with keywords := m.keywords.update name fun k => k.setTo data' }) := by
            rw [readLine_eq_readKeyword hblock hparameters]
            exact readKeyword_of_find? hfind (hname ▸ hdata)
          -- Only the last line leaves its data behind: each line sets the keyword anew.
          cases lists with
          | nil =>
              obtain ⟨-, rfl⟩ := Prod.mk.inj hread
              exact .cons hentry hline (.nil _)
          | cons values' lists =>
              have hfind' : (m.keywords.update name fun k => k.setTo data').find? name =
                  some (k.setTo data') := by
                refine find?_updateFirst hfind ?_
                rw [Keyword.isNamed, Keyword.setTo, hname, sameName_refl]
              have hrest := ih (m := { m with
                keywords := m.keywords.update name fun k => k.setTo data' }) hblock hparameters
                hentry hfind' hname (by simp) hread
              rw [KeywordStore.update_setTo_setTo] at hrest
              exact .cons hentry hline hrest

variable {n now : Node} {id : NodeId} {done : List String}

/-- **The lines of the keywords bring the keywords back.** -/
theorem Progress.takes_keywords (h : Progress P catalogue id done n now)
    (hn : n.IsRestorable P catalogue) {ks : List Keyword} (hks : ks.Sublist n.keywords.setKeywords)
    (hnew : ∀ k ∈ ks, k.name ∉ done) :
    ∃ now', Takes catalogue now (ks.flatMap Keyword.args) now' ∧
      Progress P catalogue id (ks.reverse.map Keyword.name ++ done) n now' := by
  induction ks generalizing now done with
  | nil => exact ⟨now, .nil _, h⟩
  | cons k ks ih =>
      have hk : k ∈ n.keywords.setKeywords := hks.subset (by simp)
      have hmem := (List.mem_filter.1 hk).1
      obtain ⟨k', hfind, hname, hdata, hprogress⟩ := h.keyword hn hk (hnew k (by simp))
      have htype := h.type_eq
      obtain ⟨hblock, hparameters⟩ := hn.type_ne_of_mem hmem
      rw [← htype] at hblock hparameters
      have hentry : now.type.isEntry k.name = true :=
        htype ▸ NodeType.isEntry_of_isReserved (hn.isReserved_name hmem)
      have htakes := takes_readLines hblock hparameters hentry hfind hname hdata.holds.args_ne_nil
        (hdata.holds.readLines_args k.name)
      -- The names of keywords are distinct, so that those behind are still to come.
      have hnew' : ∀ l ∈ ks, l.name ∉ k.name :: done := fun l hl hmem => by
        have hdistinct := (hn.hasDistinctNames.filter Keyword.isSet).sublist hks
        rcases List.mem_cons.1 hmem with heq | hmem
        · have hne := (List.pairwise_cons.1 hdistinct).1 l hl
          rw [heq, sameName_refl] at hne
          cases hne
        · exact hnew l (by simp [hl]) hmem
      obtain ⟨now', hrest, hlast⟩ := ih hprogress ((List.sublist_cons_self k ks).trans hks) hnew'
      refine ⟨now', ?_, by simpa using hlast⟩
      rw [List.flatMap_cons]
      exact htakes.append hrest

/-! ### Parameters and lists of sites -/

theorem readParameterValue_text {value : Expression.Number} (h : value.IsKept) :
    readParameterValue value.text = .ok value := by
  unfold readParameterValue
  cases value with
  | int n => rw [Expression.Number.text, readInt?_toString h]
  | float x =>
      rw [Expression.Number.text, Layout.readInt?_precise, Layout.readFloat?_precise]

/-- Parameters come back behind those that stand before them. -/
theorem takes_parameters {m : Node} (hkind : m.kind = .parameters) {before more : List Declared}
    (hparameters : m.parameters = renumbered before) (hreplaced : m.replaced = [])
    (hread : AreReadParameters (before ++ more)) :
    Takes catalogue m (more.map parameterArgs)
      { m with parameters := renumbered (before ++ more) } := by
  induction more generalizing m before with
  | nil =>
      rw [List.append_nil, ← hparameters]
      exact .nil m
  | cons d more ih =>
      have htype : m.type = .parameters := by rw [type, hkind]; rfl
      have hdeclare := declareRead_renumbered htype hparameters hreplaced hread
      have hline : m.readLine parameterKeyword [d.parameter.name, d.parameter.value.text]
          catalogue = (.success, { m with parameters := renumbered (before ++ [d]) }) := by
        have hvalue := readParameterValue_text (hread.values d (by simp))
        simp only [readLine, hkind, sameName_refl, if_true, readParameter, hvalue, bind,
          Except.bind, hdeclare]
      have hread' : AreReadParameters ((before ++ [d]) ++ more) := by simpa using hread
      have hrest := ih (m := { m with parameters := renumbered (before ++ [d]) }) hkind rfl hreplaced
        hread'
      rw [List.append_assoc, List.singleton_append] at hrest
      exact .cons (htype ▸ by decide) hline hrest

/-- **The lines of the parameters bring the parameters back.** -/
theorem Progress.takes_kind_parameters (h : Progress P catalogue id done n now)
    (hn : n.IsRestorable P catalogue) (hkind : n.kind = .parameters)
    (hnew : parameterKeyword ∉ done) :
    ∃ now', Takes catalogue now n.kindArgs now' ∧
      Progress P catalogue id (parameterKeyword :: done) n now' := by
  have htype : n.type = .parameters := by rw [type, hkind]; rfl
  have hnone : ∀ k ∈ n.keywords.keywords, k.name ≠ parameterKeyword := by
    rw [hn.keywords_eq_nil (.inr htype)]
    simp
  have hnow : now.kind = .parameters := by rw [h.kind, hkind]; rfl
  have hstart : now.parameters = renumbered [] := by
    rw [h.parameters, partlyParameters, if_pos ⟨htype, hnew⟩]
    rfl
  have hread : AreReadParameters ([] ++ n.parameters) := by simpa using hn.parameters.areRead htype
  have htakes : Takes catalogue now (n.parameters.map parameterArgs) _ :=
    takes_parameters hnow hstart h.replaced hread
  refine ⟨_, ?_, h.other hnone⟩
  rw [kindArgs, hkind]
  dsimp only
  simpa [partlyParameters, NodeKind.partly, hnow] using htakes

/-- The lists of a block come back one by one. -/
theorem Progress.takes_lists (h : Progress P catalogue id done n now)
    (hn : n.IsRestorable P catalogue) {block : DynamicSite} (hkind : n.kind = .dynamicSite block)
    {lists : List SourceList} (hne : ∀ list ∈ lists, block.names list ≠ []) (hnodup : lists.Nodup)
    (hnew : ∀ list ∈ lists, list.keyword ∉ done) :
    ∃ now', Takes catalogue now (lists.map fun list => list.keyword :: block.names list) now' ∧
      Progress P catalogue id (lists.reverse.map SourceList.keyword ++ done) n now' := by
  induction lists generalizing now done with
  | nil => exact ⟨now, .nil _, h⟩
  | cons list lists ih =>
      have htype : n.type = .dynamicSite := by rw [type, hkind]; rfl
      -- A block has no keywords, so its lists are all that its lines change.
      have hnone : ∀ k ∈ n.keywords.keywords, k.name ≠ list.keyword := by
        rw [hn.keywords_eq_nil (.inl htype)]
        simp
      have hnow : now.kind = .dynamicSite (block.partly done) := by rw [h.kind, hkind]; rfl
      have hblock : block.IsReadFrom P catalogue := NodeKind.IsReadFrom.block (hkind ▸ hn.kind)
      obtain ⟨hlist, hne⟩ := List.forall_mem_cons.1 hne
      obtain ⟨hother, hnodup⟩ := List.nodup_cons.1 hnodup
      obtain ⟨hlistnew, hnew⟩ := List.forall_mem_cons.1 hnew
      have hentry : now.type.isEntry list.keyword = true := by
        rw [type, hnow]
        exact NodeType.isEntry_keyword list
      have hprogress := h.other hnone
      have hline : now.readLine list.keyword (block.names list) catalogue =
          (.success, { now with
            kind := n.kind.partly (list.keyword :: done)
            parameters := n.partlyParameters (list.keyword :: done) }) := by
        have hsame : n.partlyParameters (list.keyword :: done) = now.parameters := by
          rw [h.parameters]
          simp [partlyParameters, htype]
        simp only [readLine, hnow, hblock.readLine_partly hlist hlistnew, hkind, NodeKind.partly,
          hsame]
      have hnew' : ∀ l ∈ lists, l.keyword ∉ list.keyword :: done := fun l hl hmem => by
        rcases List.mem_cons.1 hmem with heq | hmem
        · exact hother (SourceList.keyword_inj.1 heq ▸ hl)
        · exact hnew l hl hmem
      obtain ⟨now', hrest, hlast⟩ := ih hprogress hne hnodup hnew'
      exact ⟨now', .cons hentry hline hrest, by simpa using hlast⟩

/-- **The lines of a block of dynamic sites bring the block back.** -/
theorem Progress.takes_block (h : Progress P catalogue id done n now)
    (hn : n.IsRestorable P catalogue) {block : DynamicSite} (hkind : n.kind = .dynamicSite block)
    (hnew : ∀ list : SourceList, list.keyword ∉ done) :
    ∃ now' done', Takes catalogue now n.kindArgs now' ∧ Progress P catalogue id done' n now' ∧
      (∀ list, block.names list ≠ [] → SourceList.keyword list ∈ done') ∧ done ⊆ done' := by
  obtain ⟨now', htakes, hprogress⟩ := h.takes_lists hn hkind
    (fun list hlist => DynamicSite.mem_filled_iff.1 hlist) block.nodup_filled
    (fun list _ => hnew list)
  rw [← block.args_eq] at htakes
  refine ⟨now', _, ?_, hprogress, fun list hne => ?_, List.subset_append_right _ _⟩
  · rw [kindArgs, hkind]
    exact htakes
  · have hmem : list ∈ block.filled.reverse :=
      List.mem_reverse.2 (DynamicSite.mem_filled_iff.2 hne)
    exact List.mem_append_left _ (List.mem_map.2 ⟨list, hmem, rfl⟩)

end Node

end SiteAnalysis
