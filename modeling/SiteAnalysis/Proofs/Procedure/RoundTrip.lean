import SiteAnalysis.Procedure
import SiteAnalysis.Proofs.Text.Grammar
import SiteAnalysis.Proofs.Tree.Documents
import SiteAnalysis.Proofs.Tree.Linked
import SiteAnalysis.Proofs.Tree.Text

set_option autoImplicit false

/-! # Procedures that are written and read again

What is written of a procedure that was read gives the procedure back, as text and as a document,
exactly if no name occurs twice in it. Names are distinct in a tree that was read unless one was
given out twice: the name of a node is not reserved while the nodes below it are named.

* `Procedure.readText_toText_iff`: the round trip of the text.
-/

namespace SiteAnalysis

variable {P : String → Prop} {lookup : Lookup}

/-! ## Trees that were read and linked -/

/-- **A tree that was read and linked can be written and read again.** -/
theorem Sequence.IsReadFrom.isRestorable (hP : IsTextClass P) {level : Level} {start : Nat}
    {s : Sequence} (h : s.IsReadFrom P lookup level start) {g : Forest}
    (hlink : s.nodes.link = (g, .ok ())) : g.IsRestorable P lookup := by
  obtain ⟨rfl, hrefs⟩ := Forest.link_eq_ok_iff.1 hlink
  have hbranch : ∀ n : Node, n.branch.isNone = (s.nodes.refreshed n).branch.isNone := fun _ => rfl
  have hbranches : Forest.Rel (fun n m => n.branch.isNone = m.branch.isNone) s.nodes
      (s.nodes.map s.nodes.refreshed) := .map hbranch s.nodes
  refine ⟨hbranches.isShaped (fun h => h) h.forest.shaped, ?_, ?_, ?_⟩
  all_goals rw [Forest.nodes_map]; refine List.forall_mem_map.2 fun n hn => ?_
  · exact Forest.fits_refreshed hP (h.forest.nodes n hn) (hrefs n hn)
  · exact (h.forest.nodes n hn).admitted
  · exact h.named n hn

theorem Sequence.IsReadFrom.relevant_link {level : Level} {start : Nat} {s : Sequence}
    (h : s.IsReadFrom P lookup level start) {g : Forest} (hlink : s.nodes.link = (g, .ok ())) :
    ∀ n ∈ g.nodes, n.type.isRelevantIn level.context = true := by
  obtain ⟨rfl, -⟩ := Forest.link_eq_ok_iff.1 hlink
  rw [Forest.nodes_map]
  exact List.forall_mem_map.2 h.relevant

/-- Nodes have distinct identities. -/
theorem Sequence.IsReadFrom.nodup_ids_link {level : Level} {start : Nat} {s : Sequence}
    (h : s.IsReadFrom P lookup level start) {g : Forest} (hlink : s.nodes.link = (g, .ok ())) :
    (g.nodes.map Node.id).Nodup := by
  obtain ⟨count, hids⟩ := h.identities
  obtain ⟨rfl, -⟩ := Forest.link_eq_ok_iff.1 hlink
  have hsame : (s.nodes.map s.nodes.refreshed).nodes.map Node.id = s.nodes.nodes.map Node.id := by
    rw [Forest.nodes_map, List.map_map]
    rfl
  have hvalues : ((s.nodes.nodes.map Node.id).map NodeId.value).Nodup := by
    rw [List.map_map]
    exact hids ▸ List.nodup_range'
  rw [hsame]
  exact hvalues.of_map _

/-- The arguments on the lines of a text hold no line feeds. -/
theorem fitsLine_of_tokenise {text : String} (h : ∀ line ∈ linesOf text, ∀ args,
    tokenise line = .ok args → ∀ a ∈ args, isWritable a = true) :
    ∀ line ∈ linesOf text, ∀ args, tokenise line = .ok args → ∀ a ∈ args, FitsLine a := by
  intro line hline args hargs a ha
  refine ⟨h line hline args hargs a ha, fun hfeed => ?_⟩
  have hlines := areLines_linesOf_ofList text.toList
  rw [String.ofList_toList] at hlines
  exact hlines.not_mem line hline (subset_of_tokenise hargs ha hfeed)

/-- An argument in a text without double quotes can be written. -/
theorem isWritable_of_tokenise {text line a : String} {args : List String}
    (hquote : '"' ∉ text.toList) (hline : line ∈ linesOf text) (hargs : tokenise line = .ok args)
    (ha : a ∈ args) : isWritable a = true := by
  have hfree : '"' ∉ a.toList := fun hmem =>
    hquote (subset_of_mem_linesOf hline (subset_of_tokenise hargs ha hmem))
  simp [isWritable, hfree]

namespace Procedure

variable {p p' q : Procedure}

theorem takeOver_eq_ok_iff {read : Except Error Sequence × NodeId} :
    p.takeOver read = (.ok (), p') ↔ ∃ root g, read.1 = .ok root ∧ root.nodes.link = (g, .ok ()) ∧
      p' = { p with root := { root with nodes := g }, versions := [], fresh := read.2 } := by
  obtain ⟨read, fresh⟩ := read
  cases read with
  | error e => simp [takeOver]
  | ok root =>
      unfold takeOver
      cases hlink : root.nodes.link with
      | mk g linked => cases linked <;> simp [hlink, eq_comm]

/-- **A tree that comes back from what was written of it is taken over**: it is the same tree with
other identities, of which the same text is written. -/
theorem exists_takeOver {g : Forest} (hids : (g.nodes.map Node.id).Nodup)
    (hresolved : g.IsResolvedByName) {level : Level} (hkeyword : level.keyword = p.root.level.keyword)
    (i : Nat) (fresh : NodeId) : ∃ p',
      p.takeOver (.ok ⟨p.emptyRoot.level, g.reissue p.emptyRoot.level.context i⟩, fresh) =
        (.ok (), p') ∧
      p'.root.nodes.bare = g.bare ∧ p'.toText = (Sequence.mk level g).text := by
  obtain ⟨f, hf, hbare⟩ := hresolved.link_reissue hids p.emptyRoot.level.context i
  have hlines : f.lines = g.lines := by rw [← f.lines_bare, hbare, g.lines_bare]
  have hterminator : level.terminator = p.emptyRoot.level.terminator :=
    congrArg ("End" ++ ·) hkeyword
  refine ⟨_, takeOver_eq_ok_iff.2 ⟨_, f, rfl, hf, rfl⟩, hbare, ?_⟩
  rw [toText, Sequence.text, Sequence.text, hlines, hterminator]

/-- **What was written of a tree that was read is taken over** exactly if it can be read. -/
theorem exists_takeOver_iff {level : Level} {start : Nat} {s : Sequence}
    (h : s.IsReadFrom P lookup level start) {g : Forest} (hlink : s.nodes.link = (g, .ok ()))
    (hlevel : level = p.emptyRoot.level) {read : Except Error Sequence × NodeId} {i : Nat}
    {fresh : NodeId}
    (hread : if g.names.Nodup then
      read = (.ok ⟨p.emptyRoot.level, g.reissue p.emptyRoot.level.context i⟩, fresh)
    else ∃ e, read.1 = .error e) :
    (∃ p', p.takeOver read = (.ok (), p') ∧ p'.root.nodes.bare = g.bare ∧
      p'.toText = (Sequence.mk s.level g).text) ↔ g.names.Nodup := by
  split at hread
  · next hnodup =>
      have hkeyword : s.level.keyword = p.root.level.keyword := by
        rw [h.outermost, hlevel]
        rfl
      rw [hread]
      exact iff_of_true (exists_takeOver (h.nodup_ids_link hlink)
        (h.forest.isResolvedByName hlink) hkeyword i fresh) hnodup
  · next hnodup =>
      obtain ⟨e, he⟩ := hread
      refine iff_of_false ?_ hnodup
      rintro ⟨p', hagain, -⟩
      obtain ⟨root, -, hroot, -⟩ := takeOver_eq_ok_iff.1 hagain
      rw [he] at hroot
      cases hroot

/-- **The text of a procedure that was read gives the procedure back** exactly if no name occurs
twice in it: the same tree, of which the same text is written. -/
theorem readText_toText_iff {text : String}
    (hblank : ∀ c ∈ p.root.level.keyword.toList, isBlank c = false)
    (hargs : ∀ line ∈ linesOf text, ∀ args, tokenise line = .ok args →
      ∀ a ∈ args, isWritable a = true)
    (hread : p.readText lookup text = (.ok (), p')) (hq : q.emptyRoot = p.emptyRoot) :
    (∃ q', q.readText lookup p'.toText = (.ok (), q') ∧
      q'.root.nodes.bare = p'.root.nodes.bare ∧ q'.toText = p'.toText) ↔
      p'.root.nodes.names.Nodup := by
  obtain ⟨s, g, hs, hlink, rfl⟩ := takeOver_eq_ok_iff.1 hread
  have hfrom := Sequence.ofText_isRead isTextClass_fitsLine (fitsLine_of_tokenise hargs)
    (Prod.ext hs rfl)
  have hlevel : p.emptyRoot.level = q.emptyRoot.level := by rw [hq]
  have hkeyword : s.level.keyword = p.root.level.keyword := by
    rw [hfrom.outermost]
    rfl
  -- Linking leaves what was read in a form that comes back.
  have hrestorable : (Sequence.mk s.level g).nodes.IsRestorable FitsLine lookup :=
    hfrom.isRestorable isTextClass_fitsLine hlink
  have hsame : q.emptyRoot.level.keyword = s.level.keyword := by
    rw [hkeyword, ← hlevel]
    rfl
  have hrelevant : ∀ n ∈ g.nodes, n.type.isRelevantIn q.emptyRoot.level.context = true := by
    rw [← hlevel]
    exact hfrom.relevant_link hlink
  exact exists_takeOver_iff hfrom hlink hlevel <|
    Sequence.ofText_text hrestorable (by rwa [hkeyword]) hsame hrelevant q.fresh

/-- What was done without a fault. -/
theorem eq_ok_of_isOk {α : Type} {read : Except Error Unit × α} (h : read.1.isOk = true) :
    read = (.ok (), read.2) := by
  obtain ⟨outcome, a⟩ := read
  cases outcome with
  | ok u => rfl
  | error e => cases h

/-- A text with a node below another that has no name of its own. -/
def nested : String :=
  "Select Oxygens\nForEach\nSelect\nEndSelect\nEndForEach\nEndSelect\n"

theorem names_nested :
    let read := (ofContext .analysis "Analysis").readText ⟨.empty, .full⟩ nested
    read.1.isOk = true ∧ read.2.root.nodes.names.Nodup ∧
      ∀ n ∈ read.2.root.nodes.nodes, n.isFinite = true := by
  decide +kernel

/-- The text of such a procedure gives it back. -/
theorem readText_toText_nested :
    let start := ofContext .analysis "Analysis"
    let p := (start.readText ⟨.empty, .full⟩ nested).2
    ∃ q, start.readText ⟨.empty, .full⟩ p.toText = (.ok (), q) ∧
      q.root.nodes.bare = p.root.nodes.bare ∧ q.toText = p.toText := by
  have hplain : IsPlain "Analysis" := by decide
  have hquote : '"' ∉ nested.toList := by decide
  exact (readText_toText_iff (fun _ hc => hplain.isBlank hc)
    (fun _ hline _ hargs _ ha => isWritable_of_tokenise hquote hline hargs ha)
    (eq_ok_of_isOk names_nested.1) rfl).2 names_nested.2.1

/-- A text in which a node without a name stands below one that has the name given out next. -/
def namesakes : String :=
  "Select Select01\nForEach\nSelect\nEndSelect\nEndForEach\nEndSelect\n"

/-- The lower node is given the name of the upper one, so that what is written cannot be read. -/
theorem names_namesakes :
    let start := ofContext .analysis "Analysis"
    let read := start.readText ⟨.empty, .full⟩ namesakes
    read.1.isOk = true ∧ read.2.root.nodes.names = ["select01", "select01"] ∧
      (∀ n ∈ read.2.root.nodes.nodes, n.isFinite = true) ∧
      (start.readText ⟨.empty, .full⟩ read.2.toText).1.isOk = false ∧
      (start.readDocument ⟨.empty, .full⟩ read.2.toJson).1.isOk = false := by
  decide +kernel

/-- A text with the name of the upper node given to the lower one cannot be read. -/
theorem readText_toText_namesakes :
    let start := ofContext .analysis "Analysis"
    let read := start.readText ⟨.empty, .full⟩ namesakes
    '"' ∉ namesakes.toList ∧
      read.1.isOk = true ∧ read.2.root.nodes.names = ["select01", "select01"] ∧
      (start.readText ⟨.empty, .full⟩ read.2.toText).1.isOk = false :=
  ⟨by decide, names_namesakes.1, names_namesakes.2.1, names_namesakes.2.2.2.1⟩

/-- **The document of a procedure that was read gives the procedure back** exactly if no name
occurs twice in it, if all its numbers are finite: the same tree, of which the same text is
written. -/
theorem readDocument_toJson_iff {text : String} (hread : p.readText lookup text = (.ok (), p'))
    (hfinite : ∀ n ∈ p'.root.nodes.nodes, n.isFinite = true) (hq : q.emptyRoot = p.emptyRoot) :
    (∃ q', q.readDocument lookup p'.toJson = (.ok (), q') ∧
      q'.root.nodes.bare = p'.root.nodes.bare ∧ q'.toText = p'.toText) ↔
      p'.root.nodes.names.Nodup := by
  obtain ⟨s, g, hs, hlink, rfl⟩ := takeOver_eq_ok_iff.1 hread
  have hfrom := Sequence.ofText_isRead isTextClass_true (fun _ _ _ _ _ _ => trivial)
    (Prod.ext hs rfl)
  have hlevel : p.emptyRoot.level = q.emptyRoot.level := by rw [hq]
  have hrestorable : (Sequence.mk s.level g).nodes.IsRestorable (fun _ => True) lookup :=
    hfrom.isRestorable isTextClass_true hlink
  have hrelevant : ∀ n ∈ g.nodes, n.type.isRelevantIn q.emptyRoot.level.context = true := by
    rw [← hlevel]
    exact hfrom.relevant_link hlink
  exact exists_takeOver_iff hfrom hlink hlevel <|
    Sequence.ofJson_toJson hrestorable hfinite hrelevant q.fresh

/-- The document of a node below another that has no name of its own gives both back. -/
theorem readDocument_toJson_nested :
    let start := ofContext .analysis "Analysis"
    let p := (start.readText ⟨.empty, .full⟩ nested).2
    ∃ q, start.readDocument ⟨.empty, .full⟩ p.toJson = (.ok (), q) ∧
      q.root.nodes.bare = p.root.nodes.bare ∧ q.toText = p.toText :=
  (readDocument_toJson_iff (eq_ok_of_isOk names_nested.1) names_nested.2.2 rfl).2 names_nested.2.1

/-- A document with the name of the upper node given to the lower one cannot be read. -/
theorem readDocument_toJson_namesakes :
    let start := ofContext .analysis "Analysis"
    let read := start.readText ⟨.empty, .full⟩ namesakes
    read.1.isOk = true ∧ (∀ n ∈ read.2.root.nodes.nodes, n.isFinite = true) ∧
      read.2.root.nodes.names = ["select01", "select01"] ∧
      (start.readDocument ⟨.empty, .full⟩ read.2.toJson).1.isOk = false :=
  ⟨names_namesakes.1, names_namesakes.2.2.1, names_namesakes.2.1, names_namesakes.2.2.2.2⟩

end Procedure

end SiteAnalysis
