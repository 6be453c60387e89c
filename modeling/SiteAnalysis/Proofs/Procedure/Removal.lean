import SiteAnalysis.Proofs.Procedure.RoundTrip
import SiteAnalysis.Proofs.Tree.Remains

set_option autoImplicit false

/-! # Procedures from which nodes were taken out

Nodes are taken out of a procedure that was read, one after the other, and then the references that
mean no node any more are dropped. A keyword that loses all its references is not set any more, but
one that loses some stays set, whether or not it may have so few. Main statements:

* `Procedure.IsRestorable.withoutNodes`: removals leave a tree that can be written.
* `Procedure.readText_withoutNodes_iff`: when the text of what is left can be read.
-/

namespace SiteAnalysis

namespace Procedure

variable {lookup : Lookup} {p p' q : Procedure}

/-! ## Trees that can be written -/

/-- **A procedure whose tree can be written**: each node has what its type has, an identity of its
own and a type that may stand where it stands. -/
structure IsRestorable (lookup : Lookup) (p : Procedure) : Prop where
  nodes : p.root.nodes.IsRestorable FitsLine lookup
  nodup_ids : (p.root.nodes.nodes.map Node.id).Nodup
  relevant : ∀ n ∈ p.root.nodes.nodes, n.type.isRelevantIn p.root.level.context = true

/-- A procedure that was read has such a tree. -/
theorem isRestorable_of_readText {text : String}
    (hargs : ∀ line ∈ linesOf text, ∀ args, tokenise line = .ok args →
      ∀ a ∈ args, isWritable a = true)
    (hread : p.readText lookup text = (.ok (), p')) :
    p'.IsRestorable lookup ∧ p'.emptyRoot = p.emptyRoot := by
  obtain ⟨s, g, hs, hlink, rfl⟩ := takeOver_eq_ok_iff.1 hread
  have hfrom := Sequence.ofText_isRead isTextClass_fitsLine (fitsLine_of_tokenise hargs)
    (Prod.ext hs rfl)
  have hkeyword : s.level.keyword = p.root.level.keyword := by
    rw [hfrom.outermost]
    rfl
  have hcontext : s.level.context = p.root.level.context := by
    rw [hfrom.outermost]
    rfl
  refine ⟨⟨hfrom.isRestorable isTextClass_fitsLine hlink, hfrom.nodup_ids_link hlink,
    fun n hn => ?_⟩, ?_⟩
  · exact hcontext ▸ hfrom.relevant_link hlink n hn
  · rw [emptyRoot, emptyRoot, hkeyword, hcontext]

theorem IsRestorable.of_part (h : p.IsRestorable lookup) (hlevel : p'.root.level = p.root.level)
    (hpart : p'.root.nodes.PartOf p.root.nodes) : p'.IsRestorable lookup := by
  refine ⟨hpart.isRestorable h.nodes, hpart.nodup_ids h.nodup_ids, fun n hn => ?_⟩
  rw [hlevel]
  exact h.relevant n (hpart.nodes.subset hn)

/-! ## Nodes that are taken out -/

/-- The procedure without a node and its branch, or as it is if there is no such node. -/
def withoutNode (p : Procedure) (id : NodeId) : Procedure :=
  match p.removeNode id with
  | some (_, p) => p
  | none => p

/-- **The procedure without some nodes**, taken out one after the other. -/
def withoutNodes (p : Procedure) (ids : List NodeId) : Procedure := ids.foldl withoutNode p

/-- One removal leaves a part of the tree. -/
theorem IsRestorable.withoutNode (h : p.IsRestorable lookup) (id : NodeId) :
    (p.withoutNode id).IsRestorable lookup ∧ (p.withoutNode id).emptyRoot = p.emptyRoot := by
  unfold Procedure.withoutNode removeNode
  cases hremove : p.root.nodes.remove? id with
  | none => exact ⟨h, rfl⟩
  | some removed => exact ⟨h.of_part rfl (Forest.partOf_of_remove? hremove), rfl⟩

/-- **Removals leave a tree that can be written.** -/
theorem IsRestorable.withoutNodes (h : p.IsRestorable lookup) (ids : List NodeId) :
    (p.withoutNodes ids).IsRestorable lookup ∧ (p.withoutNodes ids).emptyRoot = p.emptyRoot := by
  induction ids generalizing p with
  | nil => exact ⟨h, rfl⟩
  | cons id ids ih =>
      obtain ⟨hfirst, hempty⟩ := h.withoutNode id
      obtain ⟨hothers, hempty'⟩ := ih hfirst
      exact ⟨hothers, hempty'.trans hempty⟩

/-! ## References that are dropped -/

/-- Once references are dropped, what is left is read if names are distinct and no list of nodes has
too few or too many, and is refused otherwise. -/
theorem IsRestorable.readText_dropStale (h : p.IsRestorable lookup)
    (hblank : ∀ c ∈ p.root.level.keyword.toList, isBlank c = false)
    (hq : q.emptyRoot = p.emptyRoot) :
    let left := p.dropStale.2
    if left.root.nodes.names.Nodup ∧ ∀ n ∈ left.root.nodes.nodes, n.isCounted = true then
      ∃ q', q.readText lookup left.toText = (.ok (), q') ∧ q'.toText = left.toText
    else ∃ e, (q.readText lookup left.toText).1 = .error e := by
  intro left
  have hstores : ∀ n ∈ p.root.nodes.nodes, n.keywords.HasDistinctNames := fun n hn =>
    (h.nodes.fits n hn).hasDistinctNames
  -- The text is that of what remains, which has the names and counts of what is left.
  have hleft : left.root.nodes = p.root.nodes.map p.root.nodes.pruned :=
    (Forest.dropStale_fst h.nodup_ids hstores).1
  have htext : left.toText = (Sequence.mk p.root.level p.root.nodes.remains).text := by
    rw [toText, Sequence.text, Sequence.text, p.root.nodes.lines_remains, hleft]
    rfl
  have hnames : p.root.nodes.remains.names.Nodup ↔ left.root.nodes.names.Nodup := by
    rw [p.root.nodes.names_remains, hleft]
  have hcounted : (∀ n ∈ p.root.nodes.remains.nodes, n.isCounted = true) ↔
      ∀ n ∈ left.root.nodes.nodes, n.isCounted = true := by
    rw [Forest.forall_isCounted_remains, hleft]
  have hkeyword : q.emptyRoot.level.keyword = p.root.level.keyword := by
    rw [hq]
    rfl
  have hrelevant : ∀ n ∈ p.root.nodes.remains.nodes,
      n.type.isRelevantIn q.emptyRoot.level.context = true := by
    rw [hq]
    simp only [Forest.remains, Forest.nodes_map, List.forall_mem_map]
    exact h.relevant
  have hread := Sequence.ofText_text_iff (s := ⟨p.root.level, p.root.nodes.remains⟩)
    (Forest.IsRestorable.isWritable_remains h.nodup_ids h.nodes) hblank hkeyword hrelevant q.fresh
  -- It is read, or refused, for that reason.
  split at hread
  · next hboth =>
      obtain ⟨q', hq', -, htext'⟩ := exists_takeOver (p := q)
        (by rw [Forest.ids_remains]; exact h.nodup_ids)
        (h.nodes.isResolvedByName_remains h.nodup_ids hboth.1) hkeyword.symm q.fresh.value
        ⟨q.fresh.value + p.root.nodes.remains.nodes.length⟩
      rw [if_pos ⟨hnames.1 hboth.1, hcounted.1 hboth.2⟩]
      refine ⟨q', ?_, htext'.trans htext.symm⟩
      rw [readText, htext]
      exact (congrArg q.takeOver hread).trans hq'
  · next hnot =>
      obtain ⟨e, he⟩ := hread
      have hfails : Sequence.ofText lookup q.emptyRoot q.fresh
          (Sequence.mk p.root.level p.root.nodes.remains).text = (.error e, _) := Prod.ext he rfl
      rw [if_neg fun hboth => hnot ⟨hnames.2 hboth.1, hcounted.2 hboth.2⟩, readText, htext, hfails]
      exact ⟨e, rfl⟩

/-- **When the text of what is left can be read**: exactly if no name occurs twice and every list of
nodes that is set has as many as its keyword takes. Then it gives back what is left. -/
theorem readText_withoutNodes_iff {text : String}
    (hblank : ∀ c ∈ p.root.level.keyword.toList, isBlank c = false)
    (hargs : ∀ line ∈ linesOf text, ∀ args, tokenise line = .ok args →
      ∀ a ∈ args, isWritable a = true)
    (hread : p.readText lookup text = (.ok (), p')) (hq : q.emptyRoot = p.emptyRoot)
    (ids : List NodeId) :
    let left := (p'.withoutNodes ids).dropStale.2
    let again := q.readText lookup left.toText
    (again.1 = .ok () ↔ left.root.nodes.names.Nodup ∧
      ∀ n ∈ left.root.nodes.nodes, ∀ k ∈ n.keywords.setKeywords, k.data.isCounted = true) ∧
    (again.1 = .ok () → again.2.toText = left.toText) := by
  intro left again
  obtain ⟨hrestorable, hempty⟩ := isRestorable_of_readText hargs hread
  obtain ⟨hpart, hempty'⟩ := hrestorable.withoutNodes ids
  have hsame : (p'.withoutNodes ids).emptyRoot = p.emptyRoot := hempty'.trans hempty
  have hkeyword : (p'.withoutNodes ids).root.level.keyword = p.root.level.keyword :=
    congrArg (fun s => s.level.keyword) hsame
  have hboth := hpart.readText_dropStale (by rwa [hkeyword]) (hq.trans hsame.symm)
  dsimp only at hboth
  have hcounted : (∀ n ∈ left.root.nodes.nodes, n.isCounted = true) ↔
      ∀ n ∈ left.root.nodes.nodes, ∀ k ∈ n.keywords.setKeywords, k.data.isCounted = true :=
    forall₂_congr fun n _ => List.all_eq_true
  split at hboth
  · next hyes =>
      obtain ⟨q', hq', htext⟩ := hboth
      have hagain : again = (.ok (), q') := hq'
      rw [hagain]
      exact ⟨iff_of_true rfl ⟨hyes.1, hcounted.1 hyes.2⟩, fun _ => htext⟩
  · next hno =>
      obtain ⟨e, he⟩ := hboth
      have hagain : again.1 = .error e := he
      have hfails : again.1 ≠ .ok () := by
        rw [hagain]
        nofun
      exact ⟨iff_of_false hfails fun hyes => hno ⟨hyes.1, hcounted.2 hyes.2⟩,
        fun hok => absurd hok hfails⟩

/-- A text with a node that compares the sites of three others, which takes two of them at
least. -/
def compared : String :=
  "Select A\nEndSelect\nSelect B\nEndSelect\nSelect C\nEndSelect\n" ++
    "Exclude X\nSameSite A B C\nEndExclude\n"

/-- The node can do without one of the three, but not without two. -/
theorem isCounted_compared :
    let start := ofContext .analysis "Analysis"
    let read := start.readText ⟨.empty, .full⟩ compared
    let one := (read.2.withoutNodes [⟨1⟩]).dropStale.2
    let two := (read.2.withoutNodes [⟨1⟩, ⟨2⟩]).dropStale.2
    read.1.isOk = true ∧ (one.root.nodes.names.Nodup ∧
      ∀ n ∈ one.root.nodes.nodes, ∀ k ∈ n.keywords.setKeywords, k.data.isCounted = true) ∧
      two.root.nodes.nodes.map (fun n => n.keywords.setKeywords.flatMap Keyword.args) =
        [[], [["SameSite", "A"]]] ∧
      (start.readText ⟨.empty, .full⟩ two.toText).1.isOk = false := by
  decide +kernel

/-- Without one of three nodes the text can be read. -/
theorem readText_withoutNodes_one :
    let start := ofContext .analysis "Analysis"
    let left := ((start.readText ⟨.empty, .full⟩ compared).2.withoutNodes [⟨1⟩]).dropStale.2
    let again := start.readText ⟨.empty, .full⟩ left.toText
    again.1 = .ok () ∧ again.2.toText = left.toText := by
  intro start left again
  have hplain : IsPlain "Analysis" := by decide
  have hquote : '"' ∉ compared.toList := by decide
  obtain ⟨hread, hleft, -⟩ := isCounted_compared
  obtain ⟨hiff, htext⟩ := readText_withoutNodes_iff (fun _ hc => hplain.isBlank hc)
    (fun _ hline _ hargs _ ha => isWritable_of_tokenise hquote hline hargs ha)
    (eq_ok_of_isOk hread) (rfl : start.emptyRoot = start.emptyRoot) [⟨1⟩]
  exact ⟨hiff.2 hleft, htext (hiff.2 hleft)⟩

/-- Without two of three nodes the text cannot be read, since one alone is left to compare. -/
theorem readText_withoutNodes_two :
    let start := ofContext .analysis "Analysis"
    let read := start.readText ⟨.empty, .full⟩ compared
    let left := (read.2.withoutNodes [⟨1⟩, ⟨2⟩]).dropStale.2
    '"' ∉ compared.toList ∧ read.1.isOk = true ∧
      left.root.nodes.nodes.map (fun n => n.keywords.setKeywords.flatMap Keyword.args) =
        [[], [["SameSite", "A"]]] ∧
      (start.readText ⟨.empty, .full⟩ left.toText).1.isOk = false :=
  ⟨by decide, isCounted_compared.1, isCounted_compared.2.2⟩

end Procedure

end SiteAnalysis
