import SiteAnalysis.Proofs.Tree.Text

set_option autoImplicit false

/-! # Texts with lists of nodes that lost some

A tree can be written although some list of nodes has fewer than its keyword takes
(`Forest.IsWritable`). What is written of it cannot be read then: the line of that list is a problem,
whatever stands before it. Main statements:

* `Reading.run_forest_uncounted`: the lines of such a forest lead to a problem.
* `Sequence.ofText_text_iff`: when the text of a sequence can be read.
-/

namespace SiteAnalysis

variable {P : String → Prop} {lookup : Lookup}

/-- A node as reading leaves it, whatever the texts in it are. -/
abbrev Node.IsAnyRead (catalogue : Catalogue) (n : Node) : Prop :=
  n.Fits (KeywordData.IsReadFrom (fun _ => True) catalogue) (fun _ => True) catalogue

namespace Forest.IsWritable

variable {n : Node} {branch rest : Forest}

theorem of_tree (h : (cons n branch rest).IsWritable P lookup) :
    (single ⟨n, branch⟩).IsWritable P lookup :=
  ⟨⟨h.shaped.1, h.shaped.2.1, trivial⟩,
    fun m hm => h.fits m (by simpa [nodes] using .imp_right .inl (by simpa using hm)),
    fun m hm => h.admitted m (by simpa [nodes] using .imp_right .inl (by simpa using hm)),
    fun m hm => h.named m (by simpa [nodes] using .imp_right .inl (by simpa using hm))⟩

end Forest.IsWritable

namespace Reading

variable {r : Reading} {m n : Node} {b branch : Forest} {line : Nat} {rest : List OpenNode}

/-! ## Entries of a node -/

/-- **Whatever entries say**, the reader finds a problem or stays in the block of a node of the same
type. -/
theorem run_entries_cases {lists : List (List String)}
    (hm : m.IsAnyRead lookup.catalogue)
    (hentries : ∀ args ∈ lists, ∃ keyword values,
      args = keyword :: values ∧ m.type.isEntry keyword = true) (number : Nat) :
    ((r.inBlock ⟨m, b⟩ line rest).run lookup lists number).problems ≠ [] ∨
      ∃ m', m'.type = m.type ∧ m'.IsAnyRead lookup.catalogue ∧
        (r.inBlock ⟨m, b⟩ line rest).run lookup lists number = r.inBlock ⟨m', b⟩ line rest := by
  induction lists generalizing m number with
  | nil => exact .inr ⟨m, rfl, hm, rfl⟩
  | cons args lists ih =>
      obtain ⟨⟨keyword, values, rfl, hentry⟩, hothers⟩ := List.forall_mem_cons.1 hentries
      have hkeeps := m.keeps_readLine keyword values lookup.catalogue
      have hany : ∀ a ∈ values, True := fun _ _ => trivial
      have hread := hm.readLine isTextClass_true keyword hany
      rw [run_cons, step_entry_eq hm.branch hentry]
      generalize m.readLine keyword values lookup.catalogue = result at *
      obtain ⟨outcome, m'⟩ := result
      have htype : m'.type = m.type := hkeeps.type
      have hrest := ih hread (htype ▸ hothers) (number + 1)
      rw [htype] at hrest
      cases outcome with
      | success => exact hrest
      | deprecated _ => exact hrest
      | failed e => exact .inl (problems_run_ne_nil (problems_report_ne_nil _ _) _ _)
      | unrecognised => exact .inl (problems_run_ne_nil (problems_report_ne_nil _ _) _ _)

theorem fits_freshLike {R : KeywordData → KeywordData → Prop} {catalogue : Catalogue}
    (n : Node) (id : NodeId) : (n.freshLike id).Fits R P catalogue := by
  unfold Node.freshLike
  split
  · exact Node.fits_ofType id n.type
  · exact (Node.fits_ofType id n.type).rename n.name

theorem type_freshLike (n : Node) (id : NodeId) : (n.freshLike id).type = n.type := by
  unfold Node.freshLike
  split <;> simp

/-- **The entries of a node with a list that has lost too many** lead to a problem. -/
theorem run_entries_uncounted (hn : n.IsWritable P lookup.catalogue)
    (huncounted : n.isCounted = false) (id : NodeId) (number : Nat) :
    ((r.inBlock ⟨n.freshLike id, b⟩ line rest).run lookup n.entryArgs number).problems ≠ [] := by
  rw [Node.isCounted, List.all_eq_false] at huncounted
  obtain ⟨k, hk, hcount⟩ := huncounted
  obtain ⟨values, hargs, hfails⟩ := hn.keywords.read_uncounted n.type.hasDistinctNames_keywords hk
    (by simpa using hcount)
  have hmem := (List.mem_filter.1 hk).1
  have hentry : ∀ k ∈ n.keywords.setKeywords, n.type.isEntry k.name = true := fun k hk =>
    NodeType.isEntry_of_isReserved (hn.isReserved_name (List.mem_filter.1 hk).1)
  obtain ⟨before, behind, hsplit⟩ := List.append_of_mem hk
  have hlines : n.entryArgs = before.flatMap Keyword.args ++
      ((k.name :: values) :: (behind.flatMap Keyword.args ++ n.kindArgs)) := by
    simp [Node.entryArgs, hsplit, Keyword.args, hargs]
  have hbefore : ∀ args ∈ before.flatMap Keyword.args, ∃ keyword values,
      args = keyword :: values ∧ (n.freshLike id).type.isEntry keyword = true := by
    intro args hmem
    obtain ⟨k', hk', hmem⟩ := List.mem_flatMap.1 hmem
    obtain ⟨values', -, rfl⟩ := List.mem_map.1 hmem
    refine ⟨k'.name, values', rfl, ?_⟩
    rw [type_freshLike]
    exact hentry k' (by simp [hsplit, hk'])
  have hfresh : (n.freshLike id).IsAnyRead lookup.catalogue := fits_freshLike n id
  rw [hlines, run_append, run_cons]
  -- The lines before it may be a problem themselves; else the list is the first one.
  obtain hproblems | ⟨m', htype, hm', hrun⟩ := run_entries_cases hfresh hbefore number
  · rw [← run_cons]
    exact problems_run_ne_nil hproblems _ _
  · rw [type_freshLike] at htype
    obtain ⟨hblock, hparameters⟩ := hn.type_ne_of_mem hmem
    rw [← htype] at hblock hparameters
    obtain ⟨e, he⟩ := hfails (htype ▸ hm'.keywords)
    have hread : m'.readLine k.name values lookup.catalogue = (.failed e, m') := by
      rw [Node.readLine_eq_readKeyword hblock hparameters, Node.readKeyword, he]
    rw [hrun, step_entry_eq hm'.branch (htype ▸ hentry k hk), hread]
    exact problems_run_ne_nil (problems_report_ne_nil _ _) _ _

/-! ## Forests -/

/-- The lines of a tree with a list that has lost too many lead to a problem, if those of its branch
do so. -/
theorem run_single_uncounted {branch rest : Forest}
    (hf : (Forest.cons n branch rest).IsWritable P lookup)
    (huncounted : ¬ ∀ m ∈ (Forest.single ⟨n, branch⟩).nodes, m.isCounted = true)
    (hinside : ∀ (r : Reading) (number : Nat), r.InList →
      (∀ m ∈ branch.nodes, m.type.isRelevantIn r.list.level.context = true) →
      r.list.nodes.names.Nodup → (¬ ∀ m ∈ branch.nodes, m.isCounted = true) →
      (r.run lookup branch.args number).problems ≠ [])
    (hplace : r.place = .list) (number : Nat) :
    (r.run lookup (Forest.single ⟨n, branch⟩).args number).problems ≠ [] := by
  have hadmitted := hf.admitted n (by simp [Forest.nodes])
  rw [Forest.args_single, run_cons, step_header hadmitted hplace, run_append, run_append]
  refine problems_run_ne_nil ?_ _ _
  -- The list is one of the node or stands in its branch.
  cases hn : n.isCounted with
  | false => exact problems_run_ne_nil (run_entries_uncounted hf.of_node hn _ _) _ _
  | true =>
      have hbranch : ¬ ∀ m ∈ branch.nodes, m.isCounted = true := fun hbranch =>
        huncounted (by simpa using ⟨hn, hbranch⟩)
      have hne : branch ≠ .nil := by
        rintro rfl
        exact hbranch (by simp [Forest.nodes])
      obtain ⟨level, hlevel⟩ : ∃ level, n.branch = some level :=
        Option.ne_none_iff_exists'.1 fun hnone => hne (hf.shaped.1 hnone)
      have hargs : n.branchArgs branch.args = level.encloseArgs branch.args := by
        rw [Node.branchArgs, hlevel]
      obtain ⟨hopen, hin, hlist⟩ := step_branchKeyword hf.of_node hlevel r.fresh
        (number + 1 + n.entryArgs.length)
      rw [run_entries (hf.of_node.isRestorable hn), hargs, encloseArgs_of_ne_nil hne, run_cons,
        hopen, run_append]
      refine problems_run_ne_nil (hinside _ _ hin (fun m _ => ?_) ?_ hbranch) _ _
      · rw [hlist]
        rfl
      · rw [hlist]
        exact List.nodup_nil

/-- **The lines of a forest with a list that has lost too many** lead to a problem. -/
theorem run_forest_uncounted {f : Forest} (hf : f.IsWritable P lookup)
    (huncounted : ¬ ∀ n ∈ f.nodes, n.isCounted = true) (r : Reading) (number : Nat)
    (h : r.InList) (hrelevant : ∀ m ∈ f.nodes, m.type.isRelevantIn r.list.level.context = true)
    (htaken : r.list.nodes.names.Nodup) : (r.run lookup f.args number).problems ≠ [] := by
  -- The induction follows the forest: the first tree with such a list is read up to that list.
  induction f generalizing r number with
  | nil => exact absurd (by simp [Forest.nodes]) huncounted
  | cons n branch rest ihb ihr =>
      rw [Forest.args_cons, run_append]
      by_cases htree : ∀ m ∈ (Forest.single ⟨n, branch⟩).nodes, m.isCounted = true
      · -- The first tree comes back, so that the reader stands in front of the next one.
        have hrest : ¬ ∀ m ∈ rest.nodes, m.isCounted = true := fun hrest =>
          huncounted fun m hm => by
            rw [Forest.nodes, ← List.cons_append, List.mem_append] at hm
            exact hm.elim (fun hm => htree m (by simpa using hm)) (hrest m)
        have hfirst := run_forest (hf.of_tree.isRestorable htree) r number h
          (fun m hm => hrelevant m <| by
            simpa [Forest.nodes] using .imp_right .inl (by simpa using hm)) htaken
        unfold Restores at hfirst
        split at hfirst
        · next hnodup =>
            have hlist := list_withForest r (.single ⟨n, branch⟩)
            rw [hfirst]
            refine ihr hf.of_rest hrest _ _ (h.withForest _) (fun m hm => ?_) ?_
            · rw [hlist]
              exact hrelevant m (by simp [Forest.nodes, hm])
            · rw [hlist, Forest.names_append, Forest.names_reissue]
              exact hnodup
        · exact problems_run_ne_nil hfirst _ _
      · refine problems_run_ne_nil (run_single_uncounted hf htree ?_ h.place number) _ _
        exact fun r number hin hinside hnodup hbranch =>
          ihb hf.of_branch hbranch r number hin hinside hnodup

end Reading

/-! ## Whole texts -/

/-- **When the text of a sequence can be read**: if no name occurs twice and all lists of nodes have
as many as their keywords take. Then it gives the nodes back. -/
theorem Sequence.ofText_text_iff {s : Sequence} (hf : s.nodes.IsWritable FitsLine lookup)
    (hblank : ∀ c ∈ s.level.keyword.toList, isBlank c = false) {level : Level}
    (hkeyword : level.keyword = s.level.keyword)
    (hrelevant : ∀ n ∈ s.nodes.nodes, n.type.isRelevantIn level.context = true)
    (fresh : NodeId) :
    if s.nodes.names.Nodup ∧ ∀ n ∈ s.nodes.nodes, n.isCounted = true then
      ofText lookup ⟨level, .nil⟩ fresh s.text =
        (.ok ⟨level, s.nodes.reissue level.context fresh.value⟩,
          ⟨fresh.value + s.nodes.nodes.length⟩)
    else ∃ e, (ofText lookup ⟨level, .nil⟩ fresh s.text).1 = .error e := by
  by_cases hcounted : ∀ n ∈ s.nodes.nodes, n.isCounted = true
  · have hread := ofText_text (hf.isRestorable hcounted) hblank hkeyword hrelevant fresh
    split at hread
    · next hnodup => rwa [if_pos ⟨hnodup, hcounted⟩]
    · next hnodup => rwa [if_neg fun h => hnodup h.1]
  · rw [if_neg fun h => hcounted h.2]
    exact exists_ofText_error (argumentLines_text hf hblank) <|
      Reading.run_forest_uncounted hf hcounted (.start ⟨level, .nil⟩ fresh) 1
        ⟨rfl, by simp [Reading.start]⟩ hrelevant List.nodup_nil

end SiteAnalysis
