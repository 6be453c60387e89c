import SiteAnalysis.Proofs.Node.Lines
import SiteAnalysis.Proofs.Tree.Reading

set_option autoImplicit false

/-! # Blocks of nodes that are read again

The lines written of a node, one by one: the line that opens its block and its entries. Main
statements:

* `Reading.step_header`: the first line opens the block of a fresh node.
* `Reading.run_entries`: the entries bring the node back.
-/

namespace SiteAnalysis

namespace Reading

variable {P : String → Prop} {lookup : Lookup}

/-! ## Runs -/

/-- **The reader after some lines**, given as their arguments. -/
def run (lookup : Lookup) (lists : List (List String)) (number : Nat) (r : Reading) : Reading :=
  (numbered lists number).foldl (step lookup) r

@[simp] theorem run_nil (number : Nat) (r : Reading) : r.run lookup [] number = r := rfl

theorem run_cons (args : List String) (lists : List (List String)) (number : Nat) (r : Reading) :
    r.run lookup (args :: lists) number =
      (r.step lookup ⟨number, .ok args⟩).run lookup lists (number + 1) := rfl

theorem run_append (lists more : List (List String)) (number : Nat) (r : Reading) :
    r.run lookup (lists ++ more) number =
      (r.run lookup lists number).run lookup more (number + lists.length) := by
  rw [run, numbered_append, List.foldl_append]
  rfl

/-- A problem that was found stays. -/
theorem problems_run_ne_nil {r : Reading} (h : r.problems ≠ []) (lists : List (List String))
    (number : Nat) : (r.run lookup lists number).problems ≠ [] := fun hnil => by
  have hstays : r.problems <+: (r.run lookup lists number).problems :=
    problems_prefix_run (numbered lists number) r
  rw [hnil, List.prefix_nil] at hstays
  exact h hstays

/-- The reader in the block of a node. -/
def inBlock (r : Reading) (t : Subtree) (line : Nat) (rest : List OpenNode) : Reading :=
  { r with openNodes := ⟨t, line⟩ :: rest, place := .block }

variable {r : Reading} {m m' : Node} {b : Forest} {line : Nat} {rest : List OpenNode}

/-! ## Entries of their own -/

/-- An entry leaves the block of the node open and goes into the node. -/
theorem step_entry_eq (hbranch : m.branch.map Level.keyword = m.type.branchKeyword?)
    {keyword : String} (hentry : m.type.isEntry keyword = true) (values : List String)
    (number : Nat) :
    (r.inBlock ⟨m, b⟩ line rest).step lookup ⟨number, .ok (keyword :: values)⟩ =
      (r.inBlock ⟨(m.readLine keyword values lookup.catalogue).2, b⟩ line rest).reportOutcome
        (m.readLine keyword values lookup.catalogue).2.type keyword number
        (m.readLine keyword values lookup.catalogue).1 := by
  simp only [NodeType.isEntry, Bool.and_eq_true, Bool.not_eq_true'] at hentry
  obtain ⟨⟨hend, hkeyword⟩, hblock⟩ := hentry
  have hnot : (m.branch.any fun l => sameName keyword l.keyword) = false := by
    rw [← hbranch, Option.any_map] at hkeyword
    exact hkeyword
  have hno : ¬ (m.type = .select ∧ sameName keyword NodeType.dynamicSite.keyword = true) := by
    rintro ⟨hselect, hsame⟩
    simp [hselect, hsame] at hblock
  change blockStep lookup (r.inBlock ⟨m, b⟩ line rest) number keyword values = _
  simp only [blockStep, inBlock, Node.terminator, hend, hnot, hno, Bool.false_eq_true, if_false,
    mapOpen]

theorem step_entry (hbranch : m.branch.map Level.keyword = m.type.branchKeyword?)
    {keyword : String} (hentry : m.type.isEntry keyword = true) {values : List String}
    (hread : m.readLine keyword values lookup.catalogue = (.success, m')) (number : Nat) :
    (r.inBlock ⟨m, b⟩ line rest).step lookup ⟨number, .ok (keyword :: values)⟩ =
      r.inBlock ⟨m', b⟩ line rest := by
  rw [step_entry_eq hbranch hentry, hread]
  rfl

/-- Entries bring the innermost open node from one state to another. -/
theorem run_takes {lists : List (List String)} (h : Node.Takes lookup.catalogue m lists m')
    (hbranch : m.branch.map Level.keyword = m.type.branchKeyword?) (number : Nat) :
    (r.inBlock ⟨m, b⟩ line rest).run lookup lists number = r.inBlock ⟨m', b⟩ line rest := by
  induction h generalizing number with
  | nil m => rfl
  | @cons m m' m'' keyword values lines hentry hread _ ih =>
      have hkeeps := m.keeps_readLine keyword values lookup.catalogue
      rw [hread] at hkeeps
      rw [run_cons, step_entry hbranch hentry hread]
      exact ih (by rw [hkeeps.branch, hkeeps.type]; exact hbranch) (number + 1)

/-! ## Blocks of dynamic sites -/

/-- The reader in a block of dynamic sites. -/
def inDynamicSite (r : Reading) (t : Subtree) (line : Nat) (rest : List OpenNode)
    (d : DynamicSite) : Reading :=
  { r with openNodes := ⟨t, line⟩ :: rest, place := .dynamicSite d }

theorem step_list {d : DynamicSite} (hd : d.IsReadFrom P lookup.catalogue) {t : Subtree}
    {list : SourceList} (hne : d.names list ≠ []) {done : List String} (hnew : list.keyword ∉ done)
    (number : Nat) :
    (r.inDynamicSite t line rest (d.partly done)).step lookup
        ⟨number, .ok (list.keyword :: d.names list)⟩ =
      r.inDynamicSite t line rest (d.partly (list.keyword :: done)) := by
  have hend : sameName list.keyword dynamicSiteEnd = false := by cases list <;> decide
  change dynamicSiteStep lookup (r.inDynamicSite t line rest (d.partly done)) (d.partly done) number
    list.keyword (d.names list) = _
  simp only [dynamicSiteStep, hend, Bool.false_eq_true, if_false, hd.readLine_partly hne hnew,
    reportOutcome]
  rfl

theorem run_lists {d : DynamicSite} (hd : d.IsReadFrom P lookup.catalogue) {t : Subtree}
    {lists : List SourceList} (hne : ∀ list ∈ lists, d.names list ≠ []) (hnodup : lists.Nodup)
    {done : List String} (hnew : ∀ list ∈ lists, list.keyword ∉ done) (number : Nat) :
    (r.inDynamicSite t line rest (d.partly done)).run lookup
        (lists.map fun list => list.keyword :: d.names list) number =
      r.inDynamicSite t line rest (d.partly (lists.reverse.map SourceList.keyword ++ done)) := by
  induction lists generalizing done number with
  | nil => rfl
  | cons list lists ih =>
      obtain ⟨hlist, hne⟩ := List.forall_mem_cons.1 hne
      obtain ⟨hother, hnodup⟩ := List.nodup_cons.1 hnodup
      obtain ⟨hlistnew, hnew⟩ := List.forall_mem_cons.1 hnew
      have hnew' : ∀ l ∈ lists, l.keyword ∉ list.keyword :: done := fun l hl hmem => by
        rcases List.mem_cons.1 hmem with heq | hmem
        · exact hother (SourceList.keyword_inj.1 heq ▸ hl)
        · exact hnew l hl hmem
      rw [List.map_cons, run_cons, step_list hd hlist hlistnew, ih hne hnodup hnew']
      simp

/-- **The lines of a block of dynamic sites** add the block to the selection they stand in. -/
theorem run_block {d : DynamicSite} (hd : d.IsReadFrom P lookup.catalogue)
    {blocks : List DynamicSite} {chosen : List Site} (hkind : m.kind = .select blocks chosen)
    (hbranch : m.branch.map Level.keyword = m.type.branchKeyword?) (number : Nat) :
    (r.inBlock ⟨m, b⟩ line rest).run lookup d.blockArgs number =
      r.inBlock ⟨{ m with kind := .select (blocks ++ [d]) chosen }, b⟩ line rest := by
  have htype : m.type = .select := by rw [Node.type, hkind]; rfl
  have hkeyword : (m.branch.any fun l => sameName NodeType.dynamicSite.keyword l.keyword) = false := by
    rw [htype] at hbranch
    cases hm : m.branch with
    | none => rfl
    | some l =>
        rw [hm] at hbranch
        obtain hl : l.keyword = "ForEach" := Option.some.inj hbranch
        rw [Option.any_some, hl]
        decide
  -- The first line opens the block, its lists come back one by one, and the last one adds it.
  have hopen : (r.inBlock ⟨m, b⟩ line rest).step lookup
      ⟨number, .ok [NodeType.dynamicSite.keyword]⟩ =
      r.inDynamicSite ⟨m, b⟩ line rest (d.partly []) := by
    have hend : sameName NodeType.dynamicSite.keyword ("End" ++ NodeType.select.keyword) = false := by
      decide
    change blockStep lookup (r.inBlock ⟨m, b⟩ line rest) number _ [] = _
    simp only [blockStep, inBlock, Node.terminator, htype, hend, hkeyword, Bool.false_eq_true,
      if_false, sameName_refl, and_self, if_true]
    rfl
  have hclose : ∀ number, (r.inDynamicSite ⟨m, b⟩ line rest d).step lookup
      ⟨number, .ok ["End" ++ NodeType.dynamicSite.keyword]⟩ =
      r.inBlock ⟨{ m with kind := .select (blocks ++ [d]) chosen }, b⟩ line rest := fun number => by
    change dynamicSiteStep lookup (r.inDynamicSite ⟨m, b⟩ line rest d) d number _ [] = _
    have hend : sameName ("End" ++ NodeType.dynamicSite.keyword) dynamicSiteEnd = true :=
      sameName_refl _
    simp only [dynamicSiteStep, hend, if_true, closeDynamicSite, mapOpen, inDynamicSite,
      addDynamicSite, hkind]
    rfl
  have hback : d.partly (d.filled.reverse.map SourceList.keyword ++ []) = d := by
    refine DynamicSite.partly_eq_self fun list hne => ?_
    rw [List.append_nil]
    exact List.mem_map.2 ⟨list, List.mem_reverse.2 (DynamicSite.mem_filled_iff.2 hne), rfl⟩
  rw [DynamicSite.blockArgs, List.cons_append, run_cons, hopen, run_append, d.args_eq,
    run_lists hd (fun list hlist => DynamicSite.mem_filled_iff.1 hlist) d.nodup_filled (by simp),
    hback, run_cons, hclose]
  rfl

theorem run_blocks {blocks before : List DynamicSite} {chosen : List Site}
    (hblocks : ∀ d ∈ blocks, d.IsReadFrom P lookup.catalogue)
    (hkind : m.kind = .select before chosen)
    (hbranch : m.branch.map Level.keyword = m.type.branchKeyword?) (number : Nat) :
    (r.inBlock ⟨m, b⟩ line rest).run lookup (blocks.flatMap DynamicSite.blockArgs) number =
      r.inBlock ⟨{ m with kind := .select (before ++ blocks) chosen }, b⟩ line rest := by
  induction blocks generalizing before m number with
  | nil =>
      rw [List.append_nil, ← hkind]
      rfl
  | cons d blocks ih =>
      obtain ⟨hd, hblocks⟩ := List.forall_mem_cons.1 hblocks
      have htype : m.type = .select := by rw [Node.type, hkind]; rfl
      rw [htype] at hbranch
      rw [List.flatMap_cons, run_append, run_block hd hkind (htype ▸ hbranch),
        ih hblocks (m := { m with kind := .select (before ++ [d]) chosen }) rfl hbranch,
        List.append_assoc, List.singleton_append]

/-! ## All entries of a node -/

variable {n now : Node} {id : NodeId} {done : List String}

/-- The entries of a kind's own come behind the keywords. -/
theorem run_kindArgs (hn : n.IsRestorable P lookup.catalogue)
    (h : n.Progress P lookup.catalogue id done now)
    (hkeywords : ∀ k ∈ n.keywords.setKeywords, k.name ∈ done)
    (hdone : ∀ key ∈ done, ∃ k ∈ n.keywords.keywords, k.name = key) (number : Nat) :
    (r.inBlock ⟨now, b⟩ line rest).run lookup n.kindArgs number =
      r.inBlock ⟨n.reissued id .any, b⟩ line rest := by
  -- No keyword has a name that the kind's own lines begin with, so the two do not meet.
  have hreserved : ∀ key ∈ done, key ≠ parameterKeyword ∧ key ≠ NodeType.dynamicSite.keyword :=
    fun key hkey => by
      obtain ⟨k, hk, rfl⟩ := hdone key hkey
      exact Node.ne_of_isReserved_eq_false (hn.isReserved_name hk)
  have hother : ∀ {key : String}, key = parameterKeyword ∨ key = NodeType.dynamicSite.keyword →
      ∀ k ∈ n.keywords.keywords, k.name ≠ key := fun hkey k hk heq => by
    obtain ⟨hparameter, hblock⟩ := Node.ne_of_isReserved_eq_false (hn.isReserved_name hk)
    rcases hkey with rfl | rfl
    · exact hparameter heq
    · exact hblock heq
  have hparameters : parameterKeyword ∉ done := fun hmem => (hreserved _ hmem).1 rfl
  have hblocks : NodeType.dynamicSite.keyword ∉ done := fun hmem => (hreserved _ hmem).2 rfl
  cases hkind : n.kind with
  | select blocks chosen =>
      have htype : n.type = .select := by rw [Node.type, hkind]; rfl
      obtain ⟨rfl, hall⟩ := NodeKind.IsReadFrom.blocks (hkind ▸ hn.kind)
      have hnow : now.kind = .select [] [] := by
        rw [h.kind, hkind, NodeKind.partly, if_neg hblocks]
      have hprogress := h.other (hother (.inr rfl))
      have hpartly : n.kind.partly (NodeType.dynamicSite.keyword :: done) = n.kind := by
        rw [hkind, NodeKind.partly, if_pos List.mem_cons_self]
      have hsame : n.partlyParameters (NodeType.dynamicSite.keyword :: done) = now.parameters := by
        rw [h.parameters]
        simp [Node.partlyParameters, htype]
      have hback := hprogress.eq_reissued hn (fun k hk => List.mem_cons_of_mem _ (hkeywords k hk))
        hpartly fun heq => by rw [htype] at heq; cases heq
      rw [hpartly, hsame, hkind] at hback
      rw [Node.kindArgs, hkind]
      dsimp only
      rw [run_blocks hall hnow h.branchKeyword, List.nil_append, ← hback]
  | dynamicSite block =>
      have htype : n.type = .dynamicSite := by rw [Node.type, hkind]; rfl
      have hnone : done = [] := List.eq_nil_iff_forall_not_mem.2 fun key hkey => by
        obtain ⟨k, hk, -⟩ := hdone key hkey
        rw [hn.keywords_eq_nil (.inl htype)] at hk
        cases hk
      obtain ⟨now', done', htakes, hprogress, hlists, hsubset⟩ :=
        h.takes_block hn hkind (by simp [hnone])
      have hpartly : n.kind.partly done' = n.kind := by
        rw [hkind, NodeKind.partly, DynamicSite.partly_eq_self hlists]
      have hback := hprogress.eq_reissued hn (fun k hk => hsubset (hkeywords k hk)) hpartly
        fun heq => by rw [htype] at heq; cases heq
      rw [run_takes htakes h.branchKeyword, hback]
  | parameters =>
      obtain ⟨now', htakes, hprogress⟩ := h.takes_kind_parameters hn hkind hparameters
      have hback := hprogress.eq_reissued hn
        (fun k hk => List.mem_cons_of_mem _ (hkeywords k hk)) (by rw [hkind]; rfl)
        fun _ _ => List.mem_cons_self
      rw [run_takes htakes h.branchKeyword, hback]
  | _ =>
      have hback := h.eq_reissued hn hkeywords (by rw [hkind]; rfl)
        fun heq => by rw [Node.type, hkind] at heq; cases heq
      rw [Node.kindArgs, hkind, hback]
      rfl

/-- **The entries bring the node back.** -/
theorem run_entries (hn : n.IsRestorable P lookup.catalogue) (id : NodeId) (number : Nat) :
    (r.inBlock ⟨n.freshLike id, b⟩ line rest).run lookup n.entryArgs number =
      r.inBlock ⟨n.reissued id .any, b⟩ line rest := by
  have hfresh := Node.progress_fresh hn id
  obtain ⟨now, htakes, hprogress⟩ := hfresh.takes_keywords hn (List.Sublist.refl _) (by simp)
  rw [Node.entryArgs, run_append, run_takes htakes hfresh.branchKeyword]
  refine run_kindArgs hn hprogress (fun k hk => ?_) (fun key hkey => ?_) _
  · exact List.mem_append_left _ (List.mem_map.2 ⟨k, List.mem_reverse.2 hk, rfl⟩)
  · rw [List.append_nil] at hkey
    obtain ⟨k, hk, rfl⟩ := List.mem_map.1 hkey
    exact ⟨k, (List.mem_filter.1 (List.mem_reverse.1 hk)).1, rfl⟩

/-! ## The first line -/

/-- **The first line opens the block of a fresh node.** -/
theorem step_header (hadmitted : lookup.registry.admits n.type = true) {r : Reading}
    (hplace : r.place = .list) (number : Nat) :
    r.step lookup ⟨number, .ok n.headerArgs⟩ =
      inBlock { r with fresh := ⟨r.fresh.value + 1⟩ } ⟨n.freshLike r.fresh, .nil⟩ number
        r.openNodes := by
  have hend : sameName n.type.keyword r.level.terminator = false :=
    n.type.sameName_keyword_end r.level.keyword
  have hstep : ∀ values, r.step lookup ⟨number, .ok (n.type.keyword :: values)⟩ =
      r.listStep lookup number n.type.keyword values := fun values => by
    simp [step, hplace]
  unfold Node.headerArgs Node.freshLike
  split <;>
  · rw [hstep, listStep, hend, Registry.typeOf_keyword hadmitted]
    rfl

end Reading

end SiteAnalysis
