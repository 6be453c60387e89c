import SiteAnalysis.Proofs.Json.Canonical
import SiteAnalysis.Proofs.Node.Lines

set_option autoImplicit false

/-! # Documents of nodes

The members of the document of a node besides its type, its name and its branch
(`Node.entryMembers`), and what they do to the node that is read again. They have distinct keys, so
that they may come in any order. Main statements:

* `Node.Progress.member`: a member brings back what is written under its key.
* `Node.Progress.eq_reissued_of_members`: once all members were read, the node is back.
-/

namespace SiteAnalysis

variable {P : String → Prop} {catalogue : Catalogue}

/-! ## Finite numbers -/

/-- Whether a number is finite. -/
def Expression.Number.isFinite : Expression.Number → Bool
  | .int _ => true
  | .float x => x.isFinite

/-- **Whether all numbers that are written of a node are finite.** -/
def Node.isFinite (n : Node) : Bool :=
  n.keywords.setKeywords.all (fun k => k.data.isFinite) &&
    n.parameters.all fun d => d.parameter.value.isFinite

theorem parameterValueOf?_parameterJson {value : Expression.Number} (hkept : value.IsKept)
    (hfinite : value.isFinite = true) : parameterValueOf? (parameterJson value) = some value := by
  cases value with
  | int n => exact congrArg some (if_pos hkept)
  | float x =>
      have hx : Scalar.floatJson x = .float x := if_pos hfinite
      rw [parameterJson, hx]
      rfl

/-! ## Keys -/

namespace KeywordStore

theorem mem_toMembers_iff {s : KeywordStore} {m : String × Json} : m ∈ s.toMembers ↔
    ∃ k ∈ s.setKeywords, k.data.toJson? = some m.2 ∧ k.name = m.1 := by
  obtain ⟨key, j⟩ := m
  simp only [toMembers, List.mem_filterMap, Option.map_eq_some_iff, Prod.mk.injEq]
  grind

/-- The keys of a document are names of keywords, in their order. -/
theorem keys_toMembers (s : KeywordStore) :
    (s.toMembers.map Prod.fst).Sublist (s.setKeywords.map Keyword.name) := by
  rw [toMembers]
  induction s.setKeywords with
  | nil => exact .slnil
  | cons k ks ih =>
      rw [List.filterMap_cons, List.map_cons]
      cases k.data.toJson? with
      | none => exact ih.cons k.name
      | some j => exact ih.cons_cons k.name

theorem HasDistinctNames.nodup_keys {s : KeywordStore} (h : s.HasDistinctNames) :
    (s.toMembers.map Prod.fst).Nodup := by
  refine List.Nodup.sublist s.keys_toMembers ?_
  refine List.pairwise_map.2 ((h.filter Keyword.isSet).imp fun {k k'} hne heq => ?_)
  rw [heq, sameName_refl] at hne
  cases hne

end KeywordStore

namespace Node

/-- The members of the document that say what node it is. -/
def commonMembers (n : Node) : List (String × Json) :=
  [("type", .text n.type.keyword)] ++ if n.name.isEmpty then [] else [("name", .text n.name)]

/-- The members of a kind's own. -/
def kindMembers (n : Node) : List (String × Json) :=
  match n.kind with
  | .select blocks _ =>
    if blocks.isEmpty then []
    else [(NodeType.dynamicSite.keyword, .array (blocks.map DynamicSite.toJson))]
  | .dynamicSite block => block.toMembers
  | .parameters =>
    if n.parameters.isEmpty then []
    else [(parameterKeyword, .array (n.parameters.map fun d =>
      .array [.text d.parameter.name, parameterJson d.parameter.value]))]
  | _ => []

/-- **The members of the entries of a node.** -/
def entryMembers (n : Node) : List (String × Json) := n.keywords.toMembers ++ n.kindMembers

theorem toMembers_eq (n : Node) : n.toMembers = n.commonMembers ++ n.entryMembers :=
  List.append_assoc _ _ _

variable {n now : Node} {id : NodeId} {done : List String} {m : String × Json}

theorem isCommonMember_of_mem (h : m ∈ n.commonMembers) : isCommonMember m.1 = true := by
  rw [commonMembers] at h
  split at h <;> simp at h
  · subst h
    rfl
  · rcases h with rfl | rfl <;> rfl

/-- The members of a kind's own are told apart from all others by their keys. -/
theorem key_of_mem_kindMembers (h : m ∈ n.kindMembers) :
    (m.1 = NodeType.dynamicSite.keyword ∧ n.type = .select) ∨
      (∃ list : SourceList, m.1 = list.keyword ∧ n.type = .dynamicSite) ∨
      (m.1 = parameterKeyword ∧ n.type = .parameters) := by
  unfold kindMembers at h
  unfold type
  cases hkind : n.kind with
  | select blocks chosen =>
      rw [hkind] at h
      dsimp only at h
      split at h
      · cases h
      · rw [List.mem_singleton.1 h]
        exact .inl ⟨rfl, rfl⟩
  | dynamicSite block =>
      rw [hkind] at h
      obtain ⟨list, -, rfl⟩ := DynamicSite.mem_toMembers_iff.1 h
      exact .inr (.inl ⟨list, rfl, rfl⟩)
  | parameters =>
      rw [hkind] at h
      dsimp only at h
      split at h
      · cases h
      · rw [List.mem_singleton.1 h]
        exact .inr (.inr ⟨rfl, rfl⟩)
  | _ =>
      rw [hkind] at h
      cases h

/-- **The key of an entry** is neither one that all documents have nor that of the branch. -/
theorem Fits.key_of_mem (h : n.IsRestorable P catalogue) (hm : m ∈ n.entryMembers) :
    isCommonMember m.1 = false ∧ ∀ b ∈ n.type.branchKeyword?, sameName m.1 b = false := by
  rcases List.mem_append.1 hm with hm | hm
  · obtain ⟨k, hk, -, hname⟩ := KeywordStore.mem_toMembers_iff.1 hm
    have hreserved := h.isReserved_name (List.mem_filter.1 hk).1
    simp only [NodeType.isReserved, Bool.or_eq_false_iff, hname] at hreserved
    refine ⟨hreserved.1.1.1.1, fun b hb => ?_⟩
    simpa [Option.mem_def.1 hb] using hreserved.2
  · rcases key_of_mem_kindMembers hm with ⟨hkey, htype⟩ | ⟨list, hkey, htype⟩ | ⟨hkey, htype⟩
    all_goals rw [hkey, htype]
    · exact ⟨by decide, by decide⟩
    · exact ⟨DynamicSite.not_isCommonMember_keyword list, by simp [NodeType.branchKeyword?]⟩
    · exact ⟨by decide, by decide⟩

theorem nodup_keys_kindMembers (n : Node) : (n.kindMembers.map Prod.fst).Nodup := by
  unfold kindMembers
  split
  · split <;> simp
  · exact DynamicSite.nodup_keys_toMembers _
  · split <;> simp
  · simp

/-- **The entries of a node have distinct keys.** -/
theorem Fits.nodup_keys (h : n.IsRestorable P catalogue) :
    (n.entryMembers.map Prod.fst).Nodup := by
  rw [entryMembers, List.map_append]
  refine h.hasDistinctNames.nodup_keys.append n.nodup_keys_kindMembers fun key hkey hkey' => ?_
  obtain ⟨m, hm, rfl⟩ := List.mem_map.1 hkey
  obtain ⟨m', hm', heq⟩ := List.mem_map.1 hkey'
  obtain ⟨k, hk, -, hname⟩ := KeywordStore.mem_toMembers_iff.1 hm
  have hmem := (List.mem_filter.1 hk).1
  obtain ⟨hparameter, hblock⟩ := ne_of_isReserved_eq_false (h.isReserved_name hmem)
  rcases key_of_mem_kindMembers hm' with ⟨hkey, -⟩ | ⟨list, -, htype⟩ | ⟨-, htype⟩
  · exact hblock (hname.trans (heq.symm.trans hkey))
  · exact absurd htype (h.type_ne_of_mem hmem).1
  · exact absurd htype (h.type_ne_of_mem hmem).2

end Node

/-! ## Blocks of dynamic sites -/

namespace DynamicSite

variable {d : DynamicSite}

/-- The type of a block stands next to its lists. -/
theorem nodup_keys_toJson (d : DynamicSite) :
    ((("type", .text NodeType.dynamicSite.keyword) :: d.toMembers).map Prod.fst).Nodup := by
  refine List.nodup_cons.2 ⟨fun hmem => ?_, d.nodup_keys_toMembers⟩
  obtain ⟨m, hm, heq⟩ := List.mem_map.1 hmem
  obtain ⟨list, -, rfl⟩ := mem_toMembers_iff.1 hm
  cases list <;> simp [SourceList.keyword] at heq

theorem canonical_of_mem {m : String × Json} (h : m ∈ d.toMembers) : m.2.canonical = m.2 := by
  obtain ⟨list, -, rfl⟩ := mem_toMembers_iff.1 h
  exact KeywordData.canonical_texts _

theorem canonical_toJson (d : DynamicSite) : d.toJson.canonical = d.toJson :=
  Json.canonical_ofMembers d.nodup_keys_toJson
    (List.forall_mem_cons.2 ⟨by simp [Json.canonical], fun _ hm => canonical_of_mem hm⟩)

/-- **The documents of blocks give the blocks back.** -/
theorem readBlocks_toJson {key : String} {blocks before : List DynamicSite}
    (h : ∀ d ∈ blocks, d.IsReadFrom P catalogue) :
    readBlocks catalogue key (blocks.map toJson) before = (.ok (), before ++ blocks) := by
  induction blocks generalizing before with
  | nil => simp [readBlocks]
  | cons d blocks ih =>
      obtain ⟨hd, hblocks⟩ := List.forall_mem_cons.1 h
      obtain ⟨sorted, heq, hperm, -⟩ := Json.exists_ofMembers d.nodup_keys_toJson
      have hnodup : (sorted.map Prod.fst).Nodup :=
        (hperm.map Prod.fst).nodup_iff.2 d.nodup_keys_toJson
      -- The members of a block come in the order of their keys, behind the one all nodes have.
      have hall : ∀ m ∈ sorted, isCommonMember m.1 = true ∨ m ∈ d.toMembers := fun m hm => by
        rcases List.mem_cons.1 (hperm.mem_iff.1 hm) with rfl | hm
        · exact .inl rfl
        · exact .inr hm
      have hread : readMembers catalogue sorted (d.partly []) =
          ([], d.partly (sorted.reverse.map Prod.fst ++ [])) :=
        hd.readMembers hall hnodup (by simp)
      have hback : d.partly (sorted.reverse.map Prod.fst ++ []) = d := partly_eq_self fun list hne => by
        have hmem := hperm.mem_iff.2 (List.mem_cons_of_mem _ (mem_toMembers_iff.2 ⟨list, hne, rfl⟩))
        exact List.mem_append_left _ (List.mem_map.2 ⟨_, List.mem_reverse.2 hmem, rfl⟩)
      rw [partly_nil, hback] at hread
      have hjson : d.toJson = .object sorted := heq
      rw [List.map_cons, hjson, readBlocks, hread]
      dsimp only
      rw [ih hblocks, List.append_assoc, List.singleton_append]

end DynamicSite

namespace Node

variable {n now : Node} {id : NodeId} {done : List String} {m : String × Json}

/-- The members of a node are in canonical form. -/
theorem canonical_of_mem (hm : m ∈ n.toMembers) : m.2.canonical = m.2 := by
  rw [toMembers_eq, commonMembers, entryMembers, kindMembers] at hm
  rcases List.mem_append.1 hm with hm | hm
  · split at hm <;> simp at hm
    · subst hm
      simp [Json.canonical]
    · rcases hm with rfl | rfl <;> simp [Json.canonical]
  rcases List.mem_append.1 hm with hm | hm
  · obtain ⟨k, -, hj, -⟩ := KeywordStore.mem_toMembers_iff.1 hm
    exact KeywordData.canonical_of_toJson? hj
  split at hm
  · split at hm
    · cases hm
    · rw [List.mem_singleton.1 hm]
      exact Json.canonical_array (List.forall_mem_map.2 fun d _ => d.canonical_toJson)
  · exact DynamicSite.canonical_of_mem hm
  · split at hm
    · cases hm
    · rw [List.mem_singleton.1 hm]
      refine Json.canonical_array (List.forall_mem_map.2 fun d _ => Json.canonical_array ?_)
      cases d.parameter.value <;>
        simp [parameterJson, Json.canonical, KeywordData.canonical_floatJson]
  · cases hm

/-! ## Entries that are read again -/

theorem readMember_eq_readKeywordMember {m : Node} (hblock : m.type ≠ .dynamicSite)
    (hparameters : m.type ≠ .parameters) {key : String}
    (hselect : sameName key NodeType.dynamicSite.keyword = false) (j : Json) :
    m.readMember key j catalogue = m.readKeywordMember key j catalogue := by
  unfold type at hblock hparameters
  unfold readMember
  cases hkind : m.kind <;> rw [hkind] at hblock hparameters <;>
    first | rfl | exact absurd rfl hblock | exact absurd rfl hparameters | simp [hselect]

/-- The member of a keyword. -/
theorem Progress.member_keyword (h : Progress P catalogue id done n now)
    (hn : n.IsRestorable P catalogue) (hfinite : n.isFinite = true)
    (hm : m ∈ n.keywords.toMembers) (hnew : m.1 ∉ done) :
    ∃ now', now.readMember m.1 m.2 catalogue = (.ok true, now') ∧
      Progress P catalogue id (m.1 :: done) n now' := by
  obtain ⟨key, j⟩ := m
  obtain ⟨k, hk, hj, rfl⟩ := KeywordStore.mem_toMembers_iff.1 hm
  have hmem := (List.mem_filter.1 hk).1
  obtain ⟨k', hfind, hname, hdata, hprogress⟩ := h.keyword hn hk hnew
  simp only [isFinite, Bool.and_eq_true, List.all_eq_true] at hfinite
  obtain ⟨j', hj', hback⟩ := hdata.holds.ofJson_toJson? (hfinite.1 k hk) k.name
  obtain rfl : j = j' := Option.some.inj (hj.symm.trans hj')
  obtain ⟨hblock, hparameters⟩ := hn.type_ne_of_mem hmem
  rw [← h.type_eq] at hblock hparameters
  have hreserved := hn.isReserved_name hmem
  simp only [NodeType.isReserved, Bool.or_eq_false_iff] at hreserved
  refine ⟨_, ?_, hprogress⟩
  rw [readMember_eq_readKeywordMember hblock hparameters hreserved.1.2]
  simp [readKeywordMember, KeywordStore.readMember, hfind, hname, hback]

/-- Parameters come back behind those that stand before them. -/
theorem readParameters_parameterJson {m : Node} (htype : m.type = .parameters)
    {before more : List Declared} (hparameters : m.parameters = renumbered before)
    (hreplaced : m.replaced = []) (hread : AreReadParameters (before ++ more))
    (hfinite : ∀ d ∈ more, d.parameter.value.isFinite = true) :
    readParameters (more.map fun d =>
        .array [.text d.parameter.name, parameterJson d.parameter.value]) m =
      (.ok (), { m with parameters := renumbered (before ++ more) }) := by
  induction more generalizing m before with
  | nil =>
      rw [List.append_nil, ← hparameters]
      rfl
  | cons d more ih =>
      obtain ⟨hd, hmore⟩ := List.forall_mem_cons.1 hfinite
      have hvalue := parameterValueOf?_parameterJson (hread.values d (by simp)) hd
      have hdeclare := declareRead_renumbered htype hparameters hreplaced hread
      have hread' : AreReadParameters ((before ++ [d]) ++ more) := by simpa using hread
      have hrest := ih (m := { m with parameters := renumbered (before ++ [d]) }) htype rfl hreplaced
        hread' hmore
      rw [List.map_cons, readParameters, hvalue]
      dsimp only
      rw [hdeclare]
      dsimp only
      rw [hrest, List.append_assoc, List.singleton_append]

/-- A member of a kind's own. -/
theorem Progress.member_kind (h : Progress P catalogue id done n now)
    (hn : n.IsRestorable P catalogue) (hfinite : n.isFinite = true)
    (hm : m ∈ n.kindMembers) (hnew : m.1 ∉ done) :
    ∃ now', now.readMember m.1 m.2 catalogue = (.ok true, now') ∧
      Progress P catalogue id (m.1 :: done) n now' := by
  -- No keyword of the node has such a key, so none is set by this member.
  have hnone : ∀ k ∈ n.keywords.keywords, k.name ≠ m.1 := fun k hk => by
    obtain ⟨hparameter, hblock⟩ := ne_of_isReserved_eq_false (hn.isReserved_name hk)
    rcases key_of_mem_kindMembers hm with ⟨hkey, -⟩ | ⟨list, -, htype⟩ | ⟨hkey, -⟩
    · exact hkey ▸ hblock
    · exact absurd htype (hn.type_ne_of_mem hk).1
    · exact hkey ▸ hparameter
  refine ⟨_, ?_, h.other hnone⟩
  have hkind := h.kind
  have hparameters := h.parameters
  unfold kindMembers at hm
  cases hcase : n.kind with
  | select blocks chosen =>
      rw [hcase] at hm hkind
      dsimp only at hm
      split at hm
      · cases hm
      obtain rfl := List.mem_singleton.1 hm
      have htype : n.type = .select := by rw [type, hcase]; rfl
      obtain ⟨rfl, hblocks⟩ := NodeKind.IsReadFrom.blocks (hcase ▸ hn.kind)
      have hnow : now.kind = .select [] [] := by rw [hkind, NodeKind.partly, if_neg hnew]
      have hsame : n.partlyParameters (NodeType.dynamicSite.keyword :: done) = now.parameters := by
        rw [hparameters]
        simp [partlyParameters, htype]
      have hback : (NodeKind.select blocks []).partly (NodeType.dynamicSite.keyword :: done) =
          .select blocks [] := by rw [NodeKind.partly, if_pos List.mem_cons_self]
      simp only [readMember, hnow, sameName_refl, if_true, Json.array?,
        DynamicSite.readBlocks_toJson hblocks, List.nil_append, Except.map, hback, hsame]
  | dynamicSite block =>
      rw [hcase] at hm hkind
      obtain ⟨list, hne, rfl⟩ := DynamicSite.mem_toMembers_iff.1 hm
      have htype : n.type = .dynamicSite := by rw [type, hcase]; rfl
      have hblock : block.IsReadFrom P catalogue := NodeKind.IsReadFrom.block (hcase ▸ hn.kind)
      have hnow : now.kind = .dynamicSite (block.partly done) := hkind
      have hsame : n.partlyParameters (list.keyword :: done) = now.parameters := by
        rw [hparameters]
        simp [partlyParameters, htype]
      simp only [readMember, hnow, hblock.readMember_partly hne hnew, NodeKind.partly, hsame]
  | parameters =>
      rw [hcase] at hm hkind
      dsimp only at hm
      split at hm
      · cases hm
      obtain rfl := List.mem_singleton.1 hm
      have htype : n.type = .parameters := by rw [type, hcase]; rfl
      have hnow : now.kind = .parameters := hkind
      have hstart : now.parameters = renumbered [] := by
        rw [hparameters, partlyParameters, if_pos ⟨htype, hnew⟩]
        rfl
      simp only [isFinite, Bool.and_eq_true, List.all_eq_true] at hfinite
      have hread := readParameters_parameterJson (h.type_eq.trans htype) hstart h.replaced
        (by simpa using hn.parameters.areRead htype) hfinite.2
      have hback : n.partlyParameters (parameterKeyword :: done) = renumbered n.parameters := by
        simp [partlyParameters]
      simp only [readMember, hnow, sameName_refl, if_true, Json.array?, hread, Except.map, hback,
        List.nil_append, NodeKind.partly]
  | _ =>
      rw [hcase] at hm
      cases hm

/-- **A member brings back what is written under its key.** -/
theorem Progress.member (h : Progress P catalogue id done n now)
    (hn : n.IsRestorable P catalogue) (hfinite : n.isFinite = true)
    (hm : m ∈ n.entryMembers) (hnew : m.1 ∉ done) :
    ∃ now', now.readMember m.1 m.2 catalogue = (.ok true, now') ∧
      Progress P catalogue id (m.1 :: done) n now' := by
  rcases List.mem_append.1 hm with hm | hm
  · exact h.member_keyword hn hfinite hm hnew
  · exact h.member_kind hn hfinite hm hnew

/-- **Once all members were read, the node is back.** -/
theorem Progress.eq_reissued_of_members (h : Progress P catalogue id done n now)
    (hn : n.IsRestorable P catalogue) (hfinite : n.isFinite = true)
    (hdone : ∀ m ∈ n.entryMembers, m.1 ∈ done) : now = n.reissued id .any := by
  have hown : ∀ m ∈ n.kindMembers, m.1 ∈ done := fun m hm => hdone m (List.mem_append_right _ hm)
  refine h.eq_reissued hn (fun k hk => ?_) ?_ fun htype hne => ?_
  · simp only [isFinite, Bool.and_eq_true, List.all_eq_true] at hfinite
    obtain ⟨declared, hdata⟩ := hn.data_of_mem hk
    obtain ⟨j, hj, -⟩ := hdata.holds.ofJson_toJson? (hfinite.1 k hk) k.name
    have hm := KeywordStore.mem_toMembers_iff (m := (k.name, j)).2 ⟨k, hk, hj, rfl⟩
    exact hdone _ (List.mem_append_left _ hm)
  -- A kind that gives no member of its own has nothing to read back.
  · unfold kindMembers at hown
    cases hkind : n.kind with
    | select blocks chosen =>
        obtain ⟨rfl, -⟩ := NodeKind.IsReadFrom.blocks (hkind ▸ hn.kind)
        rw [hkind] at hown
        rw [NodeKind.partly]
        split
        · rfl
        · next hnot =>
            cases blocks with
            | nil => rfl
            | cons d blocks => exact absurd (hown _ List.mem_cons_self) hnot
    | dynamicSite block =>
        rw [hkind] at hown
        rw [NodeKind.partly, DynamicSite.partly_eq_self fun list hne =>
          hown _ (DynamicSite.mem_toMembers_iff.2 ⟨list, hne, rfl⟩)]
    | _ => rfl
  · unfold kindMembers at hown
    have hkind : n.kind = .parameters := by
      unfold type at htype
      cases hcase : n.kind <;> rw [hcase] at htype <;> first | rfl | cases htype
    rw [hkind] at hown
    dsimp only at hown
    rw [if_neg (by simpa using hne)] at hown
    exact hown _ List.mem_cons_self

end Node

end SiteAnalysis
