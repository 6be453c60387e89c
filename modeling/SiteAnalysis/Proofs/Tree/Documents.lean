import SiteAnalysis.Proofs.Node.Members
import SiteAnalysis.Proofs.Tree.Reading
import SiteAnalysis.Proofs.Tree.Restored
import SiteAnalysis.Tree.Document

set_option autoImplicit false

/-! # Trees that are read again from their documents

The members of a document may come in any order, since the node that is read keeps track of what is
there already (`Node.Progress`). Main statements:

* `DocumentReading.readMembers_tree`: the members of the document of a tree bring back its node and
  its branch.
* `DocumentReading.readItems_forest`: the documents of a forest bring the forest back exactly if no
  name occurs twice.
* `Sequence.ofJson_toJson`: so for a whole document.
-/

namespace SiteAnalysis

variable {P : String → Prop} {lookup : Lookup}

/-! ## Members of documents -/

/-- The member of the branch of a node, if there are nodes in it. -/
def Node.branchMembers (n : Node) (items : List Json) : List (String × Json) :=
  match n.branch with
  | some level => if items.isEmpty then [] else [(level.keyword, .array items)]
  | none => []

/-- All members of the document of a node. -/
def Node.treeMembers (n : Node) (items : List Json) : List (String × Json) :=
  n.toMembers ++ n.branchMembers items

theorem Forest.documents_cons (n : Node) (branch rest : Forest) :
    (cons n branch rest).documents =
      .ofMembers (n.treeMembers branch.documents) :: rest.documents := by
  rw [documents, Node.treeMembers, Node.branchMembers]
  cases n.branch <;> rfl

namespace Node

variable {n : Node} {items : List Json} {m : String × Json}

theorem mem_branchMembers_iff : m ∈ n.branchMembers items ↔
    ∃ level, n.branch = some level ∧ items ≠ [] ∧ m = (level.keyword, .array items) := by
  unfold branchMembers
  cases n.branch with
  | none => simp
  | some level => cases items <;> simp

/-- The key of the branch belongs to no other member. -/
theorem Fits.key_of_mem_branch (h : n.IsRestorable P lookup.catalogue)
    (hm : m ∈ n.branchMembers items) :
    isCommonMember m.1 = false ∧ ∀ e ∈ n.entryMembers, e.1 ≠ m.1 := by
  obtain ⟨level, hlevel, -, rfl⟩ := mem_branchMembers_iff.1 hm
  have hkeyword := h.branch
  rw [hlevel] at hkeyword
  refine ⟨(n.type.sameName_branchKeyword_terminator level.keyword hkeyword.symm).2,
    fun e he heq => ?_⟩
  have hne := (h.key_of_mem he).2 level.keyword hkeyword.symm
  rw [heq, sameName_refl] at hne
  cases hne

theorem nodup_keys_commonMembers (n : Node) : (n.commonMembers.map Prod.fst).Nodup := by
  unfold commonMembers
  split <;> simp

/-- **The members of a document have distinct keys.** -/
theorem Fits.nodup_keys_tree (h : n.IsRestorable P lookup.catalogue) (items : List Json) :
    ((n.treeMembers items).map Prod.fst).Nodup := by
  have hbranch : ((n.branchMembers items).map Prod.fst).Nodup := by
    unfold branchMembers
    split
    · split <;> simp
    · simp
  rw [treeMembers, toMembers_eq, List.map_append, List.map_append]
  refine (n.nodup_keys_commonMembers.append h.nodup_keys ?_).append hbranch ?_
  -- Three sorts of members: no key is of two of them.
  · intro key hkey hkey'
    obtain ⟨m, hm, rfl⟩ := List.mem_map.1 hkey
    obtain ⟨e, he, heq⟩ := List.mem_map.1 hkey'
    have hcommon := (h.key_of_mem he).1
    rw [heq, isCommonMember_of_mem hm] at hcommon
    cases hcommon
  · intro key hkey hkey'
    obtain ⟨b, hb, rfl⟩ := List.mem_map.1 hkey'
    obtain ⟨hcommon, hentries⟩ := h.key_of_mem_branch hb
    rcases List.mem_append.1 hkey with hkey | hkey
    · obtain ⟨m, hm, heq⟩ := List.mem_map.1 hkey
      rw [← heq, isCommonMember_of_mem hm] at hcommon
      cases hcommon
    · obtain ⟨e, he, heq⟩ := List.mem_map.1 hkey
      exact hentries e he heq

end Node

/-- **The documents of a forest are in canonical form.** -/
theorem Forest.IsRestorable.canonical_documents {f : Forest} (h : f.IsRestorable P lookup) :
    ∀ j ∈ f.documents, j.canonical = j := by
  induction f with
  | nil => simp [Forest.documents]
  | cons n branch rest ihb ihr =>
      rw [Forest.documents_cons]
      refine List.forall_mem_cons.2 ⟨?_, ihr h.of_rest⟩
      refine Json.canonical_ofMembers (h.of_node.nodup_keys_tree _) fun m hm => ?_
      rcases List.mem_append.1 hm with hm | hm
      · exact Node.canonical_of_mem hm
      · obtain ⟨level, -, -, rfl⟩ := Node.mem_branchMembers_iff.1 hm
        exact Json.canonical_array (ihb h.of_branch)

namespace DocumentReading

/-! ## Problems -/

theorem problems_prefix_report (r : DocumentReading) (e : Error) :
    r.problems <+: (r.report e).problems := List.prefix_append _ _

theorem problems_prefix_placeNode (r : DocumentReading) (s : Sequence) (t : Subtree) :
    r.problems <+: (r.placeNode s t).2.problems := by
  unfold placeNode
  dsimp only
  split
  · exact List.prefix_refl _
  · exact problems_prefix_report r _

theorem problems_prefix_readEntry (r : DocumentReading) (n : Node) (key : String) (j : Json) :
    r.problems <+: (r.readEntry lookup n key j).2.problems := by
  unfold readEntry
  split
  · exact List.prefix_refl _
  · exact problems_prefix_report r _
  · exact problems_prefix_report r _

mutual

/-- **Reading goes on after a problem**, which stays noted. -/
theorem problems_prefix_readNode (s : Sequence) (r : DocumentReading) :
    (j : Json) → r.problems <+: (readNode lookup s r j).2.problems
  | .object members => by
      rw [readNode]
      split
      · exact problems_prefix_report r _
      · split
        · exact problems_prefix_report r _
        · next type _ =>
            have hread := problems_prefix_readMembers
              ⟨(r.freshNode type ((members.lookup "name").bind Json.text?)).1, .nil⟩
              (r.freshNode type ((members.lookup "name").bind Json.text?)).2 members
            exact hread.trans (problems_prefix_placeNode _ s _)
  | .null | .bool _ | .int _ | .float _ | .text _ | .array _ => problems_prefix_report r _

theorem problems_prefix_readMembers (t : Subtree) (r : DocumentReading) :
    (members : List (String × Json)) → r.problems <+: (readMembers lookup t r members).2.problems
  | [] => List.prefix_refl _
  | (key, j) :: rest => by
      rw [readMembers]
      split
      · exact problems_prefix_readMembers t r rest
      · split
        · next level _ =>
            have hlist := problems_prefix_readList ⟨level, t.branch⟩ r j
            exact hlist.trans (problems_prefix_readMembers _ _ rest)
        · have hentry : r.problems <+: (r.readEntry lookup t.node key j).2.problems :=
            problems_prefix_readEntry r t.node key j
          exact hentry.trans (problems_prefix_readMembers _ _ rest)

theorem problems_prefix_readList (s : Sequence) (r : DocumentReading) :
    (j : Json) → r.problems <+: (readList lookup s r j).2.problems
  | .array items => problems_prefix_readItems s r items
  | .null | .bool _ | .int _ | .float _ | .text _ | .object _ => problems_prefix_report r _

theorem problems_prefix_readItems (s : Sequence) (r : DocumentReading) :
    (items : List Json) → r.problems <+: (readItems lookup s r items).2.problems
  | [] => List.prefix_refl _
  | j :: rest => by
      rw [readItems]
      have hnode := problems_prefix_readNode s r j
      exact hnode.trans (problems_prefix_readItems _ _ rest)

end

/-- A problem that was found stays. -/
theorem problems_readMembers_ne_nil {t : Subtree} {r : DocumentReading} (h : r.problems ≠ [])
    (members : List (String × Json)) : (readMembers lookup t r members).2.problems ≠ [] :=
  fun hnil => h (List.prefix_nil.1 (hnil ▸ problems_prefix_readMembers t r members))

theorem problems_readItems_ne_nil {s : Sequence} {r : DocumentReading} (h : r.problems ≠ [])
    (items : List Json) : (readItems lookup s r items).2.problems ≠ [] :=
  fun hnil => h (List.prefix_nil.1 (hnil ▸ problems_prefix_readItems s r items))

/-! ## Members that are read again -/

theorem readMembers_append (t : Subtree) (r : DocumentReading)
    (members more : List (String × Json)) :
    readMembers lookup t r (members ++ more) =
      readMembers lookup (readMembers lookup t r members).1 (readMembers lookup t r members).2
        more := by
  induction members generalizing t r with
  | nil => rfl
  | cons m members ih =>
      obtain ⟨key, j⟩ := m
      rw [List.cons_append, readMembers, readMembers]
      split
      · exact ih t r
      · split <;> exact ih _ _

variable {n now : Node} {branch b : Forest} {id : NodeId} {done : List String}
  {members : List (String × Json)} {r : DocumentReading}

/-- **Entries bring back what is written under their keys**, in whatever order they come. -/
theorem readMembers_entries (hn : n.IsRestorable P lookup.catalogue) (hfinite : n.isFinite = true)
    (h : n.Progress P lookup.catalogue id done now)
    (hall : ∀ m ∈ members, isCommonMember m.1 = true ∨ m ∈ n.entryMembers)
    (hnodup : (members.map Prod.fst).Nodup) (hnew : ∀ m ∈ members, m.1 ∉ done) :
    ∃ now' done', readMembers lookup ⟨now, b⟩ r members = (⟨now', b⟩, r) ∧
      n.Progress P lookup.catalogue id done' now' ∧ done ⊆ done' ∧
      done' ⊆ members.map Prod.fst ++ done ∧
      ∀ m ∈ members, m ∈ n.entryMembers → m.1 ∈ done' := by
  induction members generalizing now done with
  | nil => exact ⟨now, done, rfl, h, List.Subset.refl _, by simp, by simp⟩
  | cons m members ih =>
      obtain ⟨key, j⟩ := m
      obtain ⟨hm, hall⟩ := List.forall_mem_cons.1 hall
      obtain ⟨hother, hnodup⟩ := List.nodup_cons.1 hnodup
      obtain ⟨hmnew, hnew⟩ := List.forall_mem_cons.1 hnew
      rw [readMembers]
      by_cases hentry : (key, j) ∈ n.entryMembers
      · obtain ⟨hcommon, hbranch⟩ := hn.key_of_mem hentry
        obtain ⟨now₁, hread, hprogress⟩ := h.member hn hfinite hentry hmnew
        have hnew' : ∀ m ∈ members, m.1 ∉ key :: done := fun m hm hmem => by
          rcases List.mem_cons.1 hmem with heq | hmem
          · exact hother (List.mem_map.2 ⟨m, hm, heq⟩)
          · exact hnew m hm hmem
        obtain ⟨now', done', hrest, hlast, hkept, hfrom, hkeys⟩ := ih hprogress hall hnodup hnew'
        -- The key of an entry is not that of the branch.
        have hlevel : now.branch.filter (fun l => sameName key l.keyword) = none := by
          rw [h.branch, Option.filter_eq_none_iff]
          rintro l hl
          obtain ⟨b, hb, rfl⟩ := Option.map_eq_some_iff.1 hl
          simpa [Level.branch] using hbranch b hb
        rw [hcommon, if_neg Bool.false_ne_true, hlevel]
        dsimp only
        rw [readEntry, hread]
        dsimp only
        refine ⟨now', done', hrest, hlast, ?_, ?_, List.forall_mem_cons.2 ⟨fun _ => ?_, hkeys⟩⟩
        · exact fun k hk => hkept (List.mem_cons_of_mem _ hk)
        · intro k hk
          have := hfrom hk
          simp only [List.mem_append, List.mem_cons, List.map_cons] at this ⊢
          tauto
        · exact hkept List.mem_cons_self
      · obtain hcommon := hm.resolve_right hentry
        obtain ⟨now', done', hrest, hlast, hkept, hfrom, hkeys⟩ := ih h hall hnodup hnew
        rw [if_pos hcommon]
        refine ⟨now', done', hrest, hlast, hkept, fun k hk => ?_,
          List.forall_mem_cons.2 ⟨fun hmem => absurd hmem hentry, hkeys⟩⟩
        exact List.mem_cons_of_mem _ (hfrom hk)

/-! ## Forests -/

/-- **What the documents of a forest do**: they bring the forest back, unless one of its names is
taken or occurs twice. -/
def Restores (lookup : Lookup) (f : Forest) (s : Sequence) (r : DocumentReading) : Prop :=
  if (s.nodes.names ++ f.names).Nodup then
    readItems lookup s r f.documents =
      (⟨s.level, s.nodes.append (f.reissue s.level.context r.fresh.value)⟩,
        { r with fresh := ⟨r.fresh.value + f.nodes.length⟩ })
  else (readItems lookup s r f.documents).2.problems ≠ []

/-- The member of the branch brings the branch back. -/
theorem readMembers_branch (hn : n.IsRestorable P lookup.catalogue) {level : Level}
    (hlevel : n.branch = some level) (h : n.Progress P lookup.catalogue id done now)
    (hbranch : ∀ (s : Sequence) (r : DocumentReading),
      (∀ m ∈ branch.nodes, m.type.isRelevantIn s.level.context = true) → s.nodes.names.Nodup →
      Restores lookup branch s r) :
    let after := readMembers lookup ⟨now, .nil⟩ r [(level.keyword, .array branch.documents)]
    if branch.names.Nodup then
      after = (⟨now, branch.reissue .any r.fresh.value⟩,
        { r with fresh := ⟨r.fresh.value + branch.nodes.length⟩ })
    else after.2.problems ≠ [] := by
  intro after
  have hkeyword := hn.branch
  rw [hlevel] at hkeyword
  have hcommon := (n.type.sameName_branchKeyword_terminator level.keyword hkeyword.symm).2
  -- The branch is still as it was when the node was made.
  have hnow : now.branch = some (.branch id level.keyword) := by
    rw [h.branch, ← hkeyword]
    rfl
  have hfound : now.branch.filter (fun l => sameName level.keyword l.keyword) =
      some (.branch id level.keyword) := by
    rw [hnow]
    exact if_pos (sameName_refl _)
  have hback := hbranch ⟨.branch id level.keyword, .nil⟩ r (fun m _ => rfl) List.nodup_nil
  have hafter : after =
      let read := readItems lookup ⟨.branch id level.keyword, .nil⟩ r branch.documents
      (⟨{ now with branch := some read.1.level }, read.1.nodes⟩, read.2) := by
    simp only [after, readMembers, hcommon, hfound, readList, Bool.false_eq_true, if_false]
  have hsame : { now with branch := some (Level.branch id level.keyword) } = now := by
    rw [← hnow]
  unfold Restores at hback
  have hnames : (Forest.nil.names ++ branch.names) = branch.names := rfl
  rw [hnames] at hback
  rw [hafter]
  split at hback
  · next hnodup =>
      rw [if_pos hnodup, hback]
      dsimp only
      rw [hsame]
      rfl
  · next hnodup => rwa [if_neg hnodup]

theorem documents_eq_nil_iff {f : Forest} : f.documents = [] ↔ f = .nil := by
  cases f with
  | nil => simp [Forest.documents]
  | cons n branch rest => simp [Forest.documents_cons]

/-- A branch without a member is empty. -/
theorem eq_nil_of_branchMembers (hf : (Forest.single ⟨n, branch⟩).IsRestorable P lookup)
    (h : n.branchMembers branch.documents = []) : branch = .nil := by
  cases hlevel : n.branch with
  | none => exact hf.shaped.1 (by simp [hlevel])
  | some level =>
      by_contra hne
      have hmem := Node.mem_branchMembers_iff (m := (level.keyword, .array branch.documents)).2
        ⟨level, hlevel, mt documents_eq_nil_iff.1 hne, rfl⟩
      rw [h] at hmem
      cases hmem

section

variable {documents : List Json} (hperm : members.Perm (n.treeMembers documents))
include hperm

/-- What a member of a document stands for. -/
theorem member_cases {m : String × Json} (hm : m ∈ members) :
    m ∈ n.branchMembers documents ∨ isCommonMember m.1 = true ∨ m ∈ n.entryMembers := by
  refine (List.mem_append.1 (hperm.mem_iff.1 hm)).symm.imp_right fun hm => ?_
  rw [Node.toMembers_eq] at hm
  exact (List.mem_append.1 hm).imp_left Node.isCommonMember_of_mem

theorem mem_of_entry {m : String × Json} (hm : m ∈ n.entryMembers) : m ∈ members := by
  refine hperm.mem_iff.2 (List.mem_append_left _ ?_)
  rw [Node.toMembers_eq]
  exact List.mem_append_right _ hm

/-- **Entries stand in front of the member of the branch and behind it.** -/
theorem exists_around_branch (hn : n.IsRestorable P lookup.catalogue) {level : Level}
    (hlevel : n.branch = some level)
    (hm : (level.keyword, .array documents) ∈ n.branchMembers documents) :
    ∃ front back, members = front ++ (level.keyword, .array documents) :: back ∧
      ((front ++ back).map Prod.fst).Nodup ∧
      ∀ m ∈ front ++ back, isCommonMember m.1 = true ∨ m ∈ n.entryMembers := by
  obtain ⟨front, back, heq⟩ := List.append_of_mem (hperm.mem_iff.2 (List.mem_append_right _ hm))
  have hnodup : (members.map Prod.fst).Nodup :=
    (hperm.map Prod.fst).nodup_iff.2 (hn.nodup_keys_tree _)
  rw [heq, List.map_append, List.map_cons, List.nodup_middle, ← List.map_append] at hnodup
  obtain ⟨hone, hnodup⟩ := List.nodup_cons.1 hnodup
  refine ⟨front, back, heq, hnodup, fun m hmem => ?_⟩
  have hmembers : m ∈ members := by
    rw [heq]
    simpa using (List.mem_append.1 hmem).imp_right .inr
  refine (member_cases hperm hmembers).resolve_left fun hbranch => ?_
  obtain ⟨level', hlevel', -, rfl⟩ := Node.mem_branchMembers_iff.1 hbranch
  obtain rfl : level' = level := Option.some.inj (hlevel'.symm.trans hlevel)
  exact hone (List.mem_map.2 ⟨_, hmem, rfl⟩)

end

/-- The members of a document without a branch bring back its node. -/
theorem readMembers_leaf (hn : n.IsRestorable P lookup.catalogue) (hfinite : n.isFinite = true)
    (hperm : members.Perm (n.treeMembers [])) (hleaf : n.branchMembers [] = []) (id : NodeId)
    (r : DocumentReading) : readMembers lookup ⟨n.freshLike id, .nil⟩ r members =
      (⟨n.reissued id .any, .nil⟩, r) := by
  have hnodup : (members.map Prod.fst).Nodup :=
    (hperm.map Prod.fst).nodup_iff.2 (hn.nodup_keys_tree _)
  have hall : ∀ m ∈ members, isCommonMember m.1 = true ∨ m ∈ n.entryMembers := fun m hm =>
    (member_cases hperm hm).resolve_left (by rw [hleaf]; exact List.not_mem_nil)
  obtain ⟨now, done, hread, hprogress, -, -, hkeys⟩ := readMembers_entries (b := .nil) (r := r)
    hn hfinite (Node.progress_fresh hn id) hall hnodup (by simp)
  rw [hread, hprogress.eq_reissued_of_members hn hfinite fun m hm =>
    hkeys m (mem_of_entry hperm hm) hm]

/-- **The members of the document of a tree bring back its node and its branch.** -/
theorem readMembers_tree (hf : (Forest.single ⟨n, branch⟩).IsRestorable P lookup)
    (hfinite : n.isFinite = true)
    (hbranch : ∀ (s : Sequence) (r : DocumentReading),
      (∀ m ∈ branch.nodes, m.type.isRelevantIn s.level.context = true) → s.nodes.names.Nodup →
      Restores lookup branch s r)
    (hperm : members.Perm (n.treeMembers branch.documents)) (id : NodeId) :
    let after := readMembers lookup ⟨n.freshLike id, .nil⟩ r members
    if branch.names.Nodup then
      after = (⟨n.reissued id .any, branch.reissue .any r.fresh.value⟩,
        { r with fresh := ⟨r.fresh.value + branch.nodes.length⟩ })
    else after.2.problems ≠ [] := by
  intro after
  have hn := hf.of_node
  by_cases hinner : n.branchMembers branch.documents = []
  · obtain rfl := eq_nil_of_branchMembers hf hinner
    have hnil : Forest.nil.names.Nodup := List.nodup_nil
    rw [if_pos hnil]
    exact readMembers_leaf hn hfinite hperm hinner id r
  -- The member of the branch stands somewhere between the entries, which are read around it.
  · obtain ⟨m, hm⟩ := List.exists_mem_of_ne_nil _ hinner
    obtain ⟨level, hlevel, -, rfl⟩ := Node.mem_branchMembers_iff.1 hm
    obtain ⟨front, back, rfl, hnodup, hothers⟩ := exists_around_branch hperm hn hlevel hm
    rw [List.map_append] at hnodup
    obtain ⟨hallFront, hallBack⟩ := List.forall_mem_append.1 hothers
    obtain ⟨now, done, hfront, hprogress, -, hfrom, hkeys⟩ := readMembers_entries (b := .nil)
      (r := r) hn hfinite (Node.progress_fresh hn id) hallFront hnodup.of_append_left (by simp)
    have hinside := readMembers_branch (r := r) hn hlevel hprogress hbranch
    have hafter : after = readMembers lookup
        (readMembers lookup ⟨now, .nil⟩ r [(level.keyword, .array branch.documents)]).1
        (readMembers lookup ⟨now, .nil⟩ r [(level.keyword, .array branch.documents)]).2 back := by
      rw [← readMembers_append, List.singleton_append]
      simp only [after, readMembers_append, hfront]
    rw [hafter]
    dsimp only at hinside
    split at hinside
    · next hnames =>
        have hnew : ∀ m ∈ back, m.1 ∉ done := fun m hm hmem => by
          have hmem := hfrom hmem
          rw [List.append_nil] at hmem
          exact List.disjoint_of_nodup_append hnodup hmem (List.mem_map.2 ⟨m, hm, rfl⟩)
        obtain ⟨now', done', hback, hlast, hkept, -, hkeys'⟩ := readMembers_entries
          (b := branch.reissue .any r.fresh.value)
          (r := { r with fresh := ⟨r.fresh.value + branch.nodes.length⟩ }) hn hfinite hprogress
          hallBack hnodup.of_append_right hnew
        have hdone : ∀ m ∈ n.entryMembers, m.1 ∈ done' := fun m hentry => by
          rcases List.mem_append.1 (mem_of_entry hperm hentry) with hmem | hmem
          · exact hkept (hkeys m hmem hentry)
          · rcases List.mem_cons.1 hmem with rfl | hmem
            · exact absurd rfl ((hn.key_of_mem_branch hm).2 _ hentry)
            · exact hkeys' m hmem hentry
        rw [if_pos hnames, hinside, hback, hlast.eq_reissued_of_members hn hfinite hdone]
    · next hnames =>
        rw [if_neg hnames]
        exact problems_readMembers_ne_nil hinside back

/-! ### Trees and forests -/

/-- **A tree that was read** is put behind the others, unless one of its names is taken. -/
theorem placeNode_reissued (hf : (Forest.single ⟨n, branch⟩).IsRestorable P lookup) {s : Sequence}
    (hrelevant : ∀ m ∈ (Forest.single ⟨n, branch⟩).nodes,
      m.type.isRelevantIn s.level.context = true)
    (htaken : s.nodes.names.Nodup) (hbranch : branch.names.Nodup) (r : DocumentReading)
    (start : Nat) :
    let placed := r.placeNode s ⟨n.reissued ⟨start⟩ .any, branch.reissue .any (start + 1)⟩
    if (s.nodes.names ++ (Forest.single ⟨n, branch⟩).names).Nodup then
      placed = (⟨s.level, s.nodes.append
        ((Forest.single ⟨n, branch⟩).reissue s.level.context start)⟩, r)
    else placed.2.problems ≠ [] := by
  intro placed
  have hplace := hf.place_reissued hrelevant htaken hbranch start !s.level.owner.isSome
  -- both ways of placing a node go by the same check of names
  have hcall : (if s.level.owner.isSome then
        s.adopt ⟨n.reissued ⟨start⟩ .any, branch.reissue .any (start + 1)⟩
      else s.append ⟨n.reissued ⟨start⟩ .any, branch.reissue .any (start + 1)⟩ none) =
      s.place ⟨n.reissued ⟨start⟩ .any, branch.reissue .any (start + 1)⟩ none s.nodes.names
        !s.level.owner.isSome := by
    rw [Sequence.adopt, Sequence.append]
    cases s.level.owner.isSome <;> rfl
  dsimp only at hplace
  rw [← hcall] at hplace
  simp only [placed, placeNode]
  by_cases hnodup : (s.nodes.names ++ (Forest.single ⟨n, branch⟩).names).Nodup
  · rw [if_pos hnodup] at hplace ⊢
    rw [hplace]
  · rw [if_neg hnodup] at hplace ⊢
    obtain ⟨name, hplace⟩ := hplace
    rw [hplace]
    simp [report]

/-- **A document is read into a fresh node** of its type and name. -/
theorem readNode_object (hf : (Forest.single ⟨n, branch⟩).IsRestorable P lookup)
    (hperm : members.Perm (n.treeMembers branch.documents)) (s : Sequence) (r : DocumentReading) :
    readNode lookup s r (.object members) =
      let start := { r with fresh := ⟨r.fresh.value + 1⟩ }
      let read := readMembers lookup ⟨n.freshLike r.fresh, .nil⟩ start members
      read.2.placeNode s read.1 := by
  have hn := hf.of_node
  have hnodup : (members.map Prod.fst).Nodup :=
    (hperm.map Prod.fst).nodup_iff.2 (hn.nodup_keys_tree _)
  have hmem : ∀ m ∈ n.commonMembers, m ∈ members := fun m hm => by
    refine hperm.mem_iff.2 (List.mem_append_left _ ?_)
    rw [Node.toMembers_eq]
    exact List.mem_append_left _ hm
  have htype : members.lookup "type" = some (.text n.type.keyword) :=
    Json.lookup_of_mem hnodup (hmem ("type", .text n.type.keyword) (by simp [Node.commonMembers]))
  have hname : (members.lookup "name").bind Json.text? =
      if n.name.isEmpty then none else some n.name := by
    -- A node without a name has no such member.
    by_cases hempty : n.name.isEmpty = true
    · rw [if_pos hempty, List.lookup_eq_none_iff.2 fun m hm => ?_]
      · rfl
      rw [bne_iff_ne]
      rintro heq
      have hcommon : isCommonMember m.1 = true := heq ▸ rfl
      rcases List.mem_append.1 (hperm.mem_iff.1 hm) with hm | hm
      · rw [Node.toMembers_eq] at hm
        rcases List.mem_append.1 hm with hm | hm
        · rw [Node.commonMembers, if_pos hempty, List.append_nil, List.mem_singleton] at hm
          rw [hm] at heq
          simp at heq
        · rw [(hn.key_of_mem hm).1] at hcommon
          cases hcommon
      · rw [(hn.key_of_mem_branch hm).1] at hcommon
        cases hcommon
    · have hfound := Json.lookup_of_mem hnodup (hmem ("name", .text n.name) (by
        rw [Node.commonMembers, if_neg hempty]
        simp))
      rw [if_neg hempty, hfound]
      rfl
  have hkeyword : (members.lookup "type").bind Json.text? = some n.type.keyword := by
    rw [htype]
    rfl
  have hfresh : r.freshNode n.type ((members.lookup "name").bind Json.text?) =
      (n.freshLike r.fresh, { r with fresh := ⟨r.fresh.value + 1⟩ }) := by
    rw [hname, Node.freshLike]
    split <;> rfl
  rw [readNode, hkeyword]
  dsimp only
  rw [Registry.typeOf_keyword (hf.admitted n (by simp))]
  dsimp only
  rw [hfresh]

/-- **The document of a tree brings the tree back** if that of its branch brings back the branch. -/
theorem readItems_single (hf : (Forest.single ⟨n, branch⟩).IsRestorable P lookup)
    (hfinite : n.isFinite = true)
    (hbranch : ∀ (s : Sequence) (r : DocumentReading),
      (∀ m ∈ branch.nodes, m.type.isRelevantIn s.level.context = true) → s.nodes.names.Nodup →
      Restores lookup branch s r)
    (s : Sequence) (r : DocumentReading)
    (hrelevant : ∀ m ∈ (Forest.single ⟨n, branch⟩).nodes,
      m.type.isRelevantIn s.level.context = true)
    (htaken : s.nodes.names.Nodup) : Restores lookup (.single ⟨n, branch⟩) s r := by
  have hn := hf.of_node
  obtain ⟨sorted, hsorted, hperm, -⟩ := Json.exists_ofMembers (hn.nodup_keys_tree branch.documents)
  have hread : readItems lookup s r (Forest.single ⟨n, branch⟩).documents =
      readNode lookup s r (.object sorted) := by
    rw [Forest.single, Forest.documents_cons, hsorted]
    rfl
  have hmembers := readMembers_tree (r := { r with fresh := ⟨r.fresh.value + 1⟩ }) hf hfinite
    hbranch hperm r.fresh
  unfold Restores
  rw [hread, readNode_object hf hperm]
  dsimp only at hmembers ⊢
  split at hmembers
  · next hnodup =>
      have hplaced := placeNode_reissued hf hrelevant htaken hnodup
        { r with fresh := ⟨r.fresh.value + 1 + branch.nodes.length⟩ } r.fresh.value
      rw [hmembers]
      have hlength : r.fresh.value + (Forest.single ⟨n, branch⟩).nodes.length =
          r.fresh.value + 1 + branch.nodes.length := by
        simp only [Forest.nodes_single, List.length_cons]
        omega
      rw [hlength]
      exact hplaced
  · next hnodup =>
      rw [if_neg fun hall => ?_]
      · exact fun hnil => hmembers (List.prefix_nil.1 (hnil ▸ problems_prefix_placeNode _ _ _))
      · rw [Forest.names_single] at hall
        exact hnodup hall.of_append_right.of_append_right

theorem readItems_append (s : Sequence) (r : DocumentReading) (items more : List Json) :
    readItems lookup s r (items ++ more) =
      readItems lookup (readItems lookup s r items).1 (readItems lookup s r items).2 more := by
  induction items generalizing s r with
  | nil => rfl
  | cons j items ih => exact ih _ _

/-- **The documents of a forest bring the forest back** exactly if no name is taken or occurs
twice. -/
theorem readItems_forest {f : Forest} (hf : f.IsRestorable P lookup)
    (hfinite : ∀ n ∈ f.nodes, n.isFinite = true) (s : Sequence) (r : DocumentReading)
    (hrelevant : ∀ m ∈ f.nodes, m.type.isRelevantIn s.level.context = true)
    (htaken : s.nodes.names.Nodup) : Restores lookup f s r := by
  induction f generalizing s r with
  | nil =>
      have hnames : s.nodes.names ++ Forest.nil.names = s.nodes.names := List.append_nil _
      have hnodes : s.nodes.append (Forest.nil.reissue s.level.context r.fresh.value) = s.nodes :=
        s.nodes.append_nil
      unfold Restores
      rw [hnames, if_pos htaken, hnodes]
      rfl
  | cons n branch rest ihb ihr =>
      have hnodes : ∀ m, m ∈ (Forest.single ⟨n, branch⟩).nodes ∨ m ∈ rest.nodes →
          m ∈ (Forest.cons n branch rest).nodes := fun m hm => by
        simpa [Forest.nodes, or_assoc] using hm
      have hfirst := readItems_single hf.of_tree (hfinite n (by simp [Forest.nodes]))
        (fun s r hrelevant htaken => ihb hf.of_branch
          (fun m hm => hfinite m (by simp [Forest.nodes, hm])) s r hrelevant htaken) s r
        (fun m hm => hrelevant m (hnodes m (.inl hm))) htaken
      have hdocuments : (Forest.cons n branch rest).documents =
          (Forest.single ⟨n, branch⟩).documents ++ rest.documents := by
        rw [Forest.single, Forest.documents_cons, Forest.documents_cons]
        rfl
      unfold Restores at hfirst ⊢
      rw [hdocuments, readItems_append]
      -- The rest is read behind what the first tree left; if that was refused it stays refused.
      split at hfirst
      · next hnodup =>
          have hlength : r.fresh.value + (Forest.single ⟨n, branch⟩).nodes.length =
              r.fresh.value + 1 + branch.nodes.length := by
            simp only [Forest.nodes_single, List.length_cons]
            omega
          have hcount : r.fresh.value + 1 + branch.nodes.length + rest.nodes.length =
              r.fresh.value + (Forest.cons n branch rest).nodes.length := by
            simp only [Forest.nodes, List.length_cons, List.length_append]
            omega
          have hrest := ihr hf.of_rest (fun m hm => hfinite m (by simp [Forest.nodes, hm]))
            ⟨s.level, s.nodes.append
              ((Forest.single ⟨n, branch⟩).reissue s.level.context r.fresh.value)⟩
            { r with fresh := ⟨r.fresh.value + 1 + branch.nodes.length⟩ }
            (fun m hm => hrelevant m (hnodes m (.inr hm)))
            (by rw [Forest.names_append, Forest.names_reissue]; exact hnodup)
          unfold Restores at hrest
          dsimp only at hrest
          rw [Forest.names_append, Forest.names_reissue, Forest.append_assoc, hcount] at hrest
          rw [hfirst, hlength]
          dsimp only
          split at hrest
          · next hall =>
              rw [if_pos (Forest.nodup_names_cons.2 ⟨hnodup, hall⟩), hrest]
              rfl
          · next hnot => rwa [if_neg fun hall => hnot (Forest.nodup_names_cons.1 hall).2]
      · next hnodup =>
          rw [if_neg fun hall => hnodup (Forest.nodup_names_cons.1 hall).1]
          exact problems_readItems_ne_nil hfirst _

end DocumentReading

/-! ## Whole documents -/

/-- **The document of a sequence gives its nodes back**, with new identities in their order, if no
name occurs twice; and else it cannot be read. -/
theorem Sequence.ofJson_toJson {s : Sequence} (hf : s.nodes.IsRestorable P lookup)
    (hfinite : ∀ n ∈ s.nodes.nodes, n.isFinite = true) {level : Level}
    (hrelevant : ∀ n ∈ s.nodes.nodes, n.type.isRelevantIn level.context = true)
    (fresh : NodeId) :
    if s.nodes.names.Nodup then
      ofJson lookup ⟨level, .nil⟩ fresh s.toJson =
        (.ok ⟨level, s.nodes.reissue level.context fresh.value⟩,
          ⟨fresh.value + s.nodes.nodes.length⟩)
    else ∃ e, (ofJson lookup ⟨level, .nil⟩ fresh s.toJson).1 = .error e := by
  have hread := DocumentReading.readItems_forest hf hfinite ⟨level, .nil⟩ ⟨fresh, []⟩ hrelevant
    List.nodup_nil
  have hof : ofJson lookup ⟨level, .nil⟩ fresh s.toJson =
      let read := DocumentReading.readItems lookup ⟨level, .nil⟩ ⟨fresh, []⟩ s.nodes.documents
      ((readOutcome read.2.problems).map fun _ => read.1, read.2.fresh) := by
    rw [ofJson, toJson, Json.canonical_array hf.canonical_documents]
  unfold DocumentReading.Restores at hread
  have hnames : Forest.nil.names ++ s.nodes.names = s.nodes.names := rfl
  dsimp only at hread
  rw [hnames] at hread
  rw [hof]
  split at hread
  · next hnodup =>
      rw [if_pos hnodup, hread]
      rfl
  · next hnodup =>
      rw [if_neg hnodup]
      dsimp only
      cases hcases : readOutcome _ with
      | error e => exact ⟨e, rfl⟩
      | ok u => exact absurd (readOutcome_eq_ok_iff.1 hcases) hread

end SiteAnalysis
