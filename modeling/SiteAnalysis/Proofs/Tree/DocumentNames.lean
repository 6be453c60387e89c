import SiteAnalysis.Proofs.Tree.Documents
import SiteAnalysis.Proofs.Tree.Namesakes

set_option autoImplicit false

/-! # Names given in documents

A document gives names to nodes as a text does, and names are generated as soon as a node has come to
stand in the root. Main statements:

* `Sequence.not_isNamesake_ofJson`: where all names that a document gives are distinct, none of them
  is refused as taken, unless the root holds it already when its node is read.
* `Sequence.exists_refused_ofJson`: in that case a node is refused.
-/

namespace SiteAnalysis

open Forest (single)

namespace DocumentReading

variable {lookup : Lookup}

/-! ## The names in a document -/

mutual

/-- **The names that the document of a node gives**, to the node first. -/
def nodeNames (lookup : Lookup) : Json → List String
  | .object members =>
    match (members.lookup "type").bind Json.text? with
    | none => []
    | some keyword =>
      match lookup.registry.typeOf keyword with
      | .error _ => []
      | .ok type =>
        (((members.lookup "name").bind Json.text?).elim [] givenNames) ++
          memberNames lookup type.branchKeyword? members
  | _ => []

/-- The names in the members of a document that belong to the branch. -/
def memberNames (lookup : Lookup) (branch : Option String) : List (String × Json) → List String
  | [] => []
  | (key, j) :: rest =>
    if !isCommonMember key && branch.any (sameName key) then
      listNames lookup j ++ memberNames lookup branch rest
    else memberNames lookup branch rest

/-- The names in the document of a branch. -/
def listNames (lookup : Lookup) : Json → List String
  | .array items => itemNames lookup items
  | _ => []

/-- **The names that documents give.** -/
def itemNames (lookup : Lookup) : List Json → List String
  | [] => []
  | j :: rest => nodeNames lookup j ++ itemNames lookup rest

end

/-- **A name that is given after the root came to hold it**, and so was generated. -/
def Collides (lookup : Lookup) (root : Sequence) (r : DocumentReading) (items : List Json) : Prop :=
  ∃ before after, items = before ++ after ∧
    ∃ name ∈ (readItems lookup root r before).1.nodes.names, name ∈ itemNames lookup after

/-! ## What reading gathers -/

/-- **What became of the names that were given**, of which some come to stand behind those that are
taken. A name is missing only after a node was refused, and none is refused as taken if all are
distinct. -/
structure Gathers (given taken names : List String) (r r' : DocumentReading) : Prop where
  sublist : names.Sublist given
  problems : ∃ new, r'.problems = r.problems ++ new ∧
    (names = given ∨ ∃ e ∈ new, e.IsNamesake ∨ e.IsMisplacement) ∧
    ((taken ++ given).Nodup → ∀ e ∈ new, ¬ e.IsNamesake)

namespace Gathers

variable {given given' taken names names' : List String} {r r' r'' : DocumentReading}

theorem nothing (taken : List String) (r : DocumentReading) : Gathers [] taken [] r r where
  sublist := List.Sublist.refl _
  problems := ⟨[], by simp, .inl rfl, fun _ => by simp⟩

theorem report {e : Error} (he : e.IsLocal) (taken : List String) (r : DocumentReading) :
    Gathers [] taken [] r (r.report e) where
  sublist := List.Sublist.refl _
  problems := ⟨[e], rfl, .inl rfl, fun _ => by simpa using he.not_isNamesake⟩

/-- What stands in front of all that was gathered. -/
theorem behind (h : Gathers given [] names r' r'') (heq : r'.problems = r.problems)
    (front : List String) : Gathers (front ++ given) [] (front ++ names) r r'' := by
  obtain ⟨hsub, new, hnew, hall, hclean⟩ := h
  refine ⟨(List.Sublist.refl _).append hsub, new, by rw [hnew, heq], ?_, fun hnodup => ?_⟩
  · exact hall.imp_left fun hsame => by rw [hsame]
  · exact hclean hnodup.of_append_right.of_append_right

theorem trans (h : Gathers given taken names r r')
    (h' : Gathers given' (taken ++ names) names' r' r'') :
    Gathers (given ++ given') taken (names ++ names') r r'' := by
  obtain ⟨hsub, new, heq, hall, hclean⟩ := h
  obtain ⟨hsub', new', heq', hall', hclean'⟩ := h'
  refine ⟨hsub.append hsub', new ++ new', by rw [heq', heq, List.append_assoc], ?_, ?_⟩
  · rcases hall with rfl | ⟨e, he, hcause⟩
    · rcases hall' with rfl | ⟨e, he, hcause⟩
      · exact .inl rfl
      · exact .inr ⟨e, List.mem_append_right _ he, hcause⟩
    · exact .inr ⟨e, List.mem_append_left _ he, hcause⟩
  · intro hnodup
    rw [← List.append_assoc] at hnodup
    -- what was gathered first is part of what was given first
    have hlater : (taken ++ names ++ given').Nodup :=
      hnodup.sublist (((List.Sublist.refl taken).append hsub).append (List.Sublist.refl _))
    exact List.forall_mem_append.2 ⟨hclean hnodup.of_append_left, hclean' hlater⟩

end Gathers

/-! ## Reading a node -/

/-- A node that has been read, and now has to be placed. -/
def IsRead (lookup : Lookup) (s : Sequence) (r : DocumentReading) (j : Json) : Prop :=
  (∃ e, e.IsLocal ∧ nodeNames lookup j = [] ∧ readNode lookup s r j = (s, r.report e)) ∨
    ∃ t r', readNode lookup s r j = r'.placeNode s t ∧
      Gathers (nodeNames lookup j) [] (single t).names r r'

/-- A node that is placed in a branch. -/
theorem IsRead.adopt {s : Sequence} {r : DocumentReading} {j : Json} (h : IsRead lookup s r j)
    (howner : s.level.owner.isSome = true) :
    ∃ names, (readNode lookup s r j).1.level = s.level ∧
      (readNode lookup s r j).1.nodes.names = s.nodes.names ++ names ∧
      Gathers (nodeNames lookup j) s.nodes.names names r (readNode lookup s r j).2 := by
  rcases h with ⟨e, he, hnone, heq⟩ | ⟨t, r', heq, hsub, new, hnew, hall, hclean⟩
  · rw [heq, hnone]
    exact ⟨[], rfl, (List.append_nil _).symm, .report he _ r⟩
  · rw [heq, placeNode, if_pos howner]
    -- A node that is refused brings no names, and is told of as misplaced or for a name that clashes.
    cases hadopt : s.adopt t with
    | ok s' =>
        obtain ⟨-, -, -, hnames⟩ := Sequence.names_of_place hadopt
        refine ⟨(single t).names, (hnames rfl).1, (hnames rfl).2, hsub, new, hnew, hall,
          fun hnodup => ?_⟩
        exact hclean hnodup.of_append_right
    | error e =>
        obtain ⟨-, hcause⟩ := Sequence.cause_of_place hadopt
        refine ⟨[], rfl, (List.append_nil _).symm, List.nil_sublist _, new ++ [e], ?_, .inr ?_, ?_⟩
        · simp [DocumentReading.report, hnew]
        · exact ⟨e, by simp, hcause.symm.imp And.left And.left⟩
        · intro hnodup
          refine List.forall_mem_append.2 ⟨hclean hnodup.of_append_right, ?_⟩
          refine List.forall_mem_singleton.2 ?_
          rcases hcause with ⟨-, hnot⟩ | ⟨-, hclash⟩
          · exact hnot
          · have hall : (s.nodes.names ++ (single t).names).Nodup :=
              hnodup.sublist ((List.Sublist.refl _).append hsub)
            exact absurd ⟨hall.of_append_right, fun name hname hin =>
              List.disjoint_of_nodup_append hall hin hname⟩ hclash

/-- A member that is no branch changes no names. -/
theorem gathers_readEntry (lookup : Lookup) (n : Node) (key : String) (j : Json) (taken : List String)
    (r : DocumentReading) : n.Keeps (r.readEntry lookup n key j).1 ∧
      Gathers [] taken [] r (r.readEntry lookup n key j).2 := by
  have hkeeps := n.keeps_readMember lookup.catalogue key j
  have hfails := n.failsLocally_readMember lookup.catalogue key j
  unfold readEntry
  split
  · next heq =>
      rw [heq] at hkeeps
      exact ⟨hkeeps, .nothing _ r⟩
  · next heq =>
      rw [heq] at hkeeps
      exact ⟨hkeeps, .report (Error.isLocal_unrecognisedKeyword _ _) _ r⟩
  · next heq =>
      rw [heq] at hkeeps hfails
      exact ⟨hkeeps, .report (Error.isLocal_withContext.2 (hfails _ rfl)) _ r⟩

/-- The names in a tree are that of its node and those in its branch. -/
theorem names_single_of_name {t : Subtree} {n : Node} (h : t.node.name = n.name) :
    (single t).names = (single ⟨n, .nil⟩).names ++ t.branch.names := by
  simp only [Forest.names_single, h]
  rw [show Forest.nil.names = [] from rfl, List.append_nil]

/-- What a node is like before its members are read. -/
theorem freshNode_spec (r : DocumentReading) (type : NodeType) (name : Option String) :
    (r.freshNode type name).1.branch.map Level.keyword = type.branchKeyword? ∧
      (∀ level ∈ (r.freshNode type name).1.branch, level.owner.isSome = true) ∧
      (single ⟨(r.freshNode type name).1, .nil⟩).names = name.elim [] givenNames ∧
      (r.freshNode type name).2.problems = r.problems := by
  have hbranch : (r.freshNode type name).1.branch = type.branchKeyword?.map (Level.branch r.fresh) := by
    cases name with
    | none => rfl
    | some name => exact Node.branch_rename (.ofType r.fresh type) name
  obtain ⟨hunnamed, hnamed⟩ := names_fresh (.ofType r.fresh type) rfl
  refine ⟨?_, fun level hlevel => ?_, ?_, rfl⟩
  · rw [hbranch, Option.map_map]
    exact Option.map_id'
  · rw [hbranch] at hlevel
    obtain ⟨keyword, -, rfl⟩ := Option.map_eq_some_iff.1 hlevel
    rfl
  · cases name with
    | none => exact hunnamed
    | some name =>
        rw [Option.elim_some]
        exact hnamed name

mutual

/-- **A node is refused, or read with its branch** and then placed. -/
theorem isRead (s : Sequence) (r : DocumentReading) : (j : Json) → IsRead lookup s r j
  | .object members => by
      have hserial : ∀ text, (Error.serialization text).IsLocal := fun text => by
        simp [Error.IsLocal, Error.problems, Error.kind]
      unfold IsRead
      rw [readNode, nodeNames]
      cases (members.lookup "type").bind Json.text? with
      | none => exact .inl ⟨_, hserial _, rfl, rfl⟩
      | some keyword =>
          dsimp only
          have hregistry := Reading.registry_fails lookup.registry keyword
          cases htype : lookup.registry.typeOf keyword with
          | error e => exact .inl ⟨e, hregistry e htype, rfl, rfl⟩
          | ok type =>
              dsimp only
              obtain ⟨hlevel, howner, hown, hproblems⟩ :=
                freshNode_spec r type ((members.lookup "name").bind Json.text?)
              obtain ⟨names, hname, hnames, hmembers⟩ := gathers_readMembers
                ⟨(r.freshNode type ((members.lookup "name").bind Json.text?)).1, .nil⟩
                (r.freshNode type ((members.lookup "name").bind Json.text?)).2 hlevel howner members
              refine .inr ⟨_, _, rfl, ?_⟩
              rw [names_single_of_name hname, hown, hnames]
              exact hmembers.behind hproblems _
  | .null | .bool _ | .int _ | .float _ | .text _ | .array _ => by
      refine .inl ⟨_, ?_, by rw [nodeNames]; exact fun _ => nofun, rfl⟩
      simp [Error.IsLocal, Error.problems, Error.kind]

theorem gathers_readMembers {branch : Option String} (t : Subtree) (r : DocumentReading)
    (hbranch : t.node.branch.map Level.keyword = branch)
    (howner : ∀ level ∈ t.node.branch, level.owner.isSome = true) :
    (members : List (String × Json)) → ∃ names,
      (readMembers lookup t r members).1.node.name = t.node.name ∧
      (readMembers lookup t r members).1.branch.names = t.branch.names ++ names ∧
      Gathers (memberNames lookup branch members) t.branch.names names r
        (readMembers lookup t r members).2
  | [] => ⟨[], rfl, (List.append_nil _).symm, .nothing _ r⟩
  | (key, j) :: rest => by
      rw [readMembers, memberNames]
      cases hcommon : isCommonMember key with
      | true => exact gathers_readMembers t r hbranch howner rest
      | false =>
          rw [if_neg Bool.false_ne_true]
          cases hlevel : t.node.branch.filter fun l => sameName key l.keyword with
          | some level =>
              obtain ⟨hlevel, hkey⟩ := Option.filter_eq_some_iff.1 hlevel
              rw [hlevel] at hbranch
              subst hbranch
              obtain ⟨names, hsame, hnames, hlist⟩ :=
                gathers_readList ⟨level, t.branch⟩ r (howner level hlevel) j
              have hbranch' : (some (readList lookup ⟨level, t.branch⟩ r j).1.level).map
                  Level.keyword = some level.keyword := by rw [hsame]; rfl
              obtain ⟨names', hname, hnames', hrest⟩ := gathers_readMembers
                ⟨{ t.node with branch := some (readList lookup ⟨level, t.branch⟩ r j).1.level },
                  (readList lookup ⟨level, t.branch⟩ r j).1.nodes⟩
                (readList lookup ⟨level, t.branch⟩ r j).2 hbranch'
                (by rw [hsame]; exact hlevel ▸ howner) rest
              refine ⟨names ++ names', hname, ?_, ?_⟩
              · rw [← List.append_assoc, ← hnames]
                exact hnames'
              · rw [if_pos (by simpa using hkey)]
                rw [hnames] at hrest
                exact hlist.trans hrest
          | none =>
              -- A member that is no branch changes the entries of the node, and no names.
              have hother : branch.any (sameName key) = false := by
                rw [Option.filter_eq_none_iff] at hlevel
                subst hbranch
                rw [Option.any_map, Option.any_eq_false]
                exact fun level h => by simpa using hlevel level h
              obtain ⟨hkeeps, hentry⟩ :=
                gathers_readEntry lookup t.node key j t.branch.names r
              rw [← hkeeps.branch] at hbranch howner
              obtain ⟨names, hname, hnames, hrest⟩ := gathers_readMembers
                { t with node := (r.readEntry lookup t.node key j).1 }
                (r.readEntry lookup t.node key j).2 hbranch howner rest
              refine ⟨names, hname.trans hkeeps.name, hnames, ?_⟩
              rw [hother, Bool.and_false, if_neg Bool.false_ne_true]
              rw [← List.append_nil t.branch.names] at hrest
              exact hentry.trans hrest

theorem gathers_readList (s : Sequence) (r : DocumentReading)
    (howner : s.level.owner.isSome = true) :
    (j : Json) → ∃ names, (readList lookup s r j).1.level = s.level ∧
      (readList lookup s r j).1.nodes.names = s.nodes.names ++ names ∧
      Gathers (listNames lookup j) s.nodes.names names r (readList lookup s r j).2
  | .array items => gathers_readItems s r howner items
  | .null | .bool _ | .int _ | .float _ | .text _ | .object _ => by
      refine ⟨[], rfl, (List.append_nil _).symm, ?_⟩
      rw [listNames]
      · exact .report (by simp [Error.IsLocal, notList, Error.problems, Error.kind]) _ r
      · exact fun _ => nofun

/-- **What a list of documents adds to a branch.** -/
theorem gathers_readItems (s : Sequence) (r : DocumentReading)
    (howner : s.level.owner.isSome = true) :
    (items : List Json) → ∃ names, (readItems lookup s r items).1.level = s.level ∧
      (readItems lookup s r items).1.nodes.names = s.nodes.names ++ names ∧
      Gathers (itemNames lookup items) s.nodes.names names r (readItems lookup s r items).2
  | [] => ⟨[], rfl, (List.append_nil _).symm, .nothing _ r⟩
  | j :: rest => by
      rw [readItems, itemNames]
      obtain ⟨names, hlevel, hnames, hnode⟩ := (isRead s r j).adopt howner
      obtain ⟨names', hlevel', hnames', hrest⟩ := gathers_readItems (readNode lookup s r j).1
        (readNode lookup s r j).2 (by rw [hlevel]; exact howner) rest
      refine ⟨names ++ names', hlevel'.trans hlevel, ?_, ?_⟩
      · rw [← List.append_assoc, ← hnames]
        exact hnames'
      · rw [hnames] at hrest
        exact hnode.trans hrest

end

/-! ## Reading into the root -/

/-- Whether no name was refused as taken. -/
def IsClean (r : DocumentReading) : Prop := ∀ e ∈ r.problems, ¬ e.IsNamesake

/-- Whether a node was refused for its name or its type. -/
def HasRefused (r : DocumentReading) : Prop := ∃ e ∈ r.problems, e.IsNamesake ∨ e.IsMisplacement

variable {s : Sequence} {r : DocumentReading} {j : Json} {items : List Json} {name : String}

/-- What the root holds it keeps. -/
theorem IsRead.names_subset (h : IsRead lookup s r j) (hroot : s.level.owner.isSome = false) :
    (readNode lookup s r j).1.level.owner.isSome = false ∧
      s.nodes.names ⊆ (readNode lookup s r j).1.nodes.names := by
  rcases h with ⟨e, -, -, heq⟩ | ⟨t, r', heq, -⟩
  · rw [heq]
    exact ⟨hroot, List.Subset.refl _⟩
  · rw [heq, placeNode, hroot, if_neg Bool.false_ne_true]
    cases happend : s.append t none with
    | ok s' =>
        obtain ⟨-, howner, hsub, -⟩ := Sequence.names_of_place happend
        exact ⟨by rw [howner]; exact hroot, hsub⟩
    | error e => exact ⟨hroot, List.Subset.refl _⟩

/-- A node with names that are distinct, and none of which the root holds. -/
theorem IsRead.isClean (h : IsRead lookup s r j) (hroot : s.level.owner.isSome = false)
    (hnodup : (nodeNames lookup j).Nodup) (hapart : ∀ name ∈ nodeNames lookup j, name ∉ s.nodes.names)
    (hclean : r.IsClean) : (readNode lookup s r j).2.IsClean := by
  rcases h with ⟨e, he, -, heq⟩ | ⟨t, r', heq, hsub, new, hnew, -, hnot⟩
  · rw [heq]
    exact List.forall_mem_append.2 ⟨hclean, List.forall_mem_singleton.2 he.not_isNamesake⟩
  · have hclean' : r'.IsClean := by
      rw [IsClean, hnew]
      exact List.forall_mem_append.2 ⟨hclean, hnot hnodup⟩
    rw [heq, placeNode, hroot, if_neg Bool.false_ne_true]
    cases happend : s.append t none with
    | ok s' => exact hclean'
    | error e =>
        refine List.forall_mem_append.2 ⟨hclean', List.forall_mem_singleton.2 ?_⟩
        obtain ⟨-, ⟨-, hmisplaced⟩ | ⟨-, hclash⟩⟩ := Sequence.cause_of_place happend
        · exact hmisplaced
        · exact absurd ⟨hnodup.sublist hsub, fun name hname => hapart name (hsub.subset hname)⟩
            hclash

/-- A node with a name that the root holds. -/
theorem IsRead.hasRefused (h : IsRead lookup s r j) (hroot : s.level.owner.isSome = false)
    (hname : name ∈ nodeNames lookup j) (htaken : name ∈ s.nodes.names) :
    (readNode lookup s r j).2.HasRefused := by
  rcases h with ⟨e, -, hnone, -⟩ | ⟨t, r', heq, hsub, new, hnew, hall, -⟩
  · rw [hnone] at hname
    cases hname
  · rw [heq, placeNode, hroot, if_neg Bool.false_ne_true]
    cases happend : s.append t none with
    | ok s' =>
        obtain ⟨hclash, -⟩ := Sequence.names_of_place happend
        rcases hall with hall | ⟨e, he, hcause⟩
        · rw [← hall] at hname
          exact absurd htaken (Sequence.not_mem_of_clash?_eq_none hclash name hname)
        · exact ⟨e, by rw [hnew]; exact List.mem_append_right _ he, hcause⟩
    | error e =>
        obtain ⟨-, hcause⟩ := Sequence.cause_of_place happend
        exact ⟨e, by simp [report], hcause.symm.imp And.left And.left⟩

theorem isClean_readItems (hroot : s.level.owner.isSome = false) (hnodup : (itemNames lookup items).Nodup)
    (hcollides : ¬ Collides lookup s r items) (hclean : r.IsClean) :
    (readItems lookup s r items).2.IsClean := by
  induction items generalizing s r with
  | nil => exact hclean
  | cons j items ih =>
      rw [itemNames] at hnodup
      have hhere : ∀ name ∈ nodeNames lookup j, name ∉ s.nodes.names := fun name hname hin =>
        hcollides ⟨[], j :: items, rfl, name, hin, List.mem_append_left _ hname⟩
      have hlater : ¬ Collides lookup (readNode lookup s r j).1 (readNode lookup s r j).2 items := by
        rintro ⟨before, after, rfl, hname⟩
        exact hcollides ⟨j :: before, after, rfl, hname⟩
      exact ih ((isRead s r j).names_subset hroot).1 hnodup.of_append_right hlater
        ((isRead s r j).isClean hroot hnodup.of_append_left hhere hclean)

theorem owner_readItems (lookup : Lookup) (r : DocumentReading)
    (hroot : s.level.owner.isSome = false) (items : List Json) :
    (readItems lookup s r items).1.level.owner.isSome = false := by
  induction items generalizing s r with
  | nil => exact hroot
  | cons j items ih => exact ih _ ((isRead s r j).names_subset hroot).1

theorem hasRefused_of_explicit (hroot : s.level.owner.isSome = false) (htaken : name ∈ s.nodes.names)
    (hname : name ∈ itemNames lookup items) : (readItems lookup s r items).2.HasRefused := by
  induction items generalizing s r with
  | nil => cases hname
  | cons j items ih =>
      obtain ⟨howner, hsub⟩ := (isRead s r j).names_subset hroot
      rcases List.mem_append.1 hname with hnode | hlater
      · obtain ⟨e, he, hcause⟩ := (isRead s r j).hasRefused hroot hnode htaken
        exact ⟨e, (problems_prefix_readItems _ _ items).subset he, hcause⟩
      · exact ih howner (hsub htaken) hlater

end DocumentReading

/-! ## Whole documents -/

/-- The documents of nodes in a document, which has to be an array. -/
def Json.items (j : Json) : List Json :=
  match j.canonical with
  | .array items => items
  | _ => []

namespace Sequence

variable {lookup : Lookup} {root : Sequence} {fresh : NodeId} {j : Json}

/-- What reading a document makes of the documents in it. -/
theorem ofJson_cases (lookup : Lookup) (root : Sequence) (fresh : NodeId) (j : Json) :
    (j.items = [] ∧ ∃ e, (ofJson lookup root fresh j).1 = .error e ∧ e.IsLocal) ∨
      (ofJson lookup root fresh j).1 =
        (readOutcome (DocumentReading.readItems lookup root ⟨fresh, []⟩ j.items).2.problems).map
          fun _ => (DocumentReading.readItems lookup root ⟨fresh, []⟩ j.items).1 := by
  have hlist : (DocumentReading.notList root.level).IsLocal := by
    simp [Error.IsLocal, DocumentReading.notList, Error.problems, Error.kind]
  unfold ofJson Json.items
  cases j.canonical with
  | array items => exact .inr rfl
  | _ => exact .inl ⟨rfl, _, rfl, hlist⟩

/-- **No name in a document is refused as taken** if all that it gives are distinct and none was
generated before it was given. -/
theorem not_isNamesake_ofJson (hroot : root.level.owner.isSome = false)
    (hnodup : (DocumentReading.itemNames lookup j.items).Nodup)
    (hcollides : ¬ DocumentReading.Collides lookup root ⟨fresh, []⟩ j.items) {e : Error}
    (h : (ofJson lookup root fresh j).1 = .error e) : ¬ e.IsNamesake := by
  rcases ofJson_cases lookup root fresh j with ⟨-, e', heq, hlocal⟩ | heq
  · rw [heq] at h
    obtain rfl := Except.error.inj h
    exact hlocal.not_isNamesake
  · have hclean := DocumentReading.isClean_readItems (r := ⟨fresh, []⟩) hroot hnodup hcollides
      fun e he => by cases he
    rw [heq] at h
    exact not_isNamesake_of_readOutcome hclean h

/-- **A document with a name that was generated before it is given** is refused. -/
theorem exists_refused_ofJson (hroot : root.level.owner.isSome = false)
    (hcollides : DocumentReading.Collides lookup root ⟨fresh, []⟩ j.items) :
    ∃ e, (ofJson lookup root fresh j).1 = .error e ∧ (e.IsNamesake ∨ e.IsMisplacement) := by
  obtain ⟨before, after, hsplit, name, htaken, hname⟩ := hcollides
  rcases ofJson_cases lookup root fresh j with ⟨hnil, -⟩ | heq
  · rw [hnil] at hsplit
    obtain ⟨-, rfl⟩ := List.append_eq_nil_iff.1 hsplit.symm
    cases hname
  · have howner := DocumentReading.owner_readItems lookup ⟨fresh, []⟩ hroot before
    have hrefused := DocumentReading.hasRefused_of_explicit
      (r := (DocumentReading.readItems lookup root ⟨fresh, []⟩ before).2) howner htaken hname
    rw [heq, hsplit, DocumentReading.readItems_append]
    exact exists_refused_of_readOutcome hrefused

end Sequence

end SiteAnalysis
