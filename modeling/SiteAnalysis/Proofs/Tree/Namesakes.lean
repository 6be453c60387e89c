import SiteAnalysis.Proofs.Node.Faults
import SiteAnalysis.Proofs.Tree.Editing
import SiteAnalysis.Proofs.Tree.Reading

set_option autoImplicit false

/-! # Names given in texts

A text gives names to nodes, and the reader generates names for others as soon as a block of the root
is closed. Main statements:

* `Reading.not_isNamesake_of_apart`: where all names that a text gives are distinct, none of them is
  refused as taken, unless the root holds it already when it is given.
* `Reading.exists_refused_of_collides`: in that case a node is refused.
-/

namespace SiteAnalysis

open Forest (single)

/-! ## Errors of places -/

namespace Error

variable {e : Error} {line : Nat}

/-- **Whether an error tells that a name is taken.** -/
def IsNamesake (e : Error) : Prop := ∃ p ∈ e.problems, ∃ name, p.rootCause = .duplicateName name

/-- Whether an error tells that a node may not stand where it stands. -/
def IsMisplacement (e : Error) : Prop :=
  ∃ p ∈ e.problems, ∃ nodeType context, p.rootCause = .wrongContext nodeType context

theorem kind_rootCause (e : Error) : e.rootCause.kind = e.kind := by
  induction e using rootCause.induct with
  | case1 _ _ ih => exact ih
  | case2 _ _ ih => exact ih
  | case3 e h₁ h₂ =>
      cases e with
      | onLine l s => exact absurd rfl (h₁ l s)
      | inContext c s => exact absurd rfl (h₂ c s)
      | _ => rfl

theorem IsLocal.not_isNamesake (h : e.IsLocal) : ¬ e.IsNamesake := by
  rintro ⟨p, hp, name, hcause⟩
  refine h p hp ?_
  rw [← kind_rootCause, hcause]
  rfl

theorem IsLocal.kind_ne (h : e.IsLocal) : e.kind ≠ .structural := by
  induction e using problems.induct with
  | case1 es _ => exact fun hkind => by cases hkind
  | case2 context source ih => exact ih (isLocal_withContext.1 h)
  | case3 e h₁ h₂ =>
      refine h e ?_
      cases e with
      | readFailed es => exact absurd rfl (h₁ es)
      | inContext c s => exact absurd rfl (h₂ c s)
      | _ => simp [problems]

theorem IsLocal.atLine (h : e.IsLocal) (line : Nat) : (e.atLine line).IsLocal := by
  have hkind := h.kind_ne
  unfold Error.atLine
  split
  · exact h
  · intro p hp
    obtain rfl : p = onLine line e := by simpa [problems] using hp
    exact hkind

theorem isLocal_unexpectedEnd (terminator : String) : (unexpectedEnd terminator).IsLocal := by
  simp [IsLocal, problems, kind]

theorem rootCause_atLine (e : Error) (line : Nat) : (e.atLine line).rootCause = e.rootCause := by
  unfold Error.atLine
  split
  · rfl
  · rw [rootCause]

theorem problems_atLine (h : e.problems = [e]) (line : Nat) :
    (e.atLine line).problems = [e.atLine line] := by
  unfold Error.atLine
  split
  · exact h
  · simp [problems]

/-- Where an error arose makes no difference to what it tells. -/
theorem isNamesake_atLine (h : e.problems = [e]) (line : Nat) :
    (e.atLine line).IsNamesake ↔ e.IsNamesake := by
  simp [IsNamesake, problems_atLine h, h, rootCause_atLine]

theorem isMisplacement_atLine (h : e.problems = [e]) (line : Nat) :
    (e.atLine line).IsMisplacement ↔ e.IsMisplacement := by
  simp [IsMisplacement, problems_atLine h, h, rootCause_atLine]

end Error

/-! ## Clashes -/

namespace Sequence

variable {s s' : Sequence} {t : Subtree} {taken : List String} {naming : Bool} {e : Error}

theorem clash?_eq_none (hapart : ∀ name ∈ (single t).names, name ∉ taken)
    (hnodup : (single t).names.Nodup) : clash? taken t = none := by
  rw [Forest.names_single] at hapart hnodup
  have hfind : t.branch.names.find? taken.contains = none := by
    rw [List.find?_eq_none]
    intro name hname hcontains
    exact hapart name (List.mem_append_right _ hname) (by simpa using hcontains)
  unfold clash?
  dsimp only
  rw [hfind]
  dsimp only
  cases hempty : t.node.name.isEmpty with
  | true => rfl
  | false =>
      rw [hempty] at hapart hnodup
      have hown := hapart (foldCase t.node.name) (by simp)
      have hbranch : foldCase t.node.name ∉ t.branch.names :=
        (List.nodup_cons.1 (by simpa using hnodup)).1
      simp [hown, hbranch]

/-- What is placed has no name that is taken. -/
theorem not_mem_of_clash?_eq_none (h : clash? taken t = none) :
    ∀ name ∈ (single t).names, name ∉ taken := by
  intro name hname hin
  rw [Forest.names_single] at hname
  unfold clash? at h
  dsimp only at h
  split at h
  · cases h
  · next hfind =>
      rw [List.find?_eq_none] at hfind
      rcases List.mem_append.1 hname with hname | hname
      · split at hname
        · cases hname
        · next hne =>
            obtain rfl := List.mem_singleton.1 hname
            rw [if_neg hne] at h
            simp [hin] at h
      · exact hfind name hname (by simpa using hin)

/-- A tree that is not placed may not stand there, or has a name that is taken, or one twice. -/
theorem cause_of_place (h : s.place t none taken naming = .error e) :
    e.problems = [e] ∧ ((e.IsMisplacement ∧ ¬ e.IsNamesake) ∨
      (e.IsNamesake ∧ ¬ ((single t).names.Nodup ∧ ∀ name ∈ (single t).names, name ∉ taken))) := by
  rw [place_eq] at h
  split at h
  · obtain rfl := Except.error.inj h
    simp [Error.IsMisplacement, Error.IsNamesake, Error.problems, Error.rootCause]
  · next hclash =>
      obtain rfl := Except.error.inj h
      refine ⟨by simp [Error.problems], .inr ⟨?_, fun happly => ?_⟩⟩
      · simp [Error.IsNamesake, Error.problems, Error.rootCause]
      · rw [clash?_eq_none happly.2 happly.1] at hclash
        cases hclash
  · cases h

/-- The names in a tree that was placed, and those that were there. -/
theorem names_of_place (h : s.place t none taken naming = .ok s') :
    clash? taken t = none ∧ s'.level.owner = s.level.owner ∧ s.nodes.names ⊆ s'.nodes.names ∧
      (naming = false → s'.level = s.level ∧
        s'.nodes.names = s.nodes.names ++ (single t).names) := by
  rw [place_eq] at h
  split at h
  · cases h
  · cases h
  · next hclash =>
      obtain rfl := Except.ok.inj h
      obtain ⟨-, -, hlevel, hsame⟩ := s.named_spec t taken naming
      have howner : (s.named t taken naming).2.owner = s.level.owner := by rw [hlevel]
      refine ⟨hclash, howner, ?_, fun hnaming => ⟨hsame hnaming, ?_⟩⟩
      · rw [Forest.names_append]
        exact List.subset_append_left _ _
      · have hnamed : (s.named t taken naming).1 = single t := by
          rw [named, hnaming]
          rfl
        rw [hnamed, Forest.names_append, Forest.names_setContext]

end Sequence

/-! ## Names in a text -/

/-- The name that a node is given, as it is compared with others, unless nothing is left of it. -/
def givenNames (name : String) : List String :=
  if (niceName name).isEmpty then [] else [foldCase (niceName name)]

/-- A fresh node has the name it is given. -/
theorem names_fresh (n : Node) (hname : n.name = "") : (single ⟨n, .nil⟩).names = [] ∧
    ∀ name, (single ⟨n.rename name, .nil⟩).names = givenNames name := by
  refine ⟨?_, fun name => ?_⟩
  · rw [Forest.names_single, hname]
    rfl
  · rw [Forest.names_single]
    exact List.append_nil _

namespace Reading

variable {lookup : Lookup} {r r' : Reading} {l : ArgumentLine} {lines : List ArgumentLine}

/-- The names in the blocks that are open. -/
def openNames (r : Reading) : List String := r.openNodes.flatMap fun o => (single o.subtree).names

/-- **The name that a line gives to a node** whose block it begins, if it gives one. -/
def headerNames (lookup : Lookup) (r : Reading) (l : ArgumentLine) : List String :=
  match r.place, l.args with
  | .list, .ok (keyword :: name :: _) =>
    if sameName keyword r.level.terminator then []
    else match lookup.registry.typeOf keyword with
      | .error _ => []
      | .ok _ => givenNames name
  | _, _ => []

/-- **The names that lines give**, read from where the reader stands. -/
def explicitNames (lookup : Lookup) : Reading → List ArgumentLine → List String
  | _, [] => []
  | r, l :: lines => r.headerNames lookup l ++ explicitNames lookup (r.step lookup l) lines

/-- **A name that is given after the root came to hold it**, and so was generated. -/
def Collides (lookup : Lookup) (r : Reading) (lines : List ArgumentLine) : Prop :=
  ∃ before after, lines = before ++ after ∧
    ∃ name ∈ (before.foldl (step lookup) r).root.nodes.names,
      name ∈ explicitNames lookup (before.foldl (step lookup) r) after

/-- A line that places no node: what it adds to the open names and to the problems. -/
structure Quiet (r : Reading) (names : List String) (r' : Reading) : Prop where
  root : r'.root = r.root
  openNames : r'.openNames = names ++ r.openNames
  stays : r.problems <+: r'.problems
  problems : ∀ e ∈ r'.problems, e ∈ r.problems ∨ e.IsLocal

theorem Quiet.refl (r : Reading) : r.Quiet [] r :=
  ⟨rfl, rfl, List.prefix_rfl, fun _ he => .inl he⟩

theorem quiet_report {e : Error} (he : e.IsLocal) : r.Quiet [] (r.report e) where
  root := rfl
  openNames := rfl
  stays := problems_prefix_report r e
  problems e' he' := by
    rcases List.mem_append.1 he' with he' | he'
    · exact .inl he'
    · exact .inr (List.mem_singleton.1 he' ▸ he)

theorem Quiet.withPlace {names : List String} (h : r.Quiet names r') (place : Place) :
    r.Quiet names { r' with place } :=
  ⟨h.root, h.openNames, h.stays, h.problems⟩

/-- A change of the innermost open node that keeps its name. -/
theorem quiet_mapOpen {f : Subtree → Subtree} (hname : ∀ t, (f t).node.name = t.node.name)
    (hbranch : ∀ t, (f t).branch = t.branch) : r.Quiet [] (r.mapOpen f) := by
  unfold mapOpen
  split
  · exact .refl r
  · next o rest hopen =>
      refine ⟨rfl, ?_, List.prefix_rfl, fun _ he => .inl he⟩
      simp [openNames, hopen, Forest.names_single, hname, hbranch]

theorem Quiet.reportOutcome (h : r.Quiet [] r') {outcome : ReadOutcome} (houtcome : outcome.IsLocal)
    (type : NodeType) (keyword : String) (line : Nat) :
    r.Quiet [] (r'.reportOutcome type keyword line outcome) := by
  have hreport : ∀ {e : Error}, e.IsLocal → r.Quiet [] (r'.report e) := fun he =>
    { h with
      stays := h.stays.trans (problems_prefix_report r' _)
      problems := fun e' he' => by
        rcases (quiet_report he).problems e' he' with he' | he'
        · exact h.problems e' he'
        · exact .inr he' }
  cases outcome with
  | success => exact h
  | deprecated _ => exact h
  | failed e => exact hreport (Error.IsLocal.atLine houtcome line)
  | unrecognised => exact hreport ((Error.isLocal_unrecognisedKeyword _ _).atLine line)

/-! ## What a line does -/

theorem registry_fails (registry : Registry) (keyword : String) :
    FailsLocally (registry.typeOf keyword) := by
  unfold Registry.typeOf
  split
  · exact .error (Error.isLocal_unrecognisedNodeType _)
  · exact .ite (.ok _) (.error (Error.isLocal_unrecognisedNodeType _))

/-- A line in a list opens a block, or closes the list, or is refused. -/
theorem quiet_listStep (r : Reading) (line : Nat) (keyword : String) (values : List String)
    (hplace : r.place = .list) :
    r.Quiet (r.headerNames lookup ⟨line, .ok (keyword :: values)⟩)
      (r.listStep lookup line keyword values) := by
  have hacts := actsInList_listStep lookup r line keyword values
  generalize r.listStep lookup line keyword values = r' at hacts ⊢
  -- Only a header gives names: those of the node whose block it opens.
  cases hacts with
  | ends hword =>
      have hnone : r.headerNames lookup ⟨line, .ok (keyword :: values)⟩ = [] := by
        cases values <;> simp [headerNames, hplace, hword]
      rw [hnone]
      exact (Quiet.refl r).withPlace _
  | unknown hword htype =>
      have hnone : r.headerNames lookup ⟨line, .ok (keyword :: values)⟩ = [] := by
        cases values <;> simp [headerNames, hplace, hword, htype]
      rw [hnone]
      exact (quiet_report ((registry_fails lookup.registry keyword _ htype).atLine line)).withPlace _
  | @opens type hword htype =>
      obtain ⟨hunnamed, hnamed⟩ := names_fresh (.ofType r.fresh type) rfl
      have hnames : r.headerNames lookup ⟨line, .ok (keyword :: values)⟩ =
          (single ⟨.ofHeader r.fresh type values, .nil⟩).names := by
        cases values with
        | nil => simp [headerNames, hplace, Node.ofHeader, hunnamed]
        | cons name values => simp [headerNames, hplace, hword, htype, Node.ofHeader, hnamed]
      rw [hnames]
      exact ⟨rfl, rfl, List.prefix_rfl, fun _ he => .inl he⟩

theorem quiet_closeDynamicSite (r : Reading) (d : DynamicSite) :
    r.Quiet [] (r.closeDynamicSite d) := by
  have hadd : ∀ t, (addDynamicSite d t).node.name = t.node.name ∧
      (addDynamicSite d t).branch = t.branch := fun t => by
    unfold addDynamicSite
    split
    split <;> exact ⟨rfl, rfl⟩
  exact (quiet_mapOpen (fun t => (hadd t).1) fun t => (hadd t).2).withPlace _

theorem quiet_blockStep (lookup : Lookup) (r : Reading) (line : Nat) (keyword : String)
    (values : List String) :
    r.blockStep lookup line keyword values = r.close ∨
      r.Quiet [] (r.blockStep lookup line keyword values) := by
  have hacts := actsInBlock_blockStep lookup r line keyword values
  generalize r.blockStep lookup line keyword values = r' at hacts ⊢
  cases hacts with
  | nothing => exact .inr (.refl r)
  | ends => exact .inl rfl
  | branch => exact .inr ((Quiet.refl r).withPlace _)
  | sites => exact .inr ((Quiet.refl r).withPlace _)
  | @entry o rest outcome m hopen _ _ _ hread =>
      have hkeeps := Node.keeps_readLine o.subtree.node keyword values lookup.catalogue
      have hlocal := ReadOutcome.isLocal_of_isFault
        (o.subtree.node.isFault_readLine lookup.catalogue keyword values)
      rw [hread] at hkeeps hlocal
      have hname : m.name = o.subtree.node.name := hkeeps.name
      refine .inr (Quiet.reportOutcome ?_ hlocal _ _ _)
      refine ⟨rfl, ?_, List.prefix_rfl, fun _ he => .inl he⟩
      simp [openNames, hopen, Forest.names_single, hname]

theorem quiet_dynamicSiteStep (r : Reading) (d : DynamicSite) (line : Nat) (keyword : String)
    (values : List String) : r.Quiet [] (r.dynamicSiteStep lookup d line keyword values) := by
  have hacts := actsInSites_dynamicSiteStep lookup r d line keyword values
  generalize r.dynamicSiteStep lookup d line keyword values = r' at hacts ⊢
  cases hacts with
  | ends => exact quiet_closeDynamicSite r d
  | entry _ hread =>
      have hlocal := ReadOutcome.isLocal_of_isFault
        (d.isFault_readLine lookup.catalogue keyword values)
      rw [hread] at hlocal
      exact ((Quiet.refl r).reportOutcome hlocal _ _ _).withPlace _

theorem quiet_unreadableStep (r : Reading) (skipped : String) (depth : Nat) (keyword : String) :
    r.Quiet [] (r.unreadableStep skipped depth keyword) := by
  have hpasses := passesOver_unreadableStep r skipped depth keyword
  generalize r.unreadableStep skipped depth keyword = r' at hpasses ⊢
  cases hpasses with
  | counts => exact (Quiet.refl r).withPlace _
  | ends => exact (Quiet.refl r).withPlace _
  | nothing => exact .refl r

/-- **What a line does**: it closes a block, or it places nothing. -/
theorem step_cases (lookup : Lookup) (r : Reading) (hargs : ∀ e, l.args = .error e → e.IsLocal) :
    (r.step lookup l = r.close ∧ r.headerNames lookup l = []) ∨
      r.Quiet (r.headerNames lookup l) (r.step lookup l) := by
  obtain ⟨line, args⟩ := l
  have hacts := acts_step lookup r ⟨line, args⟩
  generalize r.step lookup ⟨line, args⟩ = r' at hacts ⊢
  -- Only a line that stands in a list names a node.
  have hquiet : r.headerNames lookup ⟨line, args⟩ = [] → r.Quiet [] r' →
      r.Quiet (r.headerNames lookup ⟨line, args⟩) r' := fun hnone hquiet => by
    rwa [hnone]
  cases hacts with
  | behind hplace => exact .inr (hquiet (by simp [headerNames, hplace]) (.refl r))
  | blank hblank =>
      obtain rfl : args = _ := hblank
      exact .inr (hquiet (by simp [headerNames]) (.refl r))
  | resumes hplace =>
      exact .inr (hquiet (by simp [headerNames, hplace]) ((Quiet.refl r).withPlace _))
  | unsplittable _ herror =>
      have hreport := quiet_report (r := r) (hargs _ herror)
      obtain rfl : args = _ := herror
      exact .inr (hquiet (by simp [headerNames]) hreport)
  | inList hplace hwords =>
      obtain rfl : args = _ := hwords
      exact .inr (quiet_listStep r line _ _ hplace)
  | inBlock hplace =>
      have hnone : r.headerNames lookup ⟨line, args⟩ = [] := by simp [headerNames, hplace]
      exact (quiet_blockStep lookup r line _ _).imp (fun heq => ⟨heq, hnone⟩) (hquiet hnone)
  | inSites hplace =>
      exact .inr (hquiet (by simp [headerNames, hplace]) (quiet_dynamicSiteStep r _ line _ _))
  | passedOver hplace =>
      exact .inr (hquiet (by simp [headerNames, hplace]) (quiet_unreadableStep r _ _ _))

/-- **What closing a block does** to the names. -/
inductive Closed (r r' : Reading) : Prop
  /-- No block is open. -/
  | nothing (hopen : r.openNodes = []) (hsame : r' = r)
  /-- The node comes to stand in the branch of another. -/
  | inside (hroot : r'.root = r.root) (hnames : r'.openNames.Perm r.openNames)
      (hproblems : r'.problems = r.problems)
      (hlength : r.openNodes.length = r'.openNodes.length + 1)
  /-- The node comes to stand in the root, which holds none of its names. -/
  | outermost (hroot : r.root.nodes.names ⊆ r'.root.nodes.names)
      (hapart : ∀ name ∈ r.openNames, name ∉ r.root.nodes.names)
      (hnames : r'.openNames = []) (hproblems : r'.problems = r.problems)
      (hlength : r.openNodes.length = r'.openNodes.length + 1)
  /-- The node is refused and dropped. -/
  | refused (names : List String) (e : Error) (hroot : r'.root = r.root)
      (hnames : r.openNames = names ++ r'.openNames)
      (hproblems : r'.problems = r.problems ++ [e])
      (hlength : r.openNodes.length = r'.openNodes.length + 1)
      (hcause : (e.IsMisplacement ∧ ¬ e.IsNamesake) ∨ (e.IsNamesake ∧ ¬ (names.Nodup ∧
        ∀ name ∈ names, name ∉ r'.openNames ∧ name ∉ r.root.nodes.names)))

/-- A node that is refused may not stand where its block closes, or has a name that is taken. -/
theorem cause_of_placeNode {t : Subtree} {e : Error} (h : r.placeNode t = .error e) :
    e.problems = [e] ∧ ((e.IsMisplacement ∧ ¬ e.IsNamesake) ∨
      (e.IsNamesake ∧ ¬ ((single t).names.Nodup ∧
        ∀ name ∈ (single t).names, name ∉ r.openNames ∧ name ∉ r.root.nodes.names))) := by
  cases hopen : r.openNodes with
  | nil =>
      rw [placeNode_of_nil hopen] at h
      obtain ⟨hsingle, hcause⟩ := Sequence.cause_of_place (map_eq_error_iff.1 h)
      refine ⟨hsingle, hcause.imp_right ?_⟩
      rintro ⟨hnamesake, hclash⟩
      exact ⟨hnamesake, fun ⟨hnodup, hapart⟩ =>
        hclash ⟨hnodup, fun name hname => (hapart name hname).2⟩⟩
  | cons o rest =>
      rw [placeNode_of_cons hopen] at h
      obtain ⟨hsingle, hcause⟩ := Sequence.cause_of_place (map_eq_error_iff.1 h)
      refine ⟨hsingle, hcause.imp_right ?_⟩
      rintro ⟨hnamesake, hclash⟩
      refine ⟨hnamesake, fun ⟨hnodup, hapart⟩ => hclash ⟨hnodup, fun name hname hin => ?_⟩⟩
      refine (hapart name hname).1 ?_
      simp only [openNames, hopen, List.flatMap_cons, Forest.names_single, List.mem_append]
      exact .inl (.inr hin)

theorem closed_close (r : Reading) : r.Closed r.close := by
  have hcloses := closesBlock_close r
  generalize r.close = r' at hcloses ⊢
  -- The names of a block that closes move one place out, to the root or to the node around it.
  cases hcloses with
  | nothing hopen => exact .nothing hopen rfl
  | @refused o rest e hopen hplace =>
      obtain ⟨hsingle, hcause⟩ := cause_of_placeNode hplace
      rw [← Error.isMisplacement_atLine hsingle o.line,
        ← Error.isNamesake_atLine hsingle o.line] at hcause
      have hnames : r.openNames = (single o.subtree).names ++
          openNames { r with openNodes := rest, place := .list } := by
        simp [openNames, hopen]
      exact .refused _ _ rfl hnames rfl (by simp [hopen, report]) hcause
  | outermost hopen happend =>
      obtain ⟨hclash, -, hroot, -⟩ := Sequence.names_of_place happend
      have hapart := Sequence.not_mem_of_clash?_eq_none hclash
      exact .outermost hroot (by simpa [openNames, hopen] using hapart) rfl rfl (by simp [hopen])
  | @inside o o' rest s hopen hadopt =>
      obtain ⟨-, -, -, hbranch⟩ := Sequence.names_of_place hadopt
      refine .inside rfl ?_ rfl (by simp [hopen])
      simp only [openNames, hopen, List.flatMap_cons]
      rw [← List.append_assoc (single o.subtree).names]
      refine List.Perm.append_right _ ?_
      rw [Forest.names_single, (hbranch rfl).2, ← List.append_assoc, Forest.names_single o'.subtree]
      exact List.perm_append_comm

/-! ## Names that stay apart -/

/-- **Names that may all be placed**: those in open blocks are distinct, and the root holds none. -/
structure IsApart (r : Reading) : Prop where
  distinct : r.openNames.Nodup
  apart : ∀ name ∈ r.openNames, name ∉ r.root.nodes.names

/-- Whether no name was refused as taken. -/
def IsClean (r : Reading) : Prop := ∀ e ∈ r.problems, ¬ e.IsNamesake

theorem Quiet.trans {r'' : Reading} (h : r.Quiet [] r') (h' : r'.Quiet [] r'') :
    r.Quiet [] r'' where
  root := h'.root.trans h.root
  openNames := h'.openNames.trans h.openNames
  stays := h.stays.trans h'.stays
  problems e he := by
    rcases h'.problems e he with he | he
    · exact h.problems e he
    · exact .inr he

theorem Quiet.isClean {names : List String} (h : r.Quiet names r') (hclean : r.IsClean) :
    r'.IsClean := fun e he => by
  rcases h.problems e he with he | he
  · exact hclean e he
  · exact he.not_isNamesake

theorem Quiet.isApart {names : List String} (h : r.Quiet names r') (hapart : r.IsApart)
    (hnodup : names.Nodup)
    (hnew : ∀ name ∈ names, name ∉ r.openNames ∧ name ∉ r.root.nodes.names) : r'.IsApart where
  distinct := by
    rw [h.openNames]
    exact hnodup.append hapart.distinct fun name hname => (hnew name hname).1
  apart := by
    rw [h.openNames, h.root]
    exact List.forall_mem_append.2 ⟨fun name hname => (hnew name hname).2, hapart.apart⟩

theorem Closed.isApart (h : r.Closed r') (hapart : r.IsApart) :
    r'.IsApart ∧ r'.openNames ⊆ r.openNames := by
  cases h with
  | nothing _ hsame =>
      subst hsame
      exact ⟨hapart, List.Subset.refl _⟩
  | inside hroot hnames _ _ =>
      refine ⟨⟨hnames.nodup_iff.2 hapart.distinct, fun name hname => ?_⟩, hnames.subset⟩
      rw [hroot]
      exact hapart.apart name (hnames.subset hname)
  | outermost _ _ hnames _ _ =>
      refine ⟨⟨?_, ?_⟩, ?_⟩ <;> simp [hnames]
  | refused names e hroot hnames _ _ _ =>
      have hsub : r'.openNames ⊆ r.openNames := hnames ▸ List.subset_append_right _ _
      refine ⟨⟨(hnames ▸ hapart.distinct).of_append_right, fun name hname => ?_⟩, hsub⟩
      rw [hroot]
      exact hapart.apart name (hsub hname)

theorem Closed.isClean (h : r.Closed r') (hapart : r.IsApart) (hclean : r.IsClean) :
    r'.IsClean := by
  unfold IsClean
  cases h with
  | nothing _ hsame => exact hsame ▸ hclean
  | inside _ _ hproblems _ => exact hproblems ▸ hclean
  | outermost _ _ _ hproblems _ => exact hproblems ▸ hclean
  | refused names e _ hnames hproblems _ hcause =>
      rw [hproblems]
      refine List.forall_mem_append.2 ⟨hclean, List.forall_mem_singleton.2 ?_⟩
      rcases hcause with ⟨-, hnot⟩ | ⟨-, hclash⟩
      · exact hnot
      · -- the names of the node are among those that stay apart
        have hdistinct := hapart.distinct
        have hroot := hapart.apart
        rw [hnames] at hdistinct hroot
        refine absurd ⟨hdistinct.of_append_left, fun name hname => ⟨fun hin => ?_, ?_⟩⟩ hclash
        · exact List.disjoint_of_nodup_append hdistinct hname hin
        · exact hroot name (List.mem_append_left _ hname)

/-- **No name is refused as taken** where all names that lines give are distinct, and none is in the
root when it is given. -/
theorem isClean_run (hlines : ∀ l ∈ lines, ∀ e, l.args = .error e → e.IsLocal) {given : List String}
    (hapart : r.IsApart) (hgiven : r.openNames ⊆ given)
    (hnodup : (given ++ explicitNames lookup r lines).Nodup) (hcollides : ¬ Collides lookup r lines)
    (hclean : r.IsClean) :
    (lines.foldl (step lookup) r).IsApart ∧ (lines.foldl (step lookup) r).IsClean := by
  induction lines generalizing r given with
  | nil => exact ⟨hapart, hclean⟩
  | cons l lines ih =>
      obtain ⟨hl, hlines⟩ := List.forall_mem_cons.1 hlines
      rw [explicitNames, ← List.append_assoc] at hnodup
      have hhere : ∀ name ∈ r.root.nodes.names, name ∉ explicitNames lookup r (l :: lines) :=
        fun name hname hin => hcollides ⟨[], l :: lines, rfl, name, hname, hin⟩
      have hlater : ¬ Collides lookup (r.step lookup l) lines := by
        rintro ⟨before, after, rfl, hname⟩
        exact hcollides ⟨l :: before, after, rfl, hname⟩
      -- A line closes a block, or says no more than the names it gives.
      rcases step_cases lookup r hl with ⟨hclose, hnone⟩ | hquiet
      · have hclosed := closed_close r
        rw [← hclose] at hclosed
        obtain ⟨hapart', hsub⟩ := hclosed.isApart hapart
        rw [hnone, List.append_nil] at hnodup
        exact ih hlines hapart' (List.Subset.trans hsub hgiven) hnodup hlater
          (hclosed.isClean hapart hclean)
      · have hheader := hnodup.of_append_left
        have hnew : ∀ name ∈ r.headerNames lookup l,
            name ∉ r.openNames ∧ name ∉ r.root.nodes.names := fun name hname =>
          ⟨fun hin => List.disjoint_of_nodup_append hheader (hgiven hin) hname,
            fun hin => hhere name hin (List.mem_append_left _ hname)⟩
        refine ih hlines (hquiet.isApart hapart hheader.of_append_right hnew) ?_ hnodup hlater
          (hquiet.isClean hclean)
        rw [hquiet.openNames]
        exact List.append_subset.2 ⟨List.subset_append_right _ _,
          List.Subset.trans hgiven (List.subset_append_left _ _)⟩

/-! ## Names that are refused -/

/-- Whether a node was refused for its name or its type. -/
def HasRefused (r : Reading) : Prop := ∃ e ∈ r.problems, e.IsNamesake ∨ e.IsMisplacement

/-- A name in the root that an open block has too, unless a node was refused already. -/
def IsDoomed (name : String) (r : Reading) : Prop :=
  name ∈ r.root.nodes.names ∧ (name ∈ r.openNames ∨ r.HasRefused)

variable {name : String}

theorem Quiet.isDoomed {names : List String} (h : r.Quiet names r') (hdoomed : r.IsDoomed name) :
    r'.IsDoomed name := by
  obtain ⟨hroot, hcases⟩ := hdoomed
  refine ⟨by rwa [h.root], ?_⟩
  rcases hcases with hopen | ⟨e, he, hcause⟩
  · exact .inl (by rw [h.openNames]; exact List.mem_append_right _ hopen)
  · exact .inr ⟨e, h.stays.subset he, hcause⟩

theorem Closed.isDoomed (h : r.Closed r') (hdoomed : r.IsDoomed name) : r'.IsDoomed name := by
  obtain ⟨hroot, hcases⟩ := hdoomed
  cases h with
  | nothing _ hsame => exact hsame ▸ ⟨hroot, hcases⟩
  | inside hroot' hnames hproblems _ =>
      refine ⟨by rwa [hroot'], ?_⟩
      rcases hcases with hopen | hrefused
      · exact .inl (hnames.mem_iff.2 hopen)
      · exact .inr (by rwa [HasRefused, hproblems])
  | outermost hsub hapart _ hproblems _ =>
      refine ⟨hsub hroot, ?_⟩
      rcases hcases with hopen | hrefused
      · exact absurd hroot (hapart name hopen)
      · exact .inr (by rwa [HasRefused, hproblems])
  | refused names e hroot' _ hproblems _ hcause =>
      refine ⟨by rwa [hroot'], .inr ⟨e, by simp [hproblems], ?_⟩⟩
      rcases hcause with ⟨hmisplaced, -⟩ | ⟨hnamesake, -⟩
      · exact .inr hmisplaced
      · exact .inl hnamesake

theorem isDoomed_run (hlines : ∀ l ∈ lines, ∀ e, l.args = .error e → e.IsLocal)
    (hdoomed : r.IsDoomed name) : (lines.foldl (step lookup) r).IsDoomed name := by
  induction lines generalizing r with
  | nil => exact hdoomed
  | cons l lines ih =>
      obtain ⟨hl, hlines⟩ := List.forall_mem_cons.1 hlines
      refine ih hlines ?_
      rcases step_cases lookup r hl with ⟨hclose, -⟩ | hquiet
      · exact hclose ▸ (closed_close r).isDoomed hdoomed
      · exact hquiet.isDoomed hdoomed

/-- What the root holds it keeps. -/
theorem names_subset_step (hl : ∀ e, l.args = .error e → e.IsLocal) :
    r.root.nodes.names ⊆ (r.step lookup l).root.nodes.names := by
  rcases step_cases lookup r hl with ⟨hclose, -⟩ | hquiet
  · rw [hclose]
    cases closed_close r with
    | nothing _ hsame => rw [hsame]; exact List.Subset.refl _
    | inside hroot => rw [hroot]; exact List.Subset.refl _
    | outermost hsub => exact hsub
    | refused _ _ hroot => rw [hroot]; exact List.Subset.refl _
  · rw [hquiet.root]
    exact List.Subset.refl _

/-- A name that is given after the root came to hold it. -/
theorem isDoomed_of_explicit (hlines : ∀ l ∈ lines, ∀ e, l.args = .error e → e.IsLocal)
    (hroot : name ∈ r.root.nodes.names) (hname : name ∈ explicitNames lookup r lines) :
    (lines.foldl (step lookup) r).IsDoomed name := by
  induction lines generalizing r with
  | nil => cases hname
  | cons l lines ih =>
      obtain ⟨hl, hlines⟩ := List.forall_mem_cons.1 hlines
      rcases List.mem_append.1 hname with hheader | hlater
      · rw [List.foldl_cons]
        refine isDoomed_run hlines ?_
        rcases step_cases lookup r hl with ⟨-, hnone⟩ | hquiet
        · rw [hnone] at hheader
          cases hheader
        · refine ⟨by rwa [hquiet.root], .inl ?_⟩
          rw [hquiet.openNames]
          exact List.mem_append_left _ hheader
      · exact ih hlines (names_subset_step hl hroot) hlater

/-! ## The end of a text -/

theorem quiet_reportEnd (r : Reading) (terminator : String) (line : Nat) :
    r.Quiet [] (r.reportEnd terminator line) :=
  quiet_report ((Error.isLocal_unexpectedEnd terminator).atLine line)

/-- A block that the end of the text closes. -/
theorem exists_quiet_of_closeAtEnd (line : Nat) (r : Reading) (o : OpenNode) :
    ∃ r', r.Quiet [] r' ∧ r'.openNodes = r.openNodes ∧ r'.Closed (r.closeAtEnd line o) := by
  unfold closeAtEnd
  have hend := fun r' : Reading => quiet_reportEnd r' o.subtree.node.terminator line
  cases r.place with
  | block => exact ⟨_, hend r, rfl, closed_close _⟩
  | _ => exact ⟨_, (quiet_reportEnd r _ line).trans (hend _), rfl, closed_close _⟩

theorem isClean_closeAll (line : Nat) (nodes : List OpenNode) (hapart : r.IsApart)
    (hclean : r.IsClean) : (nodes.foldl (closeAtEnd line) r).IsClean := by
  induction nodes generalizing r with
  | nil => exact hclean
  | cons o nodes ih =>
      obtain ⟨r', hquiet, -, hclosed⟩ := exists_quiet_of_closeAtEnd line r o
      have hapart' := hquiet.isApart hapart List.nodup_nil (by simp)
      exact ih (hclosed.isApart hapart').1 (hclosed.isClean hapart' (hquiet.isClean hclean))

theorem isDoomed_closeAll (line : Nat) (nodes : List OpenNode) (hdoomed : r.IsDoomed name)
    (hlength : r.openNodes.length = nodes.length) :
    (nodes.foldl (closeAtEnd line) r).IsDoomed name ∧
      (nodes.foldl (closeAtEnd line) r).openNodes = [] := by
  induction nodes generalizing r with
  | nil => exact ⟨hdoomed, List.length_eq_zero_iff.1 hlength⟩
  | cons o nodes ih =>
      obtain ⟨r', hquiet, hopen, hclosed⟩ := exists_quiet_of_closeAtEnd line r o
      rw [List.length_cons, ← hopen] at hlength
      refine ih (hclosed.isDoomed (hquiet.isDoomed hdoomed)) ?_
      cases hclosed with
      | nothing hnil => rw [hnil] at hlength; cases hlength
      | inside _ _ _ h => omega
      | outermost _ _ _ _ h => omega
      | refused _ _ _ _ _ h => omega

/-- What the end of the text finds before it closes the blocks. -/
theorem exists_quiet_of_finish (r : Reading) (line : Nat) :
    ∃ r', r.Quiet [] r' ∧ r.finish line = r'.openNodes.foldl (closeAtEnd line) r' := by
  unfold finish
  cases r.place with
  | dynamicSite d =>
      exact ⟨_, (quiet_reportEnd r _ line).trans (quiet_closeDynamicSite _ d), rfl⟩
  | _ => exact ⟨r, .refl r, rfl⟩

theorem isClean_finish (line : Nat) (hapart : r.IsApart) (hclean : r.IsClean) :
    (r.finish line).IsClean := by
  obtain ⟨r', hquiet, heq⟩ := exists_quiet_of_finish r line
  rw [heq]
  exact isClean_closeAll line _ (hquiet.isApart hapart List.nodup_nil (by simp))
    (hquiet.isClean hclean)

theorem hasRefused_finish (line : Nat) (hdoomed : r.IsDoomed name) :
    (r.finish line).HasRefused := by
  obtain ⟨r', hquiet, heq⟩ := exists_quiet_of_finish r line
  obtain ⟨⟨-, hcases⟩, hnil⟩ := isDoomed_closeAll line _ (hquiet.isDoomed hdoomed) rfl
  rw [heq]
  refine hcases.resolve_left fun hopen => ?_
  rw [openNames, hnil] at hopen
  cases hopen

end Reading

/-! ## Whole texts -/

theorem isLocal_argumentLines (text : String) :
    ∀ l ∈ argumentLines text, ∀ e, l.args = .error e → e.IsLocal := by
  intro l hl e he
  obtain ⟨⟨line, number⟩, -, hline⟩ := List.mem_filterMap.1 hl
  dsimp only at hline
  split at hline
  · cases hline
  · obtain rfl := Option.some.inj hline
    cases he
  · next e' htokenise =>
      obtain rfl := Option.some.inj hline
      obtain rfl := Except.error.inj he
      refine Error.IsLocal.atLine ?_ number
      unfold tokenise at htokenise
      split at htokenise
      · cases htokenise
      · obtain rfl := Except.error.inj htokenise
        exact Error.IsFault.invalidArgument.isLocal

namespace Error

theorem isNamesake_readFailed {es : List Error} :
    (readFailed es).IsNamesake ↔ ∃ e ∈ es, e.IsNamesake := by
  simp only [IsNamesake, problems_readFailed, List.mem_flatMap]
  exact ⟨fun ⟨p, ⟨e, he, hp⟩, hcause⟩ => ⟨e, he, p, hp, hcause⟩,
    fun ⟨e, he, p, hp, hcause⟩ => ⟨p, ⟨e, he, hp⟩, hcause⟩⟩

theorem isMisplacement_readFailed {es : List Error} :
    (readFailed es).IsMisplacement ↔ ∃ e ∈ es, e.IsMisplacement := by
  simp only [IsMisplacement, problems_readFailed, List.mem_flatMap]
  exact ⟨fun ⟨p, ⟨e, he, hp⟩, hcause⟩ => ⟨e, he, p, hp, hcause⟩,
    fun ⟨e, he, p, hp, hcause⟩ => ⟨p, ⟨e, he, hp⟩, hcause⟩⟩

end Error

section Outcome

variable {α : Type} {f : Unit → α} {problems : List Error} {e : Error}

theorem map_readOutcome_eq_error_iff :
    (readOutcome problems).map f = .error e ↔ problems ≠ [] ∧ e = .readFailed problems := by
  cases problems with
  | nil => exact ⟨nofun, fun h => absurd rfl h.1⟩
  | cons p problems => exact ⟨fun h => ⟨nofun, (Except.error.inj h).symm⟩, fun h => h.2 ▸ rfl⟩

theorem not_isNamesake_of_readOutcome (hclean : ∀ e ∈ problems, ¬ e.IsNamesake)
    (h : (readOutcome problems).map f = .error e) : ¬ e.IsNamesake := by
  obtain ⟨-, rfl⟩ := map_readOutcome_eq_error_iff.1 h
  rw [Error.isNamesake_readFailed]
  exact fun ⟨e, he, hcause⟩ => hclean e he hcause

theorem exists_refused_of_readOutcome
    (h : ∃ e ∈ problems, e.IsNamesake ∨ e.IsMisplacement) :
    ∃ e, (readOutcome problems).map f = .error e ∧ (e.IsNamesake ∨ e.IsMisplacement) := by
  obtain ⟨e, he, hcause⟩ := h
  refine ⟨_, map_readOutcome_eq_error_iff.2 ⟨List.ne_nil_of_mem he, rfl⟩, ?_⟩
  rw [Error.isNamesake_readFailed, Error.isMisplacement_readFailed]
  exact hcause.imp (fun h => ⟨e, he, h⟩) fun h => ⟨e, he, h⟩

end Outcome

namespace Sequence

variable {lookup : Lookup} {level : Level} {fresh : NodeId} {text : String}

/-- **No name in a text is refused as taken** if all that it gives are distinct and none was
generated before it was given. -/
theorem not_isNamesake_ofText
    (hnodup : (Reading.explicitNames lookup (.start ⟨level, .nil⟩ fresh)
      (argumentLines text)).Nodup)
    (hcollides : ¬ Reading.Collides lookup (.start ⟨level, .nil⟩ fresh) (argumentLines text))
    {e : Error} (h : (ofText lookup ⟨level, .nil⟩ fresh text).1 = .error e) : ¬ e.IsNamesake := by
  have hstart : (Reading.start ⟨level, .nil⟩ fresh).IsApart :=
    ⟨List.nodup_nil, fun name hname => by cases hname⟩
  obtain ⟨hapart, hclean⟩ := Reading.isClean_run (isLocal_argumentLines text) hstart
    (List.Subset.refl _) hnodup hcollides fun e he => by cases he
  exact not_isNamesake_of_readOutcome
    (Reading.isClean_finish (linesOf text).length hapart hclean) h

/-- **A text with a name that was generated before it is given** is refused. -/
theorem exists_refused_ofText
    (hcollides : Reading.Collides lookup (.start ⟨level, .nil⟩ fresh) (argumentLines text)) :
    ∃ e, (ofText lookup ⟨level, .nil⟩ fresh text).1 = .error e ∧
      (e.IsNamesake ∨ e.IsMisplacement) := by
  obtain ⟨before, after, hsplit, name, hroot, hname⟩ := hcollides
  have hafter : ∀ l ∈ after, ∀ e, l.args = .error e → e.IsLocal := fun l hl =>
    isLocal_argumentLines text l (hsplit ▸ List.mem_append_right _ hl)
  have hdoomed := Reading.isDoomed_of_explicit hafter hroot hname
  rw [← List.foldl_append, ← hsplit] at hdoomed
  exact exists_refused_of_readOutcome (Reading.hasRefused_finish (linesOf text).length hdoomed)

end Sequence

end SiteAnalysis
