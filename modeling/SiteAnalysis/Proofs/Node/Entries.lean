import SiteAnalysis.Proofs.Node.DynamicSite

set_option autoImplicit false

/-! # Nodes that were read

`Node.Fits` says what reading leaves in a node: keywords next to those its type declares, blocks
and parameters that come back from what is written of them, and a name of word characters. Main
statements:

* `Node.fits_ofType`, `Node.Fits.rename`: a fresh node is of this form, whatever name it is given.
* `Node.Fits.readLine`: so is a node into which a line was read.
-/

namespace SiteAnalysis

variable {P : String → Prop} {catalogue : Catalogue} {R : KeywordData → KeywordData → Prop}

/-! ## Names -/

/-- A name that may stand in an expression behind a letter. -/
def IsWordName (s : String) : Prop := ∀ c ∈ s.toList, isWordChar c = true

theorem isWordName_niceName (s : String) : IsWordName (niceName s) := by
  intro c hc
  rw [niceName, String.toList_ofList, List.mem_map] at hc
  obtain ⟨d, -, rfl⟩ := hc
  split
  · assumption
  · decide

theorem niceName_of_isWordName {s : String} (h : IsWordName s) : niceName s = s := by
  have hblank : ∀ c ∈ s.toList, isBlank c = false := fun c hc =>
    isBlank_of_toNat (toNat_of_isWordChar (h c hc))
  have htrimmed : IsTrimmed s.toList := ⟨fun c hc => hblank c (List.mem_of_mem_head? hc),
    fun c hc => hblank c (List.mem_of_mem_getLast? hc)⟩
  have hmap : s.toList.map (fun c => if isWordChar c then c else '_') = s.toList :=
    (List.map_congr_left fun c hc => if_pos (h c hc)).trans (List.map_id _)
  rw [niceName, trimBlanks_of_isTrimmed htrimmed, hmap, String.ofList_toList]

theorem IsWordName.isPlain {s : String} (h : IsWordName s) (hne : s ≠ "") : IsPlain s :=
  ⟨by simpa using hne, fun c hc => isPlainChar_of_isWordChar (h c hc)⟩

theorem isWordName_of_isIdentifier {s : String} (h : isIdentifier s = true) :
    IsWordName s ∧ s ≠ "" := by
  unfold isIdentifier at h
  unfold IsWordName
  split at h
  · cases h
  · next c cs hcs =>
      simp only [Bool.and_eq_true, Bool.or_eq_true, beq_iff_eq, List.all_eq_true] at h
      rw [hcs]
      refine ⟨List.forall_mem_cons.2 ⟨?_, h.2⟩, by rintro rfl; cases hcs⟩
      rcases h.1 with halpha | rfl
      · exact isWordChar_of_isAlpha halpha
      · decide

/-! ## Parameters -/

/-- Numbers as reading leaves them: integers have 64 bits. -/
def Expression.Number.IsKept : Expression.Number → Prop
  | .int n => fitsInt n = true
  | .float _ => True

theorem isKept_of_readParameterValue {s : String} {value : Expression.Number}
    (h : readParameterValue s = .ok value) : value.IsKept := by
  unfold readParameterValue at h
  split at h
  · next n hn =>
      obtain rfl := Except.ok.inj h
      exact fitsInt_of_readInt? hn
  · split at h
    · obtain rfl := Except.ok.inj h
      trivial
    · cases h

/-- **Parameters as `Parameter` lines leave them.** -/
structure AreReadParameters (parameters : List Declared) : Prop where
  names : ∀ d ∈ parameters, isIdentifier d.parameter.name = true
  groups : ∀ d ∈ parameters, d.parameter.group = none
  values : ∀ d ∈ parameters, d.parameter.value.IsKept
  distinct : parameters.Pairwise fun d d' => sameName d.parameter.name d'.parameter.name = false

theorem AreReadParameters.declare {declared : List Declared} (h : AreReadParameters declared)
    {name : String} (hname : isIdentifier name = true) {value : Expression.Number}
    (hvalue : value.IsKept) (serial : Nat) :
    AreReadParameters (declared.filter (fun d => !sameName d.parameter.name name) ++
      [⟨serial, ⟨name, none, value⟩⟩]) where
  names := List.forall_mem_append.2
    ⟨fun d hd => h.names d (List.mem_filter.1 hd).1, by simpa using hname⟩
  groups := List.forall_mem_append.2 ⟨fun d hd => h.groups d (List.mem_filter.1 hd).1, by simp⟩
  values := List.forall_mem_append.2
    ⟨fun d hd => h.values d (List.mem_filter.1 hd).1, by simpa using hvalue⟩
  distinct := by
    refine List.pairwise_append.2 ⟨h.distinct.filter _, by simp, fun d hd d' hd' => ?_⟩
    obtain rfl := List.mem_singleton.1 hd'
    simpa using (List.mem_filter.1 hd).2

namespace NodeKind

/-- **What a kind holds as reading leaves it.** -/
inductive IsReadFrom (P : String → Prop) (catalogue : Catalogue) : NodeKind → Prop
  | select {blocks : List DynamicSite} (hblocks : ∀ d ∈ blocks, d.IsReadFrom P catalogue) :
      IsReadFrom P catalogue (select blocks [])
  | dynamicSite {block : DynamicSite} (hblock : block.IsReadFrom P catalogue) :
      IsReadFrom P catalogue (dynamicSite block)
  | plain {kind : NodeKind} {t : NodeType} (heq : kind = ofType t) (hselect : t ≠ .select)
      (hdynamicSite : t ≠ .dynamicSite) : IsReadFrom P catalogue kind

theorem IsReadFrom.block {block : DynamicSite} (h : (NodeKind.dynamicSite block).IsReadFrom P catalogue) :
    block.IsReadFrom P catalogue := by
  cases h with
  | dynamicSite hblock => exact hblock
  | @plain _ t heq hselect hne => cases t <;> first | exact absurd rfl hne | cases heq

theorem IsReadFrom.blocks {blocks : List DynamicSite} {chosen : List Site}
    (h : (NodeKind.select blocks chosen).IsReadFrom P catalogue) :
    chosen = [] ∧ ∀ d ∈ blocks, d.IsReadFrom P catalogue := by
  cases h with
  | select hblocks => exact ⟨rfl, hblocks⟩
  | @plain _ t heq hne hdynamicSite => cases t <;> first | exact absurd rfl hne | cases heq

theorem isReadFrom_ofType (t : NodeType) : (ofType t).IsReadFrom P catalogue := by
  by_cases hselect : t = .select
  · subst hselect
    exact .select (by simp)
  by_cases hdynamicSite : t = .dynamicSite
  · subst hdynamicSite
    exact .dynamicSite DynamicSite.isReadFrom_empty
  exact .plain rfl hselect hdynamicSite

end NodeKind

namespace Node

/-- The parameters of a node as reading leaves them. -/
def HoldsParameters (n : Node) : Prop :=
  match n.type with
  | .select => n.parameters = [⟨0, ⟨"nSelected", some n.name, .int 0⟩⟩]
  | .parameters => AreReadParameters n.parameters
  | _ => n.parameters = []

/-- **A node as reading leaves it**, with keywords whose data stand in some relation to those
declared. -/
structure Fits (R : KeywordData → KeywordData → Prop) (P : String → Prop) (catalogue : Catalogue)
    (n : Node) : Prop where
  name : IsWordName n.name
  keywords : n.type.keywords.Matches R n.keywords
  kind : n.kind.IsReadFrom P catalogue
  parameters : n.HoldsParameters
  branch : n.branch.map Level.keyword = n.type.branchKeyword?

variable {n : Node}

/-! ## Fresh nodes -/

@[simp] theorem type_ofType (id : NodeId) (t : NodeType) : (ofType id t).type = t :=
  NodeKind.type_ofType t

theorem fits_ofType (id : NodeId) (t : NodeType) : (ofType id t).Fits R P catalogue where
  name := by simp [ofType, IsWordName]
  keywords := by rw [type_ofType]; exact .refl t.isDeclared_keywords
  kind := NodeKind.isReadFrom_ofType t
  parameters := by
    unfold HoldsParameters
    rw [type_ofType]
    cases t <;> first | rfl | exact ⟨by simp [ofType], by simp [ofType], by simp [ofType],
      by simp [ofType]⟩
  branch := by
    rw [type_ofType, ofType, Option.map_map]
    exact Option.map_id'

@[simp] theorem type_rename (n : Node) (name : String) : (n.rename name).type = n.type := by
  simp only [type, rename]

@[simp] theorem branch_rename (n : Node) (name : String) : (n.rename name).branch = n.branch := by
  simp only [rename]

theorem Fits.rename (h : n.Fits R P catalogue) (name : String) :
    (n.rename name).Fits R P catalogue where
  name := isWordName_niceName name
  keywords := by rw [type_rename]; exact h.keywords
  kind := h.kind
  parameters := by
    have hparameters := h.parameters
    unfold HoldsParameters at hparameters ⊢
    rw [type_rename]
    split at hparameters
    · simp [Node.rename, hparameters, Parameter.inGroup]
    · have hsame : (n.rename name).parameters = n.parameters := by
        refine (List.map_congr_left fun d hd => ?_).trans (List.map_id _)
        simp [hparameters.groups d hd]
      rw [hsame]
      exact hparameters
    · simp [Node.rename, hparameters]
  branch := by rw [branch_rename, type_rename]; exact h.branch

theorem Fits.setBranch (h : n.Fits R P catalogue) {branch : Option Level}
    (hbranch : branch.map Level.keyword = n.branch.map Level.keyword) :
    ({ n with branch } : Node).Fits R P catalogue :=
  { h with branch := hbranch.trans h.branch }

/-! ## Lines -/

theorem Fits.readKeyword (hP : IsTextClass P)
    (h : n.Fits (KeywordData.IsReadFrom P catalogue) P catalogue) (keyword : String)
    {values : List String} (hvalues : ∀ a ∈ values, P a) :
    (n.readKeyword keyword values catalogue).2.Fits (KeywordData.IsReadFrom P catalogue) P
      catalogue :=
  { h with keywords := h.keywords.read hP n.type.isDeclared_keywords hvalues }

/-- What a line does not concern: whatever a line says, the node stays the same node. -/
structure Keeps (n m : Node) : Prop where
  identity : m.id = n.id
  name : m.name = n.name
  type : m.type = n.type
  branch : m.branch = n.branch

theorem Keeps.refl (n : Node) : n.Keeps n := ⟨rfl, rfl, rfl, rfl⟩

theorem keeps_of_readParameter {values : List String} {m : Node}
    (hread : n.readParameter values = .ok m) : n.Keeps m := by
  unfold Node.readParameter at hread
  split at hread
  · obtain ⟨value, -, hdeclare⟩ := bind_eq_ok_iff.1 hread
    unfold declareRead at hdeclare
    split at hdeclare
    · obtain rfl := Except.ok.inj hdeclare
      exact ⟨rfl, rfl, rfl, rfl⟩
    · cases hdeclare
  · cases hread

theorem keeps_readLine (n : Node) (keyword : String) (values : List String)
    (catalogue : Catalogue) : n.Keeps (n.readLine keyword values catalogue).2 := by
  unfold Node.readLine
  split
  · next block hkind => exact ⟨rfl, rfl, by rw [type, type, hkind]; rfl, rfl⟩
  · split
    · split
      · next hread => exact keeps_of_readParameter hread
      · exact .refl n
    · exact ⟨rfl, rfl, rfl, rfl⟩
  · exact ⟨rfl, rfl, rfl, rfl⟩

theorem Fits.readParameter (h : n.Fits R P catalogue) (htype : n.type = .parameters)
    {values : List String} {m : Node} (hread : n.readParameter values = .ok m) :
    m.Fits R P catalogue := by
  unfold Node.readParameter at hread
  split at hread
  · next name text =>
      obtain ⟨value, hvalue, hdeclare⟩ := bind_eq_ok_iff.1 hread
      unfold declareRead at hdeclare
      split at hdeclare
      · next hname =>
          obtain rfl := Except.ok.inj hdeclare
          refine ⟨h.name, h.keywords, h.kind, ?_, h.branch⟩
          have hparameters := h.parameters
          have hsame : (n.declare name value).type = .parameters := htype
          unfold HoldsParameters at hparameters ⊢
          rw [htype] at hparameters
          rw [hsame]
          have hgroup : n.type.groupsParameters = false := by rw [htype]; rfl
          simpa [declare, hgroup] using
            hparameters.declare hname (isKept_of_readParameterValue hvalue)
              (n.parameters.length + n.replaced.length)
      · cases hdeclare
  · cases hread

/-- **A node into which a line was read** is still one that reading leaves. -/
theorem Fits.readLine (hP : IsTextClass P)
    (h : n.Fits (KeywordData.IsReadFrom P catalogue) P catalogue) (keyword : String)
    {values : List String} (hvalues : ∀ a ∈ values, P a) :
    (n.readLine keyword values catalogue).2.Fits (KeywordData.IsReadFrom P catalogue) P
      catalogue := by
  have hkeyword := h.readKeyword hP keyword hvalues
  unfold Node.readLine
  split
  · next block hkind =>
      have hblock : block.IsReadFrom P catalogue := NodeKind.IsReadFrom.block (hkind ▸ h.kind)
      have htype : n.type = .dynamicSite := by rw [Node.type, hkind]; rfl
      obtain ⟨hname, hkeywords, -, hparameters, hbranch⟩ := h
      unfold HoldsParameters at hparameters
      rw [htype] at hkeywords hparameters hbranch
      exact ⟨hname, hkeywords, .dynamicSite (hblock.readLine hP hvalues keyword), hparameters,
        hbranch⟩
  · next hkind =>
      split
      · split
        · next hread => exact h.readParameter (by rw [Node.type, hkind]; rfl) hread
        · exact h
      · exact hkeyword
  · exact hkeyword

end Node

end SiteAnalysis
