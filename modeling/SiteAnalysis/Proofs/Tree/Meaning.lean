import SiteAnalysis.Proofs.Tree.Links

set_option autoImplicit false

/-! # What references mean

The node that a reference means, told by what is seen from the node that refers (`Forest.Means`), and
what the reference should be (`Forest.resolve?`). Main statements:

* `Forest.target?_eq_some_iff`: the search for the node of a reference finds the node it means.
* `Forest.resolve?_idem`: a reference that was brought up to date means the same node.
* `Forest.resolve?_map`: changes of nodes that keep their names and types keep what references mean.
-/

namespace SiteAnalysis

theorem sameName_empty_iff {s : String} : sameName "" s = true ↔ s = "" := by
  simp [sameName]

namespace Forest

variable {f : Forest} {from_ : NodeId} {treeWide : Bool} {filter : NodeFilter} {r r' : NodeRef}
  {m n : Node}

/-! ## The node of a reference -/

/-- **Which node a reference means** to the node that refers. It is another node, and in sight
unless the reference may lead anywhere in the tree. -/
inductive Means (f : Forest) (from_ : NodeId) (treeWide : Bool) : NodeRef → Node → Prop
  /-- An identity means its node. -/
  | identity {n : Node} (name : String) (hn : n ∈ f.nodes) (hother : n.id ≠ from_)
      (hseen : n ∈ f.visible from_ ∨ treeWide = true) : Means f from_ treeWide ⟨name, some n.id⟩ n
  /-- A name means the nearest node of this name that is seen. -/
  | nearest {name : String} {n : Node} {nearer farther : List Node}
      (hseen : f.visible from_ = nearer ++ n :: farther) (hother : n.id ≠ from_)
      (hname : n.isNamed name = true)
      (hfirst : ∀ m ∈ nearer, m.id ≠ from_ → m.isNamed name = false) :
      Means f from_ treeWide (.named name) n
  /-- If none is seen, it may mean the first node of this name in the tree. -/
  | first {name : String} {n : Node} {front back : List Node} (hwide : treeWide = true)
      (hunseen : ∀ m ∈ f.visible from_, m.id ≠ from_ → m.isNamed name = false)
      (hnodes : f.nodes = front ++ n :: back) (hother : n.id ≠ from_) (hname : n.isNamed name = true)
      (hfirst : ∀ m ∈ front, m.id ≠ from_ → m.isNamed name = false) :
      Means f from_ treeWide (.named name) n

theorem Means.mem (h : f.Means from_ treeWide r n) : n ∈ f.nodes := by
  cases h with
  | identity _ hn _ _ => exact hn
  | nearest hseen _ _ _ =>
      have hmem : n ∈ f.visible from_ := by simp [hseen]
      exact Relocates.mem_of_mem_visible hmem
  | first _ _ hnodes _ _ _ => simp [hnodes]

theorem Means.ne (h : f.Means from_ treeWide r n) : n.id ≠ from_ := by
  cases h <;> assumption

theorem Means.isNamed {name : String} (h : f.Means from_ treeWide (.named name) n) :
    n.isNamed name = true := by
  cases h <;> assumption

/-- What is meant is in sight or may be anywhere. -/
theorem Means.seen (h : f.Means from_ treeWide r n) : n ∈ f.visible from_ ∨ treeWide = true := by
  cases h with
  | identity _ _ _ hseen => exact hseen
  | nearest hseen _ _ _ => exact .inl (by simp [hseen])
  | first hwide _ _ _ _ _ => exact .inr hwide

/-- Among nodes with distinct identities an identity is that of one node. -/
theorem eq_of_id_eq (hids : (f.nodes.map Node.id).Nodup) (hm : m ∈ f.nodes) (hn : n ∈ f.nodes)
    (h : m.id = n.id) : m = n :=
  List.inj_on_of_nodup_map hids hm hn h

theorem find?_eq_some_iff (hids : (f.nodes.map Node.id).Nodup) :
    f.find? n.id = some n ↔ n ∈ f.nodes := by
  constructor
  · exact List.mem_of_find?_eq_some
  · intro hn
    cases hfind : f.find? n.id with
    | none => simpa using List.find?_eq_none.1 hfind n hn
    | some m =>
        have hid : m.id = n.id := by simpa using List.find?_some hfind
        rw [eq_of_id_eq hids (List.mem_of_find?_eq_some hfind) hn hid]

/-- A test on names that excepts the node that refers. -/
theorem passes_iff {name : String} :
    (some m.id != some from_ && m.isNamed name && NodeFilter.any.admits m.type) = true ↔
      m.id ≠ from_ ∧ m.isNamed name = true := by
  simp [NodeFilter.admits]

theorem not_passes_iff {name : String} :
    (some m.id != some from_ && m.isNamed name && NodeFilter.any.admits m.type) = false ↔
      (m.id ≠ from_ → m.isNamed name = false) := by
  rw [← Bool.not_eq_true, passes_iff, not_and, Bool.not_eq_true]

/-- The first node of a list that has a name, other than the node that refers. -/
theorem find?_passes_iff {name : String} {l : List Node} :
    l.find? (fun m => some m.id != some from_ && m.isNamed name && NodeFilter.any.admits m.type) =
        some n ↔
      (n.id ≠ from_ ∧ n.isNamed name = true) ∧ ∃ front back, l = front ++ n :: back ∧
        ∀ m ∈ front, m.id ≠ from_ → m.isNamed name = false := by
  rw [List.find?_eq_some_iff_append, passes_iff]
  simp only [Bool.not_eq_true', not_passes_iff]

theorem find?_passes_eq_none_iff {name : String} {l : List Node} :
    l.find? (fun m => some m.id != some from_ && m.isNamed name && NodeFilter.any.admits m.type) =
        none ↔ ∀ m ∈ l, m.id ≠ from_ → m.isNamed name = false := by
  simp only [List.find?_eq_none, Bool.not_eq_true, not_passes_iff]

section Identities

variable (hids : (f.nodes.map Node.id).Nodup)
include hids

/-- What an identity means. -/
theorem target?_identity_iff {name : String} {id : NodeId} :
    f.target? from_ ⟨name, some id⟩ treeWide = some n ↔
      n.id = id ∧ n ∈ f.nodes ∧ n.id ≠ from_ ∧ (n ∈ f.visible from_ ∨ treeWide = true) := by
  unfold target?
  dsimp only
  -- No node refers to itself.
  by_cases hid : id = from_
  · rw [if_pos hid]
    simp only [reduceCtorEq, false_iff]
    rintro ⟨rfl, -, hother, -⟩
    exact hother hid
  · rw [if_neg hid]
    cases hfind : (f.visible from_).find? fun n => n.id == id with
    | some m =>
        have hm : m ∈ f.visible from_ := List.mem_of_find?_eq_some hfind
        have hmid : m.id = id := by simpa using List.find?_some hfind
        constructor
        · intro h
          obtain rfl := Option.some.inj h
          exact ⟨hmid, Relocates.mem_of_mem_visible hm, hmid ▸ hid, .inl hm⟩
        · rintro ⟨hnid, hn, -, -⟩
          rw [eq_of_id_eq hids (Relocates.mem_of_mem_visible hm) hn (hmid.trans hnid.symm)]
    | none =>
        have hunseen : ∀ m ∈ f.visible from_, m.id ≠ id := by simpa using hfind
        cases treeWide with
        | false =>
            simp only [Bool.false_eq_true, if_false, reduceCtorEq, or_false, false_iff]
            rintro ⟨hnid, -, -, hseen⟩
            exact hunseen n hseen hnid
        | true =>
            simp only [if_true, or_true, and_true]
            constructor
            · intro h
              have hnid : n.id = id := by simpa using List.find?_some h
              exact ⟨hnid, List.mem_of_find?_eq_some h, hnid ▸ hid⟩
            · rintro ⟨rfl, hn, -⟩
              exact (find?_eq_some_iff hids).2 hn

/-- **The search for the node of a reference finds the node it means.** -/
theorem target?_eq_some_iff : f.target? from_ r treeWide = some n ↔ f.Means from_ treeWide r n := by
  obtain ⟨name, id⟩ := r
  -- An identity finds its node or nothing; a name finds the nearest in scope, or else the first.
  cases id with
  | some id =>
      rw [target?_identity_iff hids]
      constructor
      · rintro ⟨rfl, hn, hother, hseen⟩
        exact .identity name hn hother hseen
      · intro h
        cases h with
        | identity _ hn hother hseen => exact ⟨rfl, hn, hother, hseen⟩
  | none =>
      unfold target? inScope? search?
      dsimp only
      constructor
      · intro h
        split at h
        · next m hm =>
            obtain rfl := Option.some.inj h
            obtain ⟨⟨hother, hname⟩, nearer, farther, hseen, hfirst⟩ := find?_passes_iff.1 hm
            exact .nearest hseen hother hname hfirst
        · next hnone =>
            split at h
            · next hwide =>
                obtain ⟨⟨hother, hname⟩, front, back, hnodes, hfirst⟩ := find?_passes_iff.1 h
                exact .first hwide (find?_passes_eq_none_iff.1 hnone) hnodes hother hname hfirst
            · cases h
      · intro h
        cases h with
        | nearest hseen hother hname hfirst =>
            rw [find?_passes_iff.2 ⟨⟨hother, hname⟩, _, _, hseen, hfirst⟩]
        | first hwide hunseen hnodes hother hname hfirst =>
            rw [find?_passes_eq_none_iff.2 hunseen]
            dsimp only
            rw [if_pos hwide, find?_passes_iff.2 ⟨⟨hother, hname⟩, _, _, hnodes, hfirst⟩]

/-- A reference means one node. -/
theorem Means.unique (hm : f.Means from_ treeWide r m) (hn : f.Means from_ treeWide r n) : m = n :=
  Option.some.inj (((target?_eq_some_iff hids).2 hm).symm.trans ((target?_eq_some_iff hids).2 hn))

/-! ## What a reference should be -/

/-- A reference should have the name and identity of the node it means, if the filter admits it. -/
theorem resolve?_eq_some_iff : f.resolve? from_ treeWide filter r = some r' ↔
    ∃ n, f.Means from_ treeWide r n ∧ filter.admits n.type = true ∧ r' = ⟨n.name, some n.id⟩ := by
  unfold resolve?
  constructor
  · intro h
    split at h
    · next n hn =>
        split at h
        · next hadmits =>
            exact ⟨n, (target?_eq_some_iff hids).1 hn, hadmits, (Option.some.inj h).symm⟩
        · cases h
    · cases h
  · rintro ⟨n, hmeans, hadmits, rfl⟩
    rw [(target?_eq_some_iff hids).2 hmeans]
    dsimp only
    rw [if_pos hadmits]

/-- **A reference that was brought up to date means the same node.** -/
theorem resolve?_idem (h : f.resolve? from_ treeWide filter r = some r') :
    f.resolve? from_ treeWide filter r' = some r' := by
  obtain ⟨n, hmeans, hadmits, rfl⟩ := (resolve?_eq_some_iff hids).1 h
  exact (resolve?_eq_some_iff hids).2
    ⟨n, .identity n.name hmeans.mem hmeans.ne hmeans.seen, hadmits, rfl⟩

end Identities

/-- **Where names are distinct, a name means the one node that has it.** -/
theorem eq_of_isNamed (hnames : f.names.Nodup) {name : String} (hne : name ≠ "")
    (hm : m ∈ f.nodes) (hn : n ∈ f.nodes) (hmname : m.isNamed name = true)
    (hnname : n.isNamed name = true) : m = n := by
  have hnamed : ∀ {k : Node}, k ∈ f.nodes → k.isNamed name = true →
      k ∈ f.nodes.filter fun k => !k.name.isEmpty := by
    intro k hk hkname
    refine List.mem_filter.2 ⟨hk, ?_⟩
    rw [Bool.not_eq_true', ← Bool.not_eq_true, String.isEmpty_iff]
    intro hempty
    rw [Node.isNamed, hempty, sameName_empty_iff] at hkname
    exact hne hkname
  refine List.inj_on_of_nodup_map hnames (hnamed hm hmname) (hnamed hn hnname) ?_
  rw [sameName_iff.1 hmname, sameName_iff.1 hnname]

/-! ## Changes of nodes -/

section Changes

variable {change : Node → Node} (hid : ∀ n, (change n).id = n.id)
include hid

theorem visible_map (f : Forest) (id : NodeId) :
    (f.map change).visible id = (f.visible id).map change := by
  have hbehind : ∀ before, (f.map change).visibleBehind id (before.map change) =
      (f.visibleBehind id before).map (List.map change) := by
    induction f with
    | nil => exact fun _ => rfl
    | cons n branch rest ihb ihr =>
        intro before
        rw [map, visibleBehind, visibleBehind, hid]
        split
        · rfl
        · have hbranch := ihb []
          have hrest := ihr (n :: before)
          rw [List.map_nil] at hbranch
          rw [List.map_cons] at hrest
          rw [hbranch, hrest]
          cases branch.visibleBehind id [] with
          | none => rfl
          | some inner => simp
  have hnone := hbehind []
  rw [List.map_nil] at hnone
  rw [visible, visible, hnone]
  cases f.visibleBehind id [] <;> rfl

variable (hname : ∀ n, (change n).name = n.name)
include hname

/-- A reference means the changed node. -/
theorem target?_map (f : Forest) (from_ : NodeId) (r : NodeRef) (treeWide : Bool) :
    (f.map change).target? from_ r treeWide = (f.target? from_ r treeWide).map change := by
  have hpasses : ∀ (name : String) (l : List Node), (l.map change).find? (fun m =>
      some m.id != some from_ && m.isNamed name && NodeFilter.any.admits m.type) =
      (l.find? fun m => some m.id != some from_ && m.isNamed name &&
        NodeFilter.any.admits m.type).map change := by
    intro name l
    rw [List.find?_map]
    refine congrArg (Option.map change) (List.find?_congr fun n _ => ?_)
    simp [hid, Node.isNamed, hname, NodeFilter.admits]
  have hids : ∀ (id : NodeId) (l : List Node), (l.map change).find? (fun m => m.id == id) =
      (l.find? fun m => m.id == id).map change := by
    intro id l
    rw [List.find?_map]
    refine congrArg (Option.map change) (List.find?_congr fun n _ => ?_)
    simp [hid]
  obtain ⟨name, id⟩ := r
  simp only [target?, inScope?, search?, find?, visible_map hid, nodes_map, hpasses, hids]
  cases id with
  | none =>
      dsimp only
      generalize (f.visible from_).find? _ = seen
      cases seen with
      | some n => rfl
      | none => cases treeWide <;> rfl
  | some id =>
      dsimp only
      generalize (f.visible from_).find? _ = seen
      split
      · rfl
      · cases seen with
        | some n => rfl
        | none => cases treeWide <;> rfl

variable (htype : ∀ n, (change n).type = n.type)
include htype

/-- **Changes that keep names and types keep what references should be.** -/
theorem resolve?_map (f : Forest) (from_ : NodeId) (treeWide : Bool) (filter : NodeFilter)
    (r : NodeRef) :
    (f.map change).resolve? from_ treeWide filter r = f.resolve? from_ treeWide filter r := by
  rw [resolve?, resolve?, target?_map hid hname]
  cases f.target? from_ r treeWide with
  | none => rfl
  | some n => simp only [Option.map_some, hid, hname, htype]

end Changes

end Forest

end SiteAnalysis
