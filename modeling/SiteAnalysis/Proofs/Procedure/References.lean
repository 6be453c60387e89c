import SiteAnalysis.Proofs.Procedure.RoundTrip
import SiteAnalysis.Proofs.Tree.Declared
import SiteAnalysis.Proofs.Tree.Linking

set_option autoImplicit false

/-! # References of a procedure that is read

A node is known by the name that is made of the one it is declared with, while a reference to it is
compared with names as it is spelled. Main statement:

* `Procedure.resolvesTo_iff_spelled`: a reference resolves to a node it can reach exactly if it spells
  the name that was made; spelled like the declaration, it does only if that is a name already.
-/

namespace SiteAnalysis

/-! ## Names and what they are made of -/

theorem isWordChar_toLower (c : Char) : isWordChar c.toLower = isWordChar c := by
  by_cases hupper : c.isUpper = true
  · have halpha : c.isAlpha = true := by rw [Char.isAlpha, hupper, Bool.true_or]
    simp [isWordChar, Char.isAlphanum, halpha]
  · rw [Char.toLower_eq_of_not_isUpper hupper]

/-- Case makes no difference to whether a text is a name. -/
theorem isWordName_of_sameName {s t : String} (h : sameName s t = true) (hs : IsWordName s) :
    IsWordName t := by
  have hmap : s.toList.map Char.toLower = t.toList.map Char.toLower := by simpa [sameName] using h
  intro c hc
  have hlower : c.toLower ∈ s.toList.map Char.toLower := by
    rw [hmap]
    exact List.mem_map_of_mem hc
  obtain ⟨d, hd, heq⟩ := List.mem_map.1 hlower
  rw [← isWordChar_toLower, ← heq, isWordChar_toLower]
  exact hs d hd

/-- **A text spells the name that is made of it** only if it is a name already. -/
theorem sameName_niceName_iff {t : String} : sameName (niceName t) t = true ↔ niceName t = t := by
  constructor
  · intro h
    exact niceName_of_isWordName (isWordName_of_sameName h (isWordName_niceName t))
  · intro h
    rw [h]
    exact sameName_refl t

/-! ## References that reach a node -/

/-- **A reference that may mean a node**: another one than that which refers, in sight unless the
keyword leads anywhere in the tree, and of a type that the keyword takes. -/
structure Slot.Reaches (f : Forest) (s : Slot) (m : Node) : Prop where
  mem : m ∈ f.nodes
  other : m.id ≠ s.node
  seen : m ∈ f.visible s.node ∨ s.treeWide = true
  admitted : s.filter.admits m.type = true

namespace Slot

variable {f : Forest} {s : Slot} {m : Node} {u : String}

/-- Where names are distinct, a reference by name resolves to the node of that name, if it can reach
it. -/
theorem Reaches.resolvesTo_iff (h : s.Reaches f m) (hnames : f.names.Nodup) (hne : m.name ≠ "")
    (href : s.ref = .named u) : s.ResolvesTo f m ↔ sameName m.name u = true := by
  rw [ResolvesTo, href]
  constructor
  · rintro ⟨hmeans, -⟩
    exact hmeans.isNamed
  · intro hname
    refine ⟨(Forest.means_named_iff hnames ?_).2 ⟨h.mem, hname, h.other, h.seen⟩, h.admitted⟩
    rintro rfl
    rw [sameName_comm, sameName_empty_iff] at hname
    exact hne hname

/-- A reference that resolves is brought up to date by linking. -/
theorem ResolvesTo.pointTo_mem (h : s.ResolvesTo f m) (hids : (f.nodes.map Node.id).Nodup)
    (hs : s ∈ f.slots) : s.pointTo m ∈ f.link.1.slots := by
  rw [Forest.slots_link, ← refreshed_eq hids h]
  exact List.mem_map_of_mem hs

/-- A reference that spells no name resolves to no node, and linking reports it. -/
theorem problem_mem_of_not_isWordName (hids : (f.nodes.map Node.id).Nodup)
    (hwords : ∀ n ∈ f.nodes, IsWordName n.name) (hs : s ∈ f.slots) (href : s.ref = .named u)
    (hu : ¬ IsWordName u) :
    ¬ s.Resolves f ∧ ∃ problems, f.link.2 = .error (.readFailed problems) ∧ s.problem ∈ problems := by
  have hdangling : ¬ s.Resolves f := by
    rintro ⟨n, hmeans, -⟩
    rw [href] at hmeans
    exact hu (isWordName_of_sameName hmeans.isNamed (hwords n hmeans.mem))
  have hnone : (s.now? f).isNone = true := by
    rwa [← Option.not_isSome, Bool.not_eq_true', ← Bool.not_eq_true, isSome_now?_iff hids]
  have hstale : s ∈ f.slots.filter fun s => (s.now? f).isNone := List.mem_filter.2 ⟨hs, hnone⟩
  refine ⟨hdangling, _, ?_, List.mem_map_of_mem hstale⟩
  rw [Forest.link_snd, if_neg]
  rw [List.isEmpty_iff]
  exact List.ne_nil_of_mem hstale

end Slot

/-! ## Texts -/

namespace Procedure

variable {p : Procedure} {lookup : Lookup}

/-- A tree with a reference that cannot be linked is not taken over. -/
theorem takeOver_of_link_error {s : Sequence} {fresh : NodeId} {e : Error}
    (h : s.nodes.link.2 = .error e) : (p.takeOver (.ok s, fresh)).1 = .error e := by
  unfold takeOver
  dsimp only
  generalize s.nodes.link = linked at h ⊢
  obtain ⟨g, result⟩ := linked
  obtain rfl : result = .error e := h
  rfl

/-- **When a reference resolves to a node that was declared with a name.** References are spelled as
in the text; one resolves to the node, if it can reach it, exactly if it spells the name that is made
of the one declared. If it is spelled like the declaration itself, it resolves exactly if that is a
name already; otherwise the text cannot be read. -/
theorem resolvesTo_iff_spelled {text : String} {s : Sequence} {fresh : NodeId}
    (hread : Sequence.ofText lookup p.emptyRoot p.fresh text = (.ok s, fresh))
    (hnames : s.nodes.names.Nodup) {i : Nat} {type : NodeType} {t : String}
    (hdeclared : (Sequence.declarations lookup p.emptyRoot p.fresh text)[i]? = some ⟨type, some t⟩)
    (hleft : niceName t ≠ "") :
    ∃ m, s.nodes.nodes[i]? = some m ∧ m.type = type ∧ m.name = niceName t ∧
      ∀ slot ∈ s.nodes.slots, ∀ u, slot.ref = .named u → slot.Reaches s.nodes m →
        Sequence.IsArgument text u ∧
        (slot.ResolvesTo s.nodes m ↔ sameName (niceName t) u = true) ∧
        (slot.ResolvesTo s.nodes m → slot.pointTo m ∈ s.nodes.link.1.slots) ∧
        (u = t → (slot.ResolvesTo s.nodes m ↔ niceName t = t)) ∧
        (u = t → niceName t ≠ t → ¬ slot.Resolves s.nodes ∧
          ∃ problems, (p.readText lookup text).1 = .error (.readFailed problems) ∧
            slot.problem ∈ problems) := by
  have hall : List.Forall₂ (Node.IsDeclaredBy (Sequence.IsArgument text))
      (Sequence.declarations lookup p.emptyRoot p.fresh text) s.nodes.nodes :=
    Sequence.isDeclaredBy_ofText hread
  have hfrom := Sequence.ofText_isRead isTextClass_true (fun _ _ _ _ _ _ => trivial) hread
  have hids : (s.nodes.nodes.map Node.id).Nodup := by
    obtain ⟨count, hvalues⟩ := hfrom.identities
    have hnodup : ((s.nodes.nodes.map Node.id).map NodeId.value).Nodup := by
      rw [List.map_map]
      exact hvalues ▸ List.nodup_range'
    exact hnodup.of_map _
  have hwords : ∀ n ∈ s.nodes.nodes, IsWordName n.name := fun n hn =>
    (hfrom.forest.nodes n hn).fits.name
  obtain ⟨hi, hdeclared⟩ := List.getElem?_eq_some_iff.1 hdeclared
  have hi' : i < s.nodes.nodes.length := hall.length_eq ▸ hi
  have hnode := (List.forall₂_iff_get.1 hall).2 i hi hi'
  rw [List.get_eq_getElem, List.get_eq_getElem, hdeclared] at hnode
  have hname : (s.nodes.nodes[i]).name = niceName t := hnode.name t rfl hleft
  refine ⟨_, List.getElem?_eq_getElem hi', hnode.type, hname, ?_⟩
  intro slot hslot u href hreaches
  have hne : (s.nodes.nodes[i]).name ≠ "" := by rwa [hname]
  have hiff := hreaches.resolvesTo_iff hnames hne href
  rw [hname] at hiff
  refine ⟨?_, hiff, fun h => h.pointTo_mem hids hslot, ?_, ?_⟩
  -- The slot was filled by a line of the text.
  · obtain ⟨n, hn, hslot⟩ := List.mem_flatMap.1 hslot
    obtain ⟨j, hj, rfl⟩ := List.mem_iff_getElem.1 hn
    have hspelled := ((List.forall₂_iff_get.1 hall).2 j (hall.length_eq ▸ hj) hj).spelled
    obtain ⟨r, hr, rfl⟩ := List.mem_map.1 hslot
    obtain ⟨a, ha, heq⟩ := hspelled r hr
    obtain rfl : a = u := congrArg NodeRef.name (heq.symm.trans href)
    exact ha
  · rintro rfl
    rw [hiff, sameName_niceName_iff]
  -- No node can have the name that was declared, so the reference stays open.
  · rintro rfl hother
    have hu : ¬ IsWordName u := fun hword => hother (niceName_of_isWordName hword)
    obtain ⟨hdangling, problems, hlink, hproblem⟩ :=
      Slot.problem_mem_of_not_isWordName hids hwords hslot href hu
    refine ⟨hdangling, problems, ?_, hproblem⟩
    rw [readText, hread]
    exact takeOver_of_link_error hlink

/-- A text in which a node is declared with a name that has a blank in it, and another refers to
it. -/
def spaced (reference : String) : String :=
  "Select 'A B'\nEndSelect\nSelect C\nEndSelect\nExclude X\nSameSite " ++ reference ++
    " C\nEndExclude\n"

/-- What is read from the text, before references are linked. -/
def readSpaced (reference : String) : Except Error Sequence × NodeId :=
  Sequence.ofText ⟨.empty, .full⟩ (ofContext .analysis "Analysis").emptyRoot ⟨0⟩ (spaced reference)

/-- What the text declares. -/
def declaredSpaced (reference : String) : List Declaration :=
  Sequence.declarations ⟨.empty, .full⟩ (ofContext .analysis "Analysis").emptyRoot ⟨0⟩
    (spaced reference)

/-- Where the nodes and the references of the text stand. -/
theorem readSpaced_spec :
    (readSpaced "a_b").1.toOption.map (fun s =>
      (s.nodes.names, s.nodes.nodes.map Node.id, (s.nodes.visible ⟨2⟩).map Node.id)) =
      some (["a_b", "c", "x"], [⟨0⟩, ⟨1⟩, ⟨2⟩], [⟨2⟩, ⟨1⟩, ⟨0⟩]) ∧
    (readSpaced "a_b").1.toOption.map (fun s =>
      s.nodes.slots.map fun slot => (slot.node, slot.filter, slot.ref)) =
      some [(⟨2⟩, .selection, .named "a_b"), (⟨2⟩, .selection, .named "C")] := by
  decide +kernel

/-- A reference that spells the name that was made, in another case, resolves. -/
theorem resolvesTo_spaced : ∃ s fresh, readSpaced "a_b" = (.ok s, fresh) ∧ s.nodes.names.Nodup ∧
    (declaredSpaced "a_b")[0]? = some ⟨.select, some "A B"⟩ ∧ niceName "A B" ≠ "" ∧
    ∃ slot ∈ s.nodes.slots, ∃ m, s.nodes.nodes[0]? = some m ∧ slot.ref = .named "a_b" ∧
      slot.Reaches s.nodes m ∧ slot.ResolvesTo s.nodes m := by
  obtain ⟨hnodes, hslots⟩ := readSpaced_spec
  obtain ⟨s, hs, hnodes⟩ := Option.map_eq_some_iff.1 hnodes
  rw [hs, Option.map_some, Option.some.injEq] at hslots
  simp only [Prod.mk.injEq] at hnodes
  obtain ⟨hnames, hids, hvisible⟩ := hnodes
  have hread : readSpaced "a_b" = (.ok s, (readSpaced "a_b").2) := by
    refine Prod.ext ?_ rfl
    generalize (readSpaced "a_b").1 = read at hs
    cases read with
    | error e => cases hs
    | ok s' => exact congrArg Except.ok (Option.some.inj hs)
  have hnodup : s.nodes.names.Nodup := by
    rw [hnames]
    decide
  have hnodupIds : (s.nodes.nodes.map Node.id).Nodup := by
    rw [hids]
    decide
  have hdeclared : (declaredSpaced "a_b")[0]? = some ⟨.select, some "A B"⟩ := by decide +kernel
  have hleft : niceName "A B" ≠ "" := by decide +kernel
  obtain ⟨m, hm, htype, hname, hall⟩ := resolvesTo_iff_spelled hread hnodup hdeclared hleft
  have hmem : m ∈ s.nodes.nodes := List.mem_of_getElem? hm
  have hmid : m.id = ⟨0⟩ := by
    have hfirst : (s.nodes.nodes.map Node.id)[0]? = some m.id := by
      rw [List.getElem?_map, hm]
      rfl
    rw [hids] at hfirst
    exact (Option.some.inj hfirst).symm
  -- the first node is the last that the third one sees
  have hseen : m ∈ s.nodes.visible ⟨2⟩ := by
    have hin : (⟨0⟩ : NodeId) ∈ (s.nodes.visible ⟨2⟩).map Node.id := by
      rw [hvisible]
      decide
    obtain ⟨n, hn, hnid⟩ := List.mem_map.1 hin
    have heq : n = m := Forest.eq_of_id_eq hnodupIds (Forest.Relocates.mem_of_mem_visible hn) hmem
      (hnid.trans hmid.symm)
    exact heq ▸ hn
  have hslot : (⟨2⟩, NodeFilter.selection, NodeRef.named "a_b") ∈
      s.nodes.slots.map fun slot => (slot.node, slot.filter, slot.ref) := by
    rw [hslots]
    decide
  obtain ⟨slot, hslot, heq⟩ := List.mem_map.1 hslot
  simp only [Prod.mk.injEq] at heq
  obtain ⟨hnode, hfilter, href⟩ := heq
  have hreaches : slot.Reaches s.nodes m := by
    refine ⟨hmem, ?_, .inl (hnode ▸ hseen), ?_⟩
    · rw [hmid, hnode]
      decide
    · rw [hfilter, htype]
      rfl
  refine ⟨s, _, hread, hnodup, hdeclared, hleft, slot, hslot, m, hm, href, hreaches, ?_⟩
  exact (hall slot hslot "a_b" href hreaches).2.1.2 (by decide +kernel)

/-- **A reference that is spelled like the declaration** resolves to no node, since there is a blank
in the name that was declared, and the text cannot be read. -/
theorem not_resolves_spaced :
    (declaredSpaced "'A B'")[0]? = some ⟨.select, some "A B"⟩ ∧ niceName "A B" ≠ "" ∧
    (readSpaced "'A B'").1.toOption.map (fun s =>
      (s.nodes.names, s.nodes.nodes.map Node.name, (s.nodes.visible ⟨2⟩).map Node.name)) =
      some (["a_b", "c", "x"], ["A_B", "C", "X"], ["X", "C", "A_B"]) ∧
    (readSpaced "'A B'").1.toOption.map (fun s =>
      s.nodes.slots.map fun slot => (slot.filter, slot.ref, slot.now? s.nodes)) =
      some [(.selection, .named "A B", none), (.selection, .named "C", some ⟨"C", some ⟨1⟩⟩)] ∧
    ((ofContext .analysis "Analysis").readText ⟨.empty, .full⟩ (spaced "'A B'")).1.isOk = false := by
  decide +kernel

end Procedure

end SiteAnalysis
