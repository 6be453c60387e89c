import SiteAnalysis.Node.Entries
import SiteAnalysis.Node.Registry
import SiteAnalysis.Proofs.Keyword.Counted

set_option autoImplicit false

/-! # Words of the types of nodes

The words a type puts on lines and into documents are plain, and no two of them that could stand in
the same place are the same. There are finitely many of them, so they are simply looked through.
-/

namespace SiteAnalysis

namespace NodeType

/-- Words that mean something else in the block or in the document of a node of a type than a
keyword. -/
def isReserved (t : NodeType) (s : String) : Bool :=
  isCommonMember s || sameName s ("End" ++ t.keyword) || sameName s parameterKeyword ||
    sameName s dynamicSite.keyword || t.branchKeyword?.any fun b => sameName s b

/-- **What is looked through** for a type: its words and its keywords. -/
def HasSoundWords (t : NodeType) : Prop :=
  (IsPlain t.keyword ∧ t.keyword.toList.all isWordChar = true ∧ IsPlain ("End" ++ t.keyword) ∧
    ofKeyword? t.keyword = some t ∧
    (t.keyword.toList.map Char.toLower).take 3 ≠ ['e', 'n', 'd']) ∧
  (∀ b ∈ t.branchKeyword?, (IsPlain b ∧ IsPlain ("End" ++ b)) ∧
    sameName b ("End" ++ t.keyword) = false ∧ isCommonMember b = false) ∧
  (t.keywords.keywords.Pairwise fun k k' => sameName k.name k'.name = false) ∧
  ∀ k ∈ t.keywords.keywords, (k.data.isDeclared && !k.isSet) = true ∧ IsPlain k.name ∧
    t.isReserved k.name = false

instance (t : NodeType) : Decidable t.HasSoundWords := by
  unfold HasSoundWords
  infer_instance

theorem hasSoundWords (t : NodeType) : t.HasSoundWords := by
  have hall : ∀ t ∈ all, t.HasSoundWords := by decide +kernel
  exact hall t (mem_all t)

/-! ## Words of blocks -/

theorem isPlain_keyword (t : NodeType) : IsPlain t.keyword := t.hasSoundWords.1.1

theorem isWordChar_of_mem_keyword (t : NodeType) :
    ∀ c ∈ t.keyword.toList, isWordChar c = true :=
  List.all_eq_true.1 t.hasSoundWords.1.2.1

theorem isPlain_terminator (t : NodeType) : IsPlain ("End" ++ t.keyword) :=
  t.hasSoundWords.1.2.2.1

theorem isPlain_branchKeyword (t : NodeType) :
    ∀ b ∈ t.branchKeyword?, IsPlain b ∧ IsPlain ("End" ++ b) :=
  fun b hb => (t.hasSoundWords.2.1 b hb).1

theorem ofKeyword?_keyword (t : NodeType) : ofKeyword? t.keyword = some t :=
  t.hasSoundWords.1.2.2.2.1

/-- Words that begin differently are no ends. -/
theorem sameName_end_eq_false {word : String}
    (h : (word.toList.map Char.toLower).take 3 ≠ ['e', 'n', 'd']) (s : String) :
    sameName word ("End" ++ s) = false := by
  rw [← Bool.not_eq_true, sameName, beq_iff_eq]
  intro hsame
  refine h ?_
  rw [hsame, String.toList_append, List.map_append, List.take_append_of_le_length (by decide)]
  decide

/-- A word that closes something starts no block. -/
theorem sameName_keyword_end (t : NodeType) (s : String) :
    sameName t.keyword ("End" ++ s) = false :=
  sameName_end_eq_false t.hasSoundWords.1.2.2.2.2 s

/-- A word that closes something starts no branch. -/
theorem sameName_branchKeyword_end (t : NodeType) (s : String) :
    ∀ b ∈ t.branchKeyword?, sameName b ("End" ++ s) = false := by
  intro b hb
  refine sameName_end_eq_false ?_ s
  cases t <;> cases hb <;> decide

/-- The branch of a node does not begin like its end. -/
theorem sameName_branchKeyword_terminator (t : NodeType) :
    ∀ b ∈ t.branchKeyword?, sameName b ("End" ++ t.keyword) = false ∧ isCommonMember b = false :=
  fun b hb => (t.hasSoundWords.2.1 b hb).2

/-! ## Keywords -/

theorem isDeclared_keywords (t : NodeType) : t.keywords.IsDeclared :=
  fun k hk => by simpa using (t.hasSoundWords.2.2.2 k hk).1

theorem hasDistinctNames_keywords (t : NodeType) : t.keywords.HasDistinctNames :=
  t.hasSoundWords.2.2.1

theorem isPlain_name {t : NodeType} {k : Keyword} (hk : k ∈ t.keywords.keywords) :
    IsPlain k.name :=
  (t.hasSoundWords.2.2.2 k hk).2.1

theorem isReserved_name {t : NodeType} {k : Keyword} (hk : k ∈ t.keywords.keywords) :
    t.isReserved k.name = false :=
  (t.hasSoundWords.2.2.2 k hk).2.2

theorem isTidy_keywords (t : NodeType) : t.keywords.IsTidy := by
  have hall : ∀ t ∈ all, ∀ k ∈ t.keywords.keywords, k.data.isTidy = true := by decide +kernel
  exact hall t (mem_all t)

/-- **References lead to nodes that need names** only. -/
theorem needsName_of_admits {t u : NodeType} {k : Keyword} (hk : k ∈ t.keywords.keywords)
    {filter : NodeFilter} (hfilter : k.data.filter? = some filter)
    (hadmits : filter.admits u = true) : u.needsName = true := by
  have hall : ∀ t ∈ all, ∀ u ∈ all, ∀ k ∈ t.keywords.keywords,
      (k.data.filter?.any fun filter => filter.admits u) = true → u.needsName = true := by
    decide +kernel
  exact hall t (mem_all t) u (mem_all u) k hk (by rwa [hfilter, Option.any_some])

end NodeType

namespace Registry

variable {r : Registry} {t : NodeType}

theorem typeOf_keyword (h : r.admits t = true) : r.typeOf t.keyword = .ok t := by
  rw [typeOf, t.ofKeyword?_keyword]
  exact if_pos h

theorem admits_of_typeOf {keyword : String} (h : r.typeOf keyword = .ok t) :
    r.admits t = true := by
  unfold typeOf at h
  split at h
  · cases h
  · next u _ =>
      split at h
      · next hadmits => exact Except.ok.inj h ▸ hadmits
      · cases h

end Registry

end SiteAnalysis
