import SiteAnalysis.Proofs.Expression.Shape

set_option autoImplicit false

/-! # What bindings tell

All that an evaluation asks of its bindings is answered by `find?`: whether a name is bound
(`isBound_eq`), whether anything stands in a group (`hasGroup_iff`) and what the members of a group
are (`lookup_members`). The shapes of the variables depend on the kinds of the bound numbers only
(`shape?_eq_of_sameKinds`).
-/

namespace SiteAnalysis.Expression.Bindings

theorem isBound_eq (b : Bindings) (group : Option String) (name : String) :
    b.isBound group name = (b.find? group name).isSome := by
  rw [Bool.eq_iff_iff, isBound, find?, Option.isSome_map, List.find?_isSome, List.any_eq_true]

theorem hasGroup_iff (b : Bindings) (group : String) :
    b.hasGroup group = true ↔ ∃ name, (b.find? (some group) name).isSome = true := by
  simp only [← isBound_eq, isBound, hasGroup, List.any_eq_true, Bool.and_eq_true, beq_iff_eq]
  constructor
  · rintro ⟨e, he, hg⟩
    exact ⟨e.name, e, he, hg, rfl⟩
  · rintro ⟨name, e, he, hg, -⟩
    exact ⟨e, he, hg⟩

/-- The first binding of a name in a group is the member of that name. -/
theorem lookup_members (b : Bindings) (group name : String) :
    (b.members group).lookup name = b.find? (some group) name := by
  obtain ⟨entries⟩ := b
  simp only [members, find?]
  induction entries with
  | nil => rfl
  | cons e entries ih =>
      by_cases hg : e.group = some group
      · by_cases hn : e.name = name
        · simp [hg, hn]
        · have hne : (name == e.name) = false := by simpa using fun h => hn h.symm
          simpa [hg, hn, List.lookup_cons, hne] using ih
      · simpa [hg] using ih

theorem isSome_value?_iff (b : Bindings) (name : String) :
    (b.value? name).isSome = true ↔ b.isBound none name = true ∨ b.hasGroup name = true := by
  rw [value?, isBound_eq]
  cases b.find? none name with
  | some n => simp
  | none =>
      cases hg : b.hasGroup name <;> simp

/-- The shape of a variable from the kinds of the numbers bound. -/
theorem shape?_eq (b : Bindings) (name : String) :
    b.shape? name = match (b.find? none name).map Number.kind with
      | some k => some (.number k)
      | none =>
        if b.hasGroup name then
          some (.group fun x => (b.find? (some name) x).map Number.kind)
        else none := by
  rw [shape?, value?]
  cases b.find? none name with
  | some n => exact Value.shape?_ofNumber n
  | none =>
      cases hg : b.hasGroup name with
      | false => simp
      | true => simp [Value.shape?, lookup_members]

/-- A property that a variable has is bound. -/
theorem isBound_of_shape? {b : Bindings} {group name : String} {f : String → Option NumberKind}
    (h : b.shape? group = some (.group f)) (hf : (f name).isSome = true) :
    b.isBound (some group) name = true := by
  rw [shape?_eq] at h
  split at h
  · cases h
  · split at h
    · cases h
      rw [isBound_eq]
      simpa using hf
    · cases h

/-- **Bindings of the same names** with numbers of the same kinds. -/
def SameKinds (b b' : Bindings) : Prop :=
  ∀ group name, (b.find? group name).map Number.kind = (b'.find? group name).map Number.kind

theorem shape?_eq_of_sameKinds {b b' : Bindings} (h : b.SameKinds b') : b.shape? = b'.shape? := by
  -- Kinds are known for the bound names, so the two bind the same names in the same groups.
  have hsome : ∀ group name, (b.find? group name).isSome = (b'.find? group name).isSome := by
    intro group name
    simpa using congrArg Option.isSome (h group name)
  have hgroup : ∀ name, b.hasGroup name = b'.hasGroup name := by
    intro name
    rw [Bool.eq_iff_iff, hasGroup_iff, hasGroup_iff]
    simp only [hsome]
  funext name
  rw [shape?_eq, shape?_eq, h none name, hgroup name]
  simp only [h (some name)]

end SiteAnalysis.Expression.Bindings
