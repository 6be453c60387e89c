import SiteAnalysis.Proofs.Tree.Naming

set_option autoImplicit false

/-! # Generated names

A generated name tells its type and its number, and the numbers of a list only grow. Main
statements:

* `eq_of_foldCase_generatedName`: a generated name tells its type and its number, also if case does
  not count.
* `isLeast_freeNumber`: the search for a free number ends at the least one.
* `Level.nextName_spec`: the next name of a list is free and has a greater number than all before.
-/

namespace SiteAnalysis

/-! ## Names and numbers -/

/-- The digits at the end of a generated name, at least two. -/
def numberDigits (n : Nat) : List Char := List.replicate (if n < 10 then 1 else 0) '0' ++
  Nat.toDigits 10 n

theorem toList_generatedName (t : NodeType) (n : Nat) :
    (generatedName t n).toList = t.keyword.toList ++ numberDigits n := by
  rw [generatedName, String.toList_append, numberDigits]
  congr 1
  split
  · rw [String.toList_append, toList_toString_nat]
    rfl
  · exact toList_toString_nat n

theorem areDigits_numberDigits (n : Nat) : AreDigits (numberDigits n) := by
  intro c hc
  rcases List.mem_append.1 hc with hc | hc
  · exact areDigits_zeros _ c hc
  · exact areDigits_toDigits n c hc

theorem digitsValue_numberDigits (n : Nat) : digitsValue (numberDigits n) = n := by
  rw [numberDigits, digitsValue_append, digitsValue_zeros, digitsValue_toDigits]
  simp

theorem toList_foldCase_generatedName (t : NodeType) (n : Nat) :
    (foldCase (generatedName t n)).toList =
      t.keyword.toList.map Char.toLower ++ numberDigits n := by
  have hdigits : (numberDigits n).map Char.toLower = (numberDigits n).map id :=
    List.map_congr_left fun c hc => toLower_of_isDigit (areDigits_numberDigits n c hc)
  rw [foldCase, String.toList_ofList, toList_generatedName, List.map_append, hdigits, List.map_id]

/-- Keywords that are the same but for case are those of one type. -/
theorem NodeType.eq_of_map_toLower_keyword {t u : NodeType}
    (h : t.keyword.toList.map Char.toLower = u.keyword.toList.map Char.toLower) : t = u := by
  have hfind : ofKeyword? t.keyword = ofKeyword? u.keyword := by
    simp only [ofKeyword?, sameName, h]
  rw [t.ofKeyword?_keyword, u.ofKeyword?_keyword] at hfind
  exact Option.some.inj hfind

/-- No keyword ends in a digit, also if it tells a dimension. -/
theorem NodeType.isDigit_last_keyword (t : NodeType) :
    ∀ c ∈ (t.keyword.toList.map Char.toLower).getLast?, c.isDigit = false := by
  have hall : ∀ t ∈ all,
      (t.keyword.toList.map Char.toLower).getLast?.any Char.isDigit = false := by decide +kernel
  exact (Option.any_eq_false _ _).1 (hall t (mem_all t))

/-- Digits at the end of a text are told from what stands before them. -/
theorem AreDigits.append_inj {xs ys ds es : List Char} (hds : AreDigits ds) (hes : AreDigits es)
    (hxs : ∀ c ∈ xs.getLast?, c.isDigit = false) (hys : ∀ c ∈ ys.getLast?, c.isDigit = false)
    (h : xs ++ ds = ys ++ es) : xs = ys ∧ ds = es := by
  -- read from behind, both texts begin with their digits
  have hreverse : ds.reverse ++ xs.reverse = es.reverse ++ ys.reverse := by
    rw [← List.reverse_append, ← List.reverse_append, h]
  have hx := AreDigits.span (fun c hc => hds c (List.mem_reverse.1 hc)) xs.reverse
    (by rwa [List.head?_reverse])
  have hy := AreDigits.span (fun c hc => hes c (List.mem_reverse.1 hc)) ys.reverse
    (by rwa [List.head?_reverse])
  rw [hreverse] at hx
  exact ⟨List.reverse_injective (hx.2.symm.trans hy.2),
    List.reverse_injective (hx.1.symm.trans hy.1)⟩

/-- **A generated name tells its type and its number**, also if case does not count. -/
theorem eq_of_foldCase_generatedName {t u : NodeType} {m n : Nat}
    (h : foldCase (generatedName t m) = foldCase (generatedName u n)) : t = u ∧ m = n := by
  have hsame : t.keyword.toList.map Char.toLower ++ numberDigits m =
      u.keyword.toList.map Char.toLower ++ numberDigits n := by
    rw [← toList_foldCase_generatedName, ← toList_foldCase_generatedName, h]
  obtain ⟨hkeyword, hdigits⟩ := (areDigits_numberDigits m).append_inj (areDigits_numberDigits n)
    t.isDigit_last_keyword u.isDigit_last_keyword hsame
  refine ⟨NodeType.eq_of_map_toLower_keyword hkeyword, ?_⟩
  rw [← digitsValue_numberDigits m, hdigits, digitsValue_numberDigits]

/-- **Generated names of different numbers differ**, also if case does not count. -/
theorem generatedName_inj {t : NodeType} {m n : Nat}
    (h : foldCase (generatedName t m) = foldCase (generatedName t n)) : m = n :=
  (eq_of_foldCase_generatedName h).2

/-! ## Free numbers -/

section FreeNumber

variable (t : NodeType) (reserved : List String)

theorem le_freeNumber (tries n : Nat) : n ≤ freeNumber t reserved tries n := by
  induction tries generalizing n with
  | zero => exact Nat.le_refl n
  | succ tries ih =>
      rw [freeNumber]
      split
      · exact (Nat.le_succ n).trans (ih (n + 1))
      · exact Nat.le_refl n

/-- The search passes over no number whose name is free. -/
theorem freeNumber_le_of_free (tries n : Nat) {k : Nat} (hle : n ≤ k)
    (hfree : foldCase (generatedName t k) ∉ reserved) : freeNumber t reserved tries n ≤ k := by
  induction tries generalizing n with
  | zero => exact hle
  | succ tries ih =>
      rw [freeNumber]
      split
      · next htaken =>
          have hne : n ≠ k := by
            rintro rfl
            exact hfree (by simpa using htaken)
          exact ih (n + 1) (by omega)
      · exact hle

/-- Where the search ends before its last try the name is free. -/
theorem freeNumber_cases (tries n : Nat) :
    foldCase (generatedName t (freeNumber t reserved tries n)) ∉ reserved ∨
      freeNumber t reserved tries n = n + tries := by
  induction tries generalizing n with
  | zero => exact .inr rfl
  | succ tries ih =>
      rw [freeNumber]
      split
      · exact (ih (n + 1)).imp_right fun hlast => by omega
      · next hfree => exact .inl (by simpa using hfree)

/-- **Of so many numbers as there are names reserved, and one more, one has a free name**: no name
is that of two numbers. -/
theorem exists_free (n : Nat) :
    ∃ k, n ≤ k ∧ k ≤ n + reserved.toFinset.card ∧ foldCase (generatedName t k) ∉ reserved := by
  let names := (Finset.Icc n (n + reserved.toFinset.card)).image fun k =>
    foldCase (generatedName t k)
  have hcard : names.card = reserved.toFinset.card + 1 := by
    rw [Finset.card_image_of_injective _ fun _ _ heq => generatedName_inj heq, Nat.card_Icc]
    omega
  obtain ⟨name, hname, hfree⟩ := Finset.exists_mem_notMem_of_card_lt_card
    (s := reserved.toFinset) (t := names) (by omega)
  obtain ⟨k, hk, rfl⟩ := Finset.mem_image.1 hname
  rw [Finset.mem_Icc] at hk
  exact ⟨k, hk.1, hk.2, by simpa using hfree⟩

/-- The search ends before the reserved names have run out. -/
theorem freeNumber_le (tries n : Nat) :
    freeNumber t reserved tries n ≤ n + reserved.toFinset.card := by
  obtain ⟨k, hle, hbound, hfree⟩ := exists_free t reserved n
  exact (freeNumber_le_of_free t reserved tries n hle hfree).trans hbound

/-- **The number that is found is free**: there are not enough reserved names for all tries. -/
theorem freeNumber_free (n : Nat) :
    foldCase (generatedName t (freeNumber t reserved reserved.length n)) ∉ reserved := by
  rcases freeNumber_cases t reserved reserved.length n with hfree | hlast
  · exact hfree
  · -- the last number is reached only if it is the first that is free
    obtain ⟨k, hle, hbound, hfree⟩ := exists_free t reserved n
    have hcard := reserved.toFinset_card_le
    have hk := freeNumber_le_of_free t reserved reserved.length n hle hfree
    obtain rfl : k = freeNumber t reserved reserved.length n := by omega
    exact hfree

/-- **The number that is found is the least that is free.** -/
theorem isLeast_freeNumber (n : Nat) :
    IsLeast {k | n ≤ k ∧ foldCase (generatedName t k) ∉ reserved}
      (freeNumber t reserved reserved.length n) :=
  ⟨⟨le_freeNumber t reserved _ n, freeNumber_free t reserved n⟩,
    fun _ hk => freeNumber_le_of_free t reserved _ n hk.1 hk.2⟩

end FreeNumber

/-! ## Counters -/

namespace Level

theorem lookup_filter_ne {t u : NodeType} (h : u ≠ t) (counters : List (NodeType × Nat)) :
    (counters.filter fun e => e.1 != t).lookup u = counters.lookup u := by
  induction counters with
  | nil => rfl
  | cons e rest ih =>
      obtain ⟨v, number⟩ := e
      by_cases hv : v = t
      · have hu : (u == v) = false := by simpa [hv] using h
        rw [List.filter_cons_of_neg (by simpa using hv), ih, List.lookup_cons, hu]
      · rw [List.filter_cons_of_pos (by simpa using hv), List.lookup_cons, List.lookup_cons, ih]

variable (l : Level) (t : NodeType)

theorem counter_setCounter (n : Nat) (u : NodeType) :
    (l.setCounter t n).counter u = if u = t then n else l.counter u := by
  rw [counter, setCounter, List.lookup_cons]
  by_cases h : u = t
  · simp [h]
  · have hne : (u == t) = false := by simpa using h
    rw [hne, if_neg h, counter]
    exact congrArg (Option.getD · 0) (lookup_filter_ne h l.counters)

/-- **The next name of a list**: it is free and its number is greater than the last. -/
theorem nextName_spec (reserved : List String) :
    ∃ n, l.counter t < n ∧ l.nextName t reserved = (generatedName t n, l.setCounter t n) ∧
      foldCase (generatedName t n) ∉ reserved :=
  ⟨_, le_freeNumber t reserved reserved.length (l.counter t + 1), rfl,
    freeNumber_free t reserved (l.counter t + 1)⟩

end Level

end SiteAnalysis
