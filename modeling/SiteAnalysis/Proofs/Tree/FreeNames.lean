import SiteAnalysis.Proofs.Tree.Generated

set_option autoImplicit false

/-! # The search for a free name

A level that names a node counts on from the last number it gave to the type, until the name of a
number is free. Nothing in a turn of that search tells how many are to come: it ends because no name
is that of two numbers, so that the reserved names run out. Main statements:

* `Level.finds_of_passed`: the search goes through the reserved names, one in each turn, and ends at
  the first that is free.
* `Level.finds_least_name`: it ends in no more turns than there are names reserved, and one more,
  with the least number that is free.
-/

namespace SiteAnalysis

/-! ## Names of numbers -/

/-- **A name of a type and a number**: the keyword of the type and then the number in decimal, with
two digits at least and more only where they are needed. -/
def IsNumbered (t : NodeType) (n : Nat) (name : String) : Prop :=
  ∃ digits, name.toList = t.keyword.toList ++ digits ∧ AreDigits digits ∧
    digitsValue digits = n ∧ 2 ≤ digits.length ∧
      (2 < digits.length → 10 ^ (digits.length - 1) ≤ n)

theorem length_numberDigits (n : Nat) : 2 ≤ (numberDigits n).length ∧
    (2 < (numberDigits n).length → 10 ^ ((numberDigits n).length - 1) ≤ n) := by
  have hle : ∀ k, 0 < k → ((Nat.toDigits 10 n).length ≤ k ↔ n < 10 ^ k) := fun k hk =>
    Nat.length_toDigits_le_iff (by norm_num) hk
  have hpos : 0 < (Nat.toDigits 10 n).length := Nat.length_toDigits_pos
  have hone := hle 1 Nat.one_pos
  rw [numberDigits, List.length_append, List.length_replicate]
  split
  · next hsmall => omega
  · next hlarge =>
      have hlast := hle ((Nat.toDigits 10 n).length - 1) (by omega)
      rw [Nat.zero_add]
      exact ⟨by omega, fun _ => by omega⟩

theorem isNumbered_generatedName (t : NodeType) (n : Nat) : IsNumbered t n (generatedName t n) :=
  ⟨numberDigits n, toList_generatedName t n, areDigits_numberDigits n, digitsValue_numberDigits n,
    length_numberDigits n⟩

namespace Level

/-! ## Turns -/

/-- **One turn of the search**: the counter of the type goes one up, and the search is over if the
name of its number is free.  Counters have 32 bits, so there is no turn beyond them. -/
def turn? (l : Level) (t : NodeType) (reserved : List String) : Option (Level × Option String) :=
  let number := l.counter t + 1
  let name := generatedName t number
  if number < 2 ^ 32 then
    some (l.setCounter t number, if reserved.contains (foldCase name) then none else some name)
  else none

/-- **The search for a free name**, turn after turn: how many turns it takes, the name it ends with
and the level then. -/
inductive Finds (t : NodeType) (reserved : List String) : Level → Nat → String → Level → Prop where
  | found {l l' : Level} {name : String} (h : l.turn? t reserved = some (l', some name)) :
      Finds t reserved l 1 name l'
  | passed {l l' l'' : Level} {turns : Nat} {name : String}
      (h : l.turn? t reserved = some (l', none)) (rest : Finds t reserved l' turns name l'') :
      Finds t reserved l (turns + 1) name l''

variable {l : Level} {t : NodeType} {reserved : List String}

theorem turn?_of_free (hfits : l.counter t + 1 < 2 ^ 32)
    (hfree : foldCase (generatedName t (l.counter t + 1)) ∉ reserved) :
    l.turn? t reserved = some (l.setCounter t (l.counter t + 1),
      some (generatedName t (l.counter t + 1))) := by
  unfold turn?
  dsimp only
  rw [if_pos hfits, if_neg (by simpa using hfree)]

theorem turn?_of_reserved (hfits : l.counter t + 1 < 2 ^ 32)
    (hreserved : foldCase (generatedName t (l.counter t + 1)) ∈ reserved) :
    l.turn? t reserved = some (l.setCounter t (l.counter t + 1), none) := by
  unfold turn?
  dsimp only
  rw [if_pos hfits, if_pos (by simpa using hreserved)]

/-- The last number set for a type is the one that counts. -/
theorem setCounter_setCounter (l : Level) (t : NodeType) (m n : Nat) :
    (l.setCounter t m).setCounter t n = l.setCounter t n := by
  simp [setCounter, List.filter_filter]

/-! ## Runs -/

/-- **The search passes over reserved names**, one in each turn, and ends at the first that is
free. -/
theorem finds_of_passed (turns : Nat) (hfits : l.counter t + turns + 1 < 2 ^ 32)
    (hpassed : ∀ k, l.counter t < k → k ≤ l.counter t + turns →
      foldCase (generatedName t k) ∈ reserved)
    (hfree : foldCase (generatedName t (l.counter t + turns + 1)) ∉ reserved) :
    Finds t reserved l (turns + 1) (generatedName t (l.counter t + turns + 1))
      (l.setCounter t (l.counter t + turns + 1)) := by
  induction turns generalizing l with
  | zero => exact .found (turn?_of_free hfits hfree)
  | succ turns ih =>
      have hcounter : (l.setCounter t (l.counter t + 1)).counter t = l.counter t + 1 := by
        rw [counter_setCounter, if_pos rfl]
      have hnumber : l.counter t + 1 + turns + 1 = l.counter t + (turns + 1) + 1 := by omega
      have hturn : l.turn? t reserved = some (l.setCounter t (l.counter t + 1), none) :=
        turn?_of_reserved (by omega) (hpassed _ (by omega) (by omega))
      -- the rest of the search starts one number further on
      have hrest := ih (l := l.setCounter t (l.counter t + 1))
      rw [hcounter, hnumber, setCounter_setCounter] at hrest
      exact .passed hturn (hrest hfits (fun k hlow hhigh => hpassed k (by omega) (by omega)) hfree)

/-- The search ends at the least number above the counter whose name is free. -/
theorem finds_of_isLeast {n : Nat} (hfits : n < 2 ^ 32)
    (h : IsLeast {k | l.counter t < k ∧ foldCase (generatedName t k) ∉ reserved} n) :
    Finds t reserved l (n - l.counter t) (generatedName t n) (l.setCounter t n) := by
  obtain ⟨⟨hlt, hfree⟩, hleast⟩ := h
  obtain ⟨turns, rfl⟩ : ∃ turns, n = l.counter t + turns + 1 :=
    ⟨n - l.counter t - 1, by omega⟩
  have hturns : l.counter t + turns + 1 - l.counter t = turns + 1 := by omega
  rw [hturns]
  refine finds_of_passed turns hfits (fun k hlow hhigh => ?_) hfree
  by_contra hk
  have := hleast ⟨hlow, hk⟩
  omega

/-- **The search for a free name ends**, in no more turns than there are names reserved, and one
more: it gives the name of the least number above the counter that is free, which is what the
counter of the type shows then, and no other counter changes.  No two types or numbers share a name,
also if case does not count. -/
theorem finds_least_name :
    (∀ (l : Level) (t : NodeType) (reserved : List String),
      l.counter t + reserved.toFinset.card + 1 < 2 ^ 32 →
      ∃ turns n l', Finds t reserved l turns (generatedName t n) l' ∧
        turns ≤ reserved.toFinset.card + 1 ∧
        l.nextName t reserved = (generatedName t n, l') ∧
        IsNumbered t n (generatedName t n) ∧
        IsLeast {k | l.counter t < k ∧ foldCase (generatedName t k) ∉ reserved} n ∧
        ∀ u, l'.counter u = if u = t then n else l.counter u) ∧
    Function.Injective fun p : NodeType × Nat => foldCase (generatedName p.1 p.2) := by
  refine ⟨fun l t reserved hfits => ?_, fun ⟨t, m⟩ ⟨u, n⟩ h => ?_⟩
  · have hleast := isLeast_freeNumber t reserved (l.counter t + 1)
    have hle := freeNumber_le t reserved reserved.length (l.counter t + 1)
    exact ⟨_, _, _, finds_of_isLeast (by omega) hleast, by omega, rfl,
      isNumbered_generatedName t _, hleast, counter_setCounter l t _⟩
  · obtain ⟨rfl, rfl⟩ := eq_of_foldCase_generatedName h
    rfl

/-- A level that has named eight selections and three nodes of another type. -/
def midway : Level :=
  { Level.root "Analysis" .analysis with counters := [(.select, 8), (.process .one, 3)] }

/-- The names of the next two numbers are reserved, so the one after them is taken. -/
theorem finds_least_name_selection :
    midway.counter .select + ["select09", "select10", "process1d04"].toFinset.card + 1 < 2 ^ 32 ∧
    (∃ turns l', Finds .select ["select09", "select10", "process1d04"] midway turns "Select11" l' ∧
      turns ≤ 4 ∧ l'.counter .select = 11 ∧ l'.counter (.process .one) = 3) ∧
    foldCase (generatedName .fit 1) ≠ foldCase (generatedName .fit 101) := by
  have hfits : midway.counter .select +
      ["select09", "select10", "process1d04"].toFinset.card + 1 < 2 ^ 32 := by decide
  have hselections : (midway.nextName .select
      ["select09", "select10", "process1d04"]).2.counter .select = 11 := by decide +kernel
  obtain ⟨turns, n, l', hfinds, hturns, hnext, -, -, hcounter⟩ :=
    finds_least_name.1 midway .select ["select09", "select10", "process1d04"] hfits
  have hname : generatedName .select n = "Select11" :=
    (congrArg Prod.fst hnext).symm.trans (by decide +kernel)
  rw [hname] at hfinds
  rw [hnext] at hselections
  have hpair : ((.fit, 1) : NodeType × Nat) ≠ (.fit, 101) := by decide
  have hapart := finds_least_name.2.ne hpair
  exact ⟨hfits, ⟨turns, l', hfinds, hturns.trans (by decide), hselections,
    hcounter (.process .one)⟩, hapart⟩

end Level

end SiteAnalysis
