import Mathlib.Data.List.Nodup
import Mathlib.Data.String.Basic
import SiteAnalysis.Json.Basic

set_option autoImplicit false

/-! # Objects with sorted members

`Json.ofMembers` sorts the members of an object. Main statements:

* `Json.exists_ofMembers`: members of distinct keys are only put into another order.
* `Json.canonical_ofMembers`: an object that was made so is in canonical form already.
-/

namespace SiteAnalysis.Json

/-! ## The order of keys -/

theorem textLt_iff {s t : String} : textLt s t = true ↔ s < t := by simp [textLt]

theorem textLt_eq_false_iff {s t : String} : textLt s t = false ↔ t ≤ s := by
  rw [← not_lt, ← textLt_iff, Bool.not_eq_true]

/-- Members in the order of their keys, none of which occurs twice. -/
def AreSorted (members : List (String × Json)) : Prop :=
  members.Pairwise fun m n => m.1 < n.1

variable {key : String} {value : Json} {members sorted : List (String × Json)}

theorem keys_insertSorted {m : String × Json} (h : m ∈ insertSorted textLt key value members) :
    m.1 = key ∨ ∃ n ∈ members, n.1 = m.1 := by
  induction members with
  | nil =>
      obtain rfl : m = (key, value) := by simpa [insertSorted] using h
      exact Or.inl rfl
  | cons head rest ih =>
      simp only [insertSorted] at h
      split_ifs at h
      · rcases List.mem_cons.1 h with rfl | hrest
        · exact Or.inl rfl
        · exact Or.inr ⟨m, hrest, rfl⟩
      · rcases List.mem_cons.1 h with rfl | hrest
        · exact Or.inr ⟨head, by simp, rfl⟩
        · rcases ih hrest with hkey | ⟨n, hn, hnm⟩
          · exact Or.inl hkey
          · exact Or.inr ⟨n, by simp [hn], hnm⟩
      · rcases List.mem_cons.1 h with rfl | hrest
        · exact Or.inl rfl
        · exact Or.inr ⟨m, by simp [hrest], rfl⟩

theorem AreSorted.insertSorted (h : AreSorted members) :
    AreSorted (insertSorted textLt key value members) := by
  induction members with
  | nil => simp [SiteAnalysis.insertSorted, AreSorted]
  | cons head rest ih =>
      obtain ⟨hhead, hrest⟩ := List.pairwise_cons.1 h
      simp only [SiteAnalysis.insertSorted]
      split_ifs with hbefore hbehind
      · have hlt : key < head.1 := textLt_iff.1 hbefore
        exact List.pairwise_cons.2 ⟨List.forall_mem_cons.2
          ⟨hlt, fun m hm => hlt.trans (hhead m hm)⟩, h⟩
      · refine List.pairwise_cons.2 ⟨fun m hm => ?_, ih hrest⟩
        rcases keys_insertSorted hm with hkey | ⟨n, hn, hnm⟩
        · exact hkey ▸ textLt_iff.1 hbehind
        · exact hnm ▸ hhead n hn
      · have heq : key = head.1 := le_antisymm
          (textLt_eq_false_iff.1 (by simpa using hbehind))
          (textLt_eq_false_iff.1 (by simpa using hbefore))
        exact List.pairwise_cons.2 ⟨fun m hm => heq ▸ hhead m hm, hrest⟩

/-- A new key is put somewhere among the others. -/
theorem perm_insertSorted (h : ∀ m ∈ members, m.1 ≠ key) :
    (insertSorted textLt key value members).Perm ((key, value) :: members) := by
  induction members with
  | nil => exact .refl _
  | cons head rest ih =>
      obtain ⟨hhead, hrest⟩ := List.forall_mem_cons.1 h
      simp only [insertSorted]
      split_ifs with hbefore hbehind
      · exact .refl _
      · exact ((ih hrest).cons head).trans (.swap _ _ _)
      · exact absurd (le_antisymm
          (textLt_eq_false_iff.1 (by simpa using hbefore))
          (textLt_eq_false_iff.1 (by simpa using hbehind))) hhead

/-- A key behind all others is put behind them. -/
theorem insertSorted_of_last (h : ∀ m ∈ members, m.1 < key) :
    insertSorted textLt key value members = members ++ [(key, value)] := by
  induction members with
  | nil => rfl
  | cons head rest ih =>
      obtain ⟨hhead, hrest⟩ := List.forall_mem_cons.1 h
      have hnot : textLt key head.1 = false := textLt_eq_false_iff.2 hhead.le
      simp [insertSorted, hnot, textLt_iff.2 hhead, ih hrest]

/-! ## Objects -/

/-- **Members of distinct keys are only put into another order.** -/
theorem exists_ofMembers (h : (members.map Prod.fst).Nodup) :
    ∃ sorted, ofMembers members = object sorted ∧ sorted.Perm members ∧ AreSorted sorted := by
  -- Members are inserted one by one among those that stand there already.
  suffices hgeneral : ∀ members sorted : List (String × Json),
      ((members ++ sorted).map Prod.fst).Nodup → AreSorted sorted →
      ∃ sorted', members.foldl (fun sorted m => insertSorted textLt m.1 m.2 sorted) sorted =
        sorted' ∧ sorted'.Perm (members ++ sorted) ∧ AreSorted sorted' by
    obtain ⟨sorted, hfold, hperm, hsorted⟩ :=
      hgeneral members [] (by simpa using h) List.Pairwise.nil
    exact ⟨sorted, congrArg object hfold, by simpa using hperm, hsorted⟩
  intro members
  induction members with
  | nil => exact fun _ _ hsorted => ⟨_, rfl, .refl _, hsorted⟩
  | cons m members ih =>
      intro sorted hnodup hsorted
      obtain ⟨hnew, hrest⟩ := List.nodup_cons.1 hnodup
      have hinsert : (insertSorted textLt m.1 m.2 sorted).Perm (m :: sorted) := by
        refine perm_insertSorted fun n hn heq => hnew ?_
        exact heq ▸ List.mem_map.2 ⟨n, by simp [hn], rfl⟩
      have hmiddle : (members ++ insertSorted textLt m.1 m.2 sorted).Perm
          (m :: (members ++ sorted)) :=
        (hinsert.append_left members).trans List.perm_middle
      obtain ⟨sorted', hfold, hperm, hsorted'⟩ :=
        ih _ ((hmiddle.map Prod.fst).nodup_iff.2 hnodup) hsorted.insertSorted
      exact ⟨sorted', hfold, hperm.trans hmiddle, hsorted'⟩

/-- A member is found under its key. -/
theorem lookup_of_mem (hkeys : (members.map Prod.fst).Nodup) {m : String × Json}
    (hm : m ∈ members) : members.lookup m.1 = some m.2 := by
  induction members with
  | nil => cases hm
  | cons head members ih =>
      obtain ⟨hhead, hkeys⟩ := List.nodup_cons.1 hkeys
      rw [List.lookup_cons]
      rcases List.mem_cons.1 hm with rfl | hm
      · simp
      · have hne : m.1 ≠ head.1 := fun heq => hhead (heq ▸ List.mem_map.2 ⟨m, hm, rfl⟩)
        rw [beq_false_of_ne hne, ih hkeys hm]

/-! ## Canonical forms -/

theorem canonicalItems_eq_self {items : List Json} (h : ∀ j ∈ items, j.canonical = j) :
    canonicalItems items = items := by
  induction items with
  | nil => simp [canonicalItems]
  | cons j items ih =>
      obtain ⟨hj, hitems⟩ := List.forall_mem_cons.1 h
      simp [canonicalItems, hj, ih hitems]

theorem canonical_array {items : List Json} (h : ∀ j ∈ items, j.canonical = j) :
    (array items).canonical = array items := by
  rw [canonical, canonicalItems_eq_self h]

/-- Sorted members are put behind each other again. -/
theorem canonicalMembers_eq (h : ∀ m ∈ members, m.2.canonical = m.2)
    (hsorted : AreSorted (sorted ++ members)) :
    canonicalMembers members sorted = sorted ++ members := by
  induction members generalizing sorted with
  | nil => simp [canonicalMembers]
  | cons m members ih =>
      obtain ⟨hm, hmembers⟩ := List.forall_mem_cons.1 h
      have hlast : ∀ n ∈ sorted, n.1 < m.1 := fun n hn =>
        (List.pairwise_append.1 hsorted).2.2 n hn m (by simp)
      rw [canonicalMembers, hm, insertSorted_of_last hlast, ih hmembers (by simpa using hsorted)]
      simp

/-- **An object with members of distinct keys and in canonical form is in canonical form.** -/
theorem canonical_ofMembers (hkeys : (members.map Prod.fst).Nodup)
    (h : ∀ m ∈ members, m.2.canonical = m.2) :
    (ofMembers members).canonical = ofMembers members := by
  obtain ⟨sorted, heq, hperm, hsorted⟩ := exists_ofMembers hkeys
  rw [heq, canonical, canonicalMembers_eq (fun m hm => h m (hperm.mem_iff.1 hm))
    (by simpa using hsorted), List.nil_append]

end SiteAnalysis.Json
