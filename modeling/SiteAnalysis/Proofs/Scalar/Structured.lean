import SiteAnalysis.Proofs.Number.Finite
import SiteAnalysis.Scalar

set_option autoImplicit false

/-! # Scalars as structured values

A scalar that was read, from a text or from a structured value, is written as a structured value
and read again. Main statement:

* `ofJson?_toJson_iff_isFinite`: the scalar comes back exactly if it is no infinite float and no
  float that is no number. The numbers of a document never give one, but texts such as `inf` do,
  and no structured value is written for them (`ofJson?_toJson_infinity`).
-/

namespace SiteAnalysis

/-- **Numbers of a structured text**: integers of 64 bits, with or without a sign, and floats. -/
inductive Json.IsNumber : Json → Prop
  | int {n : Int} (hlow : minInt ≤ n) (hhigh : n ≤ maxWord) : IsNumber (.int n)
  | float {x : Float} (hfinite : x.isFinite = true) : IsNumber (.float x)

namespace Scalar

/-- Whether a scalar is anything but a float that no structured text can hold. -/
def isFinite : Scalar → Bool
  | float x => x.isFinite
  | _ => true

/-- **Scalars that were read**, from a text or from a structured value. -/
inductive IsRead : Scalar → Prop
  | text (s : String) : IsRead (read s)
  | structured {j : Json} {v : Scalar} (h : ofJson? j = some v) : IsRead v

/-- **What reading leaves.** Integers fit into 64 bits, and what was neither an integer nor a float
is still neither without the blanks around it. -/
inductive Keeps : Scalar → Prop
  | int {n : Int} (hfits : fitsInt n = true) : Keeps (int n)
  | float (x : Float) : Keeps (float x)
  | expression {source : String} (hread : read source = expression source) :
      Keeps (expression source)

theorem keeps_read (s : String) : (read s).Keeps := by
  cases h : read s with
  | int n => exact .int (fitsInt_of_readInt? (read_eq_int_iff.1 h))
  | float x => exact .float x
  | expression source =>
      obtain ⟨hint, hfloat, rfl⟩ := read_eq_expression_iff.1 h
      refine .expression (read_eq_expression_iff.2 ?_)
      rw [trim_trim]
      exact ⟨hint, hfloat, rfl⟩

/-- A whole number becomes an integer if it fits, a text is read, and other values give nothing. -/
theorem keeps_of_ofJson? {j : Json} {v : Scalar} (h : ofJson? j = some v) : v.Keeps := by
  cases j with
  | int n =>
      obtain rfl := Option.some.inj h
      split
      · next hfits => exact .int hfits
      · exact .float _
  | float x =>
      obtain rfl := Option.some.inj h
      exact .float x
  | text s =>
      obtain rfl := Option.some.inj h
      exact keeps_read s
  | null | bool _ | array _ | object _ => cases h

theorem IsRead.keeps {v : Scalar} (h : v.IsRead) : v.Keeps := by
  cases h with
  | text s => exact keeps_read s
  | structured h => exact keeps_of_ofJson? h

/-- A float is written as a number if it is finite, and otherwise as no value that is read. -/
theorem ofJson?_floatJson (x : Float) :
    ofJson? (floatJson x) = if x.isFinite then some (float x) else none := by
  unfold floatJson
  split <;> rfl

/-- What reading leaves comes back, unless it is a float that no structured text can hold. -/
theorem Keeps.ofJson?_toJson {v : Scalar} (h : v.Keeps) :
    ofJson? v.toJson = if v.isFinite then some v else none := by
  cases h with
  | int hfits => simp [toJson, ofJson?, isFinite, hfits]
  | float x => exact ofJson?_floatJson x
  | expression hread => simp [toJson, ofJson?, isFinite, hread]

/-- The numbers of a document give finite scalars: even the largest word is far below the largest
double. -/
theorem isFinite_of_isNumber {j : Json} {v : Scalar} (hj : j.IsNumber) (h : ofJson? j = some v) :
    v.isFinite = true := by
  cases hj with
  | @int n hlow hhigh =>
      obtain rfl := Option.some.inj h
      split
      · rfl
      -- What is no integer of 64 bits with a sign is one without.
      · next hfits =>
          refine isFinite_ofInt ?_ hhigh
          simp only [fitsInt, Bool.and_eq_true, decide_eq_true_eq] at hfits
          omega
  | float hfinite =>
      obtain rfl := Option.some.inj h
      exact hfinite

/-- **A scalar that was read comes back from its structured value exactly if it is finite**, and
one that was the number of a document always comes back. -/
theorem ofJson?_toJson_iff_isFinite {v : Scalar} (h : v.IsRead) :
    (ofJson? v.toJson = some v ↔ v.isFinite = true) ∧
      ((∃ j : Json, j.IsNumber ∧ ofJson? j = some v) → ofJson? v.toJson = some v) := by
  rw [h.keeps.ofJson?_toJson]
  constructor
  · split <;> simp [*]
  · rintro ⟨j, hj, hread⟩
    rw [if_pos (isFinite_of_isNumber hj hread)]

theorem ofJson?_toJson_four_and_largest_word :
    ofJson? (read " 4 ").toJson = some (read " 4 ") ∧
      IsRead (float (Float.ofInt Json.maxWord)) ∧
      ofJson? (float (Float.ofInt Json.maxWord)).toJson =
        some (float (Float.ofInt Json.maxWord)) := by
  have hfour : (read " 4 ").isFinite = true := rfl
  have hword : Json.IsNumber (.int Json.maxWord) := .int (by decide) le_rfl
  have hread : ofJson? (.int Json.maxWord) = some (float (Float.ofInt Json.maxWord)) := rfl
  exact ⟨(ofJson?_toJson_iff_isFinite (.text " 4 ")).1.2 hfour, .structured hread,
    (ofJson?_toJson_iff_isFinite (.structured hread)).2 ⟨_, hword, hread⟩⟩

/-- The text `inf` is read as a float for which no structured value is written. -/
theorem ofJson?_toJson_infinity :
    IsRead (read "inf") ∧ (read "inf").toJson = .null ∧
      ofJson? (read "inf").toJson ≠ some (read "inf") := by
  have hnull : (read "inf").toJson = .null := rfl
  refine ⟨.text "inf", hnull, ?_⟩
  rw [hnull]
  rintro ⟨⟩

end Scalar

end SiteAnalysis
