import SiteAnalysis.Proofs.Number.Printing
import SiteAnalysis.Proofs.Scalar.Structured
import SiteAnalysis.Proofs.Text.Plain

set_option autoImplicit false

/-! # Numbers as arguments

The texts of numbers are plain: they need no quotes. Main statements:

* `readInt?_toString`, `readIndex?_toString`: whole numbers come back from their texts.
* `Scalar.Keeps.read_text`: a scalar that was read comes back from its text.
-/

namespace SiteAnalysis

/-! ## Whole numbers -/

theorem isPlainChar_of_isDigit {c : Char} (hc : c.isDigit = true) : isPlainChar c = true :=
  isPlainChar_of_isWordChar (isWordChar_of_isDigit hc)

theorem toList_toString_nat (n : Nat) : (toString n).toList = Nat.toDigits 10 n := by
  rw [Nat.toString_eq_ofList_toDigits, String.toList_ofList]

theorem toList_toString_int (n : Int) :
    (toString n).toList = if n < 0 then '-' :: Nat.toDigits 10 n.natAbs
      else Nat.toDigits 10 n.natAbs := by
  rw [Int.toString_eq_repr, Int.repr_eq_if]
  by_cases hneg : n < 0
  · have hnat : (-n).toNat = n.natAbs := by omega
    rw [if_neg (by omega), if_pos hneg, String.toList_append, Nat.toList_repr, hnat]
    rfl
  · have hnat : n.toNat = n.natAbs := by omega
    rw [if_pos (by omega), if_neg hneg, Nat.toList_repr, hnat]

theorem isPlain_toString_nat (n : Nat) : IsPlain (toString n) := by
  rw [IsPlain, toList_toString_nat]
  exact ⟨Nat.toDigits_ne_nil, fun c hc => isPlainChar_of_isDigit (areDigits_toDigits n c hc)⟩

theorem isPlain_toString_int (n : Int) : IsPlain (toString n) := by
  have hdigits : ∀ c ∈ Nat.toDigits 10 n.natAbs, isPlainChar c = true :=
    fun c hc => isPlainChar_of_isDigit (areDigits_toDigits _ c hc)
  rw [IsPlain, toList_toString_int]
  split_ifs
  · exact ⟨by simp, List.forall_mem_cons.2 ⟨by decide, hdigits⟩⟩
  · exact ⟨Nat.toDigits_ne_nil, hdigits⟩

theorem readNat?_toDigits (n : Nat) : readNat? (Nat.toDigits 10 n) = some n := by
  rw [readNat?_of_areDigits Nat.toDigits_ne_nil (areDigits_toDigits n), digitsValue_toDigits]

theorem readSign_toDigits (n : Nat) :
    readSign (Nat.toDigits 10 n) = (false, Nat.toDigits 10 n) := by
  have h := (areDigits_toDigits n).head Nat.toDigits_ne_nil []
  rw [List.append_nil] at h
  exact readSign_of_isDigit h

/-- **An integer of 64 bits comes back from its text.** -/
theorem readInt?_toString {n : Int} (h : fitsInt n = true) : readInt? (toString n) = some n := by
  unfold readInt?
  rw [toList_toString_int]
  split_ifs with hneg
  · have hsign : readSign ('-' :: Nat.toDigits 10 n.natAbs) =
        (true, Nat.toDigits 10 n.natAbs) := rfl
    have hvalue : -(n.natAbs : Int) = n := by omega
    rw [hsign]
    dsimp only
    rw [readNat?_toDigits]
    dsimp only
    rw [if_pos rfl, hvalue, if_pos h]
  · have hvalue : (n.natAbs : Int) = n := by omega
    rw [readSign_toDigits]
    dsimp only
    rw [readNat?_toDigits]
    simp only [Bool.false_eq_true, if_false, hvalue]
    rw [if_pos h]

theorem readIndex?_toString {n : Nat} (h : n < 0x10000000000000000) :
    readIndex? (toString n) = some n := by
  unfold readIndex?
  rw [toList_toString_nat]
  split
  · next cs hcs =>
      have hdigit := areDigits_toDigits n '+' (by rw [hcs]; simp)
      cases hdigit
  · dsimp only
    rw [readNat?_toDigits]
    exact if_pos h

/-! ## Doubles -/

theorem isPlainChar_of_isNumberChar {c : Char} (hc : isNumberChar c = true) :
    isPlainChar c = true := by
  simp only [isNumberChar, Bool.or_eq_true, beq_iff_eq] at hc
  rcases hc with ((hc | rfl) | rfl) | rfl
  · exact isPlainChar_of_isDigit hc
  all_goals decide

/-- The text of a double needs no quotes. -/
theorem isPlain_precise (x : Float) : IsPlain (Layout.precise.text x) := by
  unfold Layout.text
  split
  · decide
  · next s h => cases s <;> decide
  · next s m q h =>
      have htext := Layout.isTextOf_decimalText (Layout.chosen_digits s h)
      obtain ⟨c, rest, hcs, -⟩ := htext.head
      have hplain : ∀ c ∈ Layout.precise.decimalText
          (if m = 0 then ⟨0, 0⟩ else Decimal.shortest Layout.precise.tie m q),
          isPlainChar c = true :=
        fun c hc => isPlainChar_of_isNumberChar (htext.chars c hc)
      rw [IsPlain, String.toList_ofList]
      cases s with
      | false => exact ⟨by rw [hcs]; simp, hplain⟩
      | true => exact ⟨by simp, List.forall_mem_cons.2 ⟨by decide, hplain⟩⟩

/-! ## Scalars -/

namespace Scalar

/-- **A scalar that was read comes back from its text.** -/
theorem Keeps.read_text {v : Scalar} (h : v.Keeps) : read v.text = v := by
  cases h with
  | int hfits =>
      rw [read_eq_int_iff, text, (isPlain_toString_int _).trim]
      exact readInt?_toString hfits
  | float x =>
      rw [read_eq_float_iff, text, (isPlain_precise x).trim]
      exact ⟨Layout.readInt?_precise x, Layout.readFloat?_precise x⟩
  | expression hread => exact hread

end Scalar

/-- The text of a scalar stays in the class of the text it was read from. -/
theorem IsTextClass.text_read {P : String → Prop} (hP : IsTextClass P) {s : String} (h : P s) :
    P (Scalar.read s).text := by
  cases hread : Scalar.read s with
  | int n => exact hP.plain (isPlain_toString_int n)
  | float x => exact hP.plain (isPlain_precise x)
  | expression source =>
      obtain ⟨-, -, rfl⟩ := Scalar.read_eq_expression_iff.1 hread
      exact hP.trim h

end SiteAnalysis
