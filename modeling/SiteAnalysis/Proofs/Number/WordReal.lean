import SiteAnalysis.Proofs.Number.Exact

set_option autoImplicit false

/-! # Exact numbers whose indices are words

Exact numbers give an index of any size. The index of a running program is a word of 64 bits: a
number beyond all words gives the largest of them. What is said of an axis, which may ask for more
bins than there are words, is said of this reading of the kernels (`Arith WordReal`). In all other
respects it is that of the exact numbers.
-/

namespace SiteAnalysis

/-- The largest index. -/
def maxIndex : Nat := 0xFFFFFFFFFFFFFFFF

/-- **Exact numbers whose indices are words of 64 bits.** -/
@[ext] structure WordReal where
  value : ℝ

namespace WordReal

noncomputable instance : Arith WordReal where
  add x y := ⟨x.value + y.value⟩
  sub x y := ⟨x.value - y.value⟩
  mul x y := ⟨x.value * y.value⟩
  div x y := ⟨x.value / y.value⟩
  neg x := ⟨-x.value⟩
  ofScientific m negative e := ⟨OfScientific.ofScientific m negative e⟩
  ofNat n := ⟨n⟩
  lt x y := Arith.lt x.value y.value
  le x y := Arith.le x.value y.value
  same x y := Arith.same x.value y.value
  totalLe x y := Arith.totalLe x.value y.value
  isFinite x := Arith.isFinite x.value
  toIndex x := min (Arith.toIndex x.value) maxIndex
  abs x := ⟨Arith.abs x.value⟩
  floor x := ⟨Arith.floor x.value⟩
  round x := ⟨Arith.round x.value⟩
  sqrt x := ⟨Arith.sqrt x.value⟩
  sin x := ⟨Arith.sin x.value⟩
  cos x := ⟨Arith.cos x.value⟩
  acos x := ⟨Arith.acos x.value⟩
  pi := ⟨Arith.pi⟩

variable (x y : WordReal)

@[simp] theorem value_add : (x + y).value = x.value + y.value := rfl

@[simp] theorem value_sub : (x - y).value = x.value - y.value := rfl

@[simp] theorem value_mul : (x * y).value = x.value * y.value := rfl

@[simp] theorem value_div : (x / y).value = x.value / y.value := rfl

@[simp] theorem value_ofNat (n : Nat) : (Arith.ofNat n : WordReal).value = n := rfl

@[simp] theorem value_ofScientific (m : Nat) (negative : Bool) (e : Nat) :
    (OfScientific.ofScientific m negative e : WordReal).value =
      OfScientific.ofScientific m negative e := rfl

@[simp] theorem value_floor : (Arith.floor x).value = ⌊x.value⌋ := rfl

@[simp] theorem lt_iff : Arith.lt x y = true ↔ x.value < y.value := decide_eq_true_iff

@[simp] theorem le_iff : Arith.le x y = true ↔ x.value ≤ y.value := decide_eq_true_iff

@[simp] theorem isFinite_eq : Arith.isFinite x = true := rfl

theorem toIndex_eq : Arith.toIndex x = min ⌊x.value⌋₊ maxIndex := rfl

@[simp] theorem value_max : (Arith.max x y).value = max x.value y.value := by
  rw [← Exact.max_eq, Arith.max, Arith.max, apply_ite value, apply_ite value]
  rfl

end WordReal

end SiteAnalysis
