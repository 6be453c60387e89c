import SiteAnalysis.Number.Layout
import SiteAnalysis.Proofs.Number.Digits
import SiteAnalysis.Proofs.Number.Nearest

set_option autoImplicit false

/-! # Printed doubles read back

Main statements:

* `Layout.readFloat?_precise`: the text of a double is read as the same double, infinities and what
  is no number included.
* `Layout.readInt?_precise`: that text is never taken for an integer.
-/

namespace SiteAnalysis

/-! ## Lists of digits -/

/-- Whether all characters of a list are decimal digits. -/
def AreDigits (cs : List Char) : Prop := ∀ c ∈ cs, c.isDigit = true

theorem digitsValue_eq (ds : List Char) : digitsValue ds = Nat.ofDigitChars 10 ds 0 := rfl

theorem digitsValue_append (xs ys : List Char) :
    digitsValue (xs ++ ys) = digitsValue xs * 10 ^ ys.length + digitsValue ys := by
  rw [digitsValue_eq, Nat.ofDigitChars_append, Nat.ofDigitChars_eq_ofDigitChars_zero,
    ← digitsValue_eq, ← digitsValue_eq, mul_comm]

@[simp] theorem digitsValue_zeros (n : Nat) : digitsValue (List.replicate n '0') = 0 := by
  rw [digitsValue_eq, Nat.ofDigitChars_replicate_zero, mul_zero]

@[simp] theorem digitsValue_toDigits (n : Nat) : digitsValue (Nat.toDigits 10 n) = n :=
  Nat.ofDigitChars_ten_toDigits

theorem areDigits_toDigits (n : Nat) : AreDigits (Nat.toDigits 10 n) :=
  fun _ hc => Nat.isDigit_of_mem_toDigits (by norm_num) (by norm_num) hc

theorem areDigits_zeros (n : Nat) : AreDigits (List.replicate n '0') := by
  intro c hc
  obtain ⟨-, rfl⟩ := List.mem_replicate.1 hc
  rfl

theorem AreDigits.append {xs ys : List Char} (hx : AreDigits xs) (hy : AreDigits ys) :
    AreDigits (xs ++ ys) := by
  intro c hc
  rcases List.mem_append.1 hc with hc | hc
  · exact hx c hc
  · exact hy c hc

/-- Digits end at what is no digit. -/
theorem AreDigits.span {ds : List Char} (hd : AreDigits ds) (rest : List Char)
    (hrest : ∀ c ∈ rest.head?, c.isDigit = false) :
    (ds ++ rest).takeWhile Char.isDigit = ds ∧ (ds ++ rest).dropWhile Char.isDigit = rest := by
  rw [List.takeWhile_append_of_pos hd, List.dropWhile_append_of_pos hd]
  cases rest with
  | nil => simp
  | cons c cs => simp [hrest c rfl]

theorem readNat?_of_areDigits {ds : List Char} (hne : ds ≠ []) (hd : AreDigits ds) :
    readNat? ds = some (digitsValue ds) := by
  have hall : ds.all Char.isDigit = true := List.all_eq_true.2 hd
  simp [readNat?, hall, hne]

theorem readNat?_of_mem {cs : List Char} {c : Char} (hc : c ∈ cs) (hno : c.isDigit = false) :
    readNat? cs = none := by
  have hall : cs.all Char.isDigit = false := by
    rw [List.all_eq_false]
    exact ⟨c, hc, by simp [hno]⟩
  simp [readNat?, hall]

/-- Zeros at the end are dropped, and each multiplies by ten. -/
theorem Layout.trimZeros_spec {ds : List Char} (hne : ds ≠ []) (hd : AreDigits ds) :
    trimZeros ds ≠ [] ∧ AreDigits (trimZeros ds) ∧
      ∃ z, ds.length = (trimZeros ds).length + z ∧
        digitsValue ds = digitsValue (trimZeros ds) * 10 ^ z := by
  obtain ⟨z, hz⟩ : ∃ z, ds.reverse.takeWhile (· == '0') = List.replicate z '0' := by
    refine ⟨_, List.eq_replicate_iff.2 ⟨rfl, fun c hc => ?_⟩⟩
    simpa using List.mem_takeWhile_imp hc
  have hsplit : ds = (ds.reverse.dropWhile (· == '0')).reverse ++ List.replicate z '0' := by
    conv_lhs => rw [← ds.reverse_reverse,
      ← List.takeWhile_append_dropWhile (p := (· == '0')) (l := ds.reverse)]
    rw [List.reverse_append, hz, List.reverse_replicate]
  unfold trimZeros
  generalize (ds.reverse.dropWhile (· == '0')).reverse = front at hsplit
  cases front with
  | nil =>
      -- All digits are zeros, and one of them stays.
      obtain ⟨z, rfl⟩ : ∃ z', z = z' + 1 := by
        refine Nat.exists_eq_succ_of_ne_zero ?_
        rintro rfl
        exact hne hsplit
      refine ⟨by simp, areDigits_zeros 1, z, ?_, ?_⟩
      · rw [hsplit]
        simp [add_comm]
      · rw [hsplit, List.nil_append, digitsValue_zeros]
        exact (zero_mul _).symm
  | cons c cs =>
      refine ⟨by simp, fun d hmem => hd d ?_, z, ?_, ?_⟩
      · rw [hsplit]
        exact List.mem_append_left _ hmem
      · simpa [add_right_comm] using congrArg List.length hsplit
      · rw [hsplit, digitsValue_append, digitsValue_zeros, List.length_replicate, add_zero]

/-! ## Texts of decimal numbers -/

/-- Characters of the texts of decimal numbers. -/
def isNumberChar (c : Char) : Bool := c.isDigit || c == '.' || c == 'e' || c == '-'

/-- **A text of a decimal number**: it starts with a digit, is more than digits, and is read as the
double nearest to the number. -/
structure IsTextOf (cs : List Char) (v : ℚ) : Prop where
  head : ∃ c rest, cs = c :: rest ∧ c.isDigit = true
  mark : ∃ c ∈ cs, c.isDigit = false
  chars : ∀ c ∈ cs, isNumberChar c = true
  read : ∃ (digits : Nat) (exponent : Int),
    readDecimal? cs = some (nearestDouble digits exponent) ∧ (digits : ℚ) * 10 ^ exponent = v

namespace AreDigits

variable {ds : List Char} (hd : AreDigits ds)
include hd

theorem head (hne : ds ≠ []) (rest : List Char) :
    ∃ c cs, ds ++ rest = c :: cs ∧ c.isDigit = true := by
  obtain ⟨c, cs, rfl⟩ := List.exists_cons_of_ne_nil hne
  exact ⟨c, cs ++ rest, rfl, hd c (by simp)⟩

theorem chars : ∀ c ∈ ds, isNumberChar c = true := fun c hc => by simp [isNumberChar, hd c hc]

end AreDigits

/-- Digits carry no sign. -/
theorem readSign_of_isDigit {cs : List Char} (h : ∃ c rest, cs = c :: rest ∧ c.isDigit = true) :
    readSign cs = (false, cs) := by
  obtain ⟨c, rest, rfl, hc⟩ := h
  unfold readSign
  split <;> simp_all

/-- **A text of a decimal exponent.** -/
structure IsExponentOf (es : List Char) (k : Int) : Prop where
  chars : ∀ c ∈ es, isNumberChar c = true
  read : readExponent? es = some k

theorem isExponentOf_toDigits (k : Int) :
    IsExponentOf ((if k < 0 then ['-'] else []) ++ Nat.toDigits 10 k.natAbs) k := by
  have hread := readNat?_of_areDigits Nat.toDigits_ne_nil (areDigits_toDigits k.natAbs)
  rw [digitsValue_toDigits] at hread
  constructor
  · have hchars := (areDigits_toDigits k.natAbs).chars
    split_ifs
    · exact List.forall_mem_cons.2 ⟨rfl, hchars⟩
    · exact hchars
  unfold readExponent?
  split_ifs with hneg
  · have hsign : readSign (['-'] ++ Nat.toDigits 10 k.natAbs) =
        (true, Nat.toDigits 10 k.natAbs) := rfl
    rw [hsign]
    dsimp only
    rw [hread]
    change some (-(k.natAbs : Int)) = some k
    congr 1
    omega
  · have hsign := readSign_of_isDigit
      ((areDigits_toDigits k.natAbs).head Nat.toDigits_ne_nil [])
    rw [List.append_nil] at hsign
    rw [List.nil_append, hsign]
    dsimp only
    rw [hread]
    change some (k.natAbs : Int) = some k
    congr 1
    omega

section

variable {whole fraction es : List Char} {k : Int} (hwhole : AreDigits whole) (hne : whole ≠ [])
  (hfraction : AreDigits fraction) (hes : IsExponentOf es k)
include hwhole hne

include hfraction in
/-- A number with a point. -/
theorem isTextOf_point : IsTextOf (whole ++ '.' :: fraction)
    (digitsValue (whole ++ fraction) * 10 ^ (-fraction.length : Int)) := by
  refine ⟨hwhole.head hne _, ⟨'.', by simp, rfl⟩, ?_, _, _, ?_, rfl⟩
  · exact List.forall_mem_append.2 ⟨hwhole.chars, List.forall_mem_cons.2 ⟨rfl, hfraction.chars⟩⟩
  · obtain ⟨htake, hdrop⟩ := hwhole.span ('.' :: fraction) (by simp)
    obtain ⟨htake', hdrop'⟩ := hfraction.span [] (by simp)
    rw [List.append_nil] at htake' hdrop'
    unfold readDecimal?
    simp only [htake, hdrop, htake', hdrop']
    simp [hne]

include hfraction hes in
/-- A number with a point and an exponent. -/
theorem isTextOf_point_exponent : IsTextOf (whole ++ '.' :: (fraction ++ 'e' :: es))
    (digitsValue (whole ++ fraction) * 10 ^ (k - fraction.length : Int)) := by
  refine ⟨hwhole.head hne _, ⟨'.', by simp, rfl⟩, ?_, _, _, ?_, rfl⟩
  · have htail := List.forall_mem_append.2 ⟨hfraction.chars,
      List.forall_mem_cons.2 ⟨(rfl : isNumberChar 'e' = true), hes.chars⟩⟩
    exact List.forall_mem_append.2 ⟨hwhole.chars, List.forall_mem_cons.2 ⟨rfl, htail⟩⟩
  · obtain ⟨htake, hdrop⟩ := hwhole.span ('.' :: (fraction ++ 'e' :: es)) (by simp)
    obtain ⟨htake', hdrop'⟩ := hfraction.span ('e' :: es) (by simp)
    unfold readDecimal?
    simp only [htake, hdrop, htake', hdrop']
    simp [hne, hes.read]

include hes in
/-- A number with an exponent. -/
theorem isTextOf_exponent : IsTextOf (whole ++ 'e' :: es) (digitsValue whole * 10 ^ k) := by
  refine ⟨hwhole.head hne _, ⟨'e', by simp, rfl⟩, ?_, _, _, ?_, rfl⟩
  · exact List.forall_mem_append.2 ⟨hwhole.chars, List.forall_mem_cons.2 ⟨rfl, hes.chars⟩⟩
  · obtain ⟨htake, hdrop⟩ := hwhole.span ('e' :: es) (by simp)
    unfold readDecimal?
    simp only [htake, hdrop]
    simp [hne, hes.read]

end

namespace Layout

variable {ds : List Char} (hd : AreDigits ds) (hne : ds ≠ [])
include hd hne

/-- A number without an exponent. -/
theorem isTextOf_positionalText (k : Int) :
    IsTextOf (precise.positionalText ds k)
      (digitsValue ds * 10 ^ (k + 1 - ds.length : Int)) := by
  have hpoint : precise.point = true := rfl
  have hzero : digitsValue ['0'] = 0 := rfl
  unfold positionalText
  simp only [hpoint, if_true]
  -- The point stands before the digits, behind them, or between them.
  split_ifs with hneg hlong
  · have htext : '0' :: '.' :: List.replicate (-k - 1).toNat '0' ++ ds =
        ['0'] ++ '.' :: (List.replicate (-k - 1).toNat '0' ++ ds) := by simp
    have hvalue : digitsValue (['0'] ++ (List.replicate (-k - 1).toNat '0' ++ ds)) =
        digitsValue ds := by
      rw [digitsValue_append, digitsValue_append, hzero, digitsValue_zeros]
      simp
    have hexponent : (-(List.replicate (-k - 1).toNat '0' ++ ds).length : Int) =
        k + 1 - ds.length := by
      rw [List.length_append, List.length_replicate]
      omega
    have hread := isTextOf_point (areDigits_zeros 1) (by simp)
      ((areDigits_zeros (-k - 1).toNat).append hd)
    rw [List.replicate_one, hvalue, hexponent] at hread
    rwa [htext]
  · have hwhole := hd.append (areDigits_zeros (k.toNat + 1 - ds.length))
    have hvalue : (digitsValue (ds ++ List.replicate (k.toNat + 1 - ds.length) '0' ++ ['0']) : ℚ) *
        10 ^ (-(['0'] : List Char).length : Int) = digitsValue ds * 10 ^ (k + 1 - ds.length) := by
      rw [digitsValue_append, digitsValue_append, digitsValue_zeros, hzero, add_zero, add_zero,
        List.length_replicate, Nat.cast_mul, Nat.cast_mul, mul_assoc, mul_assoc]
      congr 1
      push_cast
      rw [← zpow_natCast, ← zpow_natCast, ← zpow_add₀ (by norm_num), ← zpow_add₀ (by norm_num)]
      congr 1
      simp only [List.length_singleton]
      omega
    have hread := isTextOf_point hwhole (by simp [hne]) (areDigits_zeros 1)
    rwa [List.replicate_one, hvalue] at hread
  · have htake : AreDigits (ds.take (k.toNat + 1)) := fun c hc => hd c (List.mem_of_mem_take hc)
    have hdrop : AreDigits (ds.drop (k.toNat + 1)) := fun c hc => hd c (List.mem_of_mem_drop hc)
    have hexponent : (-(ds.drop (k.toNat + 1)).length : Int) = k + 1 - ds.length := by
      rw [List.length_drop]
      omega
    have hread := isTextOf_point htake (by simp [hne]) hdrop
    rwa [List.take_append_drop, hexponent] at hread

/-- A number with an exponent. -/
theorem isTextOf_exponentialText (k : Int) :
    IsTextOf (precise.exponentialText ds k)
      (digitsValue ds * 10 ^ (k + 1 - ds.length : Int)) := by
  have hes := isExponentOf_toDigits k
  have htext : precise.exponentText k =
      'e' :: ((if k < 0 then ['-'] else []) ++ Nat.toDigits 10 k.natAbs) := by
    have hplus : precise.plus = false := rfl
    simp [exponentText, hplus]
  unfold exponentialText
  rw [htext]
  obtain ⟨d, rest, rfl⟩ := List.exists_cons_of_ne_nil hne
  have hfirst : AreDigits [d] := fun c hc => hd c (by simp_all)
  have hrest : AreDigits rest := fun c hc => hd c (by simp [hc])
  cases rest with
  | nil =>
      have hexponent : k + 1 - ([d] : List Char).length = k := by simp
      rw [hexponent]
      exact isTextOf_exponent hfirst (by simp) hes
  | cons d' rest =>
      have hexponent : k + 1 - (d :: d' :: rest : List Char).length =
          k - (d' :: rest : List Char).length := by
        simp
      rw [hexponent]
      exact isTextOf_point_exponent hfirst (by simp) hrest hes

omit hd hne in
/-- **The text of a decimal number.** -/
theorem isTextOf_decimalText {d : Decimal} (hzero : d.digits = 0 → d.exponent = 0) :
    IsTextOf (precise.decimalText d) d.value := by
  have hk : (if d.digits = 0 then 0
      else d.exponent + ((Nat.toDigits 10 d.digits).length : Int) - 1) =
      d.exponent + (Nat.toDigits 10 d.digits).length - 1 := by
    split_ifs with h
    · rw [hzero h, h]
      rfl
    · rfl
  obtain ⟨hne, hd, z, hlength, hvalue⟩ :=
    trimZeros_spec Nat.toDigits_ne_nil (areDigits_toDigits d.digits)
  rw [digitsValue_toDigits] at hvalue
  -- Zeros that were trimmed at the end are made up for by the exponent.
  have hdecimal : d.value = digitsValue (trimZeros (Nat.toDigits 10 d.digits)) *
      10 ^ (d.exponent + (Nat.toDigits 10 d.digits).length - 1 + 1 -
        (trimZeros (Nat.toDigits 10 d.digits)).length : Int) := by
    unfold Decimal.value
    conv_lhs => rw [hvalue]
    rw [Nat.cast_mul, mul_assoc]
    congr 1
    push_cast
    rw [← zpow_natCast, ← zpow_add₀ (by norm_num)]
    congr 1
    omega
  rw [hdecimal]
  unfold decimalText
  simp only [hk]
  split_ifs
  · exact isTextOf_positionalText hd hne _
  · exact isTextOf_exponentialText hd hne _

end Layout

/-! ## Texts of doubles -/

theorem toLower_of_isDigit {c : Char} (hc : c.isDigit = true) : c.toLower = c := by
  have hrange : ¬ (c.val ≥ 'A'.val ∧ c.val ≤ 'Z'.val) := by
    simp only [Char.isDigit, Bool.and_eq_true, decide_eq_true_eq, ge_iff_le,
      UInt32.le_iff_toNat_le] at hc ⊢
    have hnine : '9'.val.toNat < 'A'.val.toNat := by decide
    omega
  exact dif_neg hrange

section

variable {cs : List Char} (hdigit : ∃ c rest, cs = c :: rest ∧ c.isDigit = true) (negative : Bool)
include hdigit

theorem readSign_of_negative :
    readSign (if negative then '-' :: cs else cs) = (negative, cs) := by
  cases negative with
  | true => rfl
  | false => exact readSign_of_isDigit hdigit

/-- What starts with a digit is no word for a double. -/
theorem readFloat?_of_isDigit :
    readFloat? (String.ofList (if negative then '-' :: cs else cs)) =
      (readDecimal? cs).map fun x => if negative then -x else x := by
  have hwords : ∀ word ∈ ["inf", "infinity", "nan"],
      (cs.map Char.toLower == word.toList) = false := by
    obtain ⟨c, rest, hcs, hc⟩ := hdigit
    have hlower := toLower_of_isDigit hc
    have hi : c ≠ 'i' := fun e => by simp [e] at hc
    have hn : c ≠ 'n' := fun e => by simp [e] at hc
    simp [hcs, hlower, hi, hn]
  unfold readFloat?
  rw [String.toList_ofList, readSign_of_negative hdigit]
  dsimp only
  rw [hwords _ (by simp), hwords _ (by simp), hwords _ (by simp)]
  simp

end

namespace IsTextOf

variable {cs : List Char} {v : ℚ} (h : IsTextOf cs v)
include h

/-- A text of a decimal number, with or without a sign, is read as a double. -/
theorem readFloat? (negative : Bool) : ∃ (digits : Nat) (exponent : Int),
    SiteAnalysis.readFloat? (String.ofList (if negative then '-' :: cs else cs)) =
      some (if negative then -nearestDouble digits exponent else nearestDouble digits exponent) ∧
    (digits : ℚ) * 10 ^ exponent = v := by
  obtain ⟨digits, exponent, hread, hvalue⟩ := h.read
  refine ⟨digits, exponent, ?_, hvalue⟩
  rw [readFloat?_of_isDigit h.head, hread]
  rfl

/-- It is never taken for an integer. -/
theorem readInt? (negative : Bool) :
    SiteAnalysis.readInt? (String.ofList (if negative then '-' :: cs else cs)) = none := by
  obtain ⟨c, hc, hno⟩ := h.mark
  unfold SiteAnalysis.readInt?
  rw [String.toList_ofList, readSign_of_negative h.head]
  dsimp only
  rw [readNat?_of_mem hc hno]

end IsTextOf

namespace Layout

/-- The digits chosen for a double are none only for a zero, which has no exponent. -/
theorem chosen_digits {x : Float} {q : Int} {m : Nat} (s : Bool)
    (h : Binary64.ofFloat x = .finite s m q) :
    (if m = 0 then ⟨0, 0⟩ else Decimal.shortest precise.tie m q : Decimal).digits = 0 →
      (if m = 0 then ⟨0, 0⟩ else Decimal.shortest precise.tie m q : Decimal).exponent = 0 := by
  intro hzero
  split_ifs at hzero ⊢ with hm
  · rfl
  -- The digits of a number that rounds to a double are not zero.
  · obtain ⟨hd, -⟩ := Binary64.eq_packed_of_finite h (by omega)
    have hpos := (Decimal.roundsTo_shortest hd precise.tie).pos hd
    simp [Decimal.value, hzero] at hpos

/-- **The text of a double is read as the double.** -/
theorem readFloat?_precise (x : Float) : readFloat? (precise.text x) = some x := by
  unfold text
  split
  · next h =>
      rw [Binary64.eq_packed_of_nan h]
      decide +kernel
  · next s h =>
      rw [Binary64.eq_packed_of_infinite h]
      cases s <;> decide +kernel
  · next s m q h =>
      obtain ⟨digits, exponent, hread, hvalue⟩ :=
        (isTextOf_decimalText (chosen_digits s h)).readFloat? s
      rw [hread]
      by_cases hm : m = 0
      · subst hm
        rw [if_pos rfl, Decimal.value] at hvalue
        rw [Nat.cast_zero, zero_mul] at hvalue
        obtain rfl : digits = 0 := by
          have hten : (10 : ℚ) ^ exponent ≠ 0 := zpow_ne_zero _ (by norm_num)
          exact_mod_cast (mul_eq_zero.1 hvalue).resolve_right hten
        rw [Binary64.eq_packed_of_zero h, nearestDouble, if_pos rfl]
        cases s <;> decide +kernel
      · obtain ⟨hd, hx⟩ := Binary64.eq_packed_of_finite h (by omega)
        rw [if_neg hm] at hvalue
        have hnearest := nearestDouble_eq hd (hvalue ▸ Decimal.roundsTo_shortest hd precise.tie)
        rw [hnearest, hx]
        cases s with
        | false => rfl
        | true => exact congrArg some hd.neg_packed

/-- **The text of a double is never taken for an integer.** -/
theorem readInt?_precise (x : Float) : readInt? (precise.text x) = none := by
  unfold text
  split
  · rfl
  · next s h => cases s <;> rfl
  · next s m q h =>
      exact (isTextOf_decimalText (chosen_digits s h)).readInt? s

end Layout

end SiteAnalysis
