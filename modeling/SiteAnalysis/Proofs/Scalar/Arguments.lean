import SiteAnalysis.Proofs.Scalar.Written
import SiteAnalysis.Proofs.Text.Quoting

set_option autoImplicit false

/-! # Scalars written on a line

A scalar is written as the argument of a keyword, and the line is read again. Main statement:

* `Scalar.read_argument_iff_isWritable`: the text of a scalar that was read is always read as the
  same scalar, and the line gives that scalar back exactly if the text is writable.

Only expressions have texts that are not writable (`Scalar.expression_of_not_isWritable`). What a
line holds in the place of such a text has no double quotes (`not_mem_of_tokenise_pair`), so it is
read as something else.
-/

namespace SiteAnalysis

/-! ## A keyword with one argument -/

theorem toList_pair (k a : String) :
    (k ++ " " ++ quote a).toList = k.toList ++ ' ' :: (quote a).toList := by
  rw [String.toList_append, String.toList_append, List.append_assoc]
  rfl

theorem written_pair {k : String} (hk : IsPlain k) (a : String) :
    Written [k, a] (k ++ " " ++ quote a) := by
  have hlast : WrittenFrom [a] ((quote a).toList ++ ([] ++ [])) :=
    .cons (by simp [IsBlankRun]) (by simp) .nil
  have hfirst : WrittenFrom [k, a]
      ((quote k).toList ++ ([' '] ++ ((quote a).toList ++ ([] ++ [])))) :=
    .cons (by decide) (by simp) hlast
  refine ⟨[], _, by simp [IsBlankRun], hfirst, ?_⟩
  rw [toList_pair, hk.quote, List.append_nil, List.append_nil]
  rfl

/-- What is read in the place of an argument that is not writable has no double quotes. -/
theorem not_mem_of_tokenise_pair {k a s : String} (hk : IsPlain k) (ha : isWritable a = false)
    (h : tokenise (k ++ " " ++ quote a) = .ok [k, s]) : '"' ∉ s.toList := by
  obtain ⟨front, back, hfront, hcut⟩ :=
    Argument.scan_quote_of_not_isWritable ha [] [k.toList]
  have hends : Argument.EndsWord (' ' :: (quote a).toList) := by
    intro c hc
    obtain rfl : ' ' = c := by simpa using hc
    rfl
  have hscan : Argument.scan (k ++ " " ++ quote a).toList [] =
      Argument.scan back [front, k.toList] := by
    rw [toList_pair, Argument.scan_unquoted (isPlain_iff.1 hk) hends,
      Argument.scan_blank (by decide), ← hcut, List.append_nil]
  rw [tokenise_eq_ok_iff, hscan] at h
  -- The scan keeps what it has read, so nothing that follows changes it.
  have hkept : [k.toList, front] <+: [k.toList, s.toList] := Argument.reverse_prefix_of_scan h
  obtain rfl : front = s.toList := by simpa using hkept
  exact hfront

namespace Scalar

/-! ## Scalars as arguments -/

/-- **Only an expression can have a text that is not writable**: the texts of numbers are plain. -/
theorem expression_of_not_isWritable {v : Scalar} (hv : v.Keeps) (h : isWritable v.text = false) :
    v = expression v.text := by
  cases hv with
  | @int n hfits =>
      have hplain : isWritable (int n).text = true := (isPlain_toString_int n).fitsLine.1
      simp [hplain] at h
  | float x =>
      have hplain : isWritable (float x).text = true := (isPlain_precise x).fitsLine.1
      simp [hplain] at h
  | expression hread => rfl

/-- **A scalar on a line.** The text of what was read from `t` is read as the same scalar. Written as
the argument of a keyword, it is read back exactly if it is writable. -/
theorem read_argument_iff_isWritable {k : String} (hk : IsPlain k) (t : String) :
    read (read t).text = read t ∧
      ((∃ s, tokenise (k ++ " " ++ quote (read t).text) = .ok [k, s] ∧ read s = read t) ↔
        isWritable (read t).text = true) := by
  have htext : read (read t).text = read t := (keeps_read t).read_text
  refine ⟨htext, ?_, ?_⟩
  · rintro ⟨s, hs, hread⟩
    by_contra hwritable
    rw [Bool.not_eq_true] at hwritable
    have hexpression := expression_of_not_isWritable (keeps_read t) hwritable
    -- The text holds a double quote, and what is read in its place does not.
    have hmem := (Argument.quote_of_not_isWritable hwritable).2
    have htrim : trim s = (read t).text :=
      (read_eq_expression_iff.1 (hread.trans hexpression)).2.2
    rw [← htrim] at hmem
    exact not_mem_of_tokenise_pair hk hwritable hs (mem_toList_of_mem_trim hmem)
  · intro hwritable
    refine ⟨(read t).text, ?_, htext⟩
    rw [tokenise_eq_ok_iff_isWritable (written_pair hk _)]
    intro a ha
    obtain rfl | rfl : a = k ∨ a = (read t).text := by simpa using ha
    · exact hk.fitsLine.1
    · exact hwritable

/-- A whole number with a fraction stays a float, and an expression with quotes an expression. -/
theorem read_argument_two_and_quoted :
    (∃ s, tokenise ("K" ++ " " ++ quote (read " 2.0 ").text) = .ok ["K", s] ∧
        read s = read " 2.0 ") ∧
      ∃ s, tokenise ("K" ++ " " ++ quote (read "it's #1").text) = .ok ["K", s] ∧
        read s = read "it's #1" := by
  have hk : IsPlain "K" := by decide
  exact ⟨(read_argument_iff_isWritable hk " 2.0 ").2.2 rfl,
    (read_argument_iff_isWritable hk "it's #1").2.2 rfl⟩

end Scalar

end SiteAnalysis
