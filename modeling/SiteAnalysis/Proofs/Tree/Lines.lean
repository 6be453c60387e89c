import Mathlib.Data.List.Forall2
import SiteAnalysis.Proofs.Text.Plain
import SiteAnalysis.Proofs.Text.Walk
import SiteAnalysis.Tree.Text
import SiteAnalysis.Tree.TextReader

set_option autoImplicit false

/-! # Lines that are written and read

A written line gives its arguments back (`IsLineOf`), also when it is indented further. Main
statement:

* `argumentLines_joinLines`: a text of such lines is read as their arguments, numbered from one.
-/

namespace SiteAnalysis

/-- **A line that gives some arguments back.** -/
structure IsLineOf (line : String) (args : List String) : Prop where
  ne : args ≠ []
  tokens : tokenise line = .ok args
  noFeed : '\n' ∉ line.toList
  noReturn : dropReturn line.toList = line.toList

/-- The lines of some lists of arguments. -/
abbrev AreLinesOf (lines : List String) (lists : List (List String)) : Prop :=
  List.Forall₂ IsLineOf lines lists

namespace IsLineOf

/-- **Written arguments.** -/
theorem written {args : List String} (hne : args ≠ []) (h : ∀ a ∈ args, FitsLine a) :
    IsLineOf (String.intercalate "  " (args.map quote)) args := by
  have hline : String.intercalate "  " (args.map quote) = writtenLine "" "  " args := by
    rw [writtenLine, String.empty_append]
  have hgap : IsGap "" := by decide
  have hsep : IsGap "  " := by decide
  rw [hline]
  exact ⟨hne, (tokenise_writtenLine_iff hgap hsep (by decide) args).2 fun a ha => (h a ha).1,
    lineFeed_not_mem_writtenLine hgap hsep fun a ha => (h a ha).2,
    dropReturn_writtenLine "" "  " hne⟩

/-- A word that starts an argument and holds no blank. -/
theorem word {c : Char} {cs : List Char} (hblank : ∀ d ∈ c :: cs, isBlank d = false)
    (hquote : Argument.isQuote c = false) (hhash : c ≠ '#') :
    IsLineOf (String.ofList (c :: cs)) [String.ofList (c :: cs)] := by
  have hrest : ∀ d ∈ cs, isBlank d = false := fun d hd => hblank d (by simp [hd])
  have hend : Argument.EndsWord [] := by simp [Argument.EndsWord]
  refine ⟨by simp, ?_, ?_, ?_⟩
  · rw [tokenise_eq_ok_iff, String.toList_ofList,
      Argument.scan_bare (hblank c (by simp)) (by simpa using hhash) hquote]
    have htake := Argument.takeWhile_word hrest hend
    have hdrop := Argument.dropWhile_word hrest hend
    rw [List.append_nil] at htake hdrop
    rw [htake, hdrop, Argument.scan_nil]
    simp
  · rw [String.toList_ofList]
    exact fun hmem => absurd (hblank _ hmem) (by decide)
  · rw [String.toList_ofList, dropReturn, if_neg]
    intro hlast
    exact absurd (hblank _ (List.mem_of_getLast? hlast)) (by decide)

/-- A line that is indented. -/
theorem indented {line : String} {args : List String} (h : IsLineOf line args) {gap : String}
    (hgap : IsGap gap) : IsLineOf (gap ++ line) args := by
  have hne : line.toList ≠ [] := by
    intro hnil
    have htokens := h.tokens
    rw [tokenise_eq_ok_iff, hnil, Argument.scan_nil] at htokens
    exact h.ne (by simpa using htokens.symm)
  refine ⟨h.ne, ?_, ?_, ?_⟩
  · rw [tokenise_eq_ok_iff, String.toList_append,
      Argument.scan_blankRun fun c hc => (hgap c hc).1]
    exact tokenise_eq_ok_iff.1 h.tokens
  · have hfeed : '\n' ∉ gap.toList := fun hmem => (hgap _ hmem).2 rfl
    simpa [hfeed] using h.noFeed
  · have hreturn := h.noReturn
    -- A line that ends in a return would lose it when it is read.
    have hlast : line.toList.getLast? ≠ some '\r' := by
      intro hlast
      rw [dropReturn, if_pos hlast] at hreturn
      have hlength := congrArg List.length hreturn
      rw [List.length_dropLast] at hlength
      have := List.length_pos_of_ne_nil hne
      omega
    rw [String.toList_append, dropReturn, List.getLast?_append, if_neg]
    cases hcase : line.toList.getLast? with
    | none => exact absurd (List.getLast?_eq_none_iff.1 hcase) hne
    | some c => simpa [hcase] using hlast

end IsLineOf

theorem AreLinesOf.indented {lines : List String} {lists : List (List String)}
    (h : AreLinesOf lines lists) : AreLinesOf (indent lines) lists := by
  have hgap : IsGap "  " := by decide
  exact List.forall₂_map_left_iff.2 (h.imp fun _ _ hline => hline.indented hgap)

theorem AreLinesOf.append {lines lines' : List String} {lists lists' : List (List String)}
    (h : AreLinesOf lines lists) (h' : AreLinesOf lines' lists') :
    AreLinesOf (lines ++ lines') (lists ++ lists') := List.rel_append h h'

/-- Arguments with the numbers of their lines. -/
def numbered (lists : List (List String)) (number : Nat) : List ArgumentLine :=
  (lists.zipIdx number).map fun (args, i) => ⟨i, .ok args⟩

@[simp] theorem numbered_nil (number : Nat) : numbered [] number = [] := rfl

@[simp] theorem numbered_cons (args : List String) (lists : List (List String)) (number : Nat) :
    numbered (args :: lists) number = ⟨number, .ok args⟩ :: numbered lists (number + 1) := rfl

theorem numbered_append (lists lists' : List (List String)) (number : Nat) :
    numbered (lists ++ lists') number =
      numbered lists number ++ numbered lists' (number + lists.length) := by
  rw [numbered, List.zipIdx_append, List.map_append]
  rfl

/-- **A text of lines is read as their arguments.** -/
theorem argumentLines_joinLines {lines : List String} {lists : List (List String)}
    (h : AreLinesOf lines lists) : argumentLines (joinLines lines) = numbered lists 1 := by
  have hall : ∀ line ∈ lines, '\n' ∉ line.toList ∧ dropReturn line.toList = line.toList := by
    induction h with
    | nil => simp
    | cons hline _ ih => exact List.forall_mem_cons.2 ⟨⟨hline.noFeed, hline.noReturn⟩, ih⟩
  rw [argumentLines, linesOf_joinLines (fun line hline => (hall line hline).1)
    (fun line hline => (hall line hline).2)]
  generalize 1 = number
  clear hall
  induction h generalizing number with
  | nil => rfl
  | @cons line args lines lists hline _ ih =>
      have hne := hline.ne
      rw [List.zipIdx_cons, List.filterMap_cons, numbered_cons, ← ih]
      dsimp only
      rw [hline.tokens]
      cases args with
      | nil => exact absurd rfl hne
      | cons a args => rfl

end SiteAnalysis
