import SiteAnalysis.Text.Line

set_option autoImplicit false

/-! # Written arguments read back

A line may be put together from arguments written by `quote`, with blanks between them and at
both ends (`Written`). Reading such a line gives the arguments back exactly when each of them is
writable (`tokenise_eq_ok_iff_isWritable`).

One argument at a time, `scan` reads a writable one back (`scan_quote`) and takes something else
in the place of one that is not (`scan_quote_of_not_isWritable`). What it has read it keeps
(`reverse_prefix_of_scan`), so nothing behind an unwritable argument makes up for it.
-/

namespace SiteAnalysis

/-- A run of blanks, which may be empty. -/
def IsBlankRun (cs : List Char) : Prop := ∀ c ∈ cs, isBlank c = true

instance (cs : List Char) : Decidable (IsBlankRun cs) :=
  decidable_of_iff (cs.all isBlank = true) List.all_eq_true

/-- Arguments from the start of a text on, each written by `quote` and followed by blanks. Only
behind the last one there may be no blank. -/
inductive WrittenFrom : List String → List Char → Prop
  | nil : WrittenFrom [] []
  | cons {a : String} {args : List String} {gap rest : List Char} (hgap : IsBlankRun gap)
      (hsep : args ≠ [] → gap ≠ []) (hrest : WrittenFrom args rest) :
      WrittenFrom (a :: args) ((quote a).toList ++ (gap ++ rest))

/-- **A line on which the given arguments are written**, with any blanks before the first. -/
def Written (args : List String) (line : String) : Prop :=
  ∃ lead body, IsBlankRun lead ∧ WrittenFrom args body ∧ line.toList = lead ++ body

namespace Argument

/-! ## Steps of the scan -/

theorem scan_nil (args : List (List Char)) : scan [] args = .ok args.reverse := by
  rw [scan.eq_def]

theorem scan_blank {c : Char} (hc : isBlank c = true) (cs : List Char) (args : List (List Char)) :
    scan (c :: cs) args = scan cs args := by
  rw [scan.eq_def]
  exact if_pos hc

theorem scan_blankRun {ws : List Char} (h : IsBlankRun ws) (cs : List Char)
    (args : List (List Char)) : scan (ws ++ cs) args = scan cs args := by
  induction ws with
  | nil => rfl
  | cons c ws ih =>
      rw [List.cons_append, scan_blank (h c (by simp))]
      exact ih fun d hd => h d (by simp [hd])

theorem isBlank_of_isQuote {c : Char} (hc : isQuote c = true) : isBlank c = false := by
  rcases (by simpa [isQuote] using hc : c = '\'' ∨ c = '"') with rfl | rfl <;> decide

theorem ne_hash_of_isQuote {c : Char} (hc : isQuote c = true) : (c == '#') = false := by
  rcases (by simpa [isQuote] using hc : c = '\'' ∨ c = '"') with rfl | rfl <;> decide

theorem scan_quoted {c : Char} (hc : isQuote c = true) {cs body rest : List Char}
    (h : splitAtFirst (· == c) cs = some (body, rest)) (args : List (List Char)) :
    scan (c :: cs) args = scan rest (body :: args) := by
  rw [scan.eq_def]
  simp only [isBlank_of_isQuote hc, ne_hash_of_isQuote hc, hc, Bool.false_eq_true, if_false,
    if_true]
  split
  · rename_i body' rest' h'
    obtain ⟨rfl, rfl⟩ : body' = body ∧ rest' = rest := by simpa [h] using h'.symm
    rfl
  · rename_i h'
    simp [h] at h'

theorem scan_bare {c : Char} {cs : List Char} (hb : isBlank c = false) (hh : (c == '#') = false)
    (hq : isQuote c = false) (args : List (List Char)) :
    scan (c :: cs) args =
      scan (cs.dropWhile fun d => !isBlank d) ((c :: cs.takeWhile fun d => !isBlank d) :: args) := by
  rw [scan.eq_def]
  simp only [hb, hh, hq, Bool.false_eq_true, if_false]

/-- The scan keeps what it has read. -/
theorem reverse_prefix_of_scan {cs : List Char} {args result : List (List Char)}
    (h : scan cs args = .ok result) : args.reverse <+: result := by
  -- By induction on the scan: a step adds one argument at most, in front of those kept.
  fun_induction scan cs args with
  | case1 args => simp_all
  | case2 args c cs hb ih => exact ih h
  | case3 args c cs hb hh => simp_all
  | case4 args c cs hb hh hq body rest hs ih =>
      exact (List.prefix_append _ _).trans (by simpa using ih h)
  | case5 args c cs hb hh hq hs => simp at h
  | case6 args c cs hb hh hq ih =>
      exact (List.prefix_append _ _).trans (by simpa using ih h)

/-! ## One written argument -/

theorem splitAtFirst_append {c : Char} {body : List Char} (h : c ∉ body) (rest : List Char) :
    splitAtFirst (· == c) (body ++ c :: rest) = some (body, rest) := by
  induction body with
  | nil => simp [splitAtFirst]
  | cons d body ih =>
      have hd : (d == c) = false := by simpa using fun e : d = c => h (by simp [e])
      have hb : c ∉ body := fun hm => h (by simp [hm])
      simp [splitAtFirst, hd, ih hb]

/-- A text that holds the closing character is cut off at the first one. -/
theorem exists_splitAtFirst_of_mem {c : Char} {body : List Char} (h : c ∈ body) (rest : List Char) :
    ∃ front back, splitAtFirst (· == c) (body ++ rest) = some (front, back) ∧ c ∉ front := by
  obtain ⟨front, tail, hbody, hfront⟩ := List.eq_append_cons_of_mem h
  refine ⟨front, tail ++ rest, ?_, hfront⟩
  rw [hbody, List.append_assoc, List.cons_append]
  exact splitAtFirst_append hfront (tail ++ rest)

theorem takeWhile_append_of_stop {p : Char → Bool} {run tail : List Char}
    (hrun : ∀ c ∈ run, p c = true) (htail : ∀ c ∈ tail.head?, p c = false) :
    (run ++ tail).takeWhile p = run := by
  rw [List.takeWhile_append_of_pos hrun]
  cases tail with
  | nil => simp
  | cons c cs => simp [htail c rfl]

theorem dropWhile_append_of_stop {p : Char → Bool} {run tail : List Char}
    (hrun : ∀ c ∈ run, p c = true) (htail : ∀ c ∈ tail.head?, p c = false) :
    (run ++ tail).dropWhile p = tail := by
  rw [List.dropWhile_append_of_pos hrun]
  cases tail with
  | nil => rfl
  | cons c cs => simp [htail c rfl]

/-- Whether a text is empty or starts with a blank, so that an argument before it has ended. -/
def EndsWord (cs : List Char) : Prop := ∀ c ∈ cs.head?, isBlank c = true

theorem takeWhile_word {word rest : List Char} (hw : ∀ c ∈ word, isBlank c = false)
    (hr : EndsWord rest) : (word ++ rest).takeWhile (fun d => !isBlank d) = word :=
  takeWhile_append_of_stop (by simpa using hw) (by simpa [EndsWord] using hr)

theorem dropWhile_word {word rest : List Char} (hw : ∀ c ∈ word, isBlank c = false)
    (hr : EndsWord rest) : (word ++ rest).dropWhile (fun d => !isBlank d) = rest :=
  dropWhile_append_of_stop (by simpa using hw) (by simpa [EndsWord] using hr)

/-- Reading back an argument that is written as it stands. -/
theorem scan_unquoted {a : String} (ha : needsQuotes a = false) {rest : List Char}
    (hr : EndsWord rest) (args : List (List Char)) :
    scan (a.toList ++ rest) args = scan rest (a.toList :: args) := by
  simp only [needsQuotes, Bool.or_eq_false_iff, List.any_eq_false] at ha
  obtain ⟨hne, hplain⟩ := ha
  cases hcs : a.toList with
  | nil => simp_all
  | cons c cs =>
      have hc : isBlank c = false ∧ (c == '#') = false ∧ isQuote c = false := by
        simpa [and_assoc] using hplain c (by simp [hcs])
      have hcs' : ∀ d ∈ cs, isBlank d = false := fun d hd => by
        have := hplain d (by simp [hcs, hd])
        simp_all
      rw [List.cons_append, scan_bare hc.1 hc.2.1 hc.2.2, takeWhile_word hcs' hr,
        dropWhile_word hcs' hr]

/-- **A writable argument is read back.** -/
theorem scan_quote {a : String} (ha : isWritable a = true) {rest : List Char}
    (hr : EndsWord rest) (args : List (List Char)) :
    scan ((quote a).toList ++ rest) args = scan rest (a.toList :: args) := by
  unfold quote
  split
  · rename_i hn
    exact scan_unquoted (by simpa using hn) hr args
  split
  · rename_i hsingle
    have hdouble : '"' ∉ a.toList := by simp_all [isWritable]
    have hq : isQuote '"' = true := rfl
    simpa using scan_quoted hq (splitAtFirst_append hdouble rest) args
  · rename_i hsingle
    have hsingle' : '\'' ∉ a.toList := by simpa using hsingle
    have hq : isQuote '\'' = true := rfl
    simpa using scan_quoted hq (splitAtFirst_append hsingle' rest) args

theorem quote_of_not_isWritable {a : String} (ha : isWritable a = false) :
    (quote a).toList = '"' :: (a.toList ++ ['"']) ∧ '"' ∈ a.toList := by
  have hboth : '\'' ∈ a.toList ∧ '"' ∈ a.toList := by simpa [isWritable] using ha
  have hn : needsQuotes a = true := by
    simp only [needsQuotes, Bool.or_eq_true, List.any_eq_true]
    exact Or.inr ⟨'\'', hboth.1, by decide⟩
  refine ⟨?_, hboth.2⟩
  simp [quote, hn, hboth.1]

/-- **In the place of an argument that is not writable, something else is read**: a text without
double quotes, of which the argument holds one. -/
theorem scan_quote_of_not_isWritable {a : String} (ha : isWritable a = false) (rest : List Char)
    (args : List (List Char)) : ∃ front back, '"' ∉ front ∧
      scan ((quote a).toList ++ rest) args = scan back (front :: args) := by
  obtain ⟨hquote, hmem⟩ := quote_of_not_isWritable ha
  obtain ⟨front, back, hsplit, hfront⟩ := exists_splitAtFirst_of_mem hmem ('"' :: rest)
  refine ⟨front, back, hfront, ?_⟩
  rw [hquote, List.cons_append, List.append_assoc]
  exact scan_quoted rfl hsplit args

/-! ## Whole lines -/

theorem endsWord_of_writtenFrom {args : List String} {gap rest : List Char} (hgap : IsBlankRun gap)
    (hsep : args ≠ [] → gap ≠ []) (hrest : WrittenFrom args rest) : EndsWord (gap ++ rest) := by
  intro c hc
  cases gap with
  | nil =>
      -- Only the last argument has no blank behind it, and then nothing follows.
      cases args with
      | nil =>
          cases hrest
          simp at hc
      | cons a args => exact absurd rfl (hsep (by simp))
  | cons d gap =>
      obtain rfl : d = c := by simpa using hc
      exact hgap d (by simp)

/-- The invariant of the scan over written arguments: those behind `args` are read back exactly
when they are writable. -/
theorem scan_writtenFrom_iff {written : List String} {body : List Char}
    (h : WrittenFrom written body) (args : List (List Char)) :
    scan body args = .ok (args.reverse ++ written.map String.toList) ↔
      ∀ a ∈ written, isWritable a = true := by
  induction h generalizing args with
  | nil => simp [scan_nil]
  | @cons a written gap rest hgap hsep hrest ih =>
      by_cases ha : isWritable a = true
      · rw [scan_quote ha (endsWord_of_writtenFrom hgap hsep hrest), scan_blankRun hgap]
        have hih := ih (a.toList :: args)
        rw [List.reverse_cons, List.append_assoc] at hih
        simpa [ha] using hih
      · rw [Bool.not_eq_true] at ha
        obtain ⟨front, back, hfront, hscan⟩ := scan_quote_of_not_isWritable ha (gap ++ rest) args
        -- What is read in the place of `a` is kept to the end, whatever follows.
        refine iff_of_false (fun hok => ?_) (fun hall => by simpa [ha] using hall a (by simp))
        rw [hscan] at hok
        have hpre := reverse_prefix_of_scan hok
        rw [List.reverse_cons, List.map_cons, List.prefix_append_right_inj] at hpre
        rw [(List.cons_prefix_cons.mp hpre).1] at hfront
        exact hfront (quote_of_not_isWritable ha).2

end Argument

theorem tokenise_eq_ok_iff {line : String} {args : List String} :
    tokenise line = .ok args ↔
      Argument.scan line.toList [] = .ok (args.map String.toList) := by
  unfold tokenise
  split
  · rename_i result hscan
    rw [hscan]
    constructor
    · intro h
      cases h
      simp [List.map_map, Function.comp_def]
    · intro h
      cases h
      simp [List.map_map, Function.comp_def]
  · rename_i hscan
    simp [hscan]

/-- **Written arguments read back exactly when they are writable.** -/
theorem tokenise_eq_ok_iff_isWritable {args : List String} {line : String}
    (h : Written args line) : tokenise line = .ok args ↔ ∀ a ∈ args, isWritable a = true := by
  obtain ⟨lead, body, hlead, hbody, hline⟩ := h
  rw [tokenise_eq_ok_iff, hline, Argument.scan_blankRun hlead]
  exact Argument.scan_writtenFrom_iff hbody []

/-- Quotes of all three kinds, an empty argument and a blank that is not ASCII. -/
theorem tokenise_two_words_and_quotes :
    Written ["two words", "it's", "", "x"] "\t'two words' \"it's\"\u00a0''  x" ∧
      tokenise "\t'two words' \"it's\"\u00a0''  x" = .ok ["two words", "it's", "", "x"] := by
  have h : Written ["two words", "it's", "", "x"] "\t'two words' \"it's\"\u00a0''  x" := by
    have hspace : IsBlankRun [' '] := by decide
    have hwide : IsBlankRun ['\u00a0'] := by decide
    have htwo : IsBlankRun [' ', ' '] := by decide
    have hnone : IsBlankRun [] := by decide
    refine ⟨['\t'], _, by decide, .cons hspace (by simp) (.cons hwide (by simp)
      (.cons htwo (by simp) (.cons hnone (by simp) .nil))), ?_⟩
    decide
  exact ⟨h, (tokenise_eq_ok_iff_isWritable h).2 (by decide)⟩

end SiteAnalysis
