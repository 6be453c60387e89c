import SiteAnalysis.Proofs.Text.Grammar

set_option autoImplicit false

/-! # Walks over lines

A text falls into lines at its line feeds (`AreLines`). A walk over them stops at every line that
holds arguments or cannot be split, and passes over the others (`LineReader.outcome?`). Main
statement:

* `LineReader.walk_follows_lines`: the calls of a walk tell the outcomes of the lines in order and
  then, for ever, that the text has ended. Hence lines written from arguments are read back exactly
  when the arguments are writable and hold no line feed.
-/

namespace SiteAnalysis

/-! ## The lines of a text -/

/-- **The lines of a text.** A carriage return before a line feed belongs to no line; behind the
last line feed there is a line only if there is any text. -/
inductive AreLines : List String → List Char → Prop
  | nil : AreLines [] []
  | unclosed {line : List Char} (hne : line ≠ []) (hline : '\n' ∉ line) :
      AreLines [String.ofList line] line
  | cons {line rest : List Char} {lines : List String} (hline : '\n' ∉ line)
      (hrest : AreLines lines rest) :
      AreLines (String.ofList (dropReturn line) :: lines) (line ++ '\n' :: rest)

theorem splitAtLineFeeds_of_not_mem {line : List Char} (h : '\n' ∉ line) :
    splitAtLineFeeds line = [line] := by
  induction line with
  | nil => rfl
  | cons c cs ih =>
      obtain ⟨hc, hcs⟩ : '\n' ≠ c ∧ '\n' ∉ cs := by simpa using h
      simp [splitAtLineFeeds, Ne.symm hc, ih hcs]

theorem splitAtLineFeeds_append {line : List Char} (h : '\n' ∉ line) (rest : List Char) :
    splitAtLineFeeds (line ++ '\n' :: rest) = line :: splitAtLineFeeds rest := by
  induction line with
  | nil => simp [splitAtLineFeeds]
  | cons c cs ih =>
      obtain ⟨hc, hcs⟩ : '\n' ≠ c ∧ '\n' ∉ cs := by simpa using h
      simp [splitAtLineFeeds, Ne.symm hc, ih hcs]

theorem splitAtLineFeeds_ne_nil (cs : List Char) : splitAtLineFeeds cs ≠ [] := by
  cases cs with
  | nil => simp [splitAtLineFeeds]
  | cons c cs =>
      rw [splitAtLineFeeds]
      split
      · simp
      · split <;> simp

theorem linesOf_ofList_of_not_mem {line : List Char} (h : '\n' ∉ line) :
    linesOf (String.ofList line) = if line = [] then [] else [String.ofList line] := by
  unfold linesOf
  cases line with
  | nil => rfl
  | cons c cs => simp [splitAtLineFeeds_of_not_mem h]

/-- A line feed ends the first line. -/
theorem linesOf_ofList_append {line : List Char} (h : '\n' ∉ line) (rest : List Char) :
    linesOf (String.ofList (line ++ '\n' :: rest)) =
      String.ofList (dropReturn line) :: linesOf (String.ofList rest) := by
  unfold linesOf
  obtain ⟨part, parts, hparts⟩ := List.exists_cons_of_ne_nil (splitAtLineFeeds_ne_nil rest)
  simp only [String.toList_ofList, splitAtLineFeeds_append h, hparts, List.dropLast_cons_cons,
    List.getLast?_cons_cons, List.map_cons]
  split <;> simp

theorem areLines_linesOf_ofList (cs : List Char) : AreLines (linesOf (String.ofList cs)) cs := by
  by_cases h : '\n' ∈ cs
  -- The first line feed closes the first line, and the text behind it is shorter.
  · obtain ⟨line, rest, hcs, hline⟩ := List.eq_append_cons_of_mem h
    have hlength : rest.length < cs.length := by
      simp only [hcs, List.length_append, List.length_cons]
      omega
    rw [hcs, linesOf_ofList_append hline]
    exact .cons hline (areLines_linesOf_ofList rest)
  · rw [linesOf_ofList_of_not_mem h]
    split
    · rename_i hnil
      subst hnil
      exact .nil
    · rename_i hne
      exact .unclosed hne h
  termination_by cs.length

theorem linesOf_ofList_of_areLines {lines : List String} {cs : List Char}
    (h : AreLines lines cs) : linesOf (String.ofList cs) = lines := by
  induction h with
  | nil => rfl
  | unclosed hne hline => rw [linesOf_ofList_of_not_mem hline, if_neg hne]
  | cons hline hrest ih => rw [linesOf_ofList_append hline, ih]

/-- **`linesOf` gives the lines of a text.** -/
theorem areLines_iff {text : String} {lines : List String} :
    AreLines lines text.toList ↔ linesOf text = lines := by
  constructor
  · intro h
    simpa using linesOf_ofList_of_areLines h
  · rintro rfl
    simpa using areLines_linesOf_ofList text.toList

theorem isPrefix_dropReturn (line : List Char) : dropReturn line <+: line := by
  unfold dropReturn
  split
  · exact List.dropLast_prefix line
  · exact List.prefix_refl line

/-- No line holds a line feed. -/
theorem AreLines.not_mem {lines : List String} {cs : List Char} (h : AreLines lines cs) :
    ∀ line ∈ lines, '\n' ∉ line.toList := by
  induction h with
  | nil => simp
  | unclosed hne hline => simpa using hline
  | @cons line rest lines hline hrest ih =>
      refine List.forall_mem_cons.2 ⟨?_, ih⟩
      rw [String.toList_ofList]
      exact fun hmem => hline ((isPrefix_dropReturn line).subset hmem)

/-- The characters of a line are characters of the text. -/
theorem AreLines.subset {lines : List String} {cs : List Char} (h : AreLines lines cs) :
    ∀ line ∈ lines, line.toList ⊆ cs := by
  induction h with
  | nil => simp
  | unclosed hne hline => simp
  | @cons line rest lines hline hrest ih =>
      refine List.forall_mem_cons.2 ⟨?_, fun l hl => ?_⟩
      · rw [String.toList_ofList]
        exact List.Subset.trans (isPrefix_dropReturn line).subset (List.subset_append_left _ _)
      · intro c hc
        exact List.mem_append_right _ (List.mem_cons_of_mem _ (ih l hl hc))

theorem subset_of_mem_linesOf {text line : String} (h : line ∈ linesOf text) :
    line.toList ⊆ text.toList :=
  (areLines_iff.2 rfl).subset line h

/-- **Lines closed by line feeds are the lines of their text** if they hold no line feed and do not
end with a carriage return. -/
theorem linesOf_joinLines {lines : List String} (hfeed : ∀ line ∈ lines, '\n' ∉ line.toList)
    (hreturn : ∀ line ∈ lines, dropReturn line.toList = line.toList) :
    linesOf (joinLines lines) = lines := by
  rw [← areLines_iff]
  induction lines with
  | nil => exact .nil
  | cons line lines ih =>
      rw [List.forall_mem_cons] at hfeed hreturn
      have hcons := AreLines.cons hfeed.1 (ih hfeed.2 hreturn.2)
      rw [hreturn.1, String.ofList_toList] at hcons
      simpa [joinLines, String.toList_join] using hcons

/-! ## Written lines -/

/-- Blanks without a line feed. -/
def IsGap (s : String) : Prop := ∀ c ∈ s.toList, isBlank c = true ∧ c ≠ '\n'

instance (s : String) : Decidable (IsGap s) :=
  decidable_of_iff (s.toList.all fun c => isBlank c && c != '\n') (by simp [IsGap])

/-- **A line on which arguments are written**, indented and separated by the given blanks. -/
def writtenLine (indent sep : String) (args : List String) : String :=
  indent ++ sep.intercalate (args.map quote)

theorem toList_quote (a : String) :
    (Argument.needsQuotes a = false ∧ (quote a).toList = a.toList) ∨
      ∃ q, Argument.isQuote q = true ∧ (quote a).toList = q :: (a.toList ++ [q]) := by
  unfold quote
  split
  · rename_i hneeds
    exact Or.inl ⟨by simpa using hneeds, rfl⟩
  split
  · exact Or.inr ⟨'"', rfl, by simp⟩
  · exact Or.inr ⟨'\'', rfl, by simp⟩

/-- A written argument ends with a character that is no blank. -/
theorem exists_toList_quote_eq (a : String) :
    ∃ front c, (quote a).toList = front ++ [c] ∧ isBlank c = false := by
  rcases toList_quote a with ⟨hneeds, hplain⟩ | ⟨q, hq, hquoted⟩
  · simp only [Argument.needsQuotes, Bool.or_eq_false_iff, List.any_eq_false] at hneeds
    have hne : a.toList ≠ [] := by simpa using hneeds.1
    refine ⟨a.toList.dropLast, a.toList.getLast hne, ?_, ?_⟩
    · rw [hplain, List.dropLast_concat_getLast]
    · have hlast := hneeds.2 _ (List.getLast_mem hne)
      simp_all
  · exact ⟨q :: a.toList, q, hquoted, Argument.isBlank_of_isQuote hq⟩

theorem lineFeed_mem_quote_iff (a : String) : '\n' ∈ (quote a).toList ↔ '\n' ∈ a.toList := by
  rcases toList_quote a with ⟨-, hplain⟩ | ⟨q, hq, hquoted⟩
  · rw [hplain]
  · have hne : '\n' ≠ q := by
      rintro rfl
      cases hq
    simp [hquoted, hne]

section

variable {indent sep : String} (hindent : IsGap indent) (hsep : IsGap sep)

/-- A line written from arguments ends with a character that is no blank. -/
theorem exists_toList_writtenLine_eq (indent sep : String) {args : List String} (hne : args ≠ []) :
    ∃ front c, (writtenLine indent sep args).toList = front ++ [c] ∧ isBlank c = false := by
  have hbody : ∃ front c,
      (sep.intercalate (args.map quote)).toList = front ++ [c] ∧ isBlank c = false := by
    induction args with
    | nil => exact absurd rfl hne
    | cons a args ih =>
        cases args with
        | nil =>
            rw [List.map_cons, List.map_nil, String.intercalate_singleton]
            exact exists_toList_quote_eq a
        | cons a' args =>
            obtain ⟨front, c, hfront, hc⟩ := ih (by simp)
            refine ⟨(quote a ++ sep).toList ++ front, c, ?_, hc⟩
            rw [List.map_cons, List.map_cons, String.intercalate_cons_cons, ← List.map_cons,
              String.toList_append, hfront, List.append_assoc]
  obtain ⟨front, c, hfront, hc⟩ := hbody
  exact ⟨indent.toList ++ front, c, by rw [writtenLine, String.toList_append, hfront,
    List.append_assoc], hc⟩

theorem dropReturn_writtenLine (indent sep : String) {args : List String} (hne : args ≠ []) :
    dropReturn (writtenLine indent sep args).toList = (writtenLine indent sep args).toList := by
  obtain ⟨front, c, hfront, hc⟩ := exists_toList_writtenLine_eq indent sep hne
  have hreturn : c ≠ '\r' := by
    rintro rfl
    cases hc
  rw [hfront, dropReturn, if_neg (by simpa using hreturn)]

include hindent hsep

/-- **A written line holds no line feed** unless one of its arguments does. -/
theorem lineFeed_not_mem_writtenLine {args : List String} (h : ∀ a ∈ args, '\n' ∉ a.toList) :
    '\n' ∉ (writtenLine indent sep args).toList := by
  have hbody : '\n' ∉ (sep.intercalate (args.map quote)).toList := by
    induction args with
    | nil => simp
    | cons a args ih =>
        rw [List.forall_mem_cons] at h
        have ha : '\n' ∉ (quote a).toList := fun hmem => h.1 ((lineFeed_mem_quote_iff a).1 hmem)
        by_cases hargs : args = []
        · simpa [hargs] using ha
        · rw [List.map_cons, String.intercalate_cons_of_ne_nil (by simpa using hargs)]
          have hgap : '\n' ∉ sep.toList := fun hmem => (hsep _ hmem).2 rfl
          simpa [ha, hgap] using ih h.2
  have hgap : '\n' ∉ indent.toList := fun hmem => (hindent _ hmem).2 rfl
  simpa [writtenLine, hgap] using hbody

omit hindent in
theorem writtenFrom_intercalate (hne : sep ≠ "") (args : List String) :
    WrittenFrom args (sep.intercalate (args.map quote)).toList := by
  induction args with
  | nil => exact .nil
  | cons a args ih =>
      by_cases hargs : args = []
      · have hlast : WrittenFrom [a] ((quote a).toList ++ ([] ++ [])) :=
          .cons (List.forall_mem_nil _) (absurd rfl) .nil
        simpa [hargs] using hlast
      · have hgap : IsBlankRun sep.toList := fun c hc => (hsep c hc).1
        have hcons : WrittenFrom (a :: args) ((quote a).toList ++
            (sep.toList ++ (sep.intercalate (args.map quote)).toList)) :=
          .cons hgap (fun _ => by simpa using hne) ih
        rw [List.map_cons, String.intercalate_cons_of_ne_nil (by simpa using hargs)]
        simpa using hcons

/-- **What is on a written line** is read back exactly when it is writable. -/
theorem tokenise_writtenLine_iff (hne : sep ≠ "") (args : List String) :
    tokenise (writtenLine indent sep args) = .ok args ↔ ∀ a ∈ args, isWritable a = true := by
  rw [tokenise_eq_ok_iff, writtenLine, String.toList_append,
    Argument.scan_blankRun fun c hc => (hindent c hc).1]
  exact Argument.scan_writtenFrom_iff (writtenFrom_intercalate hsep hne args) []

end

/-! ## The calls of a walk -/

namespace LineReader

/-- What a walk tells of a line: the result of a call, the number of the line and its arguments.
Of a line without arguments it tells nothing. -/
def outcome? (number : Nat) (line : String) : Option (Except Error Bool × Nat × List String) :=
  match tokenise line with
  | .error e => some (.error (.onLine number e), number, [])
  | .ok [] => none
  | .ok args => some (.ok true, number, args)

/-- **The outcomes of some lines**, the first of which has the number `number + 1`. -/
def outcomes (lines : List String) (number : Nat) : List (Except Error Bool × Nat × List String) :=
  (lines.zipIdx (number + 1)).filterMap fun (line, i) => outcome? i line

/-- The walk after some calls. -/
def after : Nat → LineReader → LineReader
  | 0, r => r
  | k + 1, r => after k r.next.2

/-- **What a call tells** after `k` others: its result, the number of the line and its arguments. -/
def call (r : LineReader) (k : Nat) : Except Error Bool × Nat × List String :=
  let (result, r') := (r.after k).next
  (result, r'.number, r'.args)

@[simp] theorem outcomes_nil (number : Nat) : outcomes [] number = [] := rfl

theorem outcomes_cons (line : String) (lines : List String) (number : Nat) :
    outcomes (line :: lines) number =
      (outcome? (number + 1) line).toList ++ outcomes lines (number + 1) := by
  rw [outcomes, List.zipIdx_cons, List.filterMap_cons]
  dsimp only
  cases outcome? (number + 1) line <;> rfl

theorem outcome?_of_ok {line : String} {args : List String} (h : tokenise line = .ok args)
    (number : Nat) :
    outcome? number line = if args = [] then none else some (.ok true, number, args) := by
  unfold outcome?
  rw [h]
  cases args <;> rfl

/-- A line that cannot be split gives an argument error, which is placed on the line. -/
theorem atLine_of_tokenise {line : String} {e : Error} (h : tokenise line = .error e)
    (number : Nat) : e.atLine number = .onLine number e := by
  unfold tokenise at h
  split at h
  · cases h
  · cases h
    rfl

/-- What the walk has gone over when it stops: nothing with an outcome but the line it stops at. -/
theorem advance_spec (lines : List String) (number : Nat) :
    (outcomes lines number = [] ∧
      advance lines number = (.ok false, ⟨[], number + lines.length, []⟩)) ∨
    ∃ result i args rest, outcomes lines number = (result, i, args) :: outcomes rest i ∧
      advance lines number = (result, ⟨rest, i, args⟩) ∧
      i + rest.length = number + lines.length := by
  induction lines generalizing number with
  | nil => exact Or.inl ⟨rfl, rfl⟩
  | cons line rest ih =>
      have hlength : number + 1 + rest.length = number + (line :: rest).length := by
        rw [List.length_cons]
        omega
      rw [outcomes_cons, advance, ← hlength]
      split
      · rename_i e htoken
        rw [atLine_of_tokenise htoken]
        exact Or.inr ⟨_, _, _, rest, by simp [outcome?, htoken], rfl, rfl⟩
      -- A line without arguments has no outcome, and the walk goes on behind it.
      · rename_i htoken
        simpa [outcome?, htoken] using ih (number + 1)
      · rename_i args hne htoken
        have hargs : args ≠ [] := hne
        exact Or.inr ⟨_, _, _, rest, by simp [outcome?_of_ok htoken, hargs], rfl, rfl⟩

/-- **The calls of a walk**: the outcomes of its lines, and then the end of the text for ever. -/
theorem call_eq (r : LineReader) (k : Nat) :
    r.call k =
      ((outcomes r.rest r.number)[k]?).getD (.ok false, r.number + r.rest.length, []) := by
  induction k generalizing r with
  | zero =>
      rcases advance_spec r.rest r.number with ⟨hnone, hadvance⟩ | ⟨_, _, _, _, hsome, hadvance, -⟩
      · simp [call, after, next, hnone, hadvance]
      · simp [call, after, next, hsome, hadvance]
  | succ k ih =>
      have hcall : r.call (k + 1) = r.next.2.call k := rfl
      rw [hcall, ih, next]
      rcases advance_spec r.rest r.number with
        ⟨hnone, hadvance⟩ | ⟨_, _, _, rest, hsome, hadvance, hlength⟩
      · simp [hnone, hadvance]
      · simp [hsome, hadvance, hlength]

theorem call_ofText (text : String) (k : Nat) :
    (ofText text).call k =
      ((outcomes (linesOf text) 0)[k]?).getD (.ok false, (linesOf text).length, []) := by
  rw [call_eq]
  simp [ofText]

theorem mem_outcomes {lines : List String} {o : Except Error Bool × Nat × List String}
    (h : o ∈ outcomes lines 0) :
    ∃ i line, lines[i]? = some line ∧ outcome? (i + 1) line = some o := by
  obtain ⟨⟨line, i⟩, hmem, ho⟩ := List.mem_filterMap.1 h
  obtain ⟨hi, hline⟩ := List.mk_mem_zipIdx_iff_le_and_getElem?_sub.1 hmem
  refine ⟨i - 1, line, hline, ?_⟩
  simpa [Nat.sub_add_cancel hi] using ho

/-- Arguments that a call gives stand on the line of their number. -/
theorem tokenise_of_call {text : String} {k i : Nat} {args : List String}
    (h : (ofText text).call k = (.ok true, i + 1, args)) :
    ∃ line, (linesOf text)[i]? = some line ∧ tokenise line = .ok args := by
  rw [call_ofText] at h
  cases hk : (outcomes (linesOf text) 0)[k]? with
  | none => simp [hk] at h
  | some o =>
      obtain rfl : o = _ := by simpa [hk] using h
      obtain ⟨j, line, hline, ho⟩ := mem_outcomes (List.mem_of_getElem? hk)
      unfold outcome? at ho
      split at ho
      · cases ho
      · cases ho
      · rename_i htoken
        obtain ⟨rfl, rfl⟩ : j = i ∧ _ = args := by simpa using ho
        exact ⟨line, hline, htoken⟩

/-- **The text written from some lists of arguments**, a line for each. -/
def writtenText (indent sep : String) (lists : List (List String)) : String :=
  joinLines (lists.map (writtenLine indent sep))

/-- Whether a walk over a text gives some lists of arguments, one on each line. -/
def Gives (text : String) (lists : List (List String)) : Prop :=
  ∀ k, (ofText text).call k =
    match lists[k]? with
    | some args => (.ok true, k + 1, args)
    | none => (.ok false, lists.length, [])

theorem getElem?_outcomes_map {f : List String → String} {lists : List (List String)}
    (h : ∀ args ∈ lists, args ≠ [] ∧ tokenise (f args) = .ok args) (number k : Nat) :
    (outcomes (lists.map f) number)[k]? =
      lists[k]?.map fun args => (.ok true, number + k + 1, args) := by
  induction lists generalizing number k with
  | nil => simp
  | cons args lists ih =>
      rw [List.forall_mem_cons] at h
      rw [List.map_cons, outcomes_cons, outcome?_of_ok h.1.2, if_neg h.1.1]
      cases k with
      | zero => simp
      | succ k =>
          have := ih h.2 (number + 1) k
          simpa [Nat.add_right_comm, Nat.add_assoc] using this

/-- A list that a walk gives stands on the line of its number. -/
theorem exists_line_of_gives {text : String} {lists : List (List String)} (h : Gives text lists)
    {i : Nat} {args : List String} (hi : lists[i]? = some args) :
    ∃ line, (linesOf text)[i]? = some line ∧ tokenise line = .ok args := by
  have := h i
  rw [hi] at this
  exact tokenise_of_call this

section

variable {indent sep : String} (hindent : IsGap indent) (hsep : IsGap sep) (hne : sep ≠ "")
  {lists : List (List String)} (hlists : ∀ args ∈ lists, args ≠ [])

include hindent hsep hlists

/-- Without line feeds in the arguments, the written lines are the lines of the text. -/
theorem linesOf_writtenText (hfeed : ∀ args ∈ lists, ∀ a ∈ args, '\n' ∉ a.toList) :
    linesOf (writtenText indent sep lists) = lists.map (writtenLine indent sep) := by
  refine linesOf_joinLines (List.forall_mem_map.2 fun args hargs => ?_)
    (List.forall_mem_map.2 fun args hargs => ?_)
  · exact lineFeed_not_mem_writtenLine hindent hsep (hfeed args hargs)
  · exact dropReturn_writtenLine indent sep (hlists args hargs)

include hne

/-- **What is written is given back** exactly when it is writable and holds no line feed. -/
theorem gives_writtenText_iff : Gives (writtenText indent sep lists) lists ↔
    ∀ args ∈ lists, ∀ a ∈ args, isWritable a = true ∧ '\n' ∉ a.toList := by
  constructor
  · intro h
    -- No line of a text holds a line feed, so neither do arguments that stand on one.
    have hfeed : ∀ args ∈ lists, ∀ a ∈ args, '\n' ∉ a.toList := by
      intro args hargs a ha hmem
      obtain ⟨i, hi⟩ := List.getElem?_of_mem hargs
      obtain ⟨line, hline, htoken⟩ := exists_line_of_gives h hi
      exact (areLines_iff.2 rfl).not_mem line (List.mem_of_getElem? hline)
        (subset_of_tokenise htoken ha hmem)
    intro args hargs a ha
    refine ⟨?_, hfeed args hargs a ha⟩
    obtain ⟨i, hi⟩ := List.getElem?_of_mem hargs
    obtain ⟨line, hline, htoken⟩ := exists_line_of_gives h hi
    rw [linesOf_writtenText hindent hsep hlists hfeed, List.getElem?_map, hi] at hline
    obtain rfl : writtenLine indent sep args = line := by simpa using hline
    exact (tokenise_writtenLine_iff hindent hsep hne args).1 htoken a ha
  · intro h k
    have hfeed : ∀ args ∈ lists, ∀ a ∈ args, '\n' ∉ a.toList :=
      fun args hargs a ha => (h args hargs a ha).2
    have htoken : ∀ args ∈ lists, args ≠ [] ∧ tokenise (writtenLine indent sep args) = .ok args :=
      fun args hargs => ⟨hlists args hargs, (tokenise_writtenLine_iff hindent hsep hne args).2
        fun a ha => (h args hargs a ha).1⟩
    rw [call_ofText, linesOf_writtenText hindent hsep hlists hfeed,
      getElem?_outcomes_map htoken]
    cases lists[k]? <;> simp

end

/-- **A walk follows the lines of its text.** Its calls tell the outcomes of the lines in order, and
then for ever that the text has ended. Hence a text that is written from lists of arguments gives
these lists back, one on each line, exactly when all arguments are writable and hold no line
feed. -/
theorem walk_follows_lines :
    (∀ (text : String) (lines : List String),
      AreLines lines text.toList ↔ linesOf text = lines) ∧
    (∀ (text : String) (k : Nat), (ofText text).call k =
      ((outcomes (linesOf text) 0)[k]?).getD (.ok false, (linesOf text).length, [])) ∧
    (∀ (indent sep : String) (lists : List (List String)), IsGap indent → IsGap sep → sep ≠ "" →
      (∀ args ∈ lists, args ≠ []) →
      (Gives (writtenText indent sep lists) lists ↔
        ∀ args ∈ lists, ∀ a ∈ args, isWritable a = true ∧ '\n' ∉ a.toList)) :=
  ⟨fun _ _ => areLines_iff, call_ofText, fun _ _ _ hindent hsep hne hlists =>
    gives_writtenText_iff hindent hsep hne hlists⟩

/-- Two written lines with a quote of either kind and a carriage return in their arguments are given
back. -/
theorem walk_over_two_written_lines :
    (IsGap "  " ∧ IsGap "\t" ∧ "\t" ≠ "" ∧
      ∀ args ∈ [["Label", "it's"], ["say \"hi\"", "end\r"]], args ≠ []) ∧
    Gives (writtenText "  " "\t" [["Label", "it's"], ["say \"hi\"", "end\r"]])
      [["Label", "it's"], ["say \"hi\"", "end\r"]] := by
  have h : IsGap "  " ∧ IsGap "\t" ∧ "\t" ≠ "" ∧
      ∀ args ∈ [["Label", "it's"], ["say \"hi\"", "end\r"]], args ≠ [] := by
    refine ⟨by decide, by decide, by decide, by decide⟩
  exact ⟨h, (walk_follows_lines.2.2 "  " "\t" _ h.1 h.2.1 h.2.2.1 h.2.2.2).2 (by decide)⟩

end LineReader

end SiteAnalysis
