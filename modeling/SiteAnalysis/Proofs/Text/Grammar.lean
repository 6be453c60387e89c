import Mathlib.Data.List.TakeWhile
import SiteAnalysis.Proofs.Text.Quoting

set_option autoImplicit false

/-! # The grammar of lines

A line is made of pieces: runs of blanks, arguments in quotes and bare arguments. Behind them may
stand a comment. `Pieces` says which pieces stand at the front of a text, seen together with what
is behind them, so that blanks and bare arguments always reach as far as they can. Main statement:

* `tokenise_follows_grammar`: a line has arguments exactly if it is made of pieces and perhaps a
  comment, which it is in one way only. Otherwise pieces lead to a quote that is not closed.

The front of a text determines the first piece (`firstPiece?_eq_some_iff`), and the scan takes up
its argument (`scan_of_firstPiece?`). All else is an induction on the pieces.
-/

namespace SiteAnalysis

namespace Argument

/-- **Pieces of a line.** -/
inductive Piece where
  | blanks (run : List Char)
  | quoted (quote : Char) (body : List Char)
  | bare (word : List Char)
  deriving DecidableEq

namespace Piece

/-- The text of a piece. -/
def chars : Piece → List Char
  | blanks run => run
  | quoted q body => q :: (body ++ [q])
  | bare word => word

/-- The argument that a piece gives. -/
def argument? : Piece → Option (List Char)
  | blanks _ => none
  | quoted _ body => some body
  | bare word => some word

/-- Whether a character starts a bare argument. -/
def StartsBare (c : Char) : Prop := isBlank c = false ∧ c ≠ '#' ∧ isQuote c = false

/-- **The form of a piece.** The body of a quoted argument is free of its quote, but may hold
everything else. -/
def WellFormed : Piece → Prop
  | blanks run => run ≠ [] ∧ IsBlankRun run
  | quoted q body => isQuote q = true ∧ q ∉ body
  | bare word => ∃ c cs, word = c :: cs ∧ StartsBare c ∧ ∀ d ∈ cs, isBlank d = false

/-- **What may stand behind a piece.** Blanks go on to the first character that is none, and a bare
argument goes on to the next blank; a quoted one ends at its quote. -/
def MayPrecede : Piece → List Char → Prop
  | blanks _, behind => ∀ c ∈ behind.head?, isBlank c = false
  | quoted _ _, _ => True
  | bare _, behind => EndsWord behind

end Piece

/-- **The pieces at the front of a text**, before `rest`. -/
inductive Pieces (rest : List Char) : List Piece → List Char → Prop
  | nil : Pieces rest [] rest
  | cons {p : Piece} {ps : List Piece} {tail : List Char} (hp : p.WellFormed)
      (hnext : p.MayPrecede tail) (htail : Pieces rest ps tail) :
      Pieces rest (p :: ps) (p.chars ++ tail)

/-- Whether a line may end with `rest` behind its pieces: with nothing or with a comment. -/
def IsEnd (rest : List Char) : Prop := ∀ c ∈ rest.head?, c = '#'

/-- The arguments that pieces give. -/
def arguments (ps : List Piece) : List String := (ps.filterMap Piece.argument?).map String.ofList

/-! ## The first piece -/

/-- The piece at the front of a text and what is behind it; none at the end of a line and before a
quote that is not closed. -/
def firstPiece? : List Char → Option (Piece × List Char)
  | [] => none
  | c :: cs =>
    if isBlank c then some (.blanks (c :: cs.takeWhile isBlank), cs.dropWhile isBlank)
    else if c == '#' then none
    else if isQuote c then
      (splitAtFirst (· == c) cs).map fun (body, tail) => (.quoted c body, tail)
    else some (.bare (c :: cs.takeWhile fun d => !isBlank d), cs.dropWhile fun d => !isBlank d)

theorem splitAtFirst_eq_some_iff {c : Char} {cs body tail : List Char} :
    splitAtFirst (· == c) cs = some (body, tail) ↔ c ∉ body ∧ cs = body ++ c :: tail := by
  constructor
  · intro h
    induction cs generalizing body with
    | nil => simp [splitAtFirst] at h
    | cons d cs ih =>
        by_cases hd : d = c
        · obtain ⟨rfl, rfl⟩ : [] = body ∧ cs = tail := by simpa [splitAtFirst, hd] using h
          simp [hd]
        · obtain ⟨body', htail, rfl⟩ : ∃ body',
              splitAtFirst (· == c) cs = some (body', tail) ∧ d :: body' = body := by
            simpa [splitAtFirst, hd] using h
          obtain ⟨hbody, rfl⟩ := ih htail
          exact ⟨by simp [Ne.symm hd, hbody], rfl⟩
  · rintro ⟨hbody, rfl⟩
    exact splitAtFirst_append hbody tail

theorem splitAtFirst_eq_none_iff {c : Char} {cs : List Char} :
    splitAtFirst (· == c) cs = none ↔ c ∉ cs := by
  constructor
  · intro h hmem
    obtain ⟨front, back, hsplit, -⟩ := exists_splitAtFirst_of_mem hmem []
    simp [h] at hsplit
  · intro h
    cases hsplit : splitAtFirst (· == c) cs with
    | none => rfl
    | some parts =>
        obtain ⟨-, rfl⟩ := splitAtFirst_eq_some_iff.1 hsplit
        simp at h

/-- **The first piece is found at the front of a text.** -/
theorem firstPiece?_append {p : Piece} {tail : List Char} (hp : p.WellFormed)
    (hnext : p.MayPrecede tail) : firstPiece? (p.chars ++ tail) = some (p, tail) := by
  cases p with
  | blanks run =>
      obtain ⟨hne, hrun⟩ := hp
      obtain ⟨c, cs, rfl⟩ := List.exists_cons_of_ne_nil hne
      have hcs : ∀ d ∈ cs, isBlank d = true := fun d hd => hrun d (by simp [hd])
      simp only [Piece.chars, List.cons_append, firstPiece?, hrun c (by simp), if_true,
        takeWhile_append_of_stop hcs hnext, dropWhile_append_of_stop hcs hnext]
  | quoted q body =>
      obtain ⟨hq, hbody⟩ := hp
      simp only [Piece.chars, List.cons_append, List.append_assoc, List.nil_append, firstPiece?,
        isBlank_of_isQuote hq, ne_hash_of_isQuote hq, hq, Bool.false_eq_true, if_false, if_true,
        splitAtFirst_append hbody, Option.map_some]
  | bare word =>
      obtain ⟨c, cs, rfl, ⟨hb, hh, hq⟩, hcs⟩ := hp
      have hh' : (c == '#') = false := by simpa using hh
      simp only [Piece.chars, List.cons_append, firstPiece?, hb, hh', hq, Bool.false_eq_true,
        if_false, takeWhile_word hcs hnext, dropWhile_word hcs hnext]

theorem wellFormed_of_firstPiece? {p : Piece} {cs tail : List Char}
    (h : firstPiece? cs = some (p, tail)) :
    p.WellFormed ∧ p.MayPrecede tail ∧ p.chars ++ tail = cs := by
  cases cs with
  | nil => simp [firstPiece?] at h
  | cons c cs =>
      rw [firstPiece?] at h
      split at h
      · rename_i hb
        cases h
        refine ⟨⟨by simp, ?_⟩, head?_dropWhile_stop cs, ?_⟩
        · intro d hd
          rcases List.mem_cons.1 hd with rfl | hd
          · exact hb
          · exact List.mem_takeWhile_imp hd
        · simp [Piece.chars, List.takeWhile_append_dropWhile]
      split at h
      · cases h
      split at h
      · rename_i hb hh hq
        obtain ⟨⟨body, tail'⟩, hsplit, heq⟩ := Option.map_eq_some_iff.1 h
        cases heq
        obtain ⟨hbody, rfl⟩ := splitAtFirst_eq_some_iff.1 hsplit
        exact ⟨⟨hq, hbody⟩, trivial, by simp [Piece.chars]⟩
      · rename_i hb hh hq
        cases h
        refine ⟨⟨c, _, rfl, ⟨by simpa using hb, by simpa using hh, by simpa using hq⟩, ?_⟩, ?_, ?_⟩
        · intro d hd
          simpa using List.mem_takeWhile_imp hd
        · intro d hd
          simpa using head?_dropWhile_stop cs d hd
        · simp [Piece.chars, List.takeWhile_append_dropWhile]

/-- **The front of a text determines its first piece.** -/
theorem firstPiece?_eq_some_iff {p : Piece} {cs tail : List Char} :
    firstPiece? cs = some (p, tail) ↔ p.WellFormed ∧ p.MayPrecede tail ∧ p.chars ++ tail = cs := by
  constructor
  · exact wellFormed_of_firstPiece?
  · rintro ⟨hp, hnext, rfl⟩
    exact firstPiece?_append hp hnext

/-- **Where no piece starts**, the line ends or a quote opens that is not closed. -/
theorem firstPiece?_eq_none_iff {cs : List Char} :
    firstPiece? cs = none ↔
      IsEnd cs ∨ ∃ q tail, cs = q :: tail ∧ isQuote q = true ∧ q ∉ tail := by
  cases cs with
  | nil => simp [firstPiece?, IsEnd]
  | cons c cs =>
      rw [firstPiece?]
      split
      · rename_i hb
        refine iff_of_false (by simp) ?_
        rintro (hend | ⟨q, tail, heq, hq, -⟩)
        · obtain rfl : c = '#' := by simpa [IsEnd] using hend
          simp [isBlank] at hb
        · cases heq
          simp [isBlank_of_isQuote hq] at hb
      split
      · rename_i hb hh
        exact iff_of_true rfl (Or.inl (by simpa [IsEnd] using hh))
      split
      · rename_i hb hh hq
        simp only [Option.map_eq_none_iff, splitAtFirst_eq_none_iff]
        constructor
        · intro hmem
          exact Or.inr ⟨c, cs, rfl, hq, hmem⟩
        · rintro (hend | ⟨q, tail, heq, -, hmem⟩)
          · simp [IsEnd] at hend
            simp [hend] at hh
          · cases heq
            exact hmem
      · rename_i hb hh hq
        refine iff_of_false (by simp) ?_
        rintro (hend | ⟨q, tail, heq, hq', -⟩)
        · simp [IsEnd] at hend
          simp [hend] at hh
        · cases heq
          exact hq hq'

/-! ## The scan of pieces -/

/-- The scan takes up the argument of the first piece. -/
theorem scan_of_firstPiece? {p : Piece} {cs tail : List Char}
    (h : firstPiece? cs = some (p, tail)) (args : List (List Char)) :
    scan cs args = scan tail (p.argument?.toList ++ args) := by
  obtain ⟨hp, hnext, rfl⟩ := firstPiece?_eq_some_iff.1 h
  cases p with
  | blanks run => exact scan_blankRun hp.2 tail args
  | quoted q body =>
      have hsplit : splitAtFirst (· == q) (body ++ q :: tail) = some (body, tail) :=
        splitAtFirst_append hp.2 tail
      simpa [Piece.chars, Piece.argument?] using scan_quoted hp.1 hsplit args
  | bare word =>
      obtain ⟨c, cs, rfl, ⟨hb, hh, hq⟩, hcs⟩ := hp
      rw [Piece.chars, List.cons_append, scan_bare hb (by simpa using hh) hq,
        takeWhile_word hcs hnext, dropWhile_word hcs hnext]
      rfl

/-- **The scan of pieces** gathers their arguments. -/
theorem scan_of_pieces {rest cs : List Char} {ps : List Piece} (h : Pieces rest ps cs)
    (args : List (List Char)) :
    scan cs args = scan rest ((ps.filterMap Piece.argument?).reverse ++ args) := by
  induction h generalizing args with
  | nil => rfl
  | @cons p ps tail hp hnext htail ih =>
      rw [scan_of_firstPiece? (firstPiece?_append hp hnext), ih, List.filterMap_cons]
      cases p.argument? <;> simp

theorem scan_of_isEnd {rest : List Char} (h : IsEnd rest) (args : List (List Char)) :
    scan rest args = .ok args.reverse := by
  cases rest with
  | nil => exact scan_nil args
  | cons c rest =>
      obtain rfl : c = '#' := h c rfl
      rw [scan.eq_def]
      rfl

theorem scan_of_open {q : Char} {tail : List Char} (hq : isQuote q = true) (hopen : q ∉ tail)
    (args : List (List Char)) : scan (q :: tail) args = .error (q, args.reverse) := by
  rw [scan.eq_def]
  simp only [isBlank_of_isQuote hq, ne_hash_of_isQuote hq, hq, Bool.false_eq_true, if_false,
    if_true]
  split
  · rename_i body rest hsplit
    rw [splitAtFirst_eq_none_iff.2 hopen] at hsplit
    cases hsplit
  · rfl

/-! ## All pieces of a line -/

theorem Piece.chars_ne_nil {p : Piece} (hp : p.WellFormed) : p.chars ≠ [] := by
  cases p with
  | blanks run => exact hp.1
  | quoted q body => exact List.cons_ne_nil _ _
  | bare word =>
      obtain ⟨c, cs, rfl, -⟩ := hp
      exact List.cons_ne_nil _ _

theorem firstPiece?_length {p : Piece} {cs tail : List Char}
    (h : firstPiece? cs = some (p, tail)) : tail.length < cs.length := by
  obtain ⟨hp, -, rfl⟩ := firstPiece?_eq_some_iff.1 h
  have := List.length_pos_iff.2 (Piece.chars_ne_nil hp)
  simp only [List.length_append]
  omega

/-- **Pieces can be split off as long as one starts.** -/
theorem exists_pieces (cs : List Char) :
    ∃ ps rest, Pieces rest ps cs ∧ firstPiece? rest = none := by
  cases h : firstPiece? cs with
  | none => exact ⟨[], cs, .nil, h⟩
  | some front =>
      obtain ⟨p, tail⟩ := front
      obtain ⟨hp, hnext, hcs⟩ := firstPiece?_eq_some_iff.1 h
      obtain ⟨ps, rest, hps, hrest⟩ := exists_pieces tail
      exact ⟨p :: ps, rest, hcs ▸ .cons hp hnext hps, hrest⟩
  termination_by cs.length
  decreasing_by exact firstPiece?_length h

/-- **The pieces of a text are determined** when no further piece starts behind them. -/
theorem Pieces.unique {rest rest' cs : List Char} {ps ps' : List Piece} (h : Pieces rest ps cs)
    (hrest : firstPiece? rest = none) (h' : Pieces rest' ps' cs)
    (hrest' : firstPiece? rest' = none) : ps = ps' ∧ rest = rest' := by
  induction h generalizing ps' with
  | nil =>
      cases h' with
      | nil => exact ⟨rfl, rfl⟩
      | cons hp hnext htail => simp [firstPiece?_append hp hnext] at hrest
  | @cons p ps tail hp hnext htail ih =>
      -- Both ways to take the text apart start with the piece at its front.
      have hfirst := firstPiece?_append hp hnext
      generalize p.chars ++ tail = cs at h' hfirst
      cases h' with
      | nil => simp [hfirst] at hrest'
      | @cons p' ps' tail' hp' hnext' htail' =>
          obtain ⟨rfl, rfl⟩ : p' = p ∧ tail' = tail := by
            simpa [firstPiece?_append hp' hnext'] using hfirst
          obtain ⟨rfl, rfl⟩ := ih htail'
          exact ⟨rfl, rfl⟩

theorem Piece.argument?_subset {p : Piece} {arg : List Char} (h : p.argument? = some arg) :
    arg ⊆ p.chars := by
  cases p with
  | blanks run => cases h
  | quoted q body =>
      cases h
      exact fun c hc => by simp [Piece.chars, hc]
  | bare word =>
      cases h
      exact fun c hc => hc

/-- The characters of arguments stand in the text they were read from. -/
theorem Pieces.subset {rest cs : List Char} {ps : List Piece} (h : Pieces rest ps cs) :
    ∀ arg ∈ ps.filterMap Piece.argument?, arg ⊆ cs := by
  induction h with
  | nil => simp
  | @cons p ps tail hp hnext htail ih =>
      intro arg harg
      obtain ⟨q, hq, hqarg⟩ := List.mem_filterMap.1 harg
      rcases List.mem_cons.1 hq with rfl | hq
      · exact List.Subset.trans (Piece.argument?_subset hqarg) (List.subset_append_left _ _)
      · exact List.Subset.trans (ih arg (List.mem_filterMap.2 ⟨q, hq, hqarg⟩))
          (List.subset_append_right _ _)

end Argument

open Argument

theorem tokenise_of_pieces {line : String} {rest : List Char} {ps : List Piece}
    (h : Pieces rest ps line.toList) (hrest : IsEnd rest) : tokenise line = .ok (arguments ps) := by
  unfold tokenise
  simp [scan_of_pieces h, scan_of_isEnd hrest, arguments]

theorem tokenise_of_open {line : String} {q : Char} {tail : List Char} {ps : List Piece}
    (h : Pieces (q :: tail) ps line.toList) (hq : isQuote q = true) (hopen : q ∉ tail) :
    tokenise line =
      .error (.invalidArgument ((arguments ps).headD "") (.unterminatedQuote q)) := by
  unfold tokenise
  simp [scan_of_pieces h, scan_of_open hq hopen, arguments, List.headD_eq_head?_getD]

/-- The pieces of a line that has arguments. -/
theorem exists_pieces_of_tokenise {line : String} {args : List String}
    (h : tokenise line = .ok args) :
    ∃ ps rest, Pieces rest ps line.toList ∧ IsEnd rest ∧ arguments ps = args := by
  obtain ⟨ps, rest, hps, hrest⟩ := exists_pieces line.toList
  rcases firstPiece?_eq_none_iff.1 hrest with hend | ⟨q, tail, rfl, hq, hopen⟩
  · exact ⟨ps, rest, hps, hend, Except.ok.inj ((tokenise_of_pieces hps hend).symm.trans h)⟩
  · cases (tokenise_of_open hps hq hopen).symm.trans h

/-- **The characters of arguments stand on their line.** -/
theorem subset_of_tokenise {line a : String} {args : List String} (h : tokenise line = .ok args)
    (ha : a ∈ args) : a.toList ⊆ line.toList := by
  obtain ⟨ps, rest, hps, -, rfl⟩ := exists_pieces_of_tokenise h
  obtain ⟨arg, harg, rfl⟩ := List.mem_map.1 ha
  rw [String.toList_ofList]
  exact hps.subset arg harg

/-- **A line has arguments exactly if it is made of pieces and perhaps a comment**, which it is in
one way only. Otherwise its pieces lead to a quote that is not closed, and the error tells the first
argument before it. -/
theorem tokenise_follows_grammar (line : String) :
    (∀ args, tokenise line = .ok args ↔
      ∃ ps rest, Pieces rest ps line.toList ∧ IsEnd rest ∧ arguments ps = args) ∧
    (∀ ps ps' rest rest', Pieces rest ps line.toList → IsEnd rest →
      Pieces rest' ps' line.toList → IsEnd rest' → ps = ps' ∧ rest = rest') ∧
    (∀ e, tokenise line = .error e ↔
      ∃ ps q tail, Pieces (q :: tail) ps line.toList ∧ isQuote q = true ∧ q ∉ tail ∧
        e = .invalidArgument ((arguments ps).headD "") (.unterminatedQuote q)) := by
  refine ⟨fun args => ⟨exists_pieces_of_tokenise, ?_⟩, ?_, fun e => ⟨fun herror => ?_, ?_⟩⟩
  · rintro ⟨ps, rest, hps, hend, rfl⟩
    exact tokenise_of_pieces hps hend
  · intro ps ps' rest rest' h hend h' hend'
    exact h.unique (firstPiece?_eq_none_iff.2 (Or.inl hend)) h'
      (firstPiece?_eq_none_iff.2 (Or.inl hend'))
  · obtain ⟨ps, rest, hps, hrest⟩ := exists_pieces line.toList
    rcases firstPiece?_eq_none_iff.1 hrest with hend | ⟨q, tail, rfl, hq, hopen⟩
    · cases (tokenise_of_pieces hps hend).symm.trans herror
    · exact ⟨ps, q, tail, hps, hq, hopen,
        Except.error.inj (herror.symm.trans (tokenise_of_open hps hq hopen))⟩
  · rintro ⟨ps, q, tail, hps, hq, hopen, rfl⟩
    exact tokenise_of_open hps hq hopen

end SiteAnalysis
