import SiteAnalysis.Proofs.Keyword.Calls
import SiteAnalysis.Proofs.Text.Walk

set_option autoImplicit false

/-! # Arguments with both kinds of quotes

In the place of an argument that is not writable something else is read, which has no double quotes
(`exists_token`). What a keyword takes from arguments has double quotes only where
they have them (`KeepsQuotes`). So such an argument does not come back. Main statement:

* `KeywordData.keepsQuotes_of_readLines`: where as many entries come back as lines were read, the
  entries keep the quotes of the lines.
-/

namespace SiteAnalysis

/-! ## What is read in the place of an argument -/

namespace Argument

/-- Arguments are read back up to the first that is not writable. -/
theorem scan_writtenFrom_cut {front back : List String} {a : String} {body : List Char}
    (h : WrittenFrom (front ++ a :: back) body) (hfront : ∀ b ∈ front, isWritable b = true)
    {args result : List (List Char)} (hscan : scan body args = .ok result) :
    ∃ t, (args.reverse ++ front.map String.toList) ++ [t] <+: result ∧
      if isWritable a then t = a.toList else '"' ∉ t := by
  induction front generalizing body args with
  | nil =>
      cases h with
      | @cons _ _ gap rest hgap hsep hrest =>
          cases ha : isWritable a with
          | true =>
              rw [scan_quote ha (endsWord_of_writtenFrom hgap hsep hrest)] at hscan
              refine ⟨a.toList, ?_, rfl⟩
              simpa using reverse_prefix_of_scan hscan
          | false =>
              -- Its quotes end it early, whatever stands behind it.
              obtain ⟨t, tail, ht, hcut⟩ := scan_quote_of_not_isWritable ha (gap ++ rest) args
              rw [hcut] at hscan
              refine ⟨t, ?_, by simpa using ht⟩
              simpa using reverse_prefix_of_scan hscan
  | cons b front ih =>
      obtain ⟨hb, hfront⟩ := List.forall_mem_cons.1 hfront
      cases h with
      | @cons _ _ gap rest hgap hsep hrest =>
          rw [scan_quote hb (endsWord_of_writtenFrom hgap hsep hrest), scan_blankRun hgap] at hscan
          obtain ⟨t, hprefix, ht⟩ := ih hrest hfront hscan
          exact ⟨t, by simpa using hprefix, ht⟩

end Argument

section Written

variable {indent sep : String} {front back tokens : List String} {a : String}

/-- **What is read in the place of an argument** behind writable ones: it itself if it is writable,
and otherwise something without double quotes. -/
theorem exists_token (hindent : IsGap indent) (hsep : IsGap sep) (hne : sep ≠ "")
    (hfront : ∀ b ∈ front, isWritable b = true)
    (h : tokenise (writtenLine indent sep (front ++ a :: back)) = .ok tokens) :
    ∃ t rest, tokens = front ++ t :: rest ∧ if isWritable a then t = a else '"' ∉ t.toList := by
  rw [tokenise_eq_ok_iff, writtenLine, String.toList_append,
    Argument.scan_blankRun fun c hc => (hindent c hc).1] at h
  obtain ⟨t, ⟨rest, hrest⟩, ht⟩ :=
    Argument.scan_writtenFrom_cut (writtenFrom_intercalate hsep hne _) hfront h
  have htokens : tokens = front ++ String.ofList t :: rest.map String.ofList := by
    have hmap := congrArg (List.map String.ofList) hrest
    simpa [List.map_map, Function.comp_def] using hmap.symm
  refine ⟨_, _, htokens, ?_⟩
  split
  · next ha =>
      rw [if_pos ha] at ht
      rw [ht, String.ofList_toList]
  · next ha =>
      rw [if_neg ha] at ht
      rwa [String.toList_ofList]

end Written

/-! ## Quotes that are kept -/

/-- Whether arguments have double quotes only where others have them. -/
def KeepsQuotes (args values : List String) : Prop :=
  ∀ (i : Nat) (a : String), args[i]? = some a → '"' ∈ a.toList →
    ∃ v, values[i]? = some v ∧ '"' ∈ v.toList

namespace KeepsQuotes

variable {args values : List String} {a v : String}

theorem nil (values : List String) : KeepsQuotes [] values := by
  intro i a ha
  simp at ha

theorem cons (ha : '"' ∈ a.toList → '"' ∈ v.toList) (h : KeepsQuotes args values) :
    KeepsQuotes (a :: args) (v :: values) := by
  intro i b hb hquote
  cases i with
  | zero =>
      obtain rfl : a = b := by simpa using hb
      exact ⟨v, rfl, ha hquote⟩
  | succ i => exact h i b (by simpa using hb) hquote

theorem refl (args : List String) : KeepsQuotes args args := fun _ a ha hquote => ⟨a, ha, hquote⟩

/-- Plain texts have no quotes to keep. -/
theorem of_plain (h : ∀ a ∈ args, IsPlain a) (values : List String) : KeepsQuotes args values := by
  intro i a ha hquote
  have hplain := h a (List.mem_of_getElem? ha)
  exact absurd hquote (hplain.not_mem (by decide))

/-- An argument that is not writable is not kept. -/
theorem isWritable {front back rest : List String} {t : String}
    (h : KeepsQuotes (front ++ a :: back) (front ++ t :: rest))
    (ht : if isWritable a then t = a else '"' ∉ t.toList) : isWritable a = true := by
  cases ha : SiteAnalysis.isWritable a with
  | true => rfl
  | false =>
      rw [ha, if_neg Bool.false_ne_true] at ht
      obtain ⟨v, hv, hquote⟩ := h front.length a (by simp) (Argument.quote_of_not_isWritable ha).2
      obtain rfl : t = v := by simpa using hv
      exact absurd hquote ht

/-- **Arguments are writable where those read in their place keep their quotes.** -/
theorem forall_isWritable {indent sep name : String} (h : KeepsQuotes args values)
    (hindent : IsGap indent) (hsep : IsGap sep) (hne : sep ≠ "") (hname : IsPlain name)
    (htokens : tokenise (writtenLine indent sep (name :: args)) = .ok (name :: values)) :
    ∀ a ∈ args, SiteAnalysis.isWritable a = true := by
  -- The arguments are looked at one by one, those in front being writable.
  suffices hback : ∀ front back, args = front ++ back →
      (∀ b ∈ front, SiteAnalysis.isWritable b = true) →
        ∀ a ∈ back, SiteAnalysis.isWritable a = true from
    hback [] args rfl (by simp)
  intro front back hargs hfront
  induction back generalizing front with
  | nil => simp
  | cons a back ih =>
      have hfronts : ∀ b ∈ name :: front, SiteAnalysis.isWritable b = true :=
        List.forall_mem_cons.2 ⟨hname.fitsLine.1, hfront⟩
      rw [hargs, ← List.cons_append] at htokens
      obtain ⟨t, rest, hsplit, ht⟩ := exists_token hindent hsep hne hfronts htokens
      obtain rfl : values = front ++ t :: rest := (List.cons.inj hsplit).2
      subst hargs
      have ha := h.isWritable ht
      refine List.forall_mem_cons.2 ⟨ha, ih (front ++ [a]) (by simp) ?_⟩
      exact List.forall_mem_append.2 ⟨hfront, by simpa using ha⟩

end KeepsQuotes

/-- Texts without some character that plain texts do not have, and that is no letter. -/
theorem isTextClass_not_mem {c : Char} (hplain : isPlainChar c = false) (hlow : c.toNat < 65) :
    IsTextClass fun s => c ∉ s.toList where
  plain h := h.not_mem hplain
  trim h := mt mem_toList_of_mem_trim h
  same h := mt (mem_toList_iff_of_sameName h hlow).2

theorem quote_mem_of_read {s : String} (h : '"' ∈ (Scalar.read s).text.toList) :
    '"' ∈ s.toList := by
  by_contra hnot
  exact (isTextClass_not_mem (by decide) (by decide)).text_read hnot h

namespace KeywordData

variable {catalogue : Catalogue} {declared data : KeywordData} {keyword : String}
  {values : List String}

/-- **What a line gives** to a keyword that takes one line only keeps the quotes of the line. -/
theorem keepsQuotes_of_read (hdeclared : declared.isDeclared = true)
    (hrepeat : declared.isRepeatable = false)
    (hread : declared.read keyword catalogue values = .ok data) :
    ∃ args, data.args = [args] ∧ KeepsQuotes args values := by
  have hplain : ∀ {args : List String}, data.args = [args] → (∀ a ∈ args, IsPlain a) →
      ∃ args, data.args = [args] ∧ KeepsQuotes args values :=
    fun hargs h => ⟨_, hargs, .of_plain h values⟩
  have hindex : ∀ n : Nat, ∀ a ∈ [toString n], IsPlain a := fun n => by
    simpa using isPlain_toString_nat n
  cases gives_of_read hread with
  | switched a => exact hplain rfl (by decide)
  | flag a b s => exact hplain rfl (by cases b <;> decide)
  | @integer m n min max s hn hlimits => exact hplain rfl (by simpa using isPlain_toString_int n)
  | @double y x min max s hx hlimits => exact hplain rfl (by simpa using isPlain_precise x)
  | text t hwritable => exact ⟨_, rfl, .refl _⟩
  | @option t s o options hfind =>
      have hall : ∀ o ∈ options, IsPlain o := by simpa [isDeclared] using hdeclared
      exact hplain rfl (by simpa using hall o (List.mem_of_find?_eq_some hfind))
  | scalar w s => exact ⟨_, rfl, .cons quote_mem_of_read (.nil _)⟩
  | triple u v w x y z =>
      exact ⟨_, rfl, .cons quote_mem_of_read (.cons quote_mem_of_read
        (.cons quote_mem_of_read (.nil _)))⟩
  | range q x y z => exact hplain rfl (List.forall_mem_map.2 fun x _ => isPlain_precise x)
  | node target filter s => exact ⟨_, rfl, .refl _⟩
  | first target i filter s => exact ⟨_, rfl, .cons id (.of_plain (hindex 0) _)⟩
  | @observable target i filter s t n hle => exact ⟨_, rfl, .cons id (.of_plain (hindex n) _)⟩
  | nodes targets filter hcount =>
      refine ⟨values, ?_, .refl _⟩
      have hne : values ≠ [] := by
        rintro rfl
        simp at hcount
      simp [args, hne, Function.comp_def, NodeRef.named]
  | sites known hfind => cases hrepeat
  | fit targets name hx => cases hrepeat

/-! ## Gathered entries -/

/-- Sites are gathered one a line at most. -/
theorem sites_of_readLines {lines : List (List String)} {known : List (String × String)}
    (hread : (sites known).readLines keyword catalogue lines = (.ok (), data)) :
    ∃ more, data = sites (known ++ more) ∧ more.length ≤ lines.length ∧
      (more.length = lines.length →
        List.Forall₂ KeepsQuotes (more.map fun s => [s.1, s.2]) lines) := by
  induction lines generalizing known with
  | nil =>
      obtain rfl : sites known = data := congrArg Prod.snd hread
      exact ⟨[], by simp, Nat.le_refl 0, fun _ => .nil⟩
  | cons line lines ih =>
      unfold readLines at hread
      split at hread
      · next d hline =>
          cases gives_of_read hline with
          | @sites _ species site found hfind =>
              split at hread
              -- A site that was gathered before leaves fewer sites than lines.
              · obtain ⟨more, rfl, hlength, -⟩ := ih hread
                refine ⟨more, rfl, by simp; omega, fun heq => ?_⟩
                rw [List.length_cons] at heq
                omega
              · obtain ⟨more, rfl, hlength, hkeeps⟩ := ih hread
                refine ⟨found :: more, by simp, by simpa using hlength, fun heq => ?_⟩
                obtain ⟨hspecies, hsite⟩ := Catalogue.sameName_of_findSite? hfind
                have hquote : ∀ {s t : String}, sameName s t = true → '"' ∈ s.toList →
                    '"' ∈ t.toList := fun h => (mem_toList_iff_of_sameName h (by decide)).1
                exact .cons (.cons (hquote hspecies) (.cons (hquote hsite) (.nil _)))
                  (hkeeps (by simpa using heq))
      · cases congrArg Prod.fst hread

theorem map_fst_setTarget (targets : List (String × Float)) (name : String) (value : Float) :
    (setTarget name value targets).map Prod.fst = targets.map Prod.fst ∨
      (setTarget name value targets).map Prod.fst = targets.map Prod.fst ++ [name] := by
  induction targets with
  | nil => exact .inr rfl
  | cons t targets ih =>
      rw [setTarget]
      split
      · exact .inl rfl
      · exact ih.imp (fun h => by simp [h]) fun h => by simp [h]

/-- So are starting values, each behind the name of its variable. -/
theorem fit_of_readLines {lines : List (List String)} {targets : List (String × Float)}
    (hread : (fit targets).readLines keyword catalogue lines = (.ok (), data)) :
    ∃ final more, data = fit final ∧ final.map Prod.fst = targets.map Prod.fst ++ more ∧
      more.length ≤ lines.length ∧
      (more.length = lines.length →
        List.Forall₂ (fun name line => line.head? = some name) more lines) := by
  induction lines generalizing targets with
  | nil =>
      exact ⟨targets, [], (congrArg Prod.snd hread).symm, by simp, Nat.le_refl 0, fun _ => .nil⟩
  | cons line lines ih =>
      unfold readLines at hread
      split at hread
      · next d hline =>
          cases gives_of_read hline with
          | @fit _ name text x hx =>
              obtain ⟨final, more, rfl, hfinal, hlength, hkeeps⟩ := ih hread
              obtain hsame | hmore := map_fst_setTarget targets name x
              -- A variable that has a value already gets another one, and no new entry.
              · refine ⟨final, more, rfl, by rw [hfinal, hsame], by simp; omega, fun heq => ?_⟩
                rw [List.length_cons] at heq
                omega
              · refine ⟨final, name :: more, rfl, by rw [hfinal, hmore]; simp,
                  by simpa using hlength, fun heq => ?_⟩
                exact .cons rfl (hkeeps (by simpa using heq))
      · cases congrArg Prod.fst hread

/-- A keyword that takes one line only has one line at most. -/
theorem Stores.length_args_le (h : Stores declared data) (hrepeat : declared.isRepeatable = false) :
    data.args.length ≤ 1 := by
  cases h with
  | nodes filter hcount =>
      rw [args]
      split <;> simp
  | sites _ => cases hrepeat
  | fit _ => cases hrepeat
  | _ => simp [args]

/-- **Where as many entries come back as lines were read**, the entries keep the quotes of the
lines. -/
theorem keepsQuotes_of_readLines (hdeclared : declared.isDeclared = true)
    {lines : List (List String)} (hne : lines ≠ [])
    (hread : declared.readLines keyword catalogue lines = (.ok (), data))
    (hlength : data.args.length = lines.length) : List.Forall₂ KeepsQuotes data.args lines := by
  cases hrepeat : declared.isRepeatable with
  | false =>
      have hstores : Stores declared data := by
        have hkept : IsKept declared declared := .inl rfl
        exact (hkept.readLines hdeclared hread).resolve_left fun hnil => hne hnil.1
      have hone := hstores.length_args_le hrepeat
      -- Such data are written on one line, so one line was read.
      obtain ⟨line, rfl⟩ : ∃ line, lines = [line] := by
        have hpos := List.length_pos_of_ne_nil hne
        exact List.length_eq_one_iff.1 (by omega)
      unfold readLines at hread
      split at hread
      · next d hline =>
          obtain rfl : d = data := congrArg Prod.snd hread
          obtain ⟨args, hargs, hkeeps⟩ := keepsQuotes_of_read hdeclared hrepeat hline
          rw [hargs]
          exact .cons hkeeps .nil
      · cases congrArg Prod.fst hread
  | true =>
      cases declared with
      | sites known =>
          obtain rfl : known = [] := by simpa [isDeclared] using hdeclared
          obtain ⟨more, rfl, -, hkeeps⟩ := sites_of_readLines hread
          rw [List.nil_append] at hlength ⊢
          exact hkeeps (by simpa [args] using hlength)
      | fit targets =>
          obtain rfl : targets = [] := by simpa [isDeclared] using hdeclared
          obtain ⟨final, more, rfl, hfinal, -, hkeeps⟩ := fit_of_readLines hread
          rw [List.map_nil, List.nil_append] at hfinal
          subst hfinal
          have hheads := hkeeps (by simpa [args] using hlength)
          rw [args, List.forall₂_map_left_iff]
          rw [List.forall₂_map_left_iff] at hheads
          refine hheads.imp fun t line hhead => ?_
          obtain ⟨rest, rfl⟩ := List.head?_eq_some_iff.1 hhead
          exact .cons id (.of_plain (by simpa using isPlain_precise t.2) _)
      | _ => cases hrepeat

end KeywordData

end SiteAnalysis
