import SiteAnalysis.Proofs.Keyword.Quotes
import SiteAnalysis.Proofs.Node.Lines

set_option autoImplicit false

/-! # Stores that are written and read again

What is written of a store, whatever calls filled it, is read into a store as it was declared. It
comes back exactly if all that was set fits on lines and is spelled as reading spells it
(`KeywordData.FitsText`). Main statement:

* `KeywordStore.restores_iff`: this for all keywords of a store.
-/

namespace SiteAnalysis

/-! ## Data that come back -/

namespace KeywordData

variable {catalogue : Catalogue} {declared held data : KeywordData}

/-- **Whether data are spelled as reading spells them.** -/
def IsCanonical (catalogue : Catalogue) : KeywordData → Prop
  | scalar v => Scalar.read v.text = v
  | triple x y z => Scalar.read x.text = x ∧ Scalar.read y.text = y ∧ Scalar.read z.text = z
  | sites known => ∀ s ∈ known, catalogue.findSite? s.1 s.2 = some s
  | fit targets => targets.Pairwise fun s t => sameName s.1 t.1 = false
  | _ => True

/-- **Whether data come back from what is written of them.** -/
structure FitsText (catalogue : Catalogue) (data : KeywordData) : Prop where
  texts : ∀ values ∈ data.args, ∀ a ∈ values, FitsLine a
  canonical : data.IsCanonical catalogue

theorem Holds.isCanonical (h : Holds catalogue declared held) : held.IsCanonical catalogue := by
  cases h with
  | scalar _ hv => exact hv.read_text
  | triple _ _ _ hx hy hz => exact ⟨hx.read_text, hy.read_text, hz.read_text⟩
  | sites _ hfound _ => exact hfound
  | fit _ hdistinct => exact hdistinct
  | _ => trivial

/-- Canonical data that are written are such as reading leaves them. -/
theorem Stores.holds (h : Stores declared held) (hcanonical : held.IsCanonical catalogue)
    (hne : held.args ≠ []) : Holds catalogue declared held := by
  have hkeeps : ∀ {v : Scalar}, Scalar.read v.text = v → v.Keeps := fun hv =>
    hv ▸ Scalar.keeps_read _
  cases h with
  | flag a b => exact .flag a b
  | integer m hfits hlimits => exact .integer m hfits hlimits
  | double y hlimits => exact .double y hlimits
  | text t hwritable => exact .text t hwritable
  | option t hfind hplain => exact .option t hfind hplain
  | scalar w v => exact .scalar w (hkeeps hcanonical)
  | triple u v w x y z =>
      obtain ⟨hx, hy, hz⟩ := hcanonical
      exact .triple u v w (hkeeps hx) (hkeeps hy) (hkeeps hz)
  | range q r => exact .range q r
  | node r filter => exact .node r filter
  | observable r i filter hindex => exact .observable r i filter hindex
  | @nodes targets filter min max hcount =>
      -- Without a target nothing would be written.
      have hpos : 1 ≤ targets.length := by
        cases targets with
        | nil => exact absurd rfl hne
        | cons r targets => simp
      refine .nodes filter ?_
      simp only [Bool.or_eq_false_iff, decide_eq_false_iff_not, not_lt] at hcount ⊢
      exact ⟨Nat.max_le.2 ⟨hcount.1, hpos⟩, hcount.2⟩
  | sites hnodup => exact .sites (by simpa [args] using hne) hcanonical hnodup
  | fit targets => exact .fit (by simpa [args] using hne) hcanonical

/-- The words on the lines of such data are their arguments with quotes where they need them. -/
theorem Stores.lines_eq (h : Stores declared held) :
    held.lines = held.args.map (List.map quote) := by
  refine lines_eq_args fun s options heq => ?_
  subst heq
  cases h with
  | option t _ hplain => exact hplain

@[simp] theorem args_unlinked (d : KeywordData) : d.unlinked.args = d.args := by
  cases d with
  | node target filter => cases target <;> rfl
  | observable target index filter => cases target <;> rfl
  | nodes targets filter min max =>
      simp [unlinked, mapRefs, args, Function.comp_def, NodeRef.named]
  | _ => rfl

theorem unlinked_unlinked (d : KeywordData) : d.unlinked.unlinked = d.unlinked :=
  mapRefs_mapRefs _ _ d

theorem isCanonical_unlinked {d : KeywordData} :
    d.unlinked.IsCanonical catalogue ↔ d.IsCanonical catalogue := by
  cases d <;> exact Iff.rfl

theorem lines_eq_nil_iff {d : KeywordData} : d.lines = [] ↔ d.args = [] := by
  cases d with
  | node target filter => cases target <;> simp [lines, args]
  | observable target index filter => cases target <;> simp [lines, args]
  | nodes targets filter min max => cases targets <;> simp [lines, args]
  | sites known => simp [lines, args]
  | fit targets => simp [lines, args]
  | _ => simp [lines, args]

/-- Of data that are not written nothing is to come back. -/
theorem fitsText_of_args_eq_nil {d : KeywordData} (h : d.args = []) : d.FitsText catalogue := by
  refine ⟨by simp [h], ?_⟩
  cases d with
  | sites known =>
      obtain rfl : known = [] := by simpa [args] using h
      simp [IsCanonical]
  | fit targets =>
      obtain rfl : targets = [] := by simpa [args] using h
      exact List.Pairwise.nil
  | scalar v => cases h
  | triple x y z => cases h
  | _ => trivial

end KeywordData

namespace KeywordStore

open KeywordData (Stores IsKept Holds FitsText)

/-! ## Reading lines -/

/-- The store after a line was read; none if it was not taken. -/
def readLine? (catalogue : Catalogue) (s : KeywordStore) (line : String) : Option KeywordStore :=
  match tokenise line with
  | .ok [] => some s
  | .ok (keyword :: values) => s.take? catalogue keyword values
  | .error _ => none

/-- **The store after some lines were read**; none if one of them was not taken. -/
def readLines? (s : KeywordStore) (catalogue : Catalogue) (lines : List String) :
    Option KeywordStore :=
  lines.foldlM (readLine? catalogue) s

/-- **The text of all keywords that were set**, indented. -/
def writtenText (s : KeywordStore) (indent : String) : String :=
  joinLines (s.lines.map (indent ++ ·))

/-- **Whether all that is written of a store comes back** when it is read into another: each line is
taken, and each keyword of which something is written has its data again, with the names of
references only. -/
def Restores (catalogue : Catalogue) (declared s : KeywordStore) (indent : String) : Prop :=
  ∃ s', declared.readLines? catalogue (linesOf (s.writtenText indent)) = some s' ∧
    ∀ k ∈ s.setKeywords, k.lines ≠ [] →
      ∃ k', s'.find? k.name = some k' ∧ k'.isSet = true ∧ k'.data.unlinked = k.data.unlinked

variable {catalogue : Catalogue} {declared s s' : KeywordStore} {name : String} {k : Keyword}
  {line : String} {lines tokens : List String}

theorem readLines?_append (s : KeywordStore) (front back : List String) :
    s.readLines? catalogue (front ++ back) =
      (s.readLines? catalogue front).bind fun s' => s'.readLines? catalogue back :=
  List.foldlM_append

/-- Lines that were taken have arguments that can be told apart. -/
theorem tokenise_of_readLines (h : s.readLines? catalogue lines = some s') (hline : line ∈ lines) :
    ∃ tokens, tokenise line = .ok tokens := by
  induction lines generalizing s with
  | nil => cases hline
  | cons l lines ih =>
      obtain ⟨s₁, hstep, hrest⟩ := Option.bind_eq_some_iff.1 h
      rcases List.mem_cons.1 hline with rfl | hline
      · unfold readLine? at hstep
        split at hstep
        · next htokens => exact ⟨_, htokens⟩
        · next htokens => exact ⟨_, htokens⟩
        · cases hstep
      · exact ih hrest hline

theorem take?_eq (hfind : s.find? name = some k) (values : List String) :
    s.take? catalogue name values =
      (k.data.read k.name catalogue values).toOption.map fun data =>
        s.update name fun k => k.setTo data := by
  unfold take? KeywordStore.read readKeyword
  rw [hfind, Option.map_some]
  cases k.data.read k.name catalogue values <;> rfl

theorem isNamed_of_find? (hfind : s.find? name = some k) : k.isNamed name = true := by
  unfold find? at hfind
  exact List.find?_some (p := fun k : Keyword => k.isNamed name) hfind

theorem find?_setTo (hfind : s.find? name = some k) (data : KeywordData) :
    (s.update name fun k => k.setTo data).find? name = some (k.setTo data) := by
  have hnamed := isNamed_of_find? hfind
  exact find?_updateFirst hfind hnamed

/-- Other keywords are found as before. -/
theorem find?_setTo_of_ne {other : String} (hne : sameName name other = false)
    (data : KeywordData) :
    (s.update name fun k => k.setTo data).find? other = s.find? other := by
  unfold find? update
  dsimp only
  generalize s.keywords = keywords
  induction keywords with
  | nil => rfl
  | cons c keywords ih =>
      rw [updateFirst]
      cases hc : c.isNamed name with
      | true =>
          have hother : c.isNamed other = false := by
            rw [← hne, Keyword.isNamed, sameName_comm c.name, sameName_comm name]
            exact sameName_congr_right hc other
          have hkept : (c.setTo data).isNamed other = false := hother
          simp [hother, hkept]
      | false => simp [List.find?_cons, ih]

/-- **The lines of one keyword** do to it what they do to its data. -/
theorem readLines_keyword_iff {values : List (List String)}
    (hlines : List.Forall₂ (fun line vs => tokenise line = .ok (name :: vs)) lines values)
    (hne : values ≠ []) (hfind : s.find? name = some k) :
    s.readLines? catalogue lines = some s' ↔
      ∃ data, k.data.readLines k.name catalogue values = (.ok (), data) ∧
        s' = s.update name fun k => k.setTo data := by
  induction hlines generalizing s k with
  | nil => exact absurd rfl hne
  | @cons line vs lines values hline hrest ih =>
      have hfirst : readLine? catalogue s line = s.take? catalogue name vs := by
        rw [readLine?, hline]
      rw [readLines?, List.foldlM_cons, hfirst, take?_eq hfind, KeywordData.readLines]
      cases hread : k.data.read k.name catalogue vs with
      | error e => simp [Except.toOption]
      | ok data =>
          change readLines? (s.update name fun k => k.setTo data) catalogue lines = some s' ↔ _
          -- Behind the last line no keyword is left to set.
          cases hrest with
          | nil =>
              constructor
              · intro h
                exact ⟨data, rfl, (Option.some.inj h).symm⟩
              · rintro ⟨data', hdata, rfl⟩
                obtain rfl : data = data' := congrArg Prod.snd hdata
                rfl
          | cons hline' hrest' =>
              rw [ih (List.cons_ne_nil _ _) (find?_setTo hfind data)]
              simp only [update_setTo_setTo]
              rfl

/-! ## Lines of several keywords -/

section Groups

variable {ks : List Keyword} {L : Keyword → List String} {W : Keyword → List (List String)}

/-- The lines of other keywords do not matter to a keyword. -/
theorem find?_of_readLines
    (hlines : ∀ k ∈ ks, List.Forall₂ (fun l vs => tokenise l = .ok (k.name :: vs)) (L k) (W k))
    (hfind : ∀ k ∈ ks, (s.find? k.name).isSome) (hne : ∀ k ∈ ks, sameName k.name name = false)
    (hdistinct : ks.Pairwise fun k k' => sameName k.name k'.name = false)
    (h : s.readLines? catalogue (ks.flatMap L) = some s') : s'.find? name = s.find? name := by
  induction ks generalizing s with
  | nil =>
      obtain rfl := Option.some.inj h
      rfl
  | cons k ks ih =>
      rw [List.flatMap_cons, readLines?_append] at h
      obtain ⟨s₁, hfirst, hrest⟩ := Option.bind_eq_some_iff.1 h
      obtain ⟨hk, hks⟩ := List.forall_mem_cons.1 hlines
      obtain ⟨hfindk, hfind⟩ := List.forall_mem_cons.1 hfind
      obtain ⟨hnek, hne⟩ := List.forall_mem_cons.1 hne
      obtain ⟨hdistinctk, hdistinct⟩ := List.pairwise_cons.1 hdistinct
      by_cases hnil : W k = []
      · rw [hnil, List.forall₂_nil_right_iff] at hk
        rw [hk] at hfirst
        obtain rfl := Option.some.inj hfirst
        exact ih hks hfind hne hdistinct hrest
      · obtain ⟨d, hd⟩ := Option.isSome_iff_exists.1 hfindk
        obtain ⟨data, -, rfl⟩ := (readLines_keyword_iff hk hnil hd).1 hfirst
        rw [ih hks (fun k' hk' => ?_) hne hdistinct hrest, find?_setTo_of_ne hnek]
        rw [find?_setTo_of_ne (hdistinctk k' hk')]
        exact hfind k' hk'

/-- **The lines of several keywords** do to each of them what its own lines do. -/
theorem readLines_keywords_iff {Q : Keyword → Keyword → Prop}
    (hlines : ∀ k ∈ ks, List.Forall₂ (fun l vs => tokenise l = .ok (k.name :: vs)) (L k) (W k))
    (hfind : ∀ k ∈ ks, (s.find? k.name).isSome)
    (hdistinct : ks.Pairwise fun k k' => sameName k.name k'.name = false) :
    (∃ s', s.readLines? catalogue (ks.flatMap L) = some s' ∧
      ∀ k ∈ ks, W k ≠ [] → ∃ k', s'.find? k.name = some k' ∧ Q k k') ↔
    ∀ k ∈ ks, W k ≠ [] → ∃ d data, s.find? k.name = some d ∧
      d.data.readLines d.name catalogue (W k) = (.ok (), data) ∧ Q k (d.setTo data) := by
  induction ks generalizing s with
  | nil => exact ⟨fun _ => by simp, fun _ => ⟨s, rfl, by simp⟩⟩
  | cons k ks ih =>
      obtain ⟨hk, hks⟩ := List.forall_mem_cons.1 hlines
      obtain ⟨hfindk, hfindks⟩ := List.forall_mem_cons.1 hfind
      obtain ⟨hdistinctk, hdistinctks⟩ := List.pairwise_cons.1 hdistinct
      simp only [List.flatMap_cons, readLines?_append, List.forall_mem_cons]
      by_cases hnil : W k = []
      -- A keyword of which nothing was written.
      · have hL : L k = [] := by rwa [hnil, List.forall₂_nil_right_iff] at hk
        have hfirst : s.readLines? catalogue [] = some s := rfl
        simp only [hL, hfirst, Option.bind_some, hnil, ne_eq, not_true_eq_false, false_implies,
          true_and]
        exact ih hks hfindks hdistinctks
      · obtain ⟨d, hd⟩ := Option.isSome_iff_exists.1 hfindk
        have hkept : ∀ data, ∀ k' ∈ ks,
            (s.update k.name fun k => k.setTo data).find? k'.name = s.find? k'.name :=
          fun data k' hk' => find?_setTo_of_ne (hdistinctk k' hk') data
        have hfindks' : ∀ data, ∀ k' ∈ ks,
            ((s.update k.name fun k => k.setTo data).find? k'.name).isSome := by
          intro data k' hk'
          rw [hkept data k' hk']
          exact hfindks k' hk'
        -- What is found under this name at the end is what its own lines left.
        have hlast : ∀ {data : KeywordData} {s' : KeywordStore},
            (s.update k.name fun k => k.setTo data).readLines? catalogue (ks.flatMap L) = some s' →
              s'.find? k.name = some (d.setTo data) := by
          intro data s' hrest
          rw [find?_of_readLines hks (hfindks' data) (fun k' hk' => ?_) hdistinctks hrest]
          · exact find?_setTo hd data
          · rw [sameName_comm]
            exact hdistinctk k' hk'
        have hih := fun data => ih (s := s.update k.name fun k => k.setTo data) hks
          (hfindks' data) hdistinctks
        constructor
        · rintro ⟨s', hread, hQk, hQks⟩
          obtain ⟨s₁, hfirst, hrest⟩ := Option.bind_eq_some_iff.1 hread
          obtain ⟨data, hdata, rfl⟩ := (readLines_keyword_iff hk hnil hd).1 hfirst
          refine ⟨fun _ => ?_, fun k' hk' hne => ?_⟩
          · obtain ⟨k', hk', hQ⟩ := hQk hnil
            rw [hlast hrest] at hk'
            obtain rfl := Option.some.inj hk'
            exact ⟨d, data, hd, hdata, hQ⟩
          · have hall := (hih data).1 ⟨s', hrest, hQks⟩ k' hk' hne
            rwa [hkept data k' hk'] at hall
        · rintro ⟨hQk, hQks⟩
          obtain ⟨d', data, hd', hdata, hQ⟩ := hQk hnil
          obtain rfl : d = d' := Option.some.inj (hd.symm.trans hd')
          obtain ⟨s', hrest, hall⟩ := (hih data).2 fun k' hk' hne => by
            rw [hkept data k' hk']
            exact hQks k' hk' hne
          refine ⟨s', ?_, fun _ => ⟨_, hlast hrest, hQ⟩, hall⟩
          rw [(readLines_keyword_iff hk hnil hd).2 ⟨data, hdata, rfl⟩]
          exact hrest

end Groups

/-! ## The lines of a store -/

/-- Lines with texts of a class leave data with texts of this class. -/
theorem Matches.readLines {P : String → Prop} (hP : IsTextClass P) (hdeclared : declared.IsDeclared)
    (h : Matches (KeywordData.IsReadFrom P catalogue) declared s)
    (htexts : ∀ line ∈ lines, ∀ args, tokenise line = .ok args → ∀ a ∈ args, P a)
    (hread : s.readLines? catalogue lines = some s') :
    Matches (KeywordData.IsReadFrom P catalogue) declared s' := by
  induction lines generalizing s with
  | nil =>
      obtain rfl := Option.some.inj hread
      exact h
  | cons line lines ih =>
      obtain ⟨hline, hlines⟩ := List.forall_mem_cons.1 htexts
      obtain ⟨s₁, hstep, hrest⟩ := Option.bind_eq_some_iff.1 hread
      refine ih ?_ hlines hrest
      unfold readLine? at hstep
      split at hstep
      · obtain rfl := Option.some.inj hstep
        exact h
      · next keyword values htokens =>
          unfold take? at hstep
          split at hstep
          · obtain rfl := Option.some.inj hstep
            exact h.read hP hdeclared (List.forall_mem_cons.1 (hline _ htokens)).2
          · cases hstep
      · cases hstep

/-- What was set was declared under the same name. -/
theorem Matches.exists_stores (h : Matches Stores declared s) (hk : k ∈ s.setKeywords) :
    ∃ d ∈ declared.keywords, k.name = d.name ∧ Stores d.data k.data := by
  obtain ⟨hk, hset⟩ := List.mem_filter.1 hk
  obtain ⟨d, hd, hdk⟩ := h.exists_declared hk
  have hdata := hdk.data
  rw [if_pos hset] at hdata
  exact ⟨d, hd, hdk.name, hdata⟩

/-- **The lines for the data of a keyword**, indented. -/
def dataLines (indent : String) (k : Keyword) : List String :=
  k.data.args.map fun values => writtenLine indent "  " (k.name :: values)

variable {indent : String}

theorem lines_eq_nil_iff : k.lines = [] ↔ k.data.args = [] := by
  simp [Keyword.lines, KeywordData.lines_eq_nil_iff]

theorem dataLines_eq_nil_iff : dataLines indent k = [] ↔ k.lines = [] := by
  simp [dataLines, lines_eq_nil_iff]

/-- What is read of the line for a keyword begins with the keyword. -/
theorem exists_values (hindent : IsGap indent) (hname : IsPlain name) {values : List String}
    (htokens : tokenise (writtenLine indent "  " (name :: values)) = .ok tokens) :
    ∃ values, tokens = name :: values := by
  have hfront : ∀ b ∈ ([] : List String), isWritable b = true := List.forall_mem_nil _
  obtain ⟨t, rest, rfl, ht⟩ := exists_token hindent (by decide) (by decide) hfront htokens
  rw [if_pos hname.fitsLine.1] at ht
  exact ⟨rest, by rw [ht, List.nil_append]⟩

/-- Of arguments without line feeds lines are written that are the lines of their text. -/
theorem linesOf_joinLines_dataLines {ks : List Keyword} (hindent : IsGap indent)
    (hnames : ∀ k ∈ ks, IsPlain k.name)
    (hfeed : ∀ k ∈ ks, ∀ values ∈ k.data.args, ∀ a ∈ values, '\n' ∉ a.toList) :
    linesOf (joinLines (ks.flatMap (dataLines indent))) = ks.flatMap (dataLines indent) := by
  have hsep : IsGap "  " := by decide
  refine linesOf_joinLines (fun line hline => ?_) fun line hline => ?_
  all_goals
    obtain ⟨k, hk, hline⟩ := List.mem_flatMap.1 hline
    obtain ⟨values, hvalues, rfl⟩ := List.mem_map.1 hline
  · refine lineFeed_not_mem_writtenLine hindent hsep (List.forall_mem_cons.2 ⟨?_, ?_⟩)
    · exact (hnames k hk).not_mem (by decide)
    · exact hfeed k hk values hvalues
  · exact dropReturn_writtenLine indent "  " (by simp)

/-- **What comes back holds no line feed**, and is spelled as reading spells it. -/
theorem Restores.canonical (hdeclared : declared.IsDeclared)
    (hrestores : Restores catalogue declared s indent) (hk : k ∈ s.setKeywords) (hne : k.lines ≠ []) :
    (∀ values ∈ k.data.args, ∀ a ∈ values, '\n' ∉ a.toList) ∧ k.data.IsCanonical catalogue := by
  obtain ⟨s', hread, hback⟩ := hrestores
  obtain ⟨k', hfind, hset, hdata⟩ := hback k hk hne
  have hlines := areLines_linesOf_ofList (s.writtenText indent).toList
  rw [String.ofList_toList] at hlines
  have hmatches := Matches.readLines (isTextClass_not_mem (c := '\n') (by decide) (by decide))
    hdeclared (.refl hdeclared) (fun line hline args htokens a ha hfeed =>
      hlines.not_mem line hline (subset_of_tokenise htokens ha hfeed)) hread
  obtain ⟨d, -, hdk⟩ := hmatches.exists_declared (List.mem_of_find?_eq_some hfind)
  have hfrom := hdk.data
  rw [if_pos hset] at hfrom
  constructor
  · rw [← KeywordData.args_unlinked, ← hdata, KeywordData.args_unlinked]
    exact hfrom.texts
  · rw [← KeywordData.isCanonical_unlinked, ← hdata, KeywordData.isCanonical_unlinked]
    exact hfrom.holds.isCanonical

section Written

variable (hnames : ∀ d ∈ declared.keywords, IsPlain d.name) (h : Matches Stores declared s)
include hnames h

theorem Matches.isPlain_name (hk : k ∈ s.setKeywords) : IsPlain k.name := by
  obtain ⟨d, hd, hname, -⟩ := h.exists_stores hk
  exact hname ▸ hnames d hd

theorem Matches.writtenText_eq (indent : String) :
    s.writtenText indent = joinLines (s.setKeywords.flatMap (dataLines indent)) := by
  rw [writtenText, lines, List.map_flatMap]
  refine congrArg joinLines (List.flatMap_congr fun k hk => ?_)
  obtain ⟨d, -, -, hdata⟩ := h.exists_stores hk
  rw [Keyword.lines, hdata.lines_eq]
  simp [dataLines, writtenLine, (h.isPlain_name hnames hk).quote, Function.comp_def]

variable (hdistinct : declared.HasDistinctNames)

omit hnames in
include hdistinct in
theorem Matches.pairwise_setKeywords :
    s.setKeywords.Pairwise fun k k' => sameName k.name k'.name = false :=
  (h.hasDistinctNames hdistinct).filter _

omit hnames in
include hdistinct in
theorem Matches.find?_declared (hk : k ∈ s.setKeywords) :
    ∃ d ∈ declared.keywords, declared.find? k.name = some d ∧ Stores d.data k.data := by
  obtain ⟨d, hd, hname, hdata⟩ := h.exists_stores hk
  exact ⟨d, hd, hname ▸ find?_name hdistinct hd, hdata⟩

omit hnames in
include hdistinct in
theorem Matches.isSome_find?_declared :
    ∀ k ∈ s.setKeywords, (declared.find? k.name).isSome := by
  intro k hk
  obtain ⟨d, -, hfind, -⟩ := h.find?_declared hdistinct hk
  exact Option.isSome_iff_exists.2 ⟨d, hfind⟩

include hdistinct

/-- What fits on lines comes back. -/
theorem Matches.restores_of_fitsText (hindent : IsGap indent)
    (hfits : ∀ k ∈ s.setKeywords, k.data.FitsText catalogue) :
    Restores catalogue declared s indent := by
  have hplain : ∀ k ∈ s.setKeywords, IsPlain k.name := fun k hk => h.isPlain_name hnames hk
  have hlines : linesOf (s.writtenText indent) = s.setKeywords.flatMap (dataLines indent) := by
    rw [h.writtenText_eq hnames]
    exact linesOf_joinLines_dataLines hindent hplain fun k hk values hvalues a ha =>
      ((hfits k hk).texts values hvalues a ha).2
  -- Each line is split into its keyword and its arguments again.
  have htokens : ∀ k ∈ s.setKeywords, List.Forall₂
      (fun line values => tokenise line = .ok (k.name :: values)) (dataLines indent k)
      k.data.args := by
    intro k hk
    refine List.forall₂_map_left_iff.2 (List.forall₂_same.2 fun values hvalues => ?_)
    refine (tokenise_writtenLine_iff hindent (by decide) (by decide) _).2 ?_
    refine List.forall_mem_cons.2 ⟨(hplain k hk).fitsLine.1, fun a ha => ?_⟩
    exact ((hfits k hk).texts values hvalues a ha).1
  obtain ⟨s', hread, hback⟩ := (readLines_keywords_iff
    (Q := fun k k' => k'.isSet = true ∧ k'.data.unlinked = k.data.unlinked) htokens
    (h.isSome_find?_declared hdistinct) (h.pairwise_setKeywords hdistinct)).2 fun k hk hne => by
      obtain ⟨d, -, hfind, hstores⟩ := h.find?_declared hdistinct hk
      have hholds := hstores.holds (hfits k hk).canonical hne
      refine ⟨d, _, hfind, hholds.readLines_args d.name, rfl, ?_⟩
      rw [Keyword.setTo, KeywordData.unlinked_unlinked]
  refine ⟨s', by rw [hlines]; exact hread, fun k hk hne => hback k hk fun hnil => hne ?_⟩
  rw [Keyword.lines, KeywordData.lines_eq_nil_iff.2 hnil, List.map_nil]

/-- **Arguments that come back are writable**: in the place of another one something without double
quotes is read. -/
theorem Matches.isWritable_of_restores (hdeclared : declared.IsDeclared) (hindent : IsGap indent)
    (hrestores : Restores catalogue declared s indent) (hk : k ∈ s.setKeywords) :
    ∀ values ∈ k.data.args, ∀ a ∈ values, isWritable a = true := by
  have hplain : ∀ k ∈ s.setKeywords, IsPlain k.name := fun k hk => h.isPlain_name hnames hk
  have hfeed : ∀ k ∈ s.setKeywords, ∀ values ∈ k.data.args, ∀ a ∈ values, '\n' ∉ a.toList := by
    intro k hk
    by_cases hne : k.lines = []
    · simp [lines_eq_nil_iff.1 hne]
    · exact (hrestores.canonical hdeclared hk hne).1
  obtain ⟨s', hread, hback⟩ := hrestores
  rw [h.writtenText_eq hnames, linesOf_joinLines_dataLines hindent hplain hfeed] at hread
  -- What is read in the place of the arguments of a keyword.
  have hvalues? : ∀ k ∈ s.setKeywords, ∀ line ∈ dataLines indent k, ∃ values,
      tokenise line = .ok (k.name :: values) := by
    intro k hk line hline
    obtain ⟨tokens, htokens⟩ := tokenise_of_readLines hread (List.mem_flatMap.2 ⟨k, hk, hline⟩)
    obtain ⟨args, -, rfl⟩ := List.mem_map.1 hline
    obtain ⟨values, rfl⟩ := exists_values hindent (hplain k hk) htokens
    exact ⟨values, htokens⟩
  choose! read hread? using hvalues?
  let W : Keyword → List (List String) := fun k => (dataLines indent k).map (read k)
  have hW : ∀ k ∈ s.setKeywords, List.Forall₂
      (fun line values => tokenise line = .ok (k.name :: values)) (dataLines indent k) (W k) :=
    fun k hk => List.forall₂_map_right_iff.2 (List.forall₂_same.2 (hread? k hk))
  have hnil : ∀ k ∈ s.setKeywords, W k ≠ [] → k.lines ≠ [] := by
    intro k hk hne hnil
    have hlength := (hW k hk).length_eq
    rw [dataLines_eq_nil_iff.2 hnil] at hlength
    exact hne (List.length_eq_zero_iff.1 hlength.symm)
  have hall := (readLines_keywords_iff
    (Q := fun k k' => k'.isSet = true ∧ k'.data.unlinked = k.data.unlinked) hW
    (h.isSome_find?_declared hdistinct) (h.pairwise_setKeywords hdistinct)).1
    ⟨s', hread, fun k hk hne => hback k hk (hnil k hk hne)⟩ k hk
  intro values hvalues
  have hlength : (dataLines indent k).length = k.data.args.length := List.length_map _
  have hne : W k ≠ [] := by
    intro hnil
    rw [(hW k hk).length_eq, hnil] at hlength
    rw [List.length_eq_zero_iff.1 hlength.symm] at hvalues
    cases hvalues
  obtain ⟨d, data, hfind, hdata, -, hsame⟩ := hall hne
  obtain ⟨d', hd', hfind', -⟩ := h.find?_declared hdistinct hk
  obtain rfl : d = d' := Option.some.inj (hfind.symm.trans hfind')
  have hargs : data.args = k.data.args := by
    rw [← KeywordData.args_unlinked, ← KeywordData.args_unlinked k.data, ← hsame]
    rfl
  have hkeeps := KeywordData.keepsQuotes_of_readLines (hdeclared d hd').1 hne hdata
    (by rw [hargs, ← hlength, (hW k hk).length_eq])
  rw [hargs] at hkeeps
  obtain ⟨i, hi, rfl⟩ := List.mem_iff_getElem.1 hvalues
  have hi' : i < (W k).length := hkeeps.length_eq ▸ hi
  have htokens := (List.forall₂_iff_get.1 (hW k hk)).2 i (hlength ▸ hi) hi'
  have hsep : IsGap "  " := by decide
  have hone : KeepsQuotes _ _ := (List.forall₂_iff_get.1 hkeeps).2 i hi hi'
  refine hone.forall_isWritable hindent hsep (by decide) (hplain k hk) ?_
  simpa [dataLines] using htokens

end Written

/-- **What calls have set comes back from what is written** exactly if it fits on lines and is
spelled as reading spells it. -/
theorem restores_iff {calls : List Call} (hdeclared : declared.IsDeclared)
    (hdistinct : declared.HasDistinctNames) (hnames : ∀ d ∈ declared.keywords, IsPlain d.name)
    (hcalls : declared.performAll calls = some s) (hindent : IsGap indent) :
    Restores catalogue declared s indent ↔ ∀ k ∈ s.setKeywords, k.data.FitsText catalogue := by
  have hstores := (Matches.refl hdeclared).performAll hdeclared hcalls
  constructor
  · intro hrestores k hk
    have hwritable := hstores.isWritable_of_restores hnames hdistinct hdeclared hindent hrestores hk
    by_cases hnil : k.lines = []
    · exact KeywordData.fitsText_of_args_eq_nil (lines_eq_nil_iff.1 hnil)
    · obtain ⟨hfeed, hcanonical⟩ := hrestores.canonical hdeclared hk hnil
      exact ⟨fun values hvalues a ha => ⟨hwritable values hvalues a ha, hfeed values hvalues a ha⟩,
        hcanonical⟩
  · exact hstores.restores_of_fitsText hnames hdistinct hindent

/-- An expression comes back. -/
theorem restores_word :
    ∃ s, NodeType.ifInRange.keywords.performAll [.read "Value" ["Rho"] .empty] = some s ∧
      Restores .empty NodeType.ifInRange.keywords s "  " := by
  obtain ⟨s, hcalls⟩ : ∃ s, NodeType.ifInRange.keywords.performAll
    [.read "Value" ["Rho"] .empty] = some s := ⟨_, rfl⟩
  refine ⟨s, hcalls, (restores_iff (NodeType.isDeclared_keywords _)
    (NodeType.hasDistinctNames_keywords _) (fun d hd => NodeType.isPlain_name hd) hcalls
    (by decide)).2 fun k hk => ?_⟩
  obtain rfl := Option.some.inj hcalls
  obtain rfl := List.mem_singleton.1 hk
  have hplain : IsPlain "Rho" := by decide
  have hfits := isTextClass_fitsLine.text_read hplain.fitsLine
  exact ⟨by simpa [KeywordData.args, Keyword.setTo] using hfits, (Scalar.keeps_read _).read_text⟩

/-- An argument without blanks may hold both kinds of quotes. It is taken, but what is written of it
does not give it back. -/
theorem not_restores_bothQuotes :
    ∃ s, NodeType.ifInRange.keywords.performAll [.read "Value" ["a'b\"c"] .empty] = some s ∧
      ¬ Restores .empty NodeType.ifInRange.keywords s "  " := by
  obtain ⟨s, hcalls⟩ : ∃ s, NodeType.ifInRange.keywords.performAll
    [.read "Value" ["a'b\"c"] .empty] = some s := ⟨_, rfl⟩
  have hdeclared := NodeType.isDeclared_keywords .ifInRange
  have hstores := (Matches.refl hdeclared).performAll hdeclared hcalls
  refine ⟨s, hcalls, fun hrestores => ?_⟩
  have hall := fun k (hk : k ∈ s.setKeywords) => hstores.isWritable_of_restores
    (fun d hd => NodeType.isPlain_name hd) (NodeType.hasDistinctNames_keywords _) hdeclared
    (by decide) hrestores hk
  obtain rfl := Option.some.inj hcalls
  have hwritable := hall _ (List.mem_singleton.2 rfl) _ (List.mem_singleton.2 rfl) _
    (List.mem_singleton.2 rfl)
  revert hwritable
  decide +kernel

end KeywordStore

end SiteAnalysis
