import SiteAnalysis.Proofs.Keyword.Rereading

set_option autoImplicit false

/-! # Calls that are refused

A call that is refused leaves the store as it was, with one exception. A member of a document may
give a keyword a list of sites, which is gathered pair by pair; when a later pair is refused, the
sites before it stay (`KeywordData.TakesInPart`). Main statements:

* `KeywordData.readLines_eq_error_iff`: what lines leave behind when one of them is refused.
* `KeywordData.ofJson_error_iff`: when a refused document value leaves the data as they were.
* `KeywordStore.refused_leaves_iff`: the same for all calls on a store.
-/

namespace SiteAnalysis

namespace KeywordData

variable {catalogue : Catalogue} {keyword : String} {d d' : KeywordData} {e : Error}

/-! ## Lines of which one is refused -/

/-- **Lines are refused at the first one at fault**, and those before it keep their effect. -/
theorem readLines_eq_error_iff {lines : List (List String)} :
    readLines keyword catalogue lines d = (.error e, d') ↔
      ∃ front bad back, lines = front ++ bad :: back ∧
        readLines keyword catalogue front d = (.ok (), d') ∧
        d'.read keyword catalogue bad = .error e := by
  induction lines generalizing d with
  | nil => simp [readLines]
  | cons line lines ih =>
      rw [readLines]
      -- Either this line is at fault, or one behind it.
      cases hline : d.read keyword catalogue line with
      | error e' =>
          constructor
          · rintro ⟨⟩
            exact ⟨[], line, lines, rfl, rfl, hline⟩
          · rintro ⟨front, bad, back, hsplit, hfront, hbad⟩
            cases front with
            | nil =>
                obtain ⟨rfl, -⟩ := List.cons.inj hsplit
                obtain rfl : d = d' := congrArg Prod.snd hfront
                rw [hline] at hbad
                rw [Except.error.inj hbad]
            | cons first front =>
                obtain ⟨rfl, -⟩ := List.cons.inj hsplit
                rw [readLines, hline] at hfront
                cases congrArg Prod.fst hfront
      | ok d₁ =>
          dsimp only
          rw [ih]
          constructor
          · rintro ⟨front, bad, back, rfl, hfront, hbad⟩
            refine ⟨line :: front, bad, back, rfl, ?_, hbad⟩
            rw [readLines, hline]
            exact hfront
          · rintro ⟨front, bad, back, hsplit, hfront, hbad⟩
            cases front with
            | nil =>
                obtain ⟨rfl, -⟩ := List.cons.inj hsplit
                obtain rfl : d = d' := congrArg Prod.snd hfront
                rw [hline] at hbad
                cases hbad
            | cons first front =>
                obtain ⟨rfl, rfl⟩ := List.cons.inj hsplit
                rw [readLines, hline] at hfront
                exact ⟨front, bad, back, rfl, hfront, hbad⟩

/-! ## Sites -/

/-- A pair of names as the arguments of a line. -/
def siteLine (p : String × String) : List String := [p.1, p.2]

/-- Pairs of names as a document value. -/
def siteDocument (pairs : List (String × String)) : Json :=
  .array (pairs.map fun p => .texts (siteLine p))

/-- A line of a pair that is a site of the catalogue gathers that site, once. -/
theorem read_siteLine (known : List (String × String)) (p : String × String) :
    (sites known).read keyword catalogue (siteLine p) =
      match catalogue.findSite? p.1 p.2 with
      | some found => .ok (sites (if known.contains found then known else known ++ [found]))
      | none => .error (.invalidArgument keyword (.unknownSite p.2 p.1)) := by
  simp only [read, siteLine, readSite]
  cases catalogue.findSite? p.1 p.2 <;> rfl

/-- Lines of sites of the catalogue are all taken. They change nothing exactly if all these sites
were gathered before. -/
theorem readLines_siteLines (keyword : String) {front : List (String × String)}
    (hfront : ∀ p ∈ front, (catalogue.findSite? p.1 p.2).isSome) (known : List (String × String)) :
    ∃ more, readLines keyword catalogue (front.map siteLine) (sites known) =
        (.ok (), sites (known ++ more)) ∧
      (more = [] ↔ ∀ p ∈ front, ∀ found, catalogue.findSite? p.1 p.2 = some found →
        found ∈ known) := by
  induction front generalizing known with
  | nil => exact ⟨[], by simp [readLines], by simp⟩
  | cons p front ih =>
      obtain ⟨hp, hrest⟩ := List.forall_mem_cons.1 hfront
      obtain ⟨found, hfound⟩ := Option.isSome_iff_exists.1 hp
      rw [List.map_cons, readLines, read_siteLine, hfound]
      dsimp only
      -- A known site changes nothing, and a new one is still there at the end.
      by_cases hmem : found ∈ known
      · obtain ⟨more, hread, hmore⟩ := ih hrest known
        refine ⟨more, by simpa [hmem] using hread, ?_⟩
        rw [hmore, List.forall_mem_cons, and_iff_right]
        intro found' hfound'
        obtain rfl := Option.some.inj (hfound.symm.trans hfound')
        exact hmem
      · obtain ⟨more, hread, -⟩ := ih hrest (known ++ [found])
        refine ⟨found :: more, by simpa [hmem] using hread, ?_⟩
        simp only [List.cons_ne_nil, List.forall_mem_cons, false_iff, not_and]
        exact fun hall => absurd (hall found hfound) hmem

/-- Only lines of sites of the catalogue are all taken. -/
theorem isSome_of_readLines {front : List (String × String)} {known : List (String × String)}
    (hread : readLines keyword catalogue (front.map siteLine) (sites known) = (.ok (), d')) :
    ∀ p ∈ front, (catalogue.findSite? p.1 p.2).isSome := by
  induction front generalizing known with
  | nil => exact nofun
  | cons p front ih =>
      rw [List.map_cons, readLines, read_siteLine] at hread
      cases hfound : catalogue.findSite? p.1 p.2 with
      | none =>
          rw [hfound] at hread
          cases congrArg Prod.fst hread
      | some found =>
          rw [hfound] at hread
          exact List.forall_mem_cons.2 ⟨by simp [hfound], ih hread⟩

/-- **A list of sites of which only a part is taken**: one of the pairs is no site of the catalogue,
and among those before the first such pair there is a site that was not gathered yet. -/
def IsCut (catalogue : Catalogue) (known pairs : List (String × String)) : Prop :=
  (∃ p ∈ pairs, catalogue.findSite? p.1 p.2 = none) ∧
    ∃ p ∈ pairs.takeWhile fun p => (catalogue.findSite? p.1 p.2).isSome,
      ∃ found, catalogue.findSite? p.1 p.2 = some found ∧ found ∉ known

/-- **Pairs that are refused leave the sites gathered before** exactly if none was taken in part. -/
theorem readLines_siteLines_error_iff {known pairs : List (String × String)}
    (hread : readLines keyword catalogue (pairs.map siteLine) (sites known) = (.error e, d')) :
    d' = sites known ↔ ¬ IsCut catalogue known pairs := by
  obtain ⟨front, bad, back, hsplit, hfront, hbad⟩ := readLines_eq_error_iff.1 hread
  obtain ⟨front, rest, rfl, rfl, hrest⟩ := List.map_eq_append_iff.1 hsplit
  obtain ⟨bad, back, rfl, rfl, rfl⟩ := List.map_eq_cons_iff.1 hrest
  have hsome := isSome_of_readLines hfront
  obtain ⟨more, htaken, hmore⟩ := readLines_siteLines keyword hsome known
  obtain rfl : d' = sites (known ++ more) :=
    (congrArg Prod.snd hfront).symm.trans (congrArg Prod.snd htaken)
  have hnone : catalogue.findSite? bad.1 bad.2 = none := by
    rw [read_siteLine] at hbad
    cases hfound : catalogue.findSite? bad.1 bad.2 with
    | none => rfl
    | some found =>
        rw [hfound] at hbad
        cases hbad
  -- The pairs in front of the first site that is not found are those that were taken.
  have hprefix : (front ++ bad :: back).takeWhile
      (fun p => (catalogue.findSite? p.1 p.2).isSome) = front := by
    rw [List.takeWhile_append_of_pos hsome, List.takeWhile_cons_of_neg (by simp [hnone]),
      List.append_nil]
  have hunchanged : sites (known ++ more) = sites known ↔ more = [] := by simp
  rw [hunchanged, hmore, IsCut, hprefix, and_iff_right ⟨bad, by simp, hnone⟩]
  simp only [not_exists, not_and, not_not]

/-! ## Document values -/

theorem textPair?_eq_some_iff {j : Json} {line : List String} :
    textPair? j = some line ↔ ∃ p, siteLine p = line ∧ j = .texts (siteLine p) := by
  constructor
  · intro h
    unfold textPair? at h
    split at h
    · next a b =>
        obtain rfl := Option.some.inj h
        exact ⟨(a, b), rfl, rfl⟩
    · cases h
  · rintro ⟨p, rfl, rfl⟩
    rfl

/-- A list of pairs of names gives a line for each pair. -/
theorem mapM_textPair?_eq_some_iff {items : List Json} {lines : List (List String)} :
    items.mapM textPair? = some lines ↔
      ∃ pairs, lines = pairs.map siteLine ∧ .array items = siteDocument pairs := by
  induction items generalizing lines with
  | nil =>
      constructor
      · rintro ⟨⟩
        exact ⟨[], rfl, rfl⟩
      · rintro ⟨pairs, rfl, hpairs⟩
        obtain rfl : pairs = [] := by simpa [siteDocument] using hpairs
        rfl
  | cons j items ih =>
      rw [List.mapM_cons]
      simp only [bind, Option.bind_eq_some_iff, pure, Option.some.injEq, ih,
        textPair?_eq_some_iff]
      constructor
      · rintro ⟨_, ⟨p, rfl, rfl⟩, _, ⟨pairs, rfl, hpairs⟩, rfl⟩
        obtain rfl := Json.array.inj hpairs
        exact ⟨p :: pairs, rfl, rfl⟩
      · rintro ⟨pairs, rfl, hpairs⟩
        cases pairs with
        | nil => cases hpairs
        | cons p pairs =>
            obtain ⟨rfl, rfl⟩ := List.cons.inj (Json.array.inj hpairs)
            exact ⟨_, ⟨p, rfl, rfl⟩, _, ⟨pairs, rfl, rfl⟩, rfl⟩

/-- The lines that a document value gives a fit are never refused. -/
theorem readLines_targetPairs {items : List Json} {lines : List (List String)}
    (hlines : items.mapM targetPair? = some lines) (targets : List (String × Float)) :
    ∃ final, readLines keyword catalogue lines (fit targets) = (.ok (), fit final) := by
  induction items generalizing lines targets with
  | nil =>
      cases hlines
      exact ⟨targets, rfl⟩
  | cons j items ih =>
      rw [List.mapM_cons] at hlines
      simp only [bind, Option.bind_eq_some_iff, pure, Option.some.injEq] at hlines
      obtain ⟨line, hline, lines, hrest, rfl⟩ := hlines
      obtain ⟨name, x, rfl⟩ : ∃ name x, line = [name, Layout.precise.text x] := by
        unfold targetPair? at hline
        split at hline
        · obtain ⟨x, -, rfl⟩ := Option.map_eq_some_iff.1 hline
          exact ⟨_, x, rfl⟩
        · cases hline
      have hread : (fit targets).read keyword catalogue [name, Layout.precise.text x] =
          .ok (fit (setTarget name x targets)) := by
        rw [read, readNumber_precise]
        rfl
      rw [readLines, hread]
      exact ih hrest _

/-- A list of pairs of names is gathered pair by pair. -/
theorem ofJson_siteDocument (known pairs : List (String × String)) :
    (sites known).ofJson keyword catalogue (siteDocument pairs) =
      readLines keyword catalogue (pairs.map siteLine) (sites known) := by
  have hlines := mapM_textPair?_eq_some_iff.2 ⟨pairs, rfl, rfl⟩
  have hgiven : (sites known).given keyword (siteDocument pairs) =
      .ok (.lines (pairs.map siteLine)) := by
    simp only [given, siteDocument, givenAll, hlines, bind, Except.bind, pure, Except.pure]
  rw [ofJson, hgiven]

/-- Other document values that are refused are refused as a whole. -/
theorem ofJson_error_of_ne {j : Json} (h : d.ofJson keyword catalogue j = (.error e, d'))
    (hother : ∀ known pairs, d = sites known → j ≠ siteDocument pairs) : d' = d := by
  unfold ofJson at h
  split at h
  · exact (congrArg Prod.snd h).symm
  · cases congrArg Prod.fst h
  · next lines hgiven =>
      cases makes_of_given hgiven with
      -- The only line is refused, so that there is none before it.
      | line =>
          obtain ⟨front, bad, back, hsplit, hfront, -⟩ := readLines_eq_error_iff.1 h
          obtain rfl : front = [] := by
            cases front with
            | nil => rfl
            | cons first front => simp at hsplit
          exact (congrArg Prod.snd hfront).symm
      | sites known hpairs =>
          obtain ⟨pairs, -, hdocument⟩ := mapM_textPair?_eq_some_iff.1 hpairs
          exact absurd hdocument (hother known pairs rfl)
      | fit targets hpairs =>
          obtain ⟨final, hread⟩ := readLines_targetPairs hpairs targets
          cases congrArg Prod.fst (hread.symm.trans h)

/-- **A document value of which the data take only a part**: a list of sites that is cut. -/
def TakesInPart (catalogue : Catalogue) (d : KeywordData) (j : Json) : Prop :=
  ∃ known pairs, d = sites known ∧ j = siteDocument pairs ∧ IsCut catalogue known pairs

theorem siteDocument_inj {pairs pairs' : List (String × String)}
    (h : siteDocument pairs = siteDocument pairs') : pairs = pairs' := by
  refine List.map_injective_iff.2 (fun p q hpq => ?_) (Json.array.inj h)
  simp only [Json.texts, siteLine, List.map_cons, List.map_nil, Json.array.injEq, List.cons.injEq,
    Json.text.injEq, and_true] at hpq
  exact Prod.ext hpq.1 hpq.2

theorem takesInPart_sites_iff {known pairs : List (String × String)} :
    (sites known).TakesInPart catalogue (siteDocument pairs) ↔ IsCut catalogue known pairs := by
  constructor
  · rintro ⟨known', pairs', hknown, hpairs, hcut⟩
    obtain rfl := sites.inj hknown
    obtain rfl := siteDocument_inj hpairs
    exact hcut
  · exact fun hcut => ⟨known, pairs, rfl, rfl, hcut⟩

/-- **A document value that is refused leaves the data as they were** exactly if no part of it was
taken. -/
theorem ofJson_error_iff {j : Json} (h : d.ofJson keyword catalogue j = (.error e, d')) :
    d' = d ↔ ¬ d.TakesInPart catalogue j := by
  by_cases hsites : ∃ known pairs, d = sites known ∧ j = siteDocument pairs
  · obtain ⟨known, pairs, rfl, rfl⟩ := hsites
    rw [ofJson_siteDocument] at h
    rw [takesInPart_sites_iff]
    exact readLines_siteLines_error_iff h
  · refine iff_of_true (ofJson_error_of_ne h fun known pairs hd hj => hsites ⟨_, _, hd, hj⟩) ?_
    rintro ⟨known, pairs, hd, hj, -⟩
    exact hsites ⟨known, pairs, hd, hj⟩

end KeywordData

/-! ## The first item for which a test holds -/

section

variable {α β : Type} {p : α → Bool} {f : α → α} {items : List α}

theorem updateFirst_eq_self_of_find {a : α} (hfind : items.find? p = some a) (hf : f a = a) :
    updateFirst p f items = items := by
  induction items with
  | nil => rfl
  | cons b items ih =>
      rw [List.find?_cons] at hfind
      rw [updateFirst]
      cases hp : p b with
      | true =>
          obtain rfl : b = a := by simpa [hp] using hfind
          simp [hf]
      | false => simp [ih (by simpa [hp] using hfind)]

theorem map_updateFirst {g : α → β} (hf : ∀ a, g (f a) = g a) :
    (updateFirst p f items).map g = items.map g := by
  induction items with
  | nil => rfl
  | cons a items ih =>
      rw [updateFirst]
      split
      · simp [hf]
      · simp [ih]

end

namespace KeywordStore

variable {s : KeywordStore}

/-- New data for a keyword change the store exactly if they are others. -/
theorem update_data_eq_iff {name : String} {k : Keyword} (hfind : s.find? name = some k)
    (data : KeywordData) : (s.update name fun k => { k with data }) = s ↔ data = k.data := by
  constructor
  · intro h
    have hnamed := isNamed_of_find? hfind
    have hfound : (s.update name fun k => { k with data }).find? name = some { k with data } :=
      find?_updateFirst hfind hnamed
    rw [h, hfind] at hfound
    exact (congrArg Keyword.data (Option.some.inj hfound)).symm
  · rintro rfl
    have hself : updateFirst (fun k => k.isNamed name) (fun c => { c with data := k.data })
        s.keywords = s.keywords := updateFirst_eq_self_of_find hfind rfl
    exact congrArg (fun keywords => KeywordStore.mk keywords s.deprecated) hself

/-! ## Responses -/

/-- The response to setting a value, which leaves no store of its own when it fails. -/
def settled (s : KeywordStore) : Except Error KeywordStore → Bool × KeywordStore
  | .ok s' => (true, s')
  | .error _ => (false, s)

/-- **The response to a call**: whether it was taken, and the store behind it in either case. -/
def respond (s : KeywordStore) : Call → Bool × KeywordStore
  | .read keyword values catalogue =>
    let (outcome, s') := s.read keyword values catalogue
    (outcome.isTaken, s')
  | .readMember key value catalogue =>
    let (outcome, s') := s.readMember key value catalogue
    (outcome.toOption.getD false, s')
  | .setFlag name value => s.settled (s.setFlag name value)
  | .setInteger name value _ => s.settled (s.setInteger name value)
  | .setDouble name value => s.settled (s.setDouble name value)
  | .setText name value => s.settled (s.setText name value)
  | .setOption name value => s.settled (s.setOption name value)
  | .setScalar name value => s.settled (s.setScalar name value)
  | .setTriple name x y z => s.settled (s.setTriple name x y z)
  | .setRange name minimum maximum width => s.settled (s.setRange name minimum maximum width)
  | .setNode name target => s.settled (s.setNode name target)
  | .setObservable name target index => s.settled (s.setObservable name target index)
  | .setNodes name targets => s.settled (s.setNodes name targets)
  | .addSite name species site catalogue => s.settled (s.addSite name species site catalogue)
  | .addTarget name variableName value => s.settled (s.addTarget name variableName value)

/-- The name of the keyword that a member of a document means: its own, or the one that replaced
it. -/
def memberName? (s : KeywordStore) (key : String) : Option String :=
  match s.find? key with
  | some k => some k.name
  | none => s.replacement? key

/-- **A call that is taken in part only**: a member of a document, by the data of its keyword. -/
def TakesInPart (s : KeywordStore) : Call → Prop
  | .readMember key value catalogue =>
    ∃ k, (s.memberName? key).bind s.find? = some k ∧ k.data.TakesInPart catalogue value
  | _ => False

theorem snd_settled {r : Except Error KeywordStore} (h : (s.settled r).1 = false) :
    (s.settled r).2 = s := by
  cases r with
  | ok s' => cases h
  | error e => rfl

/-- **A line that is not taken** leaves the store as it was. -/
theorem snd_read {keyword : String} {values : List String} {catalogue : Catalogue}
    (h : (s.read keyword values catalogue).1.isTaken = false) :
    (s.read keyword values catalogue).2 = s := by
  unfold KeywordStore.read at h ⊢
  cases hread : s.readKeyword keyword values catalogue with
  | some r =>
      cases r with
      | ok s' => simp [hread, ReadOutcome.isTaken] at h
      | error e => rfl
  | none =>
      cases hname : s.replacement? keyword with
      | none => rfl
      | some name =>
          cases hreplaced : s.readKeyword name values catalogue with
          | some r =>
              cases r with
              | ok s' => simp [hread, hname, hreplaced, ReadOutcome.isTaken] at h
              | error e => simp [hreplaced]
          | none => simp [hreplaced]

theorem readMember_eq (s : KeywordStore) (key : String) (j : Json) (catalogue : Catalogue) :
    s.readMember key j catalogue =
      match s.memberName? key with
      | none => (.ok false, s)
      | some name =>
        match s.find? name with
        | none => (.error (.unrecognisedKeyword "node" name), s)
        | some k =>
          match k.data.ofJson name catalogue j with
          | (.ok (), data) => (.ok true, s.update name fun k => k.setTo data)
          | (.error e, data) => (.error e, s.update name fun k => { k with data }) := rfl

/-- **A member of a document that is not taken** leaves the store as it was exactly if no part of
it was taken, and it never changes which keywords are set. -/
theorem snd_readMember {key : String} {j : Json} {catalogue : Catalogue}
    (h : (s.readMember key j catalogue).1.toOption.getD false = false) :
    ((s.readMember key j catalogue).2 = s ↔ ¬ s.TakesInPart (.readMember key j catalogue)) ∧
      (s.readMember key j catalogue).2.keywords.map Keyword.isSet =
        s.keywords.map Keyword.isSet := by
  rw [readMember_eq] at h ⊢
  rw [TakesInPart]
  cases hname : s.memberName? key with
  | none => simp
  | some name =>
      rw [hname] at h
      dsimp only at h ⊢
      rw [Option.bind_some]
      cases hfind : s.find? name with
      | none => simp
      | some k =>
          rw [hfind] at h
          dsimp only at h ⊢
          cases hread : k.data.ofJson name catalogue j with
          | mk r data =>
              rw [hread] at h
              cases r with
              | ok u => cases h
              | error e =>
                  have hdata := update_data_eq_iff hfind data
                  rw [KeywordData.ofJson_error_iff hread] at hdata
                  exact ⟨by simpa using hdata, map_updateFirst fun _ => rfl⟩

/-- **A call that is refused** leaves the store as it was exactly if it is not taken in part, and
which keywords are set in any case. -/
theorem refused_leaves_iff {c : Call} (hrefused : (s.respond c).1 = false) :
    ((s.respond c).2 = s ↔ ¬ s.TakesInPart c) ∧
      (s.respond c).2.keywords.map Keyword.isSet = s.keywords.map Keyword.isSet := by
  have hwhole : ∀ {s' : KeywordStore}, s' = s → ¬ s.TakesInPart c →
      (s' = s ↔ ¬ s.TakesInPart c) ∧
        s'.keywords.map Keyword.isSet = s.keywords.map Keyword.isSet := by
    rintro _ rfl hpart
    exact ⟨iff_of_true rfl hpart, rfl⟩
  cases c with
  | read keyword values catalogue => exact hwhole (snd_read hrefused) not_false
  | readMember key value catalogue => exact snd_readMember hrefused
  | _ => exact hwhole (snd_settled hrefused) not_false

/-- Water molecules, of which two kinds of sites are known. -/
def waterCatalogue : Catalogue := ⟨[⟨"Water", ["O", "H"]⟩]⟩

/-- A document value that names a site and then one that is none. -/
def waterCall : Call :=
  .readMember "Site" (KeywordData.siteDocument [("Water", "H"), ("Water", "X")]) waterCatalogue

/-- Behind the sites of a line, the list is refused at its second pair, and its first one stays. -/
theorem refused_leaves_water :
    let s := (NodeType.select.keywords.respond
      (.read "Site" ["Water", "O"] waterCatalogue)).2
    (s.respond waterCall).1 = false ∧ s.TakesInPart waterCall ∧
      ((s.respond waterCall).2 = s ↔ ¬ s.TakesInPart waterCall) ∧
      (s.respond waterCall).2.keywords.map Keyword.isSet = s.keywords.map Keyword.isSet := by
  intro s
  have hrefused : (s.respond waterCall).1 = false := by decide +kernel
  have hpart : s.TakesInPart waterCall := by
    refine ⟨_, rfl, [("Water", "O")], [("Water", "H"), ("Water", "X")], rfl, rfl, ?_, ?_⟩
    · decide
    · decide
  exact ⟨hrefused, hpart, refused_leaves_iff hrefused⟩

/-- A call that is refused may leave another store. -/
theorem refused_changes :
    ∃ (s : KeywordStore) (c : Call), (s.respond c).1 = false ∧ (s.respond c).2 ≠ s := by
  refine ⟨NodeType.select.keywords, waterCall, by decide +kernel, fun h => ?_⟩
  have hsites := congrArg (fun s : KeywordStore => s.sites "Site") h
  revert hsites
  decide +kernel

end KeywordStore

end SiteAnalysis
