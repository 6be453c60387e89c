import SiteAnalysis.Proofs.Json.Canonical
import SiteAnalysis.Proofs.Keyword.Data

set_option autoImplicit false

/-! # Data of keywords, written and read again

Data of the form that reading leaves (`KeywordData.Holds`) come back from what is written of them.
A reference comes back by the name of its node only; `KeywordData.unlinked` is what is left of data
then. Main statements:

* `KeywordData.Holds.readLines_args`: the lines of data give the data back.
* `KeywordData.Holds.ofJson_toJson?`: so does their document value, if their numbers are finite.
-/

namespace SiteAnalysis

namespace KeywordData

variable {P : String → Prop} {catalogue : Catalogue} {declared held : KeywordData}

/-! ## Changes of references -/

theorem refs_mapRefs (f : NodeFilter → NodeRef → NodeRef) (d : KeywordData) :
    (d.mapRefs f).refs = d.refs.map fun r => (r.1, f r.1 r.2) := by
  cases d with
  | node target filter => cases target <;> rfl
  | observable target index filter => cases target <;> rfl
  | nodes targets filter min max => simp [refs, mapRefs]
  | _ => rfl

theorem mapRefs_mapRefs (f g : NodeFilter → NodeRef → NodeRef) (d : KeywordData) :
    (d.mapRefs f).mapRefs g = d.mapRefs fun filter r => g filter (f filter r) := by
  cases d <;> simp [mapRefs, Function.comp_def]

/-- Only the references that are there count. -/
theorem mapRefs_congr {f g : NodeFilter → NodeRef → NodeRef} {d : KeywordData}
    (h : ∀ r ∈ d.refs, f r.1 r.2 = g r.1 r.2) : d.mapRefs f = d.mapRefs g := by
  cases d with
  | node target filter =>
      cases target with
      | none => rfl
      | some r => simp [mapRefs, h (filter, r) (by simp [refs])]
  | observable target index filter =>
      cases target with
      | none => rfl
      | some r => simp [mapRefs, h (filter, r) (by simp [refs])]
  | nodes targets filter min max =>
      have htargets : targets.map (f filter) = targets.map (g filter) :=
        List.map_congr_left fun r hr => h (filter, r) (by simpa [refs] using hr)
      simp [mapRefs, htargets]
  | _ => rfl

/-- The references of data that are not linked. -/
theorem eq_named_of_unlinked (h : held.unlinked = held) :
    ∀ r ∈ held.refs, r.2 = .named r.2.name := by
  intro r hr
  rw [← h, unlinked, refs_mapRefs] at hr
  obtain ⟨r', -, rfl⟩ := List.mem_map.1 hr
  rfl

theorem refs_of_isDeclared (h : held.isDeclared = true) : held.refs = [] := by
  cases held with
  | node target filter =>
      obtain rfl : target = none := by simpa [isDeclared] using h
      rfl
  | observable target index filter =>
      obtain rfl : target = none := by simpa [isDeclared] using h
      rfl
  | nodes targets filter min max =>
      obtain rfl : targets = [] := by simpa [isDeclared] using h
      rfl
  | _ => rfl

theorem mapRefs_of_isDeclared (h : held.isDeclared = true) (f : NodeFilter → NodeRef → NodeRef) :
    held.mapRefs f = held := by
  have hnone : held.mapRefs f = held.mapRefs fun _ r => r :=
    mapRefs_congr (by simp [refs_of_isDeclared h])
  rw [hnone]
  cases held <;> simp [mapRefs]

/-! ## The form under changes of references -/

theorem Holds.mapRefs (h : Holds catalogue declared held) (f : NodeFilter → NodeRef → NodeRef) :
    Holds catalogue declared (held.mapRefs f) := by
  cases h with
  | node r filter => exact .node (f filter r) filter
  | observable r i filter hindex => exact .observable (f filter r) i filter hindex
  | nodes filter hcount => exact .nodes filter (by simpa using hcount)
  | flag a b => exact .flag a b
  | integer m hfits hlimits => exact .integer m hfits hlimits
  | double y hlimits => exact .double y hlimits
  | text t hwritable => exact .text t hwritable
  | option t hfind hplain => exact .option t hfind hplain
  | scalar w hv => exact .scalar w hv
  | triple u v w hx hy hz => exact .triple u v w hx hy hz
  | range q r => exact .range q r
  | sites hne hfound hnodup => exact .sites hne hfound hnodup
  | fit hne hdistinct => exact .fit hne hdistinct

/-- A change of references that keeps their names up to case keeps the class of the texts. -/
theorem texts_mapRefs (hP : IsTextClass P) {f : NodeFilter → NodeRef → NodeRef}
    (hf : ∀ r ∈ held.refs, sameName (f r.1 r.2).name r.2.name = true)
    (h : ∀ values ∈ held.args, ∀ a ∈ values, P a) :
    ∀ values ∈ (held.mapRefs f).args, ∀ a ∈ values, P a := by
  have hsame : ∀ r ∈ held.refs, P r.2.name → P (f r.1 r.2).name := fun r hr =>
    hP.same ((sameName_comm _ _).trans (hf r hr))
  -- Only names of nodes change.
  cases held with
  | node target filter =>
      cases target with
      | none => exact h
      | some r =>
          have hname : P r.name := by simpa [args] using h
          simpa [args, KeywordData.mapRefs] using hsame (filter, r) (by simp [refs]) hname
  | observable target index filter =>
      cases target with
      | none => exact h
      | some r =>
          have hboth : P r.name ∧ P (toString index) := by simpa [args] using h
          simpa [args, KeywordData.mapRefs] using
            ⟨hsame (filter, r) (by simp [refs]) hboth.1, hboth.2⟩
  | nodes targets filter min max =>
      simp only [args, KeywordData.mapRefs] at h ⊢
      split
      · simp
      · next hne =>
          rw [if_neg (by simpa using hne)] at h
          intro values hvalues a ha
          obtain rfl := List.mem_singleton.1 hvalues
          simp only [List.map_map, List.mem_map, Function.comp_apply] at ha
          obtain ⟨r, hr, rfl⟩ := ha
          exact hsame (filter, r) (by simpa [refs] using hr)
            (h _ (List.mem_singleton.2 rfl) _ (List.mem_map.2 ⟨r, hr, rfl⟩))
  | _ => exact h

theorem Restorable.mapRefs (hP : IsTextClass P) (h : Restorable P catalogue declared held)
    {f : NodeFilter → NodeRef → NodeRef}
    (hf : ∀ r ∈ held.refs, sameName (f r.1 r.2).name r.2.name = true) :
    Restorable P catalogue declared (held.mapRefs f) :=
  ⟨h.holds.mapRefs f, texts_mapRefs hP hf h.texts⟩

/-! ## Lines -/

/-- The words of a line are its arguments with quotes where they need them; options need none. -/
theorem lines_eq_args {data : KeywordData}
    (hplain : ∀ s options, data = option s options → IsPlain s) :
    data.lines = data.args.map (List.map quote) := by
  -- Numbers are written as plain words.
  have hnumber : ∀ x : Float, quote (Layout.precise.text x) = Layout.precise.text x :=
    fun x => (isPlain_precise x).quote
  cases data with
  | flag b => cases b <;> rfl
  | integer n min max => exact congrArg (fun s => [[s]]) (isPlain_toString_int n).quote.symm
  | option s options => simp [lines, args, (hplain s options rfl).quote]
  | nodes targets filter min max => simp only [lines, args]; split <;> simp
  | text s => rfl
  | scalar v => rfl
  | triple x y z => rfl
  | double x min max => simp [lines, args, hnumber]
  | range r => simp [lines, args, hnumber]
  | node target filter => cases target <;> rfl
  | observable target index filter =>
      cases target with
      | none => rfl
      | some r =>
          have hindex := (isPlain_toString_nat index).quote
          exact congrArg (fun s => [[quote r.name, s]]) hindex.symm
  | sites known => simp [lines, args]
  | fit targets => simp [lines, args, hnumber]

theorem Holds.lines_eq (h : Holds catalogue declared held) :
    held.lines = held.args.map (List.map quote) := by
  refine lines_eq_args fun s options heq => ?_
  subst heq
  cases h with
  | option t _ hplain => exact hplain

theorem Holds.args_ne_nil (h : Holds catalogue declared held) : held.args ≠ [] := by
  cases h with
  | nodes filter hcount =>
      next targets _ _ =>
        cases targets with
        | nil => simp at hcount
        | cons r targets => simp [args]
  | sites hne _ _ => simpa [args] using hne
  | fit hne _ => simpa [args] using hne
  | _ => simp [args]

theorem readLines_singleton (keyword : String) {values : List String} {data data' : KeywordData}
    (h : data.read keyword catalogue values = .ok data') :
    readLines keyword catalogue [values] data = (.ok (), data') := by
  simp [readLines, h]

/-- Sites are gathered behind those that stand before them. -/
theorem readLines_sites (keyword : String) {known more : List (String × String)}
    (hfound : ∀ s ∈ more, catalogue.findSite? s.1 s.2 = some s) (hnodup : (known ++ more).Nodup) :
    readLines keyword catalogue (more.map fun s => [s.1, s.2]) (sites known) =
      (.ok (), sites (known ++ more)) := by
  induction more generalizing known with
  | nil => simp [readLines]
  | cons s more ih =>
      obtain ⟨hs, hmore⟩ := List.forall_mem_cons.1 hfound
      have hnew : s ∉ known := fun hmem =>
        List.disjoint_of_nodup_append hnodup hmem (by simp)
      have hread : (sites known).read keyword catalogue [s.1, s.2] = .ok (sites (known ++ [s])) := by
        simp [read, readSite, hs, hnew, bind, Except.bind, pure, Except.pure]
      rw [List.map_cons, readLines, hread]
      dsimp only
      rw [ih hmore (by simpa using hnodup), List.append_assoc, List.singleton_append]

/-- So are starting values. -/
theorem readLines_fit (keyword : String) {targets more : List (String × Float)}
    (hdistinct : (targets ++ more).Pairwise fun s t => sameName s.1 t.1 = false) :
    readLines keyword catalogue (more.map fun t => [t.1, Layout.precise.text t.2]) (fit targets) =
      (.ok (), fit (targets ++ more)) := by
  induction more generalizing targets with
  | nil => simp [readLines]
  | cons t more ih =>
      have hnew : ∀ s ∈ targets, sameName s.1 t.1 = false := fun s hs =>
        (List.pairwise_append.1 hdistinct).2.2 s hs t (by simp)
      have hread : (fit targets).read keyword catalogue [t.1, Layout.precise.text t.2] =
          .ok (fit (targets ++ [t])) := by
        simp [read, readNumber, Layout.readFloat?_precise, setTarget_of_new hnew, Except.map]
      rw [List.map_cons, readLines, hread]
      dsimp only
      rw [ih (by simpa using hdistinct), List.append_assoc, List.singleton_append]

theorem readNumber_precise (keyword : String) (x : Float) :
    readNumber keyword (Layout.precise.text x) = .ok x := by
  rw [readNumber, Layout.readFloat?_precise]

/-- **The lines of data give the data back**, with the names of references only. -/
theorem Holds.readLines_args (h : Holds catalogue declared held) (keyword : String) :
    readLines keyword catalogue held.args declared = (.ok (), held.unlinked) := by
  cases h with
  | flag a b =>
      refine readLines_singleton keyword ?_
      have htruth : readTruth keyword (if b then "true" else "false") = .ok b := by
        cases b <;> rfl
      exact map_eq_ok_iff.2 ⟨b, htruth, rfl⟩
  | integer m hfits hlimits =>
      refine readLines_singleton keyword ?_
      simp only [read, readInt?_toString hfits]
      exact map_eq_ok_iff.2 ⟨_, checkInteger_eq_ok_iff.2 ⟨hlimits, rfl⟩, rfl⟩
  | double y hlimits =>
      refine readLines_singleton keyword ?_
      exact bind_eq_ok_iff.2 ⟨_, readNumber_precise keyword _,
        bind_eq_ok_iff.2 ⟨_, checkDouble_eq_ok_iff.2 ⟨hlimits, rfl⟩, rfl⟩⟩
  | text t hwritable =>
      refine readLines_singleton keyword ?_
      exact map_eq_ok_iff.2 ⟨_, if_pos hwritable, rfl⟩
  | option t hfind hplain =>
      refine readLines_singleton keyword ?_
      simp only [read, hfind]
      rfl
  | scalar w hv =>
      refine readLines_singleton keyword ?_
      simp only [read, hv.read_text]
      rfl
  | triple u v w hx hy hz =>
      refine readLines_singleton keyword ?_
      simp only [read, hx.read_text, hy.read_text, hz.read_text]
      rfl
  | range q r =>
      refine readLines_singleton keyword ?_
      have hmeasures : RangeSpec.ofMeasures? r.minimum r.maximum r.width = some r :=
        dif_pos r.proper
      simp only [List.map_cons, List.map_nil, read, readNumber_precise]
      simp only [bind, Except.bind, hmeasures]
      rfl
  | node r filter => exact readLines_singleton keyword rfl
  | observable r i filter hindex =>
      refine readLines_singleton keyword ?_
      simp only [read, readIndex?_toString (Nat.lt_of_le_of_lt hindex (by decide))]
      exact map_eq_ok_iff.2 ⟨_, if_neg (by omega), rfl⟩
  | @nodes targets filter min max hcount =>
      have hne : targets ≠ [] := by
        rintro rfl
        simp at hcount
      have hargs : args (KeywordData.nodes targets filter min max) = [targets.map NodeRef.name] :=
        if_neg (by simpa using hne)
      rw [hargs]
      refine readLines_singleton keyword ?_
      refine map_eq_ok_iff.2 ⟨_, readNodes_eq_ok_iff.2 ⟨by simpa using hcount, rfl⟩, ?_⟩
      rw [List.map_map]
      rfl
  | sites hne hfound hnodup => exact readLines_sites keyword hfound (by simpa using hnodup)
  | fit hne hdistinct => exact readLines_fit keyword (by simpa using hdistinct)

/-! ## Documents -/

theorem canonical_floatJson (x : Float) : (Scalar.floatJson x).canonical = Scalar.floatJson x := by
  rw [Scalar.floatJson]
  split <;> simp [Json.canonical]

theorem canonical_scalar (v : Scalar) : v.toJson.canonical = v.toJson := by
  cases v with
  | float x => exact canonical_floatJson x
  | _ => simp [Scalar.toJson, Json.canonical]

theorem canonical_texts (items : List String) : (Json.texts items).canonical = Json.texts items :=
  Json.canonical_array <| List.forall_mem_map.2 fun s _ => by simp [Json.canonical]

/-- The document value of data has no objects in it. -/
theorem canonical_of_toJson? {j : Json} (h : held.toJson? = some j) : j.canonical = j := by
  cases held with
  | double x _ _ =>
      obtain rfl := Option.some.inj h
      exact canonical_floatJson x
  | scalar v =>
      obtain rfl := Option.some.inj h
      exact canonical_scalar v
  | triple x y z =>
      obtain rfl := Option.some.inj h
      exact Json.canonical_array (by simp [canonical_scalar])
  | range r =>
      obtain rfl := Option.some.inj h
      exact Json.canonical_array (List.forall_mem_map.2 fun x _ => canonical_floatJson x)
  | node target filter =>
      obtain ⟨r, -, rfl⟩ := Option.map_eq_some_iff.1 h
      simp [Json.canonical]
  | observable target index filter =>
      obtain ⟨r, -, rfl⟩ := Option.map_eq_some_iff.1 h
      exact Json.canonical_array (by simp [Json.canonical])
  | nodes targets filter min max =>
      obtain rfl := Option.some.inj h
      exact canonical_texts _
  | sites known =>
      obtain rfl := Option.some.inj h
      exact Json.canonical_array (List.forall_mem_map.2 fun s _ => canonical_texts _)
  | fit targets =>
      obtain rfl := Option.some.inj h
      refine Json.canonical_array (List.forall_mem_map.2 fun t _ => Json.canonical_array ?_)
      simp [Json.canonical, canonical_floatJson]
  | flag b =>
      obtain rfl := Option.some.inj h
      simp [Json.canonical]
  | integer n _ _ =>
      obtain rfl := Option.some.inj h
      simp [Json.canonical]
  | text s =>
      obtain rfl := Option.some.inj h
      simp [Json.canonical]
  | option s _ =>
      obtain rfl := Option.some.inj h
      simp [Json.canonical]

theorem mapM_map_eq_some {α β γ : Type} {f : β → Option γ} {g : α → β} {h : α → γ} {l : List α}
    (hl : ∀ a ∈ l, f (g a) = some (h a)) : (l.map g).mapM f = some (l.map h) := by
  induction l with
  | nil => rfl
  | cons a l ih =>
      obtain ⟨ha, hl⟩ := List.forall_mem_cons.1 hl
      simp [List.mapM_cons, ha, ih hl]

/-- **The document value of data gives the data back**, with the names of references only, if
their numbers are finite. -/
theorem Holds.ofJson_toJson? (h : Holds catalogue declared held) (hfinite : held.isFinite = true)
    (keyword : String) : ∃ j, held.toJson? = some j ∧
      declared.ofJson keyword catalogue j = (.ok (), held.unlinked) := by
  have hargs := h.readLines_args keyword
  -- Most values are given on as the lines that would be written; scalars are taken as they are.
  have hlines : ∀ {j : Json}, declared.given keyword j = .ok (.lines held.args) →
      declared.ofJson keyword catalogue j = (.ok (), held.unlinked) := fun hgiven => by
    rw [ofJson, hgiven]
    exact hargs
  have hfloat : ∀ {x : Float}, x.isFinite = true → Scalar.floatJson x = .float x :=
    fun hx => if_pos hx
  cases h with
  | flag a b => exact ⟨_, rfl, hlines rfl⟩
  | integer m hfits _ => exact ⟨_, rfl, hlines (if_pos hfits)⟩
  | double y _ =>
      refine ⟨_, rfl, hlines ?_⟩
      rw [hfloat hfinite]
      rfl
  | text t _ => exact ⟨_, rfl, hlines rfl⟩
  | option t _ _ => exact ⟨_, rfl, hlines rfl⟩
  | @scalar w v hv =>
      have hback := hv.ofJson?_toJson
      rw [if_pos (show v.isFinite = true from hfinite)] at hback
      refine ⟨_, rfl, ?_⟩
      simp only [ofJson, given, hback]
      rfl
  | triple u v w hx hy hz =>
      simp only [isFinite, Bool.and_eq_true] at hfinite
      have hxback := hx.ofJson?_toJson
      have hyback := hy.ofJson?_toJson
      have hzback := hz.ofJson?_toJson
      rw [if_pos hfinite.1.1] at hxback
      rw [if_pos hfinite.1.2] at hyback
      rw [if_pos hfinite.2] at hzback
      refine ⟨_, rfl, ?_⟩
      simp only [ofJson, given, hxback, hyback, hzback]
      rfl
  | range q r =>
      simp only [isFinite, Bool.and_eq_true] at hfinite
      refine ⟨_, rfl, hlines ?_⟩
      simp only [List.map_cons, List.map_nil, hfloat hfinite.1.1, hfloat hfinite.1.2,
        hfloat hfinite.2]
      rfl
  | node r filter => exact ⟨_, rfl, hlines rfl⟩
  | observable r i filter _ => exact ⟨_, rfl, hlines rfl⟩
  | @nodes targets filter min max hcount =>
      have hne : ¬ (targets.isEmpty = true) := by
        cases targets with
        | nil => simp at hcount
        | cons r targets => simp
      have hnames : ((targets.map NodeRef.name).map Json.text).mapM Json.text? =
          some (targets.map NodeRef.name) :=
        (mapM_map_eq_some (f := Json.text?) (h := id) fun _ _ => rfl).trans
          (congrArg some (List.map_id _))
      refine ⟨_, rfl, hlines ?_⟩
      simp only [given, Json.texts, givenAll, hnames, args, if_neg hne]
      rfl
  | @sites known _ _ _ =>
      have hpairs : (known.map fun s => Json.texts [s.1, s.2]).mapM textPair? =
          some (known.map fun s => [s.1, s.2]) :=
        mapM_map_eq_some fun _ _ => rfl
      refine ⟨_, rfl, hlines ?_⟩
      simp only [given, givenAll, hpairs]
      rfl
  | @fit targets _ _ =>
      have hfinite' : ∀ t ∈ targets, t.2.isFinite = true := by simpa [isFinite] using hfinite
      have hpairs : (targets.map fun t =>
          Json.array [.text t.1, Scalar.floatJson t.2]).mapM targetPair? =
          some (targets.map fun t => [t.1, Layout.precise.text t.2]) := by
        refine mapM_map_eq_some fun t ht => ?_
        simp only [hfloat (hfinite' t ht)]
        rfl
      refine ⟨_, rfl, hlines ?_⟩
      simp only [given, givenAll, hpairs]
      rfl

end KeywordData

end SiteAnalysis
