import SiteAnalysis.Keyword.Data
import SiteAnalysis.Proofs.Scalar.Written

set_option autoImplicit false

/-! # Data of keywords that were read

What a line leaves in a keyword is described by `KeywordData.Holds`: the data fit what was declared
and are spelled as the catalogue and the options spell them. Main statements:

* `KeywordData.gives_of_read`: what a line gives, one case for each kind of data.
* `KeywordData.takes_given`: what a document value gives, or that it is refused.
* `KeywordData.IsReadFrom.read`: reading a line leaves data of that form.
-/

namespace SiteAnalysis

/-! ## The catalogue -/

/-- What was found under a name is found under its own. -/
theorem find?_sameName_found {α : Type} {f : α → String} {items : List α} {name : String} {a : α}
    (h : items.find? (fun b => sameName (f b) name) = some a) :
    items.find? (fun b => sameName (f b) (f a)) = some a := by
  have hsame : sameName (f a) name = true :=
    List.find?_some (p := fun b => sameName (f b) name) h
  simp only [sameName_congr_right hsame]
  exact h

namespace Catalogue

variable {c : Catalogue} {name species site : String} {found : String × String}

theorem findSpecies?_found {s : Species} (h : c.findSpecies? name = some s) :
    c.findSpecies? s.name = some s := find?_sameName_found h

theorem findSite?_eq_some_iff : c.findSite? species site = some found ↔
    ∃ s, c.findSpecies? species = some s ∧ s.name = found.1 ∧
      s.sites.find? (fun t => sameName t site) = some found.2 := by
  obtain ⟨x, y⟩ := found
  simp only [findSite?, bind, Option.bind_eq_some_iff, pure, Option.some.injEq, Prod.mk.injEq]
  constructor
  · rintro ⟨s, hs, t, ht, rfl, rfl⟩
    exact ⟨s, hs, rfl, ht⟩
  · rintro ⟨s, hs, rfl, ht⟩
    exact ⟨s, hs, y, ht, rfl, rfl⟩

/-- A site is found under the names the catalogue has for it. -/
theorem findSite?_found (h : c.findSite? species site = some found) :
    c.findSite? found.1 found.2 = some found := by
  obtain ⟨s, hs, hname, ht⟩ := findSite?_eq_some_iff.1 h
  exact findSite?_eq_some_iff.2
    ⟨s, hname ▸ findSpecies?_found hs, hname, find?_sameName_found (f := id) ht⟩

theorem sameName_of_findSite? (h : c.findSite? species site = some found) :
    sameName found.1 species = true ∧ sameName found.2 site = true := by
  obtain ⟨s, hs, hname, ht⟩ := findSite?_eq_some_iff.1 h
  rw [← hname]
  exact ⟨List.find?_some (p := fun s : Species => sameName s.name species) hs,
    List.find?_some (p := fun t => sameName t site) ht⟩

end Catalogue

namespace KeywordData

/-! ## Arguments and names -/

/-- The arguments on each of the lines of the data, without quotes. -/
def args : KeywordData → List (List String)
  | flag b => [[if b then "true" else "false"]]
  | integer n _ _ => [[toString n]]
  | double x _ _ => [[Layout.precise.text x]]
  | text s => [[s]]
  | option s _ => [[s]]
  | scalar v => [[v.text]]
  | triple x y z => [[x.text, y.text, z.text]]
  | range r => [[r.minimum, r.maximum, r.width].map Layout.precise.text]
  | node target _ => target.toList.map fun t => [t.name]
  | observable target index _ => target.toList.map fun t => [t.name, toString index]
  | nodes targets _ _ _ => if targets.isEmpty then [] else [targets.map NodeRef.name]
  | sites known => known.map fun (species, site) => [species, site]
  | fit targets => targets.map fun (name, x) => [name, Layout.precise.text x]

/-- The data with the names of all references only. -/
def unlinked (d : KeywordData) : KeywordData := d.mapRefs fun _ r => .named r.name

/-- Whether all numbers in the data are finite. -/
def isFinite : KeywordData → Bool
  | double x _ _ => x.isFinite
  | scalar v => v.isFinite
  | triple x y z => x.isFinite && y.isFinite && z.isFinite
  | range r => r.minimum.isFinite && r.maximum.isFinite && r.width.isFinite
  | fit targets => targets.all fun t => t.2.isFinite
  | _ => true

/-- Whether data are such as keywords are declared with: they name no nodes and hold no entries,
and their options need no quotes. -/
def isDeclared : KeywordData → Bool
  | option _ options => options.all fun o => decide (IsPlain o)
  | node target _ | observable target _ _ => target.isNone
  | nodes targets _ _ _ => targets.isEmpty
  | sites known => known.isEmpty
  | fit targets => targets.isEmpty
  | _ => true

/-! ## The form of data that were read -/

/-- **What reading leaves in a keyword** that was declared with some data. -/
inductive Holds (catalogue : Catalogue) : KeywordData → KeywordData → Prop
  | flag (a b : Bool) : Holds catalogue (flag a) (flag b)
  | integer (m : Int) {n : Int} {min max : Option Int} (hfits : fitsInt n = true)
      (hlimits : (min.any (n < ·) || max.any (· < n)) = false) :
      Holds catalogue (integer m min max) (integer n min max)
  | double (y : Float) {x : Float} {min max : Option Float}
      (hlimits : (min.any (x < ·) || max.any (· < x)) = false) :
      Holds catalogue (double y min max) (double x min max)
  | text (t : String) {s : String} (hwritable : isWritable s = true) :
      Holds catalogue (text t) (text s)
  | option (t : String) {s : String} {options : List String}
      (hfind : findOption? options s = some s) (hplain : IsPlain s) :
      Holds catalogue (option t options) (option s options)
  | scalar (w : Scalar) {v : Scalar} (hv : v.Keeps) : Holds catalogue (scalar w) (scalar v)
  | triple (u v w : Scalar) {x y z : Scalar} (hx : x.Keeps) (hy : y.Keeps) (hz : z.Keeps) :
      Holds catalogue (triple u v w) (triple x y z)
  | range (q r : RangeSpec) : Holds catalogue (range q) (range r)
  | node (r : NodeRef) (filter : NodeFilter) :
      Holds catalogue (node none filter) (node (some r) filter)
  | observable (r : NodeRef) (i : Nat) {index : Nat} (filter : NodeFilter) (hindex : index ≤ 2) :
      Holds catalogue (observable none i filter) (observable (some r) index filter)
  | nodes {targets : List NodeRef} (filter : NodeFilter) {min : Nat} {max : Option Nat}
      (hcount : (targets.length < Nat.max min 1 || max.any (· < targets.length)) = false) :
      Holds catalogue (nodes [] filter min max) (nodes targets filter min max)
  | sites {known : List (String × String)} (hne : known ≠ [])
      (hfound : ∀ s ∈ known, catalogue.findSite? s.1 s.2 = some s) (hnodup : known.Nodup) :
      Holds catalogue (sites []) (sites known)
  | fit {targets : List (String × Float)} (hne : targets ≠ [])
      (hdistinct : targets.Pairwise fun s t => sameName s.1 t.1 = false) :
      Holds catalogue (fit []) (fit targets)

/-- **Data that come back from what is written of them**: of the form that reading leaves, with
texts of a class only. -/
structure Restorable (P : String → Prop) (catalogue : Catalogue) (declared held : KeywordData) :
    Prop where
  holds : Holds catalogue declared held
  texts : ∀ values ∈ held.args, ∀ a ∈ values, P a

/-- **Data as reading leaves them**, not linked yet. -/
structure IsReadFrom (P : String → Prop) (catalogue : Catalogue) (declared held : KeywordData) :
    Prop where
  holds : Holds catalogue declared held
  unlinked : held.unlinked = held
  texts : ∀ values ∈ held.args, ∀ a ∈ values, P a

theorem IsReadFrom.restorable {P : String → Prop} {catalogue : Catalogue}
    {declared held : KeywordData} (h : IsReadFrom P catalogue declared held) :
    Restorable P catalogue declared held := ⟨h.holds, h.texts⟩

/-! ## Reading a line -/

variable {P : String → Prop} {catalogue : Catalogue} {declared held data : KeywordData}

/-- Whatever data were read before, the constraints are those declared; only gathered entries
matter for the next line. -/
theorem Holds.read_eq (h : Holds catalogue declared held) (hrepeat : declared.isRepeatable = false)
    (keyword : String) (values : List String) :
    held.read keyword catalogue values = declared.read keyword catalogue values := by
  cases h <;> first | rfl | cases hrepeat

theorem checkInteger_eq_ok_iff {keyword : String} {n m : Int} {min max : Option Int} :
    checkInteger keyword n min max = .ok m ↔
      (min.any (n < ·) || max.any (· < n)) = false ∧ n = m := by
  unfold checkInteger
  generalize (min.any (n < ·) || max.any (· < n)) = outside
  cases outside <;> simp

theorem checkDouble_eq_ok_iff {keyword : String} {x y : Float} {min max : Option Float} :
    checkDouble keyword x min max = .ok y ↔
      (min.any (x < ·) || max.any (· < x)) = false ∧ x = y := by
  unfold checkDouble
  generalize (min.any (x < ·) || max.any (· < x)) = outside
  cases outside <;> simp

theorem readNodes_eq_ok_iff {keyword : String} {min : Nat} {max : Option Nat}
    {values : List String} {refs : List NodeRef} :
    readNodes keyword min max values = .ok refs ↔
      (values.length < Nat.max min 1 || max.any (· < values.length)) = false ∧
        values.map NodeRef.named = refs := by
  unfold readNodes
  dsimp only
  generalize (values.length < Nat.max min 1 || max.any (· < values.length) : Bool) = wrong
  cases wrong <;> simp

theorem readNumber_eq_ok_iff {keyword s : String} {x : Float} :
    readNumber keyword s = .ok x ↔ readFloat? s = some x := by
  unfold readNumber
  cases readFloat? s <;> simp

theorem readSite_eq_ok_iff {keyword species site : String} {found : String × String} :
    readSite keyword species site catalogue = .ok found ↔
      catalogue.findSite? species site = some found := by
  unfold readSite
  cases catalogue.findSite? species site <;> simp

/-- **What a line gives** to a keyword that holds some data. -/
inductive Gives (catalogue : Catalogue) : KeywordData → List String → KeywordData → Prop
  | switched (a : Bool) : Gives catalogue (flag a) [] (flag true)
  | flag (a b : Bool) (s : String) : Gives catalogue (flag a) [s] (flag b)
  | integer (m : Int) {n : Int} {min max : Option Int} {s : String} (hread : readInt? s = some n)
      (hlimits : (min.any (n < ·) || max.any (· < n)) = false) :
      Gives catalogue (integer m min max) [s] (integer n min max)
  | double (y : Float) {x : Float} {min max : Option Float} {s : String}
      (hread : readFloat? s = some x) (hlimits : (min.any (x < ·) || max.any (· < x)) = false) :
      Gives catalogue (double y min max) [s] (double x min max)
  | text (t : String) {s : String} (hwritable : isWritable s = true) :
      Gives catalogue (text t) [s] (text s)
  | option (t : String) {s o : String} {options : List String}
      (hfind : findOption? options s = some o) :
      Gives catalogue (option t options) [s] (option o options)
  | scalar (w : Scalar) (s : String) : Gives catalogue (scalar w) [s] (scalar (.read s))
  | triple (u v w : Scalar) (x y z : String) :
      Gives catalogue (triple u v w) [x, y, z] (triple (.read x) (.read y) (.read z))
  | range (q : RangeSpec) {r : RangeSpec} (x y z : String) :
      Gives catalogue (range q) [x, y, z] (range r)
  | node (target : Option NodeRef) (filter : NodeFilter) (s : String) :
      Gives catalogue (node target filter) [s] (node (some (.named s)) filter)
  | first (target : Option NodeRef) (i : Nat) (filter : NodeFilter) (s : String) :
      Gives catalogue (observable target i filter) [s] (observable (some (.named s)) 0 filter)
  | observable (target : Option NodeRef) (i : Nat) (filter : NodeFilter) (s t : String) {n : Nat}
      (hindex : n ≤ 2) :
      Gives catalogue (observable target i filter) [s, t] (observable (some (.named s)) n filter)
  | nodes (targets : List NodeRef) (filter : NodeFilter) {min : Nat} {max : Option Nat}
      {values : List String}
      (hcount : (values.length < Nat.max min 1 || max.any (· < values.length)) = false) :
      Gives catalogue (nodes targets filter min max) values
        (nodes (values.map .named) filter min max)
  | sites (known : List (String × String)) {species site : String} {found : String × String}
      (hfind : catalogue.findSite? species site = some found) :
      Gives catalogue (sites known) [species, site]
        (sites (if known.contains found then known else known ++ [found]))
  | fit (targets : List (String × Float)) (name : String) {s : String} {x : Float}
      (hread : readFloat? s = some x) :
      Gives catalogue (fit targets) [name, s] (fit (setTarget name x targets))

/-- **A line that is read** gives its keyword data of the same form. -/
theorem gives_of_read {keyword : String} {values : List String}
    (hread : declared.read keyword catalogue values = .ok data) :
    Gives catalogue declared values data := by
  unfold read at hread
  cases declared with
  | flag b =>
      dsimp only at hread
      split at hread
      · obtain rfl := Except.ok.inj hread
        exact .switched b
      · obtain ⟨b', -, rfl⟩ := map_eq_ok_iff.1 hread
        exact .flag b b' _
      · cases hread
  | integer m min max =>
      dsimp only at hread
      split at hread
      · split at hread
        · next n hn =>
            obtain ⟨k, hcheck, rfl⟩ := map_eq_ok_iff.1 hread
            obtain ⟨hlimits, rfl⟩ := checkInteger_eq_ok_iff.1 hcheck
            exact .integer m hn hlimits
        · cases hread
      · cases hread
  | double y min max =>
      dsimp only at hread
      split at hread
      · obtain ⟨x, hx, hread⟩ := bind_eq_ok_iff.1 hread
        obtain ⟨x', hcheck, hread⟩ := bind_eq_ok_iff.1 hread
        obtain ⟨hlimits, rfl⟩ := checkDouble_eq_ok_iff.1 hcheck
        obtain rfl := Except.ok.inj hread
        exact .double y (readNumber_eq_ok_iff.1 hx) hlimits
      · cases hread
  | text t =>
      dsimp only at hread
      split at hread
      · obtain ⟨s', hcheck, rfl⟩ := map_eq_ok_iff.1 hread
        unfold checkWritable at hcheck
        split at hcheck
        · next hwritable =>
            obtain rfl := Except.ok.inj hcheck
            exact .text t hwritable
        · cases hcheck
      · cases hread
  | option t options =>
      dsimp only at hread
      split at hread
      · split at hread
        · next o ho =>
            obtain rfl := Except.ok.inj hread
            exact .option t ho
        · cases hread
      · cases hread
  | scalar w =>
      dsimp only at hread
      split at hread
      · obtain rfl := Except.ok.inj hread
        exact .scalar w _
      · cases hread
  | triple u v w =>
      dsimp only at hread
      split at hread
      · obtain rfl := Except.ok.inj hread
        exact .triple u v w _ _ _
      · cases hread
  | range q =>
      dsimp only at hread
      split at hread
      · obtain ⟨minimum, -, hread⟩ := bind_eq_ok_iff.1 hread
        obtain ⟨maximum, -, hread⟩ := bind_eq_ok_iff.1 hread
        obtain ⟨width, -, hread⟩ := bind_eq_ok_iff.1 hread
        split at hread
        · obtain rfl := Except.ok.inj hread
          exact .range q _ _ _
        · cases hread
      · cases hread
  | node target filter =>
      dsimp only at hread
      split at hread
      · obtain rfl := Except.ok.inj hread
        exact .node target filter _
      · cases hread
  | observable target i filter =>
      dsimp only at hread
      split at hread
      · obtain rfl := Except.ok.inj hread
        exact .first target i filter _
      · split at hread
        · obtain ⟨k, hcheck, rfl⟩ := map_eq_ok_iff.1 hread
          unfold checkIndex at hcheck
          split at hcheck
          · cases hcheck
          · obtain rfl := Except.ok.inj hcheck
            exact .observable target i filter _ _ (by omega)
        · cases hread
      · cases hread
  | nodes targets filter min max =>
      obtain ⟨refs, hrefs, rfl⟩ := map_eq_ok_iff.1 hread
      obtain ⟨hcount, rfl⟩ := readNodes_eq_ok_iff.1 hrefs
      exact .nodes targets filter hcount
  | sites known =>
      dsimp only at hread
      split at hread
      · obtain ⟨found, hfind, hread⟩ := bind_eq_ok_iff.1 hread
        obtain rfl := Except.ok.inj hread
        exact .sites known (readSite_eq_ok_iff.1 hfind)
      · cases hread
  | fit targets =>
      dsimp only at hread
      split at hread
      · obtain ⟨x, hx, rfl⟩ := map_eq_ok_iff.1 hread
        exact .fit targets _ (readNumber_eq_ok_iff.1 hx)
      · cases hread

/-! ## Taking a document value -/

/-- **What a document value gives** to a keyword that holds some data: a single line, unless these
are scalars or gathered from lines. -/
inductive Makes : KeywordData → Json → Given → Prop
  | line {d : KeywordData} (hone : d.isRepeatable = false) (j : Json) (values : List String) :
      Makes d j (.lines [values])
  | scalar (w v : Scalar) (j : Json) : Makes (scalar w) j (.data (scalar v))
  | triple (u v w x y z : Scalar) (j : Json) : Makes (triple u v w) j (.data (triple x y z))
  | sites (known : List (String × String)) {items : List Json} {lines : List (List String)}
      (hpairs : items.mapM textPair? = some lines) :
      Makes (sites known) (.array items) (.lines lines)
  | fit (targets : List (String × Float)) {items : List Json} {lines : List (List String)}
      (hpairs : items.mapM targetPair? = some lines) :
      Makes (fit targets) (.array items) (.lines lines)

/-- **How a document value is taken**: it is refused as a whole, or gives something. -/
inductive Takes (keyword : String) (d : KeywordData) (j : Json) : Except Error Given → Prop
  | refused (expected : String) :
      Takes keyword d j (.error (.invalidArgument keyword (.wrongDocument expected j.compact)))
  | makes {g : Given} (hmakes : Makes d j g) : Takes keyword d j (.ok g)

section Takes

variable {keyword : String} {d : KeywordData} {j : Json}

/-- A list in a document gives something if all its items are taken. -/
theorem takes_givenAll {α : Type} {expected : String} {f : Json → Option α} {items : List Json}
    {give : List α → Given} (hmakes : ∀ parts, items.mapM f = some parts → Makes d j (give parts)) :
    Takes keyword d j (givenAll keyword expected j f items >>= fun parts => .ok (give parts)) := by
  unfold givenAll
  cases hparts : items.mapM f with
  | none => exact .refused expected
  | some parts => exact .makes (hmakes parts hparts)

/-- **A document value** is taken as a whole or not at all. -/
theorem takes_given (keyword : String) (d : KeywordData) (j : Json) :
    Takes keyword d j (d.given keyword j) := by
  cases d with
  | integer n min max =>
      unfold given
      dsimp only
      split
      · split
        · exact .makes (.line rfl _ _)
        · exact .refused _
      · exact .refused _
  | scalar w =>
      unfold given
      dsimp only
      split
      · exact .makes (.scalar w _ j)
      · exact .refused _
  | triple u v w =>
      unfold given
      dsimp only
      split
      · split
        · exact .makes (.triple u v w _ _ _ _)
        · exact .refused _
      · exact .refused _
  | observable target index filter =>
      unfold given
      dsimp only
      split
      · exact .makes (.line rfl _ _)
      · exact takes_givenAll fun values _ => .line rfl _ values
      · exact .refused _
  | nodes targets filter min max =>
      unfold given
      dsimp only
      split
      · exact takes_givenAll fun values _ => .line rfl _ values
      · exact .refused _
  | range r =>
      unfold given
      dsimp only
      split
      · exact takes_givenAll fun values _ => .line rfl _ values
      · exact .refused _
  | sites known =>
      unfold given
      dsimp only
      split
      · exact takes_givenAll fun lines hpairs => .sites known hpairs
      · exact .refused _
  | fit targets =>
      unfold given
      dsimp only
      split
      · exact takes_givenAll fun lines hpairs => .fit targets hpairs
      · exact .refused _
  -- The other kinds take a single value of their own type.
  | _ =>
      unfold given
      dsimp only
      split
      · exact .makes (.line rfl _ _)
      · exact .refused _

theorem makes_of_given {g : Given} (h : d.given keyword j = .ok g) : Makes d j g := by
  have htakes := takes_given keyword d j
  rw [h] at htakes
  cases htakes with
  | makes hmakes => exact hmakes

end Takes

/-! ## The first line -/

/-- The first line of a keyword that takes one line only. -/
theorem isReadFrom_of_read_declared (hP : IsTextClass P) (hdeclared : declared.isDeclared = true)
    (hrepeat : declared.isRepeatable = false) {keyword : String} {values : List String}
    (hvalues : ∀ a ∈ values, P a) (hread : declared.read keyword catalogue values = .ok data) :
    IsReadFrom P catalogue declared data := by
  cases gives_of_read hread with
  | switched a => exact ⟨.flag a true, rfl, by simpa [args] using hP.plain (by decide)⟩
  | flag a b s =>
      exact ⟨.flag a b, rfl, by cases b <;> simpa [args] using hP.plain (by decide)⟩
  | @integer m n min max s hn hlimits =>
      refine ⟨.integer m (fitsInt_of_readInt? hn) hlimits, rfl, ?_⟩
      simpa [args] using hP.plain (isPlain_toString_int n)
  | @double y x min max s hx hlimits =>
      exact ⟨.double y hlimits, rfl, by simpa [args] using hP.plain (isPlain_precise x)⟩
  | text t hwritable => exact ⟨.text t hwritable, rfl, by simpa [args] using hvalues⟩
  | @option t s o options hfind =>
      have hplain : IsPlain o := by
        have hall : ∀ o ∈ options, IsPlain o := by simpa [isDeclared] using hdeclared
        exact hall o (List.mem_of_find?_eq_some hfind)
      refine ⟨.option t ?_ hplain, rfl, by simpa [args] using hP.plain hplain⟩
      exact find?_sameName_found (f := id) hfind
  | scalar w s =>
      refine ⟨.scalar w (Scalar.keeps_read s), rfl, ?_⟩
      simpa [args] using hP.text_read (hvalues s (by simp))
  | triple u v w x y z =>
      refine ⟨.triple u v w (Scalar.keeps_read x) (Scalar.keeps_read y) (Scalar.keeps_read z),
        rfl, ?_⟩
      have htexts : ∀ s ∈ [x, y, z], P (Scalar.read s).text :=
        fun s hs => hP.text_read (hvalues s hs)
      simpa [args] using htexts
  | @range q r x y z =>
      refine ⟨.range q r, rfl, ?_⟩
      have hplain : ∀ x ∈ [r.minimum, r.maximum, r.width], P (Layout.precise.text x) :=
        fun x _ => hP.plain (isPlain_precise x)
      simpa [args] using hplain
  | node target filter s =>
      obtain rfl : target = none := by simpa [isDeclared] using hdeclared
      exact ⟨.node _ filter, rfl, by simpa [args, NodeRef.named] using hvalues⟩
  | first target i filter s =>
      obtain rfl : target = none := by simpa [isDeclared] using hdeclared
      refine ⟨.observable _ i filter (by decide), rfl, ?_⟩
      simpa [args] using ⟨hvalues s (by simp), hP.plain (isPlain_toString_nat 0)⟩
  | @observable target i filter s t n hindex =>
      obtain rfl : target = none := by simpa [isDeclared] using hdeclared
      refine ⟨.observable _ i filter hindex, rfl, ?_⟩
      simpa [args] using ⟨hvalues s (by simp), hP.plain (isPlain_toString_nat n)⟩
  | nodes targets filter hcount =>
      obtain rfl : targets = [] := by simpa [isDeclared] using hdeclared
      refine ⟨.nodes filter (by simpa using hcount), by simp [unlinked, mapRefs, NodeRef.named], ?_⟩
      simp only [args]
      split
      · simp
      · simpa [NodeRef.named] using hvalues
  | sites known hfind => cases hrepeat
  | fit targets name hx => cases hrepeat

/-! ## Gathering entries -/

theorem fst_mem_of_mem_setTarget {name : String} {value : Float} {targets : List (String × Float)}
    {t : String × Float} (h : t ∈ setTarget name value targets) :
    t.1 = name ∨ ∃ s ∈ targets, s.1 = t.1 := by
  induction targets with
  | nil =>
      obtain rfl : t = (name, value) := by simpa [setTarget] using h
      exact Or.inl rfl
  | cons head rest ih =>
      simp only [setTarget] at h
      split at h
      · rcases List.mem_cons.1 h with rfl | hrest
        · exact Or.inr ⟨head, by simp, rfl⟩
        · exact Or.inr ⟨t, by simp [hrest], rfl⟩
      · rcases List.mem_cons.1 h with rfl | hrest
        · exact Or.inr ⟨head, by simp, rfl⟩
        · rcases ih hrest with hname | ⟨s, hs, hst⟩
          · exact Or.inl hname
          · exact Or.inr ⟨s, by simp [hs], hst⟩

/-- Setting a value keeps the names of the variables distinct. -/
theorem pairwise_setTarget {targets : List (String × Float)}
    (h : targets.Pairwise fun s t => sameName s.1 t.1 = false) (name : String) (value : Float) :
    (setTarget name value targets).Pairwise fun s t => sameName s.1 t.1 = false := by
  induction targets with
  | nil => simp [setTarget]
  | cons head rest ih =>
      obtain ⟨hhead, hrest⟩ := List.pairwise_cons.1 h
      simp only [setTarget]
      split
      · exact List.pairwise_cons.2 ⟨hhead, hrest⟩
      · next hne =>
          refine List.pairwise_cons.2 ⟨fun t ht => ?_, ih hrest⟩
          rcases fst_mem_of_mem_setTarget ht with hname | ⟨s, hs, hst⟩
          · simpa [hname] using hne
          · exact hst ▸ hhead s hs

/-- A new variable stands behind those given before. -/
theorem setTarget_of_new {name : String} {targets : List (String × Float)}
    (h : ∀ t ∈ targets, sameName t.1 name = false) (value : Float) :
    setTarget name value targets = targets ++ [(name, value)] := by
  induction targets with
  | nil => rfl
  | cons head rest ih =>
      obtain ⟨hhead, hrest⟩ := List.forall_mem_cons.1 h
      simp [setTarget, hhead, ih hrest]

theorem texts_sites_iff {known : List (String × String)} :
    (∀ values ∈ (sites known).args, ∀ a ∈ values, P a) ↔ ∀ s ∈ known, P s.1 ∧ P s.2 := by
  simp only [args, List.forall_mem_map, List.forall_mem_cons, List.not_mem_nil, false_imp_iff,
    implies_true, and_true]

/-- One more site. -/
theorem isReadFrom_of_read_sites (hP : IsTextClass P) {known : List (String × String)}
    (hfound : ∀ s ∈ known, catalogue.findSite? s.1 s.2 = some s) (hnodup : known.Nodup)
    (htexts : ∀ s ∈ known, P s.1 ∧ P s.2) {keyword : String} {values : List String}
    (hvalues : ∀ a ∈ values, P a)
    (hread : (sites known).read keyword catalogue values = .ok data) :
    IsReadFrom P catalogue (sites []) data := by
  cases gives_of_read hread with
  | @sites _ species site found hsite =>
      obtain ⟨hspecies, hname⟩ := Catalogue.sameName_of_findSite? hsite
      have hPfound : P found.1 ∧ P found.2 :=
        ⟨hP.same ((sameName_comm _ _).trans hspecies) (hvalues species (by simp)),
          hP.same ((sameName_comm _ _).trans hname) (hvalues site (by simp))⟩
      split
      · next hmem =>
          have hne : known ≠ [] := List.ne_nil_of_mem (List.contains_iff_mem.1 hmem)
          exact ⟨.sites hne hfound hnodup, rfl, texts_sites_iff.2 htexts⟩
      · next hmem =>
          have hnew : found ∉ known := by simpa using hmem
          refine ⟨.sites (by simp) ?_ ?_, rfl, texts_sites_iff.2 ?_⟩
          · exact List.forall_mem_append.2 ⟨hfound, by simpa using Catalogue.findSite?_found hsite⟩
          · exact (List.perm_append_singleton found known).nodup_iff.2
              (List.nodup_cons.2 ⟨hnew, hnodup⟩)
          · exact List.forall_mem_append.2 ⟨htexts, by simpa using hPfound⟩

/-- One more starting value. -/
theorem isReadFrom_of_read_fit (hP : IsTextClass P) {targets : List (String × Float)}
    (hdistinct : targets.Pairwise fun s t => sameName s.1 t.1 = false)
    (htexts : ∀ t ∈ targets, P t.1) {keyword : String} {values : List String}
    (hvalues : ∀ a ∈ values, P a)
    (hread : (fit targets).read keyword catalogue values = .ok data) :
    IsReadFrom P catalogue (fit []) data := by
  cases gives_of_read hread with
  | @fit _ name s x hx =>
      refine ⟨.fit ?_ (pairwise_setTarget hdistinct name x), rfl, ?_⟩
      · cases targets with
        | nil => simp [setTarget]
        | cons head rest => rw [setTarget]; split <;> simp
      · intro values hmem a ha
        obtain ⟨t, ht, rfl⟩ := List.mem_map.1 hmem
        rcases List.mem_pair.1 ha with rfl | rfl
        · rcases fst_mem_of_mem_setTarget ht with hname | ⟨s, hs, hst⟩
          · exact hname ▸ hvalues name (by simp)
          · exact hst ▸ htexts s hs
        · exact hP.plain (isPlain_precise _)

/-- **Reading a line leaves data that can be written and read again.** -/
theorem IsReadFrom.read (hP : IsTextClass P) (hdeclared : declared.isDeclared = true)
    (hheld : held = declared ∨ IsReadFrom P catalogue declared held) {keyword : String}
    {values : List String} (hvalues : ∀ a ∈ values, P a)
    (hread : held.read keyword catalogue values = .ok data) :
    IsReadFrom P catalogue declared data := by
  -- A line replaces data that take one line only; other data gather what lines bring.
  cases hrepeat : declared.isRepeatable with
  | false =>
      have hfirst : declared.read keyword catalogue values = .ok data := by
        rcases hheld with rfl | hheld
        · exact hread
        · rwa [hheld.holds.read_eq hrepeat] at hread
      exact isReadFrom_of_read_declared hP hdeclared hrepeat hvalues hfirst
  | true =>
      cases declared with
      | sites known =>
          obtain rfl : known = [] := by simpa [isDeclared] using hdeclared
          rcases hheld with rfl | ⟨hholds, -, htexts⟩
          · exact isReadFrom_of_read_sites hP (by simp) (by simp) (by simp) hvalues hread
          · cases hholds with
            | sites _ hfound hnodup =>
                exact isReadFrom_of_read_sites hP hfound hnodup (texts_sites_iff.1 htexts) hvalues
                  hread
      | fit targets =>
          obtain rfl : targets = [] := by simpa [isDeclared] using hdeclared
          rcases hheld with rfl | ⟨hholds, -, htexts⟩
          · exact isReadFrom_of_read_fit hP (by simp) (by simp) hvalues hread
          · cases hholds with
            | fit _ hdistinct =>
                refine isReadFrom_of_read_fit hP hdistinct (fun t ht => ?_) hvalues hread
                exact htexts _ (List.mem_map.2 ⟨t, ht, rfl⟩) _ (by simp)
      | _ => cases hrepeat

end KeywordData

end SiteAnalysis
