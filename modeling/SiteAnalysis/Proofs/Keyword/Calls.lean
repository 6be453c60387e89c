import SiteAnalysis.Proofs.Keyword.Store

set_option autoImplicit false

/-! # Calls on keyword stores

A store is filled by lines, by members of documents and by setting values (`KeywordStore.Call`). What
these leave in a keyword is less than what reading a line leaves, since values may be set that no line
gives (`KeywordData.Stores`). Main statements:

* `KeywordStore.Matches.perform`: a call keeps a store such as calls leave it.
* `KeywordStore.Matches.performAll`: so do any number of calls.
-/

namespace SiteAnalysis

namespace KeywordData

variable {P : String → Prop} {catalogue : Catalogue} {declared held data : KeywordData}
  {keyword : String}

/-! ## What calls leave in a keyword -/

/-- **What calls leave in a keyword** that was declared with some data. -/
inductive Stores : KeywordData → KeywordData → Prop
  | flag (a b : Bool) : Stores (flag a) (flag b)
  | integer (m : Int) {n : Int} {min max : Option Int} (hfits : fitsInt n = true)
      (hlimits : (min.any (n < ·) || max.any (· < n)) = false) :
      Stores (integer m min max) (integer n min max)
  | double (y : Float) {x : Float} {min max : Option Float}
      (hlimits : (min.any (x < ·) || max.any (· < x)) = false) :
      Stores (double y min max) (double x min max)
  | text (t : String) {s : String} (hwritable : isWritable s = true) : Stores (text t) (text s)
  | option (t : String) {s : String} {options : List String}
      (hfind : findOption? options s = some s) (hplain : IsPlain s) :
      Stores (option t options) (option s options)
  | scalar (w v : Scalar) : Stores (scalar w) (scalar v)
  | triple (u v w x y z : Scalar) : Stores (triple u v w) (triple x y z)
  | range (q r : RangeSpec) : Stores (range q) (range r)
  | node (r : NodeRef) (filter : NodeFilter) : Stores (node none filter) (node (some r) filter)
  | observable (r : NodeRef) (i : Nat) {index : Nat} (filter : NodeFilter) (hindex : index ≤ 2) :
      Stores (observable none i filter) (observable (some r) index filter)
  | nodes {targets : List NodeRef} (filter : NodeFilter) {min : Nat} {max : Option Nat}
      (hcount : (targets.length < min || max.any (· < targets.length)) = false) :
      Stores (nodes [] filter min max) (nodes targets filter min max)
  | sites {known : List (String × String)} (hnodup : known.Nodup) : Stores (sites []) (sites known)
  | fit (targets : List (String × Float)) : Stores (fit []) (fit targets)

/-- What reading a line leaves is such. -/
theorem Holds.stores (h : Holds catalogue declared held) : Stores declared held := by
  cases h with
  | flag a b => exact .flag a b
  | integer m hfits hlimits => exact .integer m hfits hlimits
  | double y hlimits => exact .double y hlimits
  | text t hwritable => exact .text t hwritable
  | option t hfind hplain => exact .option t hfind hplain
  | scalar w _ => exact .scalar w _
  | triple u v w _ _ _ => exact .triple u v w _ _ _
  | range q r => exact .range q r
  | node r filter => exact .node r filter
  | observable r i filter hindex => exact .observable r i filter hindex
  | @nodes targets filter min max hcount =>
      refine .nodes filter ?_
      simp only [Bool.or_eq_false_iff, decide_eq_false_iff_not, not_lt] at hcount ⊢
      exact ⟨(Nat.le_max_left min 1).trans hcount.1, hcount.2⟩
  | sites _ _ hnodup => exact .sites hnodup
  | fit _ _ => exact .fit _

/-- Data that were declared, or that calls left in their place. -/
def IsKept (declared held : KeywordData) : Prop := held = declared ∨ Stores declared held

/-- Constraints stay those declared, so that only gathered entries matter for the next call. -/
theorem IsKept.congr {α : Type} {f : KeywordData → α} (h : IsKept declared held)
    (hf : Stores declared held → f held = f declared) : f held = f declared := by
  rcases h with rfl | h
  · rfl
  · exact hf h

/-- **A line leaves such data.** -/
theorem IsKept.read (hdeclared : declared.isDeclared = true) (h : IsKept declared held)
    {values : List String} (hread : held.read keyword catalogue values = .ok data) :
    Stores declared data := by
  -- Data that take one line only are replaced by it, so what was held before makes no difference.
  cases hrepeat : declared.isRepeatable with
  | false =>
      have hsame : held.read keyword catalogue values = declared.read keyword catalogue values := by
        refine h.congr (f := fun d => d.read keyword catalogue values) fun hstores => ?_
        cases hstores <;> first | rfl | cases hrepeat
      rw [hsame] at hread
      exact (isReadFrom_of_read_declared isTextClass_true hdeclared hrepeat (fun _ _ => trivial)
        hread).holds.stores
  | true =>
      cases declared with
      | sites known₀ =>
          obtain rfl : known₀ = [] := by simpa [isDeclared] using hdeclared
          obtain ⟨known, rfl, hnodup⟩ : ∃ known, held = sites known ∧ known.Nodup := by
            rcases h with rfl | h
            · exact ⟨[], rfl, List.nodup_nil⟩
            · cases h with
              | sites hnodup => exact ⟨_, rfl, hnodup⟩
          cases gives_of_read hread with
          | sites _ hfind =>
              refine .sites ?_
              split
              · exact hnodup
              · next hnew =>
                  refine hnodup.append (List.nodup_singleton _) fun s hs hs' => hnew ?_
                  obtain rfl := List.mem_singleton.1 hs'
                  simpa using hs
      | fit targets₀ =>
          obtain rfl : targets₀ = [] := by simpa [isDeclared] using hdeclared
          obtain ⟨targets, rfl⟩ : ∃ targets, held = fit targets := by
            rcases h with rfl | h
            · exact ⟨[], rfl⟩
            · cases h
              exact ⟨_, rfl⟩
          cases gives_of_read hread with
          | fit _ name hx => exact .fit _
      | _ => cases hrepeat

/-- Lines leave such data, if there are any. -/
theorem IsKept.readLines (hdeclared : declared.isDeclared = true) (h : IsKept declared held)
    {values : List (List String)} (hread : held.readLines keyword catalogue values = (.ok (), data)) :
    (values = [] ∧ data = held) ∨ Stores declared data := by
  induction values generalizing held with
  | nil => exact .inl ⟨rfl, (congrArg Prod.snd hread).symm⟩
  | cons line values ih =>
      unfold KeywordData.readLines at hread
      split at hread
      · next d hline =>
          have hstores := h.read hdeclared hline
          rcases ih (.inr hstores) hread with ⟨-, rfl⟩ | hdata
          · exact .inr hstores
          · exact .inr hdata
      · cases congrArg Prod.fst hread

/-- Scalars of a document are such data. -/
theorem IsKept.stores_of_makes (h : IsKept declared held) {j : Json}
    (hmakes : Makes held j (.data data)) : Stores declared data := by
  cases hmakes with
  | scalar w v =>
      rcases h with rfl | h
      · exact .scalar w v
      · cases h
        exact .scalar _ v
  | triple u v w x y z =>
      rcases h with rfl | h
      · exact .triple u v w x y z
      · cases h
        exact .triple _ _ _ x y z

/-- What is gathered may be nothing. -/
theorem IsKept.stores_of_isRepeatable (hdeclared : declared.isDeclared = true)
    (h : IsKept declared held) (hrepeat : held.isRepeatable = true) : Stores declared held := by
  rcases h with rfl | h
  · cases held with
    | sites known =>
        obtain rfl : known = [] := by simpa [isDeclared] using hdeclared
        exact .sites List.nodup_nil
    | fit targets =>
        obtain rfl : targets = [] := by simpa [isDeclared] using hdeclared
        exact .fit []
    | _ => cases hrepeat
  · exact h

/-- **A member of a document leaves such data.** -/
theorem IsKept.ofJson (hdeclared : declared.isDeclared = true) (h : IsKept declared held) {j : Json}
    (hread : held.ofJson keyword catalogue j = (.ok (), data)) : Stores declared data := by
  unfold KeywordData.ofJson at hread
  split at hread
  · cases congrArg Prod.fst hread
  · next d hgiven =>
      obtain rfl : d = data := congrArg Prod.snd hread
      exact h.stores_of_makes (makes_of_given hgiven)
  · next values hgiven =>
      rcases h.readLines hdeclared hread with ⟨rfl, rfl⟩ | hstores
      -- An empty list is taken only where entries are gathered.
      · cases makes_of_given hgiven with
        | sites => exact h.stores_of_isRepeatable hdeclared rfl
        | fit => exact h.stores_of_isRepeatable hdeclared rfl
      · exact hstores

end KeywordData

/-- Whether a line was taken, under the name of a keyword or an old one. -/
def ReadOutcome.isTaken : ReadOutcome → Bool
  | .success | .deprecated _ => true
  | .failed _ | .unrecognised => false

namespace KeywordStore

open KeywordData (Stores IsKept)

/-! ## Calls -/

/-- **A call on a store.** -/
inductive Call where
  | read (keyword : String) (values : List String) (catalogue : Catalogue)
  | readMember (key : String) (value : Json) (catalogue : Catalogue)
  | setFlag (name : String) (value : Bool)
  | setInteger (name : String) (value : Int) (fits : fitsInt value = true)
  | setDouble (name : String) (value : Float)
  | setText (name value : String)
  | setOption (name value : String)
  | setScalar (name : String) (value : Scalar)
  | setTriple (name : String) (x y z : Scalar)
  | setRange (name : String) (minimum maximum width : Float)
  | setNode (name : String) (target : NodeRef)
  | setObservable (name : String) (target : NodeRef) (index : Nat)
  | setNodes (name : String) (targets : List NodeRef)
  | addSite (name species site : String) (catalogue : Catalogue)
  | addTarget (name variableName : String) (value : Float)

/-- The store after a line was taken; none if it was not. -/
def take? (s : KeywordStore) (catalogue : Catalogue) (keyword : String) (values : List String) :
    Option KeywordStore :=
  if (s.read keyword values catalogue).1.isTaken then some (s.read keyword values catalogue).2
  else none

/-- **The store after a call** that was successful; none if it was not. -/
def perform (s : KeywordStore) : Call → Option KeywordStore
  | .read keyword values catalogue => s.take? catalogue keyword values
  | .readMember key value catalogue =>
    if (s.readMember key value catalogue).1.isOk then some (s.readMember key value catalogue).2
    else none
  | .setFlag name value => (s.setFlag name value).toOption
  | .setInteger name value _ => (s.setInteger name value).toOption
  | .setDouble name value => (s.setDouble name value).toOption
  | .setText name value => (s.setText name value).toOption
  | .setOption name value => (s.setOption name value).toOption
  | .setScalar name value => (s.setScalar name value).toOption
  | .setTriple name x y z => (s.setTriple name x y z).toOption
  | .setRange name minimum maximum width => (s.setRange name minimum maximum width).toOption
  | .setNode name target => (s.setNode name target).toOption
  | .setObservable name target index => (s.setObservable name target index).toOption
  | .setNodes name targets => (s.setNodes name targets).toOption
  | .addSite name species site catalogue => (s.addSite name species site catalogue).toOption
  | .addTarget name variableName value => (s.addTarget name variableName value).toOption

/-- **The store after any number of calls** that were all successful. -/
def performAll (s : KeywordStore) (calls : List Call) : Option KeywordStore := calls.foldlM perform s

/-! ## What calls leave in a store -/

variable {declared s s' : KeywordStore} {name : String}

/-- A keyword set to data that fit what was declared. -/
theorem Matches.setTo (h : Matches Stores declared s) {k : Keyword} (hfind : s.find? name = some k)
    {data : KeywordData}
    (hdata : ∀ d ∈ declared.keywords, IsKept d.data k.data → Stores d.data data) :
    Matches Stores declared (s.update name fun k => k.setTo data) := by
  obtain ⟨d, hd, hdk, hupdate⟩ :=
    forall₂_updateFirst (f := fun k => k.setTo data) h.keywords hfind
  refine ⟨h.deprecated, hupdate ⟨hdk.name, hdk.treeWide, hdata d hd ?_⟩⟩
  have hheld := hdk.data
  split at hheld
  · exact .inr hheld
  · exact .inl hheld

theorem Matches.readKeyword_stores (hdeclared : declared.IsDeclared) (h : Matches Stores declared s)
    {values : List String} {catalogue : Catalogue}
    (hread : s.readKeyword name values catalogue = some (.ok s')) : Matches Stores declared s' := by
  obtain ⟨k, hfind, hk⟩ := Option.map_eq_some_iff.1 hread
  obtain ⟨data, hdata, rfl⟩ := map_eq_ok_iff.1 hk
  exact h.setTo hfind fun d hd hkept => hkept.read (hdeclared d hd).1 hdata

/-- What setting a value leaves, where only the constraints that were declared matter. -/
theorem Matches.setWith (hdeclared : declared.IsDeclared) (h : Matches Stores declared s)
    {f : KeywordData → Except Error KeywordData} (hset : s.setWith name f = .ok s')
    (hf : ∀ d held data, d.isDeclared = true → IsKept d held → f held = .ok data → Stores d data) :
    Matches Stores declared s' := by
  unfold KeywordStore.setWith at hset
  split at hset
  · cases hset
  · next k hfind =>
      obtain ⟨data, hdata, rfl⟩ := map_eq_ok_iff.1 hset
      exact h.setTo hfind fun d hd hkept => hf _ _ _ (hdeclared d hd).1 hkept hdata

/-- A value that takes the place of what the keyword held. -/
theorem Matches.replace (hdeclared : declared.IsDeclared) (h : Matches Stores declared s)
    {f : KeywordData → Except Error KeywordData} (hset : s.setWith name f = .ok s')
    (hsame : ∀ d held, Stores d held → f held = f d)
    (hf : ∀ d data, d.isDeclared = true → f d = .ok data → Stores d data) :
    Matches Stores declared s' := by
  refine h.setWith hdeclared hset fun d held data hd hkept hdata => hf d data hd ?_
  rw [← hkept.congr (hsame d held)]
  exact hdata

section Setters

variable (hdeclared : declared.IsDeclared) (h : Matches Stores declared s)
include hdeclared h

theorem Matches.setFlag {value : Bool} (hset : s.setFlag name value = .ok s') :
    Matches Stores declared s' := by
  refine h.replace hdeclared hset (fun d held hd => by cases hd <;> rfl) fun d data _ hdata => ?_
  cases d with
  | flag b =>
      obtain rfl := Except.ok.inj hdata
      exact .flag b value
  | _ => cases hdata

theorem Matches.setInteger {value : Int} (hfits : fitsInt value = true)
    (hset : s.setInteger name value = .ok s') : Matches Stores declared s' := by
  refine h.replace hdeclared hset (fun d held hd => by cases hd <;> rfl) fun d data _ hdata => ?_
  cases d with
  | integer m min max =>
      obtain ⟨n, hcheck, rfl⟩ := map_eq_ok_iff.1 hdata
      obtain ⟨hlimits, rfl⟩ := KeywordData.checkInteger_eq_ok_iff.1 hcheck
      exact .integer m hfits hlimits
  | _ => cases hdata

theorem Matches.setDouble {value : Float} (hset : s.setDouble name value = .ok s') :
    Matches Stores declared s' := by
  refine h.replace hdeclared hset (fun d held hd => by cases hd <;> rfl) fun d data _ hdata => ?_
  cases d with
  | double y min max =>
      obtain ⟨x, hcheck, rfl⟩ := map_eq_ok_iff.1 hdata
      obtain ⟨hlimits, rfl⟩ := KeywordData.checkDouble_eq_ok_iff.1 hcheck
      exact .double y hlimits
  | _ => cases hdata

theorem Matches.setText {value : String} (hset : s.setText name value = .ok s') :
    Matches Stores declared s' := by
  refine h.replace hdeclared hset (fun d held hd => by cases hd <;> rfl) fun d data _ hdata => ?_
  cases d with
  | text t =>
      obtain ⟨u, hcheck, rfl⟩ := map_eq_ok_iff.1 hdata
      unfold checkWritable at hcheck
      split at hcheck
      · next hwritable =>
          obtain rfl := Except.ok.inj hcheck
          exact .text t hwritable
      · cases hcheck
  | _ => cases hdata

theorem Matches.setOption {value : String} (hset : s.setOption name value = .ok s') :
    Matches Stores declared s' := by
  refine h.replace hdeclared hset (fun d held hd => by cases hd <;> rfl) fun d data hd hdata => ?_
  cases d with
  | option t options =>
      dsimp only at hdata
      split at hdata
      · next o ho =>
          obtain rfl := Except.ok.inj hdata
          have hplain : ∀ o ∈ options, IsPlain o := by simpa [KeywordData.isDeclared] using hd
          exact .option t (find?_sameName_found (f := id) ho)
            (hplain o (List.mem_of_find?_eq_some ho))
      · cases hdata
  | _ => cases hdata

theorem Matches.setScalar {value : Scalar} (hset : s.setScalar name value = .ok s') :
    Matches Stores declared s' := by
  refine h.replace hdeclared hset (fun d held hd => by cases hd <;> rfl) fun d data _ hdata => ?_
  cases d with
  | scalar w =>
      obtain rfl := Except.ok.inj hdata
      exact .scalar w value
  | _ => cases hdata

theorem Matches.setTriple {x y z : Scalar} (hset : s.setTriple name x y z = .ok s') :
    Matches Stores declared s' := by
  refine h.replace hdeclared hset (fun d held hd => by cases hd <;> rfl) fun d data _ hdata => ?_
  cases d with
  | triple u v w =>
      obtain rfl := Except.ok.inj hdata
      exact .triple u v w x y z
  | _ => cases hdata

theorem Matches.setRange {minimum maximum width : Float}
    (hset : s.setRange name minimum maximum width = .ok s') : Matches Stores declared s' := by
  unfold KeywordStore.setRange at hset
  split at hset
  · cases hset
  · next r _ =>
      refine h.replace hdeclared hset (fun d held hd => by cases hd <;> rfl)
        fun d data _ hdata => ?_
      cases d with
      | range q =>
          obtain rfl := Except.ok.inj hdata
          exact .range q r
      | _ => cases hdata

theorem Matches.setNode {target : NodeRef} (hset : s.setNode name target = .ok s') :
    Matches Stores declared s' := by
  refine h.replace hdeclared hset (fun d held hd => by cases hd <;> rfl) fun d data hd hdata => ?_
  cases d with
  | node t filter =>
      obtain rfl : t = none := by simpa [KeywordData.isDeclared] using hd
      obtain rfl := Except.ok.inj hdata
      exact .node target filter
  | _ => cases hdata

theorem Matches.setObservable {target : NodeRef} {index : Nat}
    (hset : s.setObservable name target index = .ok s') : Matches Stores declared s' := by
  obtain ⟨i, hcheck, hset⟩ := bind_eq_ok_iff.1 hset
  unfold checkIndex at hcheck
  split at hcheck
  · cases hcheck
  · next hindex =>
      obtain rfl := Except.ok.inj hcheck
      refine h.replace hdeclared hset (fun d held hd => by cases hd <;> rfl)
        fun d data hd hdata => ?_
      cases d with
      | observable t i filter =>
          obtain rfl : t = none := by simpa [KeywordData.isDeclared] using hd
          obtain rfl := Except.ok.inj hdata
          exact .observable target i filter (by omega)
      | _ => cases hdata

theorem Matches.setNodes {targets : List NodeRef} (hset : s.setNodes name targets = .ok s') :
    Matches Stores declared s' := by
  refine h.replace hdeclared hset (fun d held hd => by cases hd <;> rfl) fun d data hd hdata => ?_
  cases d with
  | nodes known filter min max =>
      obtain rfl : known = [] := by simpa [KeywordData.isDeclared] using hd
      dsimp only at hdata
      split at hdata
      · cases hdata
      · next hcount =>
          obtain rfl := Except.ok.inj hdata
          exact .nodes filter (by simpa using hcount)
  | _ => cases hdata

/-- A site is gathered as by a line. -/
theorem Matches.addSite {species site : String} {catalogue : Catalogue}
    (hset : s.addSite name species site catalogue = .ok s') : Matches Stores declared s' := by
  unfold KeywordStore.addSite at hset
  split at hset
  · cases hset
  · next k hfind =>
      split at hset
      · obtain ⟨data, hdata, rfl⟩ := map_eq_ok_iff.1 hset
        exact h.setTo hfind fun d hd hkept => hkept.read (hdeclared d hd).1 hdata
      · cases hset

/-- A variable is put behind the others, whatever they are called. -/
theorem Matches.addTarget {variableName : String} {value : Float}
    (hset : s.addTarget name variableName value = .ok s') : Matches Stores declared s' := by
  refine h.setWith hdeclared hset fun d held data hd hkept hdata => ?_
  cases held with
  | fit targets =>
      obtain rfl := Except.ok.inj hdata
      have hstores := hkept.stores_of_isRepeatable hd rfl
      cases hstores
      exact .fit _
  | _ => cases hdata

theorem Matches.take {catalogue : Catalogue} {keyword : String} {values : List String}
    (htake : s.take? catalogue keyword values = some s') : Matches Stores declared s' := by
  unfold KeywordStore.take? at htake
  split at htake
  · obtain rfl := Option.some.inj htake
    unfold KeywordStore.read
    split
    · next s₁ hread => exact h.readKeyword_stores hdeclared hread
    · exact h
    · split
      · exact h
      · split
        · next s₁ hread => exact h.readKeyword_stores hdeclared hread
        · exact h
        · exact h
  · cases htake

theorem Matches.readMember {catalogue : Catalogue} {key : String} {j : Json} {b : Bool}
    (hread : s.readMember key j catalogue = (.ok b, s')) : Matches Stores declared s' := by
  unfold KeywordStore.readMember at hread
  dsimp only at hread
  split at hread
  · obtain rfl := congrArg Prod.snd hread
    exact h
  · split at hread
    · cases congrArg Prod.fst hread
    · next k hfind =>
        split at hread
        · next data hdata =>
            obtain rfl := congrArg Prod.snd hread
            exact h.setTo hfind fun d hd hkept => hkept.ofJson (hdeclared d hd).1 hdata
        · cases congrArg Prod.fst hread

end Setters

/-- **A call keeps a store such as calls leave it.** -/
theorem Matches.perform (hdeclared : declared.IsDeclared) (h : Matches Stores declared s) {c : Call}
    (hcall : s.perform c = some s') : Matches Stores declared s' := by
  have hok : ∀ {x : Except Error KeywordStore}, x.toOption = some s' → x = .ok s' := by
    intro x hx
    cases x with
    | ok a => exact congrArg Except.ok (Option.some.inj hx)
    | error e => cases hx
  cases c with
  | read keyword values catalogue => exact h.take hdeclared hcall
  | readMember key value catalogue =>
      unfold KeywordStore.perform at hcall
      dsimp only at hcall
      split at hcall
      · next hread =>
          obtain rfl := Option.some.inj hcall
          cases hresult : s.readMember key value catalogue with
          | mk outcome s₁ =>
              rw [hresult] at hread
              cases outcome with
              | ok b => exact h.readMember hdeclared hresult
              | error e => cases hread
      · cases hcall
  | setFlag name value => exact h.setFlag hdeclared (hok hcall)
  | setInteger name value hfits => exact h.setInteger hdeclared hfits (hok hcall)
  | setDouble name value => exact h.setDouble hdeclared (hok hcall)
  | setText name value => exact h.setText hdeclared (hok hcall)
  | setOption name value => exact h.setOption hdeclared (hok hcall)
  | setScalar name value => exact h.setScalar hdeclared (hok hcall)
  | setTriple name x y z => exact h.setTriple hdeclared (hok hcall)
  | setRange name minimum maximum width => exact h.setRange hdeclared (hok hcall)
  | setNode name target => exact h.setNode hdeclared (hok hcall)
  | setObservable name target index => exact h.setObservable hdeclared (hok hcall)
  | setNodes name targets => exact h.setNodes hdeclared (hok hcall)
  | addSite name species site catalogue => exact h.addSite hdeclared (hok hcall)
  | addTarget name variableName value => exact h.addTarget hdeclared (hok hcall)

/-- **So do any number of calls.** -/
theorem Matches.performAll (hdeclared : declared.IsDeclared) (h : Matches Stores declared s)
    {calls : List Call} (hcalls : s.performAll calls = some s') : Matches Stores declared s' := by
  induction calls generalizing s with
  | nil =>
      obtain rfl := Option.some.inj hcalls
      exact h
  | cons c calls ih =>
      obtain ⟨s₁, hcall, hcalls⟩ := Option.bind_eq_some_iff.1 hcalls
      exact ih (h.perform hdeclared hcall) hcalls

end KeywordStore

end SiteAnalysis
