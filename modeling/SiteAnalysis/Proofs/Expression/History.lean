import SiteAnalysis.Proofs.Expression.Path

set_option autoImplicit false

/-! # Histories of bindings

Bindings are made by calls, one after the other, from bindings that are empty: a call binds one name
or adds bindings that were made in the same way. Main statement:

* `first_binding_wins`: whatever the calls are, a name has the value that the first of them asked
  for, and later ones change nothing. This is what calls report, what `isBound` tells and what
  expressions evaluate to.

Every call only adds to the bindings what they lack (`find?_bind`, `find?_extend`), so that along a
history the bindings answer as the list of all that was asked for does (`find?_bindings`).
-/

namespace SiteAnalysis.Expression

/-- **A history of calls** on bindings that were empty at first. -/
inductive History where
  | empty
  /-- A number is bound to a name. -/
  | bind (before : History) (group : Option String) (name : String) (value : Number)
  /-- Other bindings are added, which have a history of their own. -/
  | extend (before other : History)

namespace History

/-- The bindings that a history leads to. -/
def bindings : History → Bindings
  | empty => .empty
  | bind before group name value => (before.bindings.bindNew group name value).2
  | extend before other => before.bindings.extend other.bindings

/-- **All that the calls asked for**, in their order. -/
def asked : History → List Binding
  | empty => []
  | bind before group name value => before.asked ++ [⟨group, name, value⟩]
  | extend before other => before.asked ++ other.asked

/-- Whether some call asked for a name. -/
def Asks (h : History) (group : Option String) (name : String) : Prop :=
  ∃ e ∈ h.asked, e.group = group ∧ e.name = name

/-- **The first value** that was asked for a name. -/
def first? (h : History) (group : Option String) (name : String) : Option Number :=
  (h.asked.find? fun e => e.group == group && e.name == name).map Binding.value

theorem isSome_first?_iff {h : History} {group : Option String} {name : String} :
    (h.first? group name).isSome = true ↔ h.Asks group name := by
  simp [first?, Asks]

end History

namespace Bindings

variable {b : Bindings} {group : Option String} {name : String}

/-! ## One call -/

theorem find?_append (es fs : List Binding) :
    find? ⟨es ++ fs⟩ group name = (find? ⟨es⟩ group name).or (find? ⟨fs⟩ group name) := by
  rw [find?, List.find?_append, Option.map_or]
  rfl

/-- A call only adds what is not bound yet. -/
theorem find?_bind (e : Binding) : (b.bind e.group e.name e.value).find? group name =
    (b.find? group name).or (find? ⟨[e]⟩ group name) := by
  unfold bind
  split
  · next hbound =>
      -- The name of the call has a value already, so what the call asks for does not count.
      by_cases he : e.group = group ∧ e.name = name
      · obtain ⟨rfl, rfl⟩ := he
        obtain ⟨v, hv⟩ := Option.isSome_iff_exists.1 ((b.isBound_eq _ _).symm.trans hbound)
        rw [hv, Option.some_or]
      · have hnone : find? ⟨[e]⟩ group name = none := by
          simpa [find?] using he
        rw [hnone, Option.or_none]
  · exact find?_append b.entries [e]

/-- Adding bindings only adds what is not bound yet. -/
theorem find?_extend (other : Bindings) : (b.extend other).find? group name =
    (b.find? group name).or (other.find? group name) := by
  obtain ⟨es⟩ := other
  unfold extend
  induction es generalizing b with
  | nil => exact (Option.or_none).symm
  | cons e es ih =>
      rw [List.foldl_cons, ih, find?_bind, Option.or_assoc]
      exact congrArg _ (find?_append [e] es).symm

/-- Bindings of names that are all bound change nothing. -/
theorem extend_eq_self {other : Bindings}
    (h : ∀ e ∈ other.entries, b.isBound e.group e.name = true) : b.extend other = b := by
  obtain ⟨es⟩ := other
  unfold extend
  induction es with
  | nil => rfl
  | cons e es ih =>
      have hbind : b.bind e.group e.name e.value = b := if_pos (h e List.mem_cons_self)
      rw [List.foldl_cons, hbind]
      exact ih fun e' he' => h e' (List.mem_cons_of_mem _ he')

/-- **Adding bindings a second time** changes nothing. -/
theorem extend_extend (other : Bindings) : (b.extend other).extend other = b.extend other := by
  refine extend_eq_self fun e he => ?_
  have hother : (other.find? e.group e.name).isSome = true := by
    rw [← isBound_eq]
    exact List.any_eq_true.2 ⟨e, he, by simp⟩
  rw [isBound_eq, find?_extend, Option.isSome_or, hother, Bool.or_true]

end Bindings

/-! ## All calls -/

namespace History

/-- The bindings of a history answer as the list of all that was asked for does. -/
theorem find?_bindings (h : History) (group : Option String) (name : String) :
    h.bindings.find? group name = h.first? group name := by
  induction h with
  | empty => rfl
  | bind before g n v ih =>
      have hbind : (History.bind before g n v).bindings.find? group name =
          (before.bindings.find? group name).or (Bindings.find? ⟨[⟨g, n, v⟩]⟩ group name) :=
        Bindings.find?_bind ⟨g, n, v⟩
      rw [hbind, ih]
      exact (Bindings.find?_append before.asked [⟨g, n, v⟩]).symm
  | extend before other ihbefore ihother =>
      have hextend : (History.extend before other).bindings.find? group name =
          (before.bindings.find? group name).or (other.bindings.find? group name) :=
        Bindings.find?_extend other.bindings
      rw [hextend, ihbefore, ihother]
      exact (Bindings.find?_append before.asked other.asked).symm

theorem isBound_bindings_iff (h : History) (group : Option String) (name : String) :
    h.bindings.isBound group name = true ↔ h.Asks group name := by
  rw [Bindings.isBound_eq, find?_bindings, isSome_first?_iff]

/-- **The first binding of a name wins** over any history. A call reports whether the name was new,
a name is bound exactly if it was asked for, its value is the first one that was asked for, and
adding bindings changes no value and, for the second time, nothing at all. -/
theorem first_binding_wins (h : History) :
    (∀ group name value,
      (h.bindings.bindNew group name value).1 = true ↔ ¬ h.Asks group name) ∧
    (∀ group name, h.bindings.isBound group name = true ↔ h.Asks group name) ∧
    (∀ (l : Limits) (name : String) (v : Number), IsWord name.toList → IsVariable name →
      l.Affords (.var name) → h.first? none name = some v →
        l.eval name h.bindings = .ok v.toFloat) ∧
    (∀ (l : Limits) (group name : String) (v : Number), IsWord group.toList → IsVariable group →
      IsWord name.toList → IsVariable name → l.Admits (.property (.var group) name) →
      l.Affords (.property (.var group) name) → ¬ h.Asks none group →
      h.first? (some group) name = some v →
        l.eval (path group name) h.bindings = .ok v.toFloat) ∧
    (∀ other : History,
      (∀ group name v, h.bindings.find? group name = some v →
        (h.extend other).bindings.find? group name = some v) ∧
      ((h.extend other).extend other).bindings = (h.extend other).bindings) := by
  refine ⟨fun group name value => ?_, h.isBound_bindings_iff, ?_, ?_, fun other => ⟨?_, ?_⟩⟩
  · rw [← isBound_bindings_iff]
    simp [Bindings.bindNew]
  · intro l name v hword hvar haffords hv
    refine (Limits.eval_word_eq_ok_iff hword (n := v) ?_).2 ⟨⟨hvar, ?_⟩, rfl⟩
    · rwa [find?_bindings]
    · intro hone
      exact haffords ⟨by omega, by rw [hone, Expr.steps]; omega⟩
  · intro l group name v hgroup hg hname hn hadmits haffords hplain hv
    refine Limits.eval_path hgroup hname hg hn hadmits haffords ?_ ?_
    · rw [← isSome_first?_iff, Bool.not_eq_true, Option.isSome_eq_false_iff,
        Option.isNone_iff_eq_none] at hplain
      rwa [find?_bindings]
    · rwa [find?_bindings]
  · intro group name v hv
    change (h.bindings.extend other.bindings).find? group name = some v
    rw [Bindings.find?_extend, hv, Option.some_or]
  · exact Bindings.extend_extend other.bindings

/-- A variable, and bindings added to it that bind it once more, next to a member of a group. -/
def merged : History :=
  (empty.bind none "rho" (.int 2)).extend
    ((empty.bind (some "A") "n" (.int 4)).bind none "rho" (.float 0.5))

theorem first_binding_wins_merged :
    Limits.eval ⟨100000, 64⟩ "rho" merged.bindings = .ok (Number.int 2).toFloat ∧
      Limits.eval ⟨100000, 64⟩ (path "A" "n") merged.bindings = .ok (Number.int 4).toFloat := by
  obtain ⟨-, -, hplain, hpath, -⟩ := first_binding_wins merged
  have hrho : IsWord "rho".toList := isIdentifier_iff.1 (by decide)
  have hA : IsWord "A".toList := isIdentifier_iff.1 (by decide)
  have hn : IsWord "n".toList := isIdentifier_iff.1 (by decide)
  have hunasked : ¬ merged.Asks none "A" := by
    rw [← isSome_first?_iff]
    decide
  exact ⟨hplain ⟨100000, 64⟩ "rho" (.int 2) hrho ⟨by decide, by decide⟩ (by decide) rfl,
    hpath ⟨100000, 64⟩ "A" "n" (.int 4) hA ⟨by decide, by decide⟩ hn ⟨by decide, by decide⟩
      (by decide) (by decide) hunasked rfl⟩

end History

end SiteAnalysis.Expression
