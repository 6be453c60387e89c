import Mathlib
import SiteAnalysis.Expression.Engine

set_option autoImplicit false

/-! # What an engine remembers

An engine keeps what it compiled. Main statement:

* `memory_is_transparent`: over any sequence of calls the engine answers each of them as a fresh
  engine does, and what it keeps in the end are the sources that were evaluated and compile, each
  once.

The invariant (`IsFaithful`) says that all that is kept is what compiling gives. One call keeps it
and says what is kept afterwards (`answer_spec`), and a run is an induction over the calls
(`answers_spec`).
-/

namespace SiteAnalysis.Expression

/-- **Calls** of an engine. -/
inductive Call where
  | eval (source : String) (b : Bindings)
  | check (source : String) (b : Bindings)
  | validate (source : String)

/-- **What a call gives**: a number, or whether a source is in order. -/
inductive Answer where
  | value (r : Except Problem Float)
  | verdict (r : Except Problem Unit)

namespace Engine

/-- The answer to a call, and the engine afterwards. -/
def answer (engine : Engine) : Call → Answer × Engine
  | .eval source b => ((.value (engine.eval source b).1), (engine.eval source b).2)
  | .check source b => (.verdict (engine.check source b), engine)
  | .validate source => (.verdict (engine.validate source), engine)

/-- The answers to calls that are made one after the other, and the engine afterwards. -/
def answers (engine : Engine) : List Call → List Answer × Engine
  | [] => ([], engine)
  | call :: calls =>
    let (a, engine) := engine.answer call
    let (as, engine) := engine.answers calls
    (a :: as, engine)

/-- The sources that are kept. -/
def sources (engine : Engine) : List String := engine.compiled.map Prod.fst

/-- **All that is kept is what compiling gives**, and no source is kept twice. -/
structure IsFaithful (engine : Engine) : Prop where
  compiled : ∀ source e, engine.compiled.lookup source = some e →
    engine.limits.compile source = .ok e
  nodup : engine.sources.Nodup

theorem isFaithful_ofLimits (l : Limits) : (ofLimits l).IsFaithful :=
  ⟨fun _ _ h => (nomatch h), List.nodup_nil⟩

/-- Whether a call makes an engine keep a source. -/
def Keeps (l : Limits) (source : String) (call : Call) : Prop :=
  (∃ b, call = .eval source b) ∧ ∃ e, l.compile source = .ok e

theorem lookup_eq_none_iff (engine : Engine) (source : String) :
    engine.compiled.lookup source = none ↔ source ∉ engine.sources := by
  rw [List.lookup_eq_none_iff, sources, List.mem_map]
  grind

/-! ## One call -/

/-- **One compilation.** It gives what compiling gives, whether or not the source is kept. -/
theorem compile_spec {engine : Engine} (h : engine.IsFaithful) (source : String) :
    (engine.compile source).1 = engine.limits.compile source ∧
      (engine.compile source).2.limits = engine.limits ∧ (engine.compile source).2.IsFaithful ∧
      ∀ s, s ∈ (engine.compile source).2.sources ↔
        s ∈ engine.sources ∨ (s = source ∧ ∃ e, engine.limits.compile source = .ok e) := by
  unfold compile
  cases hlookup : engine.compiled.lookup source with
  | some e =>
      -- The source is kept, so it is not new.
      have hcompile := h.compiled source e hlookup
      have hmem : source ∈ engine.sources := by
        by_contra hnot
        rw [(engine.lookup_eq_none_iff source).2 hnot] at hlookup
        cases hlookup
      exact ⟨hcompile.symm, rfl, h, fun s => ⟨Or.inl, by rintro (hs | ⟨rfl, -⟩) <;> assumption⟩⟩
  | none =>
      have hnot := (engine.lookup_eq_none_iff source).1 hlookup
      cases hcompile : engine.limits.compile source with
      | error fault => exact ⟨rfl, rfl, h, fun s => by simp⟩
      | ok e =>
          refine ⟨rfl, rfl, ⟨fun s e' hs => ?_, ?_⟩, fun s => ?_⟩
          · change engine.limits.compile s = .ok e'
            rw [List.lookup_cons] at hs
            by_cases heq : s = source
            · subst heq
              rw [hcompile]
              simpa using hs
            · rw [beq_false_of_ne heq] at hs
              exact h.compiled s e' hs
          · exact List.nodup_cons.2 ⟨hnot, h.nodup⟩
          · simp [sources, or_comm]

theorem eval_spec {engine : Engine} (h : engine.IsFaithful) (source : String) (b : Bindings) :
    (engine.eval source b).1 = engine.limits.eval source b ∧
      (engine.eval source b).2 = (engine.compile source).2 := by
  obtain ⟨hcompile, hlimits, -, -⟩ := compile_spec h source
  unfold eval Limits.eval
  rw [← hcompile]
  rcases hresult : engine.compile source with ⟨_ | e, engine'⟩
  · exact ⟨rfl, rfl⟩
  · rw [hresult] at hlimits
    exact ⟨by rw [← hlimits], rfl⟩

/-- **One call** is answered as a fresh engine answers it, and keeps what it is to keep. -/
theorem answer_spec {engine : Engine} (h : engine.IsFaithful) (call : Call) :
    (engine.answer call).1 = ((ofLimits engine.limits).answer call).1 ∧
      (engine.answer call).2.limits = engine.limits ∧ (engine.answer call).2.IsFaithful ∧
      ∀ s, s ∈ (engine.answer call).2.sources ↔
        s ∈ engine.sources ∨ Keeps engine.limits s call := by
  cases call with
  | eval source b =>
      obtain ⟨heval, hengine⟩ := eval_spec h source b
      obtain ⟨hfresh, -⟩ := eval_spec (isFaithful_ofLimits engine.limits) source b
      obtain ⟨-, hlimits, hfaithful, hsources⟩ := compile_spec h source
      have hafter : (engine.answer (.eval source b)).2 = (engine.compile source).2 := hengine
      rw [hafter]
      refine ⟨congrArg Answer.value (heval.trans hfresh.symm), hlimits, hfaithful, fun s => ?_⟩
      rw [hsources]
      constructor
      · rintro (hs | ⟨rfl, hok⟩)
        · exact Or.inl hs
        · exact Or.inr ⟨⟨b, rfl⟩, hok⟩
      · rintro (hs | ⟨⟨b', hcall⟩, hok⟩)
        · exact Or.inl hs
        · obtain ⟨rfl, -⟩ := Call.eval.inj hcall
          exact Or.inr ⟨rfl, hok⟩
  | check source b =>
      -- Only evaluations go through the memory; checks and validations leave it as it is.
      have hnone : ∀ s, ¬ Keeps engine.limits s (.check source b) := by
        rintro s ⟨⟨_, ⟨⟩⟩, -⟩
      exact ⟨rfl, rfl, h, fun s => by simp [answer, hnone]⟩
  | validate source =>
      have hnone : ∀ s, ¬ Keeps engine.limits s (.validate source) := by
        rintro s ⟨⟨_, ⟨⟩⟩, -⟩
      exact ⟨rfl, rfl, h, fun s => by simp [answer, hnone]⟩

/-! ## All calls -/

theorem answers_spec {engine : Engine} (h : engine.IsFaithful) (calls : List Call) :
    (engine.answers calls).1 =
        calls.map (fun call => ((ofLimits engine.limits).answer call).1) ∧
      (engine.answers calls).2.IsFaithful ∧
      ∀ s, s ∈ (engine.answers calls).2.sources ↔
        s ∈ engine.sources ∨ ∃ call ∈ calls, Keeps engine.limits s call := by
  induction calls generalizing engine with
  | nil => exact ⟨rfl, h, fun s => by simp [answers]⟩
  | cons call calls ih =>
      obtain ⟨hanswer, hlimits, hfaithful, hsources⟩ := answer_spec h call
      obtain ⟨hanswers, hfaithful', hsources'⟩ := ih hfaithful
      rw [hlimits] at hanswers hsources'
      refine ⟨?_, hfaithful', fun s => ?_⟩
      · change (engine.answer call).1 :: ((engine.answer call).2.answers calls).1 = _
        rw [hanswer, hanswers, List.map_cons]
      · change s ∈ ((engine.answer call).2.answers calls).2.sources ↔ _
        rw [hsources', hsources, List.exists_mem_cons_iff, or_assoc]

/-- **The memory of an engine does not show.** Every call is answered as a fresh engine with the
same limits answers it, and kept are the sources that were evaluated and compile, each once. -/
theorem memory_is_transparent (l : Limits) (calls : List Call) :
    ((ofLimits l).answers calls).1 = calls.map (fun call => ((ofLimits l).answer call).1) ∧
      ((ofLimits l).answers calls).2.sources.Nodup ∧
      (∀ source, source ∈ ((ofLimits l).answers calls).2.sources ↔
        (∃ b, .eval source b ∈ calls) ∧ ∃ e, l.compile source = .ok e) := by
  obtain ⟨hanswers, hfaithful, hsources⟩ := answers_spec (isFaithful_ofLimits l) calls
  refine ⟨hanswers, hfaithful.nodup, fun source => ?_⟩
  rw [hsources]
  constructor
  · rintro (hnil | ⟨call, hcall, ⟨b, rfl⟩, hok⟩)
    · cases hnil
    · exact ⟨⟨b, hcall⟩, hok⟩
  · rintro ⟨⟨b, hcall⟩, hok⟩
    exact Or.inr ⟨_, hcall, ⟨b, rfl⟩, hok⟩

end Engine

end SiteAnalysis.Expression
