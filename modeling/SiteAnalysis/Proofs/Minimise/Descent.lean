import SiteAnalysis.Minimise.MonteCarlo
import SiteAnalysis.Minimise.Simplex
import SiteAnalysis.Proofs.Number.Order

set_option autoImplicit false

/-! # Searches that never go uphill

Both minimisers carry points together with their costs. What they keep in every step is said for
any kind of numbers in a total order (`Arith.IsOrdered`):

* A simplex has a vertex that is no worse than the start (`Simplex.Descends`). Sorting puts such a
  vertex first, and a move replaces other vertices only.
* The point of a walk is no worse than the start (`Vertex.IsNoWorse`), as a change is kept only when
  it lowers the cost.

Main statement: `Search.minimisers_descend`, for doubles. Where costs are finite or infinity, and
finite at the start, both minimisers find a point that costs no more.
-/

namespace SiteAnalysis

open Arith (totalLe)

/-! ## Vertices -/

/-- **A vertex with the cost of its point**, which has a given number of dimensions. -/
structure Vertex.IsMeasured {α : Type} (cost : List α → α) (n : Nat) (v : Vertex α) : Prop where
  cost_eq : v.cost = cost v.point
  length_eq : v.point.length = n

theorem Vertex.isMeasured_at {α : Type} {cost : List α → α} {point : List α} {n : Nat}
    (h : point.length = n) : (Vertex.at cost point).IsMeasured cost n := ⟨rfl, h⟩

/-- **A vertex that costs no more than the start.** -/
structure Vertex.IsNoWorse {α : Type} [Arith α] (cost : List α → α) (start : List α)
    (v : Vertex α) : Prop extends v.IsMeasured cost start.length where
  le : totalLe v.cost (cost start) = true

/-- **A search that went downhill**, in no more steps than it was allowed. -/
structure Search.Descends {α : Type} [Arith α] (cost : List α → α) (start : List α) (limit : Nat)
    (s : Search α) : Prop where
  best : s.best.IsNoWorse cost start
  iterations : s.iterations ≤ limit

namespace Simplex

variable {α : Type} {s : Simplex α}

theorem vertices_ofVertices? {vs : List (Vertex α)} (h : ofVertices? vs = some s) :
    s.vertices = vs := by
  match vs with
  | best :: v :: rest =>
      obtain rfl := Option.some.inj h
      show best :: (v :: rest).dropLast ++ [_] = _
      rw [List.cons_append, List.dropLast_concat_getLast]

theorem exists_ofVertices? {vs : List (Vertex α)} (h : 2 ≤ vs.length) :
    ∃ s, ofVertices? vs = some s := by
  match vs with
  | _ :: _ :: _ => exact ⟨_, rfl⟩

theorem forall_vertices_iff {P : Vertex α → Prop} :
    (∀ v ∈ s.vertices, P v) ↔ P s.best ∧ (∀ v ∈ s.middle, P v) ∧ P s.worst := by
  rw [vertices, List.cons_append, List.forall_mem_cons, List.forall_mem_append,
    List.forall_mem_singleton]

end Simplex

/-! ## Moves of a simplex -/

namespace Simplex

section

variable {α : Type} [Arith α] {cost : List α → α} {s : Simplex α}

theorem vertices_sorted (s : Simplex α) : s.sorted.vertices =
    s.vertices.mergeSort fun v w => totalLe v.cost w.cost := by
  have hlength : 2 ≤ (s.vertices.mergeSort fun v w => totalLe v.cost w.cost).length := by
    rw [List.length_mergeSort]
    simp [vertices]
  obtain ⟨t, ht⟩ := exists_ofVertices? hlength
  rw [sorted, ht]
  exact vertices_ofVertices? ht

theorem mem_sorted_iff {v : Vertex α} : v ∈ s.sorted.vertices ↔ v ∈ s.vertices := by
  rw [vertices_sorted, List.mem_mergeSort]

theorem length_blend (a b : List α) (t : α) : (blend a b t).length = min a.length b.length :=
  List.length_zipWith

theorem length_centroid {n : Nat} (h : ∀ v ∈ s.best :: s.middle, v.point.length = n) :
    s.centroid.length = n := by
  have hfold : ∀ (vs : List (Vertex α)) (k : α) (c : List α), (∀ v ∈ vs, v.point.length = n) →
      c.length = n →
      (vs.foldl (fun c v => List.zipWith (fun x y => x + y / k) c v.point) c).length = n := by
    intro vs k
    induction vs with
    | nil =>
        intro c _ hc
        exact hc
    | cons v vs ih =>
        intro c hvs hc
        obtain ⟨hv, hvs⟩ := List.forall_mem_cons.1 hvs
        refine ih _ hvs ?_
        rw [List.length_zipWith, hc, hv, min_self]
  refine hfold _ _ _ h ?_
  rw [List.length_map]
  exact h s.best (by simp)

theorem best_move (cost : List α → α) : (s.move cost).1.best = s.best := by
  unfold move shrink
  dsimp only
  split_ifs <;> rfl

/-- Whatever a move tries, it computes the cost of what it keeps. -/
theorem isMeasured_move {n : Nat} (h : ∀ v ∈ s.vertices, v.IsMeasured cost n) :
    ∀ v ∈ (s.move cost).1.vertices, v.IsMeasured cost n := by
  obtain ⟨hbest, hmiddle, hworst⟩ := forall_vertices_iff.1 h
  have hcentre : s.centroid.length = n := by
    refine length_centroid ?_
    intro v hv
    rcases List.mem_cons.1 hv with rfl | hv
    · exact hbest.length_eq
    · exact (hmiddle v hv).length_eq
  have htowards : ∀ t : α, (Vertex.at cost (blend s.centroid s.worst.point t)).IsMeasured cost n := by
    intro t
    refine Vertex.isMeasured_at ?_
    rw [length_blend, hcentre, hworst.length_eq, min_self]
  have hreplaced : ∀ v : Vertex α, v.IsMeasured cost n →
      ∀ w ∈ ({ s with worst := v } : Simplex α).vertices, w.IsMeasured cost n := by
    intro v hv
    exact forall_vertices_iff.2 ⟨hbest, hmiddle, hv⟩
  have hshrunk : ∀ v : Vertex α, v.IsMeasured cost n →
      (Vertex.at cost (blend s.best.point v.point 0.5)).IsMeasured cost n := by
    intro v hv
    refine Vertex.isMeasured_at ?_
    rw [length_blend, hbest.length_eq, hv.length_eq, min_self]
  -- Reflected, expanded and contracted vertices replace the worst one; shrinking keeps the best.
  unfold move
  dsimp only
  split_ifs with hreflected hexpanded hsecond hcontracted
  · exact hreplaced _ (htowards _)
  · exact hreplaced _ (htowards _)
  · exact hreplaced _ (htowards _)
  · exact hreplaced _ (htowards _)
  · refine forall_vertices_iff.2 ⟨hbest, ?_, hshrunk _ hworst⟩
    intro v hv
    obtain ⟨w, hw, rfl⟩ := List.mem_map.1 hv
    exact hshrunk w (hmiddle w hw)

end

end Simplex

theorem Downhill.length_displaced {α : Type} [Arith α] (d : Downhill α) (start : List α) (i : Nat) :
    (d.displaced start i).length = start.length :=
  List.length_modify _ _ _

theorem RandomWalk.current_adapt {α : Type} [Arith α] (s : State α) :
    (adapt s).current = s.current := by
  unfold adapt
  split_ifs <;> rfl

section

variable {α : Type} [Arith α] [Arith.IsOrdered α] {cost : List α → α} {start : List α}

theorem Vertex.isNoWorse_start : (Vertex.at cost start).IsNoWorse cost start :=
  ⟨isMeasured_at rfl, Arith.totalLe_refl _⟩

theorem Vertex.IsNoWorse.of_lt {v w : Vertex α} (h : v.IsNoWorse cost start)
    (hw : w.IsMeasured cost start.length) (hlt : Arith.lt w.cost v.cost = true) :
    w.IsNoWorse cost start :=
  ⟨hw, Arith.IsOrdered.trans _ _ _ (Arith.IsOrdered.of_lt _ _ hlt) h.le⟩

namespace Simplex

/-! ## Sorted simplices -/

variable (s : Simplex α)

/-- **The best vertex of a sorted simplex** costs the least. -/
theorem best_sorted_le {v : Vertex α} (hv : v ∈ s.vertices) :
    totalLe s.sorted.best.cost v.cost = true := by
  have hsorted := List.pairwise_mergeSort
    (fun u v w : Vertex α => Arith.IsOrdered.trans u.cost v.cost w.cost)
    (fun v w : Vertex α => Arith.IsOrdered.total v.cost w.cost) s.vertices
  rw [← vertices_sorted] at hsorted
  rw [← mem_sorted_iff] at hv
  rcases List.mem_cons.1 hv with rfl | hv
  · exact Arith.totalLe_refl _
  · exact (List.pairwise_cons.1 hsorted).1 v hv

variable {s}

/-! ## Runs of a simplex -/

/-- **A simplex that has not lost the start**: all costs are those of their points, and some vertex
costs no more than the start. -/
structure Descends (cost : List α → α) (start : List α) (s : Simplex α) : Prop where
  measured : ∀ v ∈ s.vertices, v.IsMeasured cost start.length
  noWorse : ∃ v ∈ s.vertices, totalLe v.cost (cost start) = true

theorem Descends.best_sorted (h : s.Descends cost start) : s.sorted.best.IsNoWorse cost start := by
  obtain ⟨v, hv, hle⟩ := h.noWorse
  have hbest : s.sorted.best ∈ s.vertices := mem_sorted_iff.1 (by simp [vertices])
  exact ⟨h.measured _ hbest, Arith.IsOrdered.trans _ _ _ (s.best_sorted_le hv) hle⟩

/-- **One round**: the simplex is sorted and moved. -/
theorem Descends.move_sorted (h : s.Descends cost start) :
    (s.sorted.move cost).1.Descends cost start := by
  have hsorted : ∀ v ∈ s.sorted.vertices, v.IsMeasured cost start.length := by
    intro v hv
    exact h.measured v (mem_sorted_iff.1 hv)
  refine ⟨isMeasured_move hsorted, s.sorted.best, ?_, h.best_sorted.le⟩
  rw [← best_move cost]
  simp [vertices]

end Simplex

namespace Downhill

variable (d : Downhill α)

theorem descends_run (allowed iterations evaluations : Nat) {s : Simplex α}
    (h : s.Descends cost start) :
    (d.run cost allowed iterations evaluations s).Descends cost start (iterations + allowed) := by
  induction allowed generalizing iterations evaluations s with
  | zero => exact ⟨h.best_sorted, le_rfl⟩
  | succ allowed ih =>
      rw [run]
      dsimp only
      split_ifs with hconverged
      · exact ⟨h.best_sorted, by show iterations + 1 ≤ _; omega⟩
      · have hnext := ih (iterations + 1) (evaluations + (s.sorted.move cost).2) h.move_sorted
        exact ⟨hnext.best, hnext.iterations.trans (by omega)⟩

theorem descends_search (cost : List α → α) (start : List α) :
    (d.search cost start).Descends cost start d.maxIterations := by
  unfold search
  dsimp only
  split
  next => exact ⟨Vertex.isNoWorse_start, Nat.zero_le _⟩
  next s hs =>
    have hvertices := Simplex.vertices_ofVertices? hs
    have hstart : s.Descends cost start := by
      refine ⟨?_, Vertex.at cost start, ?_, Arith.totalLe_refl _⟩
      · intro v hv
        rw [hvertices] at hv
        rcases List.mem_cons.1 hv with rfl | hv
        · exact Vertex.isMeasured_at rfl
        · obtain ⟨i, -, rfl⟩ := List.mem_map.1 hv
          exact Vertex.isMeasured_at (d.length_displaced start i)
      · rw [hvertices]
        exact List.mem_cons_self
    have hrun := d.descends_run d.maxIterations 0 (start.length + 1) hstart
    exact ⟨hrun.best, hrun.iterations.trans (by omega)⟩

end Downhill

/-! ## Random walks -/

namespace RandomWalk

variable {s : State α}

theorem isNoWorse_attempt (h : s.current.IsNoWorse cost start) (i : Nat) :
    (attempt cost s i).current.IsNoWorse cost start := by
  unfold attempt
  dsimp only
  split_ifs with hlower
  · refine h.of_lt (Vertex.isMeasured_at ?_) hlower
    rw [List.length_modify, h.length_eq]
  · exact h

theorem isNoWorse_sweep (h : s.current.IsNoWorse cost start) :
    (sweep cost s).current.IsNoWorse cost start := by
  have hfold : ∀ (is : List Nat) (s : State α), s.current.IsNoWorse cost start →
      (is.foldl (attempt cost) s).current.IsNoWorse cost start := by
    intro is
    induction is with
    | nil =>
        intro s hs
        exact hs
    | cons i is ih =>
        intro s hs
        exact ih _ (isNoWorse_attempt hs i)
  rw [sweep, current_adapt]
  exact hfold _ s h

theorem descends_run (allowed iterations : Nat) (h : s.current.IsNoWorse cost start) :
    (run cost allowed iterations s).Descends cost start (iterations + allowed) := by
  induction allowed generalizing iterations s with
  | zero => exact ⟨h, le_rfl⟩
  | succ allowed ih =>
      rw [run]
      split_ifs with hlarge
      · have hnext := ih (iterations + 1) (isNoWorse_sweep h)
        exact ⟨hnext.best, hnext.iterations.trans (by omega)⟩
      · exact ⟨h, Nat.le_add_right _ _⟩

theorem descends_search (w : RandomWalk α) (cost : List α → α) (start : List α) :
    (w.search cost start).Descends cost start w.maxIterations := by
  have hstart : (⟨.at cost start, w.step, 0, 0, .ofSeed w.seed, 1⟩ : State α).current.IsNoWorse
      cost start := Vertex.isNoWorse_start
  have hrun := descends_run w.maxIterations 0 hstart
  exact ⟨hrun.best, hrun.iterations.trans (by omega)⟩

end RandomWalk

end

/-! ## Doubles -/

open Binary64

/-- **Costs that are numbers above minus infinity.** -/
theorem isCost_bounds {x : Float} (h : x.isFinite = true ∨ x = 1.0 / 0.0) :
    ofFloat x ≠ nan ∧ -lastPlace < place x := by
  rcases h with h | rfl
  · have hnumber := ne_nan_of_isFinite h
    exact ⟨hnumber, ((isFinite_iff hnumber).1 h).1⟩
  · decide +kernel

/-- **What a minimiser finds**: a point as long as the start with a cost that is no greater, in no
more iterations than are allowed. -/
structure Search.Improves (cost : List Float → Float) (start : List Float) (limit : Nat)
    (s : Search Float) : Prop where
  cost_eq : s.best.cost = cost s.best.point
  cost_le : s.best.cost ≤ cost start
  length_eq : s.best.point.length = start.length
  iterations_le : s.iterations ≤ limit

section

variable {cost : List Float → Float} {start : List Float} {limit : Nat} {s : Search Float}
  (hcost : ∀ p, (cost p).isFinite = true ∨ cost p = 1.0 / 0.0)
include hcost

/-- What went downhill stands between minus infinity and the cost of the start. -/
theorem Search.Descends.place_bounds (h : s.Descends cost start limit) :
    ofFloat s.best.cost ≠ nan ∧ -lastPlace < place s.best.cost ∧
      place s.best.cost ≤ place (cost start) := by
  obtain ⟨hnumber, hlow⟩ := isCost_bounds (hcost s.best.point)
  rw [← h.best.cost_eq] at hnumber hlow
  exact ⟨hnumber, hlow, place_le_of_totalLe h.best.le⟩

variable (hstart : (cost start).isFinite = true)
include hstart

theorem Search.Descends.improves (h : s.Descends cost start limit) :
    s.Improves cost start limit := by
  obtain ⟨hnumber, -, hle⟩ := h.place_bounds hcost
  exact ⟨h.best.cost_eq, (le_iff hnumber (ne_nan_of_isFinite hstart)).2 hle, h.best.length_eq,
    h.iterations⟩

/-- What went downhill from a finite cost is accepted. -/
theorem Search.Descends.checked (h : s.Descends cost start limit) : s.checked = .ok s := by
  obtain ⟨hnumber, hlow, hle⟩ := h.place_bounds hcost
  have hlast := ((isFinite_iff (ne_nan_of_isFinite hstart)).1 hstart).2
  exact if_pos ((isFinite_iff hnumber).2 ⟨hlow, hle.trans_lt hlast⟩)

end

/-- **Minimisers never go uphill.** Where each cost is finite or infinity, and that of the start is
finite, both minimisers find a point, whatever their settings. It comes with its cost, which is at
most that of the start. -/
theorem Search.minimisers_descend (cost : List Float → Float) (start : List Float)
    (hcost : ∀ p, (cost p).isFinite = true ∨ cost p = 1.0 / 0.0)
    (hstart : (cost start).isFinite = true) :
    (∀ d : Downhill Float, ∃ s, d.minimise cost start = .ok s ∧
      s.Improves cost start d.maxIterations) ∧
    ∀ w : RandomWalk Float, ∃ s, w.minimise cost start = .ok s ∧
      s.Improves cost start w.maxIterations := by
  constructor
  · intro d
    have hdown := d.descends_search cost start
    refine ⟨d.search cost start, ?_, hdown.improves hcost hstart⟩
    unfold Downhill.minimise
    dsimp only
    split_ifs with hempty
    · rfl
    · exact hdown.checked hcost hstart
  · intro w
    have hdown := w.descends_search cost start
    exact ⟨w.search cost start, hdown.checked hcost hstart, hdown.improves hcost hstart⟩

/-- A cost with a wall at zero and a step at one. -/
def walledCost (p : List Float) : Float :=
  if p.any (· < 0.0) then 1.0 / 0.0 else if p.any (· < 1.0) then 1.5 else 2.5

theorem Search.minimisers_descend_walled :
    (∀ p, (walledCost p).isFinite = true ∨ walledCost p = 1.0 / 0.0) ∧
    (walledCost [1.25, 3.0]).isFinite = true ∧
    (∀ d : Downhill Float, ∃ s, d.minimise walledCost [1.25, 3.0] = .ok s ∧
      s.Improves walledCost [1.25, 3.0] d.maxIterations) ∧
    ∀ w : RandomWalk Float, ∃ s, w.minimise walledCost [1.25, 3.0] = .ok s ∧
      s.Improves walledCost [1.25, 3.0] w.maxIterations := by
  have hcost : ∀ p, (walledCost p).isFinite = true ∨ walledCost p = 1.0 / 0.0 := by
    intro p
    unfold walledCost
    split_ifs
    · exact Or.inr rfl
    · exact Or.inl (by decide +kernel)
    · exact Or.inl (by decide +kernel)
  have hstart : (walledCost [1.25, 3.0]).isFinite = true := by decide +kernel
  exact ⟨hcost, hstart, minimisers_descend walledCost [1.25, 3.0] hcost hstart⟩

end SiteAnalysis
