import SiteAnalysis.Proofs.Node.Entries

set_option autoImplicit false

/-! # Parameters of a node

A node declares parameters and is renamed, over and over. Main statement:

* `Node.parameters_follow_node`: whatever the calls are, the parameters of a node stand in the group
  of its present name, no two have one name, and each is found under its qualified name and is what
  the latest declaration of that name asked for.

Both calls keep what is known of the parameters and of all declarations so far (`Node.Records`), one
call by `Node.Records.call` and all of them by `Node.Records.after`.
-/

namespace SiteAnalysis

theorem sameName_append_left (s a b : String) : sameName (s ++ a) (s ++ b) = sameName a b := by
  rw [Bool.eq_iff_iff]
  simp only [sameName, String.toList_append, List.map_append, beq_iff_eq, List.append_cancel_left_eq]

/-! ## Qualified names -/

namespace Parameter

/-- Within one group the names decide. -/
theorem isNamed_qualifiedName {p q : Parameter} (h : p.group = q.group) :
    p.isNamed q.qualifiedName = sameName p.name q.name := by
  unfold isNamed qualifiedName
  rw [h]
  cases q.group with
  | none => rfl
  | some g => exact sameName_append_left _ _ _

theorem isNamed_congr (p : Parameter) {s t : String} (h : sameName s t = true) :
    p.isNamed s = p.isNamed t :=
  sameName_congr_right h _

end Parameter

/-! ## Calls -/

/-- **What a declaration asks for**: a name and a value. -/
abbrev ParameterRequest := String × Expression.Number

/-- What a parameter was declared as. -/
def Declared.request (d : Declared) : ParameterRequest := (d.parameter.name, d.parameter.value)

/-- The parameter in another group or in none. -/
def Declared.regroup (d : Declared) (group : Option String) : Declared :=
  { d with parameter := { d.parameter with group } }

/-- **A parameter is the latest of its name** in a list of declarations: its number tells which one
it comes from, and none behind asked for the name. -/
def Declared.IsLatest (d : Declared) (declarations : List ParameterRequest) : Prop :=
  ∃ earlier later, declarations = earlier ++ d.request :: later ∧ earlier.length = d.serial ∧
    ∀ e ∈ later, sameName d.parameter.name e.1 = false

/-- **A call** that concerns the parameters of a node. -/
inductive ParameterCall where
  | declare (name : String) (value : Expression.Number)
  | rename (name : String)

namespace ParameterCall

/-- What a call does to a node. -/
def apply (n : Node) : ParameterCall → Node
  | declare name value => n.declare name value
  | rename name => n.rename name

/-- What a call declares. -/
def request? : ParameterCall → Option ParameterRequest
  | declare name value => some (name, value)
  | rename _ => none

end ParameterCall

namespace Node

/-- The node after some calls. -/
def after (n : Node) (calls : List ParameterCall) : Node := calls.foldl ParameterCall.apply n

/-- **All that was declared**: what the node had at first, then what the calls asked for. -/
def declarations (n : Node) (calls : List ParameterCall) : List ParameterRequest :=
  n.parameters.map Declared.request ++ calls.filterMap ParameterCall.request?

/-- The group in which the node declares. -/
def group? (n : Node) : Option String := if n.type.groupsParameters then some n.name else none

/-- **A node records declarations**: what its parameters are after them. -/
structure Records (n : Node) (declarations : List ParameterRequest) : Prop where
  groups : ∀ d ∈ n.parameters, d.parameter.group = n.group?
  distinct : n.parameters.Pairwise fun d d' => sameName d.parameter.name d'.parameter.name = false
  latest : ∀ d ∈ n.parameters, d.IsLatest declarations
  complete : ∀ e ∈ declarations, ∃ d ∈ n.parameters, sameName d.parameter.name e.1 = true
  count : declarations.length = n.parameters.length + n.replaced.length

variable {n : Node} {declarations : List ParameterRequest}

/-! ## One call -/

theorem mem_declare_iff {name : String} {value : Expression.Number} {d : Declared} :
    d ∈ (n.declare name value).parameters ↔
      (d ∈ n.parameters ∧ sameName d.parameter.name name = false) ∨
        d = ⟨n.parameters.length + n.replaced.length, ⟨name, n.group?, value⟩⟩ := by
  simp [declare, group?]

theorem Records.declare (h : n.Records declarations) (name : String) (value : Expression.Number) :
    (n.declare name value).Records (declarations ++ [(name, value)]) where
  groups d hd := by
    obtain ⟨hd, -⟩ | rfl := mem_declare_iff.1 hd
    · exact h.groups d hd
    · rfl
  distinct := by
    refine List.pairwise_append.2 ⟨h.distinct.filter _, by simp, fun d hd d' hd' => ?_⟩
    obtain rfl := List.mem_singleton.1 hd'
    simpa using (List.mem_filter.1 hd).2
  latest d hd := by
    obtain ⟨hd, hother⟩ | rfl := mem_declare_iff.1 hd
    · obtain ⟨earlier, later, hsplit, hserial, hlater⟩ := h.latest d hd
      refine ⟨earlier, later ++ [(name, value)], by simp [hsplit], hserial, ?_⟩
      exact List.forall_mem_append.2 ⟨hlater, by simpa using hother⟩
    · exact ⟨declarations, [], rfl, h.count, by simp⟩
  complete e he := by
    have hnew := mem_declare_iff.2 (Or.inr (rfl : (⟨n.parameters.length + n.replaced.length,
      ⟨name, n.group?, value⟩⟩ : Declared) = _))
    obtain he | he := List.mem_append.1 he
    · obtain ⟨d, hd, hsame⟩ := h.complete e he
      by_cases hname : sameName d.parameter.name name = true
      · -- The parameter of that name was replaced by the new one.
        refine ⟨_, hnew, ?_⟩
        rw [sameName_iff] at hsame hname ⊢
        exact hname.symm.trans hsame
      · exact ⟨d, mem_declare_iff.2 (.inl ⟨hd, by simpa using hname⟩), hsame⟩
    · obtain rfl := List.mem_singleton.1 he
      exact ⟨_, hnew, sameName_refl name⟩
  count := by
    have hsplit := n.parameters.length_eq_countP_add_countP
      fun d => !sameName d.parameter.name name
    have hcount := h.count
    simp only [Node.declare, List.length_append, List.length_singleton,
      ← List.countP_eq_length_filter]
    simp only [Bool.not_eq_true, Bool.decide_eq_false] at hsplit
    omega

/-- Within the group of the node, renaming puts every parameter into the new group. -/
theorem parameters_rename (h : ∀ d ∈ n.parameters, d.parameter.group = n.group?) (name : String) :
    (n.rename name).parameters =
      n.parameters.map fun d => d.regroup (n.rename name).group? := by
  refine List.map_congr_left fun ⟨serial, parameter⟩ hd => ?_
  have hgroup : parameter.group = n.group? := h _ hd
  have hrenamed : (n.rename name).group? =
      if n.type.groupsParameters then some (niceName name) else none := by
    rw [group?, type_rename]
    rfl
  rw [hrenamed, Declared.regroup]
  unfold group? at hgroup
  split at hgroup
  · next hgroups => simp only [hgroup, hgroups, Option.isSome_some, if_true, Parameter.inGroup]
  · next hplain =>
      simp only [hgroup, hplain, Option.isSome_none, if_false, Bool.false_eq_true]
      rw [← hgroup]

theorem Records.rename (h : n.Records declarations) (name : String) :
    (n.rename name).Records declarations := by
  have hparameters := parameters_rename h.groups name
  constructor
  case groups =>
    rw [hparameters]
    exact List.forall_mem_map.2 fun d _ => rfl
  case distinct =>
    rw [hparameters]
    exact List.pairwise_map.2 h.distinct
  case latest =>
    rw [hparameters]
    exact List.forall_mem_map.2 h.latest
  case complete =>
    intro e he
    obtain ⟨d, hd, hsame⟩ := h.complete e he
    rw [hparameters]
    exact ⟨_, List.mem_map_of_mem hd, hsame⟩
  case count =>
    rw [hparameters, List.length_map]
    exact h.count

/-- **One call** adds to the declarations what it asks for, and the node still records them. -/
theorem Records.call (h : n.Records declarations) (call : ParameterCall) :
    (call.apply n).Records (declarations ++ call.request?.toList) := by
  cases call with
  | declare name value => exact h.declare name value
  | rename name => exact (List.append_nil declarations).symm ▸ h.rename name

/-! ## All calls -/

theorem Records.after (h : n.Records declarations) (calls : List ParameterCall) :
    (n.after calls).Records (declarations ++ calls.filterMap ParameterCall.request?) := by
  induction calls generalizing n declarations with
  | nil => exact (List.append_nil declarations).symm ▸ h
  | cons call calls ih =>
      have hcalls : (call :: calls).filterMap ParameterCall.request? =
          call.request?.toList ++ calls.filterMap ParameterCall.request? := by
        cases call <;> rfl
      rw [hcalls, ← List.append_assoc]
      exact ih (h.call call)

/-- **A parameter is found** under its qualified name in any case. -/
theorem Records.findParameter? (h : n.Records declarations) {d : Declared}
    (hd : d ∈ n.parameters) {name : String}
    (hname : sameName d.parameter.qualifiedName name = true) :
    n.findParameter? name none = some d := by
  obtain ⟨front, back, hsplit⟩ := List.append_of_mem hd
  have hdistinct := h.distinct
  rw [hsplit, List.pairwise_append] at hdistinct
  refine List.find?_eq_some_iff_append.2 ⟨by simpa [Parameter.isNamed] using hname, front, back,
    hsplit, fun d' hd' => ?_⟩
  have hmem : d' ∈ n.parameters := hsplit ▸ List.mem_append_left _ hd'
  have hother : d'.parameter.isNamed name = false := by
    rw [← Parameter.isNamed_congr _ hname, Parameter.isNamed_qualifiedName
      ((h.groups d' hmem).trans (h.groups d hd).symm)]
    exact hdistinct.2.2 d' hd' d List.mem_cons_self
  simp [hother]

/-- **A node that has declared nothing yet** but what its type does: a selection, how many sites it
chose. Its name, its keywords and its branch may be any. -/
structure IsFresh (n : Node) : Prop where
  replaced : n.replaced = []
  parameters : ∃ value, n.parameters =
    if n.type = .select then [⟨0, ⟨"nSelected", some n.name, value⟩⟩] else []

theorem isFresh_ofType (id : NodeId) (t : NodeType) : (ofType id t).IsFresh := by
  refine ⟨rfl, .int 0, ?_⟩
  rw [type_ofType]
  rfl

theorem isFresh_recorder (id : NodeId) (r : Recorder) : (recorder id r).IsFresh :=
  ⟨rfl, .int 0, rfl⟩

theorem IsFresh.records (h : n.IsFresh) : n.Records (n.declarations []) := by
  obtain ⟨value, hparameters⟩ := h.parameters
  have hreplaced := h.replaced
  split at hparameters
  · next htype =>
      have hgroup : n.group? = some n.name := by rw [group?, htype]; rfl
      have hdeclarations : n.declarations [] = [("nSelected", value)] := by
        simp [Node.declarations, hparameters, Declared.request]
      rw [hdeclarations]
      constructor
      case groups => simp [hparameters, hgroup]
      case distinct => simp [hparameters]
      case latest =>
        rw [hparameters]
        exact List.forall_mem_singleton.2 ⟨[], [], rfl, rfl, by simp⟩
      case complete => simp [hparameters]
      case count => simp [hparameters, hreplaced]
  · have hdeclarations : n.declarations [] = [] := by simp [Node.declarations, hparameters]
    rw [hdeclarations]
    constructor <;> simp [hparameters, hreplaced]

/-- **Parameters follow their node** through any calls. They stand in the group of its present name
if the node groups them and in none otherwise, no two have one name, each is found under its
qualified name in any case, and each is what the latest declaration of its name asked for, as there
is one for every name that was declared. -/
theorem parameters_follow_node (h : n.IsFresh) (calls : List ParameterCall) :
    (∀ d ∈ (n.after calls).parameters, d.parameter.group =
      if (n.after calls).type.groupsParameters then some (n.after calls).name else none) ∧
    ((n.after calls).parameters.Pairwise fun d d' =>
      sameName d.parameter.name d'.parameter.name = false) ∧
    (∀ d ∈ (n.after calls).parameters, ∀ name,
      sameName d.parameter.qualifiedName name = true →
        (n.after calls).findParameter? name none = some d) ∧
    (∀ d ∈ (n.after calls).parameters, d.IsLatest (n.declarations calls)) ∧
    (∀ e ∈ n.declarations calls,
      ∃ d ∈ (n.after calls).parameters, sameName d.parameter.name e.1 = true) := by
  have hrecords : (n.after calls).Records (n.declarations calls) := by
    have := h.records.after calls
    rwa [Node.declarations, List.filterMap_nil, List.append_nil] at this
  exact ⟨hrecords.groups, hrecords.distinct, fun d hd name => hrecords.findParameter? hd,
    hrecords.latest, hrecords.complete⟩

/-- A selection declares twice under one name, before and after it is renamed. -/
theorem parameters_follow_node_selection :
    (ofType ⟨0⟩ .select).IsFresh ∧
      ((ofType ⟨0⟩ .select).after [.declare "A" (.int 1), .rename "my sel",
        .declare "a" (.int 2)]).findParameter? "MY_SEL.A" none =
          some ⟨2, ⟨"a", some "my_sel", .int 2⟩⟩ :=
  ⟨isFresh_ofType ⟨0⟩ .select, (parameters_follow_node (isFresh_ofType ⟨0⟩ .select) _).2.2.1 _
    (List.mem_of_getElem? (i := 1) rfl) _ (by decide +kernel)⟩

end Node

end SiteAnalysis
