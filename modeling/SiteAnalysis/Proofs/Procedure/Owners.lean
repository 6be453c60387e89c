import Mathlib.Logic.Function.Basic
import SiteAnalysis.Procedure
import SiteAnalysis.Proofs.Run.Storing

set_option autoImplicit false

/-! # Owners of results

What a node keeps in the results for a configuration is owned by both together. Several procedures
may take turns with one store of results. Main statements:

* `Owner.storageName_eq_iff`: when two owners have one name for their items.
* `Procedure.items_apart_iff`: if no two owners clash, every node finds under its own key what it
  has left there itself for the same configuration.
* `Procedure.items_shared`: a node overwrites what another one keeps.
-/

namespace SiteAnalysis

/-! ## Names of items -/

/-- **The owner of an item**: a node of some procedure, with the name of a configuration. -/
structure Owner (ι : Type) where
  procedure : ι
  node : NodeId
  name : String
  holding : Holding
  configuration : String
  deriving DecidableEq

namespace Owner

variable {ι : Type} {o o' : Owner ι}

/-- What follows the name of the node in the name of the item. -/
def tail (o : Owner ι) : String := niceName o.configuration ++ o.holding.suffix

/-- The name of the item. -/
def storageName (o : Owner ι) : String := o.name ++ "_" ++ o.tail

/-- The name of another node goes on where the name of a node ends, and what follows makes up for
it. -/
def IsContinuedBy (o o' : Owner ι) : Prop :=
  ∃ w, o'.name = o.name ++ "_" ++ w ∧ o.tail = w ++ "_" ++ o'.tail

/-- **Two owners clash**: one node keeps items for two configurations that have one name fit for
keys, or the name of a node continues that of another. -/
def Clashes (o o' : Owner ι) : Prop :=
  (o.name = o'.name ∧ o.configuration ≠ o'.configuration ∧
    niceName o.configuration = niceName o'.configuration) ∨ o.IsContinuedBy o'

theorem IsContinuedBy.storageName_eq (h : o.IsContinuedBy o') :
    o.storageName = o'.storageName := by
  obtain ⟨w, hname, htail⟩ := h
  simp only [storageName, hname, htail, String.append_assoc]

theorem IsContinuedBy.name_ne (h : o.IsContinuedBy o') : o.name ≠ o'.name := by
  obtain ⟨w, hname, -⟩ := h
  intro heq
  have hlength := congrArg String.length (heq.trans hname)
  have hone : "_".length = 1 := rfl
  rw [String.length_append, String.length_append, hone] at hlength
  omega

/-- **When owners have one name for their items**: if their parts are the same, or the name of one
node continues that of the other. -/
theorem storageName_eq_iff (o o' : Owner ι) : o.storageName = o'.storageName ↔
    (o.name = o'.name ∧ o.tail = o'.tail) ∨ o.IsContinuedBy o' ∨ o'.IsContinuedBy o := by
  -- Of two equal names one begins with the node of the other; what is over tells them apart.
  have hcontinued : ∀ {a b : Owner ι} {c : List Char}, b.name.toList = a.name.toList ++ c →
      "_".toList ++ a.tail.toList = c ++ ("_".toList ++ b.tail.toList) →
        (a.name = b.name ∧ a.tail = b.tail) ∨ a.IsContinuedBy b := by
    intro a b c hname htail
    cases c with
    | nil => exact .inl ⟨String.toList_injective (by simpa using hname.symm),
        String.toList_injective (by simpa using htail)⟩
    | cons x c =>
        obtain ⟨rfl, hrest⟩ : '_' = x ∧ a.tail.toList = c ++ '_' :: b.tail.toList := by
          simpa using htail
        exact .inr ⟨.ofList c, String.toList_injective (by simp [hname]),
          String.toList_injective (by simp [hrest])⟩
  constructor
  · intro h
    have hlist := congrArg String.toList h
    simp only [storageName, String.toList_append, List.append_assoc] at hlist
    rcases List.append_eq_append_iff.1 hlist with ⟨c, hname, htail⟩ | ⟨c, hname, htail⟩
    · exact (hcontinued hname htail).imp_right .inl
    · exact (hcontinued hname htail).imp (fun h => ⟨h.1.symm, h.2.symm⟩) .inr
  · rintro (⟨hname, htail⟩ | h | h)
    · rw [storageName, storageName, hname, htail]
    · exact h.storageName_eq
    · exact h.storageName_eq.symm

end Owner

/-! ## Owners of a procedure -/

section Owners

variable {ι : Type} (i : ι) (configuration : String)

/-- A node as an owner, if it keeps anything in the results. -/
def Node.owner? (n : Node) : Option (Owner ι) :=
  n.holding?.map fun h => ⟨i, n.id, n.name, h, configuration⟩

theorem Node.itemKey?_eq (n : Node) (job : Job) : n.itemKey? job configuration =
    (n.owner? i configuration).map fun o => job.key o.storageName := by
  simp [itemKey?, owner?, Owner.storageName, Owner.tail, Function.comp_def]

/-- **The owners of the items** that a procedure keeps for a configuration. -/
def Procedure.owners (p : Procedure) : List (Owner ι) :=
  p.root.nodes.nodes.filterMap fun n => n.owner? i configuration

theorem Node.holding?_installNode (n : Node) (run : Run) :
    (run.installNode n).holding? = n.holding? := by
  unfold Run.installNode
  split
  · next hkind =>
      split
      · simp [holding?, hkind]
      · rfl
  · next hkind =>
      split
      · simp [holding?, hkind]
      · rfl
  · rfl

theorem Node.owner?_installNode (n : Node) (run : Run) :
    (run.installNode n).owner? i configuration = n.owner? i configuration := by
  have hkept : (run.installNode n).id = n.id ∧ (run.installNode n).name = n.name := by
    unfold Run.installNode
    split
    · split <;> exact ⟨rfl, rfl⟩
    · split <;> exact ⟨rfl, rfl⟩
    · exact ⟨rfl, rfl⟩
  rw [owner?, owner?, holding?_installNode, hkept.1, hkept.2]

theorem Forest.filterMap_owner?_map {change : Node → Node}
    (h : ∀ n, (change n).owner? i configuration = n.owner? i configuration) (f : Forest) :
    (f.map change).nodes.filterMap (fun n => n.owner? i configuration) =
      f.nodes.filterMap fun n => n.owner? i configuration := by
  simp [List.filterMap_map, h]

namespace Procedure

variable (p : Procedure)

theorem owners_link : p.link.2.owners i configuration = p.owners i configuration := by
  have hkept : ∀ n, (p.root.nodes.refreshed n).owner? i configuration =
      n.owner? i configuration := fun _ => rfl
  exact Forest.filterMap_owner?_map i configuration hkept p.root.nodes

/-- **Running changes no owners.** -/
theorem owners_execute (c : Configuration) (results : Results) (folder : Folder) (pool : Pool Float)
    (group time : String) :
    (p.execute c results folder pool group time).procedure.owners i configuration =
      p.owners i configuration := by
  have hlinked := p.owners_link i configuration
  unfold execute
  split
  · rfl
  cases hlink : p.link with
  | mk linked q =>
      rw [hlink] at hlinked
      rw [← hlinked]
      cases linked with
      | error e => rfl
      | ok u =>
          have hinstalled := fun run : Run => Forest.filterMap_owner?_map i configuration
            (fun n => n.owner?_installNode i configuration run) q.root.nodes
          dsimp only
          generalize Job.run _ _ = came
          obtain ⟨came, run⟩ := came
          cases came with
          | error e => exact hinstalled run
          | ok u => exact hinstalled run

/-! ## Works of a procedure -/

/-- **The works of a procedure** over a configuration: none if it is skipped or a reference is
stale. -/
def works (c : Configuration) (results : Results) (folder : Folder) (pool : Pool Float)
    (group time : String) : List Work :=
  if p.isUnchanged c then []
  else match p.link with
    | (.error _, _) => []
    | (.ok (), p) =>
      Job.works ⟨p.root.nodes, p.settings, pool, group, time⟩ (.start c results folder)

variable (c : Configuration) (results : Results) (folder : Folder) (pool : Pool Float)
  (group time : String)

/-- **Procedures hand on the results** from work to work. -/
theorem works_handed : Handed Run.results results (p.works c results folder pool group time)
    (p.execute c results folder pool group time).results := by
  unfold works execute
  split
  · exact .nil
  cases p.link with
  | mk linked q =>
      cases linked with
      | error e => exact .nil
      | ok u =>
          have hrun := (Job.works_handed ⟨q.root.nodes, q.settings, pool, group, time⟩
            (.start c results folder)).map Prod.snd
          dsimp only
          generalize Job.run _ _ = came at hrun
          obtain ⟨came, run⟩ := came
          cases came with
          | error e => exact hrun
          | ok u => exact hrun

variable {p c results folder pool group time}

/-- **What a work of a procedure touches**: the item of the node that does it, which is one of the
procedure's owners. -/
theorem touches_of_mem_works {w : Work} (h : w ∈ p.works c results folder pool group time) :
    w.before.configuration.name = c.name ∧
    (∀ o, w.node.owner? i c.name = some o → o ∈ p.owners i c.name) ∧
    ∀ key, (w.node.owner? i c.name).map (fun o => ⟨o.storageName, group⟩) ≠ some key →
      w.after.results.find? key = w.before.results.find? key := by
  unfold works at h
  split at h
  · cases h
  cases hlink : p.link with
  | mk linked q =>
      rw [hlink] at h
      cases linked with
      | error e => cases h
      | ok u =>
          have hname := Job.name_of_mem_works h
          obtain ⟨hmem, -, hspares⟩ := Job.owns_of_mem_works h
          refine ⟨hname, fun o ho => ?_, fun key hkey => hspares key ?_⟩
          · rw [← p.owners_link, hlink]
            exact List.mem_filterMap.2 ⟨w.node, hmem, ho⟩
          · rw [hname, Node.itemKey?_eq i]
            exact hkey

end Procedure

end Owners

/-! ## Turns -/

/-- **A turn** of one of some procedures over a configuration. -/
structure Turn (ι : Type) where
  procedure : ι
  configuration : Configuration
  folder : Folder
  pool : Pool Float
  time : String

section Turns

variable {ι : Type}

namespace Turn

variable (t : Turn ι) (procedures : ι → Procedure) (group : String) (results : Results)

/-- The report on a turn. -/
def report : RunReport :=
  (procedures t.procedure).execute t.configuration results t.folder t.pool group t.time

/-- The works of a turn, with the procedure that does them. -/
def works : List (ι × Work) :=
  ((procedures t.procedure).works t.configuration results t.folder t.pool group t.time).map
    (t.procedure, ·)

end Turn

/-- **The owners of the items** that procedures keep if they take turns. -/
def turnOwners (procedures : ι → Procedure) (turns : List (Turn ι)) : List (Owner ι) :=
  turns.flatMap fun t => (procedures t.procedure).owners t.procedure t.configuration.name

/-- Who does a work, if it is a node that keeps something in the results. -/
def workOwner? (w : ι × Work) : Option (Owner ι) :=
  w.2.node.owner? w.1 w.2.before.configuration.name

/-- **The last of some works** by an owner of an item of the name. -/
def lastWork? (name : String) (ws : List (ι × Work)) : Option (ι × Work) :=
  ws.reverse.find? fun w => (workOwner? w).map Owner.storageName == some name

/-- **A work touches no item** but that of its owner. -/
def TouchesOwn (group : String) (w : ι × Work) : Prop :=
  ∀ key, (workOwner? w).map (fun o => ⟨o.storageName, group⟩) ≠ some key →
    w.2.after.results.find? key = w.2.before.results.find? key

/-- **A work finds its own item** behind some others: its owner has done the last of those that go
by the name of the item, and the item is as it was left there; or there was none, and the item is as
it was at first. -/
def FindsOwn (group : String) (first : Results) (earlier : List (ι × Work)) (w : ι × Work) : Prop :=
  ∀ o, workOwner? w = some o →
    match lastWork? o.storageName earlier with
    | some e => workOwner? e = some o ∧
        w.2.before.results.find? ⟨o.storageName, group⟩ =
          e.2.after.results.find? ⟨o.storageName, group⟩
    | none => w.2.before.results.find? ⟨o.storageName, group⟩ =
        first.find? ⟨o.storageName, group⟩

variable {group : String} {procedures : ι → Procedure} {results : Results} {turns : List (Turn ι)}

/-- A work that goes by the item of another owner does not find its own. -/
theorem not_findsOwn_of_ne {earlier : List (ι × Work)} {w e : ι × Work} {o o' : Owner ι}
    (howner : workOwner? w = some o) (hlast : lastWork? o.storageName earlier = some e)
    (howner' : workOwner? e = some o') (hne : o' ≠ o) : ¬ FindsOwn group results earlier w := by
  intro hfinds
  have hfound := hfinds o howner
  rw [hlast] at hfound
  exact hne (Option.some.inj (howner'.symm.trans hfound.1))

/-- **Nodes are named apart** if those that keep something have different names in all
procedures. -/
def NamedApart (procedures : ι → Procedure) : Prop :=
  ∀ i j, ∀ n ∈ (procedures i).root.nodes.nodes, ∀ m ∈ (procedures j).root.nodes.nodes,
    n.holding?.isSome → m.holding?.isSome → n.name = m.name → i = j ∧ n = m

/-- **What is kept under a key** after some works: what the last work of an owner of the key left,
or what was there before them all. -/
theorem find?_eq_lastWork {first last : Results} {ws : List (ι × Work)} (name : String)
    (h : Handed Run.results first (ws.map Prod.snd) last)
    (htouches : ∀ w ∈ ws, TouchesOwn group w) :
    last.find? ⟨name, group⟩ = match lastWork? name ws with
      | some w => w.2.after.results.find? ⟨name, group⟩
      | none => first.find? ⟨name, group⟩ := by
  induction ws generalizing first with
  | nil =>
      cases h
      rfl
  | cons w ws ih =>
      cases h with
      | cons hfound hrest =>
          rw [ih hrest fun v hv => htouches v (List.mem_cons_of_mem _ hv), lastWork?, lastWork?,
            List.reverse_cons, List.find?_append, List.find?_singleton]
          cases ws.reverse.find? fun w => (workOwner? w).map Owner.storageName == some name with
          -- A later work is of an owner of the key, so this one does not count.
          | some v => rfl
          | none =>
              rw [Option.none_or]
              by_cases howner : (workOwner? w).map Owner.storageName = some name
              · rw [if_pos (beq_iff_eq.2 howner)]
              · rw [if_neg (mt beq_iff_eq.1 howner), ← hfound]
                refine htouches w List.mem_cons_self _ fun heq => howner ?_
                obtain ⟨o, ho, hkey⟩ := Option.map_eq_some_iff.1 heq
                simpa [ho] using congrArg ResultKey.name hkey

/-- **Owners are known by the names of nodes and configurations**, if nodes are named apart. -/
theorem eq_of_mem_turnOwners (hnames : NamedApart procedures) {o o' : Owner ι}
    (ho : o ∈ turnOwners procedures turns) (ho' : o' ∈ turnOwners procedures turns)
    (hname : o.name = o'.name) : { o with configuration := o'.configuration } = o' := by
  have hnode : ∀ {o : Owner ι}, o ∈ turnOwners procedures turns →
      ∃ i, ∃ n ∈ (procedures i).root.nodes.nodes, ∃ h, n.holding? = some h ∧
        o = ⟨i, n.id, n.name, h, o.configuration⟩ := by
    intro o ho
    obtain ⟨t, -, ho⟩ := List.mem_flatMap.1 ho
    obtain ⟨n, hn, ho⟩ := List.mem_filterMap.1 ho
    obtain ⟨h, hholding, rfl⟩ := Option.map_eq_some_iff.1 ho
    exact ⟨t.procedure, n, hn, h, hholding, rfl⟩
  obtain ⟨i, n, hn, h, hholding, heq⟩ := hnode ho
  obtain ⟨j, m, hm, h', hholding', heq'⟩ := hnode ho'
  rw [heq, heq'] at hname
  obtain ⟨rfl, rfl⟩ := hnames i j n hn m hm (by simp [hholding]) (by simp [hholding']) hname
  obtain rfl := Option.some.inj (hholding.symm.trans hholding')
  rw [heq, heq']

/-- **Different owners have different names for their items** if and only if no two clash. -/
theorem storageName_inj_iff (turns : List (Turn ι)) (hnames : NamedApart procedures) :
    (∀ o ∈ turnOwners procedures turns, ∀ o' ∈ turnOwners procedures turns,
      o.storageName = o'.storageName → o = o') ↔
    ∀ o ∈ turnOwners procedures turns, ∀ o' ∈ turnOwners procedures turns, ¬ o.Clashes o' := by
  constructor
  · rintro hsame o ho o' ho' (⟨hname, hconfiguration, hnice⟩ | hcontinued)
    · have heq := eq_of_mem_turnOwners hnames ho ho' hname
      have htail : o.tail = o'.tail := by rw [← heq, Owner.tail, Owner.tail, hnice]
      have hkey := (o.storageName_eq_iff o').2 (.inl ⟨hname, htail⟩)
      exact hconfiguration (congrArg Owner.configuration (hsame o ho o' ho' hkey))
    · obtain rfl := hsame o ho o' ho' hcontinued.storageName_eq
      exact hcontinued.name_ne rfl
  · intro hclash o ho o' ho' hsame
    rcases (o.storageName_eq_iff o').1 hsame with ⟨hname, htail⟩ | hcontinued | hcontinued
    · have heq := eq_of_mem_turnOwners hnames ho ho' hname
      have hnice : niceName o.configuration = niceName o'.configuration := by
        rw [← heq, Owner.tail, Owner.tail] at htail
        simpa using htail
      have hconfiguration : o.configuration = o'.configuration := by
        by_contra hne
        exact hclash o ho o' ho' (.inl ⟨hname, hne, hnice⟩)
      rw [← heq, ← hconfiguration]
    · exact absurd (.inr hcontinued) (hclash o ho o' ho')
    · exact absurd (.inr hcontinued) (hclash o' ho' o ho)

/-! ### Works of all turns -/

variable [DecidableEq ι]

/-- **The works of procedures that take turns** with one store of results, under one group. -/
def turnWorks (group : String) : (ι → Procedure) → Results → List (Turn ι) → List (ι × Work)
  | _, _, [] => []
  | procedures, results, t :: rest =>
    let report := t.report procedures group results
    t.works procedures group results ++
      turnWorks group (Function.update procedures t.procedure report.procedure) report.results rest

theorem turnOwners_update (turns : List (Turn ι)) (t : Turn ι) :
    turnOwners (Function.update procedures t.procedure
      (t.report procedures group results).procedure) turns = turnOwners procedures turns := by
  unfold turnOwners
  congr 1
  funext u
  by_cases h : u.procedure = t.procedure
  · rw [h, Function.update_self]
    exact Procedure.owners_execute ..
  · rw [Function.update_of_ne h]

/-- The results after some turns are those that the works have handed on. -/
theorem exists_turnWorks_handed (group : String) (procedures : ι → Procedure) (results : Results)
    (turns : List (Turn ι)) : ∃ last, Handed Run.results results
      ((turnWorks group procedures results turns).map Prod.snd) last := by
  induction turns generalizing procedures results with
  | nil => exact ⟨results, .nil⟩
  | cons t rest ih =>
      obtain ⟨last, hrest⟩ := ih (Function.update procedures t.procedure
        (t.report procedures group results).procedure) (t.report procedures group results).results
      have hturn := (procedures t.procedure).works_handed t.configuration results t.folder t.pool
        group t.time
      refine ⟨last, ?_⟩
      rw [turnWorks, List.map_append, Turn.works, List.map_map, Function.comp_def, List.map_id']
      exact hturn.append hrest

/-- **All works are done by the owners** for their own items. -/
theorem touchesOwn_of_mem_turnWorks {w : ι × Work}
    (h : w ∈ turnWorks group procedures results turns) :
    (∀ o, workOwner? w = some o → o ∈ turnOwners procedures turns) ∧ TouchesOwn group w := by
  induction turns generalizing procedures results with
  | nil => cases h
  | cons t rest ih =>
      rw [turnWorks, List.mem_append] at h
      rcases h with h | h
      · obtain ⟨w, hw, rfl⟩ := List.mem_map.1 h
        obtain ⟨hname, howner, htouches⟩ := Procedure.touches_of_mem_works t.procedure hw
        refine ⟨fun o ho => List.mem_append_left _ (howner o ?_), fun key hkey => htouches key ?_⟩
        · rw [← hname]
          exact ho
        · rw [← hname]
          exact hkey
      · obtain ⟨howner, htouches⟩ := ih h
        rw [turnOwners_update] at howner
        exact ⟨fun o ho => List.mem_append_right _ (howner o ho), htouches⟩

/-- **Works keep to their own items**, if different owners have different names for theirs. -/
theorem touchesOwn_findsOwn (hapart : ∀ o ∈ turnOwners procedures turns,
      ∀ o' ∈ turnOwners procedures turns, o.storageName = o'.storageName → o = o')
    {earlier later : List (ι × Work)} {w : ι × Work}
    (hworks : turnWorks group procedures results turns = earlier ++ w :: later) :
    TouchesOwn group w ∧ FindsOwn group results earlier w := by
  have hall : ∀ v ∈ earlier ++ w :: later,
      (∀ o, workOwner? v = some o → o ∈ turnOwners procedures turns) ∧ TouchesOwn group v := by
    rw [← hworks]
    exact fun v => touchesOwn_of_mem_turnWorks
  obtain ⟨hmem, htouches⟩ := hall w (by simp)
  refine ⟨htouches, fun o ho => ?_⟩
  obtain ⟨last, hhanded⟩ := exists_turnWorks_handed group procedures results turns
  rw [hworks, List.map_append] at hhanded
  obtain ⟨between, hearlier, hlater⟩ := hhanded.exists_between
  have hfound : w.2.before.results = between := by
    cases hlater with
    | cons hfound hrest => exact hfound
  have hitem := find?_eq_lastWork o.storageName hearlier fun v hv =>
    (hall v (List.mem_append_left _ hv)).2
  rw [hfound]
  cases hlast : lastWork? o.storageName earlier with
  | none =>
      rw [hlast] at hitem
      exact hitem
  | some e =>
      rw [hlast] at hitem
      refine ⟨?_, hitem⟩
      -- The owner of the last work has the name in common, and so is the same.
      have hkey := List.find?_some hlast
      obtain ⟨o', ho', hsame⟩ := Option.map_eq_some_iff.1 (beq_iff_eq.1 hkey)
      have hmem' := (hall e (List.mem_append_left _
        (List.mem_reverse.1 (List.mem_of_find?_eq_some hlast)))).1 o' ho'
      rw [ho', hapart o' hmem' o (hmem o ho) hsame]

/-! ## Owners apart -/

namespace Procedure

/-- **Owners apart.** Some procedures, whose nodes are named apart, take turns with one store of
results. Different owners keep their items under different names if and only if no two of them
clash. If none do, every work touches its own item at most, and finds it as the last work of the
very same owner has left it, or as it was before all turns. -/
theorem items_apart_iff (procedures : ι → Procedure) (group : String) (results : Results)
    (turns : List (Turn ι)) (hnames : NamedApart procedures) :
    let owners := turnOwners procedures turns
    ((∀ o ∈ owners, ∀ o' ∈ owners, o.storageName = o'.storageName → o = o') ↔
      ∀ o ∈ owners, ∀ o' ∈ owners, ¬ o.Clashes o') ∧
    ((∀ o ∈ owners, ∀ o' ∈ owners, ¬ o.Clashes o') →
      ∀ earlier w later, turnWorks group procedures results turns = earlier ++ w :: later →
        TouchesOwn group w ∧ FindsOwn group results earlier w) := by
  intro owners
  have hiff := storageName_inj_iff turns hnames
  exact ⟨hiff, fun hclash earlier w later hworks => touchesOwn_findsOwn (hiff.2 hclash) hworks⟩

/-- A distance, a histogram over it, and another one over it twice. -/
def crossed : Procedure :=
  let quantity := fun name : String =>
    (⟨name, .observable (some ⟨"D", some ⟨0⟩⟩) 0 (.group .calculate), true, false⟩ : Keyword)
  let distance : Node := { Node.ofType ⟨0⟩ .distance with name := "D" }
  let single : Node := { Node.ofType ⟨1⟩ (.collect .one) with
    name := "A", keywords := ⟨[quantity "QuantityX"], []⟩ }
  let double : Node := { Node.ofType ⟨2⟩ (.collect .two) with
    name := "A_B", keywords := ⟨[quantity "QuantityX", quantity "QuantityY"], []⟩ }
  let root := Procedure.ofContext .analysis "Analysis"
  { root with root := { root.root with
      nodes := .cons distance .nil (.cons single .nil (.cons double .nil .nil)) } }

/-- A turn over a configuration of no sites. -/
def turnOver (name : String) : Turn Unit := ⟨(), .ofCell name .unitCube, .empty, .serial, "now"⟩

theorem namedApart_crossed : NamedApart fun _ : Unit => crossed := by
  intro _ _ n hn m hm _ _ hname
  have hnodup : (crossed.root.nodes.nodes.map Node.name).Nodup := by decide +kernel
  exact ⟨rfl, List.inj_on_of_nodup_map hnodup hn hm hname⟩

/-- The two histograms are kept apart for water and ice. -/
theorem items_apart_crossed :
    let procedures := fun _ : Unit => crossed
    let turns := [turnOver "Water", turnOver "Ice"]
    let owners := turnOwners procedures turns
    let works := turnWorks "Group" procedures .empty turns
    NamedApart procedures ∧
    owners.map Owner.storageName =
      ["A_Water_Bins", "A_B_Water_Bins", "A_Ice_Bins", "A_B_Ice_Bins"] ∧
    (∀ o ∈ owners, ∀ o' ∈ owners, ¬ o.Clashes o') ∧
    works.map (fun w => (workOwner? w).map Owner.storageName) =
      [none, some "A_Water_Bins", some "A_B_Water_Bins", none, none, some "A_Ice_Bins",
        some "A_B_Ice_Bins", none] ∧
    ∀ earlier w later, works = earlier ++ w :: later →
      TouchesOwn "Group" w ∧ FindsOwn "Group" .empty earlier w := by
  intro procedures turns owners works
  have hnames : NamedApart procedures := namedApart_crossed
  obtain ⟨hiff, hfinds⟩ := items_apart_iff procedures "Group" .empty turns hnames
  have hclash : ∀ o ∈ owners, ∀ o' ∈ owners, ¬ o.Clashes o' := hiff.1 (by decide +kernel)
  exact ⟨hnames, by decide +kernel, hclash, by decide +kernel, hfinds hclash⟩

/-- **Items are shared** if the name of a configuration begins where that of a node ends. Over `B_C`
the node `A` stores a histogram, and over `C` it is found by `A_B`. -/
theorem items_shared :
    let procedures := fun _ : Unit => crossed
    let works := turnWorks "Group" procedures .empty [turnOver "B_C", turnOver "C"]
    let key : ResultKey := ⟨"A_B_C_Bins", "Group"⟩
    NamedApart procedures ∧
    ((works.take 7).map fun w => (workOwner? w, w.2.before.results.contains key)) =
      [(none, false), (some ⟨(), ⟨1⟩, "A", .histogram, "B_C"⟩, false),
        (some ⟨(), ⟨2⟩, "A_B", .histogram, "B_C"⟩, true), (none, true), (none, true),
        (some ⟨(), ⟨1⟩, "A", .histogram, "C"⟩, true),
        (some ⟨(), ⟨2⟩, "A_B", .histogram, "C"⟩, true)] ∧
    (Owner.mk () ⟨2⟩ "A_B" .histogram "C").storageName = key.name ∧
    ∃ earlier w later, works = earlier ++ w :: later ∧ ¬ FindsOwn "Group" .empty earlier w := by
  intro procedures works key
  have hlength : 6 < works.length := by decide +kernel
  have howner : (works.map workOwner?)[6]? =
      some (some ⟨(), ⟨2⟩, "A_B", .histogram, "C"⟩) := by decide +kernel
  have hlast : (lastWork? key.name (works.take 6)).bind workOwner? =
      some ⟨(), ⟨1⟩, "A", .histogram, "B_C"⟩ := by decide +kernel
  have hname : (Owner.mk () ⟨2⟩ "A_B" .histogram "C").storageName = key.name := by decide +kernel
  rw [List.getElem?_map, List.getElem?_eq_getElem hlength, Option.map_some,
    Option.some.injEq] at howner
  obtain ⟨e, he, howner'⟩ := Option.bind_eq_some_iff.1 hlast
  refine ⟨namedApart_crossed, by decide +kernel, hname, works.take 6, works.get ⟨6, hlength⟩,
    works.drop 7, ?_, ?_⟩
  · rw [List.get_eq_getElem, ← List.drop_eq_getElem_cons hlength, List.take_append_drop]
  · exact not_findsOwn_of_ne howner (hname ▸ he) howner' (by decide)

end Procedure

end Turns

end SiteAnalysis
