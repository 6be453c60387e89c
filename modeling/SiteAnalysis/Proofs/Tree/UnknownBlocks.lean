import SiteAnalysis.Proofs.Node.Words
import SiteAnalysis.Proofs.Tree.Renumbering

set_option autoImplicit false

/-! # Blocks of unknown types

A block in a list of nodes that begins with a word which names no registered type is passed over.
How far is told by the first words of its lines: those that open a block of the same word and those
that close one are counted. But a line that cannot be split ends this at once, and nothing is told
of it. Main statements:

* `Reading.takeLines_block`: which lines of a block are passed over, and what is told of it.
* `Reading.takeLines_block_iff`: the whole block is passed over exactly if all lines in it can be
  split.
* `Reading.ofLines_block`: a whole text with such a block is read as the text without the lines that
  are passed over.
-/

namespace SiteAnalysis

/-! ## Blocks in a text -/

/-- The first word on a line, if the line can be split and has one. -/
def firstWord? (line : String) : Option String :=
  match tokenise line with
  | .ok (word :: _) => some word
  | _ => none

/-- Whether a line can be split into arguments. -/
def isSplittable (line : String) : Bool := (tokenise line).isOk

/-- **How many blocks of a word are open behind a line**; none if it closes one more than that. -/
def depthBehind? (word : String) (depth : Nat) (line : String) : Option Nat :=
  match firstWord? line with
  | none => some depth
  | some first =>
    if sameName first word then some (depth + 1)
    else if sameName first ("End" ++ word) then if depth = 0 then none else some (depth - 1)
    else some depth

/-- Lines that open and close a block, and those in between. -/
structure TextBlock where
  opening : String
  body : List String
  closing : String

namespace TextBlock

/-- All lines of a block. -/
def lines (b : TextBlock) : List String := b.opening :: (b.body ++ [b.closing])

/-- **A block of a word**: the word opens it, its end closes it, and in between as many blocks of the
word are closed as are opened, none before it was opened. -/
structure IsOf (b : TextBlock) (word : String) : Prop where
  opening : firstWord? b.opening = some word
  closing : ∃ first ∈ firstWord? b.closing, sameName first ("End" ++ word) = true
  balanced : b.body.foldlM (depthBehind? word) 0 = some 0

/-- **The lines that are passed over**: all, or those up to the first in between that cannot be
split. -/
def passed (b : TextBlock) : List String :=
  if b.body.all isSplittable then b.lines
  else b.opening :: (b.body.takeWhile isSplittable ++ (b.body.dropWhile isSplittable).take 1)

/-- **The lines that are read** as if they stood behind the block. -/
def left (b : TextBlock) : List String :=
  if b.body.all isSplittable then []
  else (b.body.dropWhile isSplittable).drop 1 ++ [b.closing]

variable {b : TextBlock}

theorem passed_append_left (b : TextBlock) : b.passed ++ b.left = b.lines := by
  unfold passed left lines
  split
  · exact List.append_nil _
  · rw [List.cons_append, List.append_assoc, ← List.append_assoc (List.take 1 _),
      List.take_append_drop, ← List.append_assoc, List.takeWhile_append_dropWhile]

theorem left_eq_nil_iff : b.left = [] ↔ ∀ line ∈ b.body, isSplittable line = true := by
  unfold left
  split
  · next hall => simpa using hall
  · next hall => simpa using hall

/-- The first line in between that cannot be split. -/
theorem exists_unsplittable (h : ¬ ∀ line ∈ b.body, isSplittable line = true) :
    ∃ front bad back, b.body = front ++ bad :: back ∧ (∀ line ∈ front, isSplittable line = true) ∧
      isSplittable bad = false ∧ b.passed = b.opening :: (front ++ [bad]) ∧
      b.left = back ++ [b.closing] := by
  have hall : b.body.all isSplittable = false := by simpa using h
  have hsplit := List.takeWhile_append_dropWhile (p := isSplittable) (l := b.body)
  cases hdrop : b.body.dropWhile isSplittable with
  | nil =>
      rw [List.dropWhile_eq_nil_iff] at hdrop
      exact absurd hdrop h
  | cons bad back =>
      refine ⟨b.body.takeWhile isSplittable, bad, back, hdrop ▸ hsplit.symm,
        fun line hline => List.mem_takeWhile_imp hline, ?_, ?_, ?_⟩
      · have hhead := List.head?_dropWhile_not isSplittable b.body
        simpa [hdrop] using hhead
      · simp [passed, hall, hdrop]
      · simp [left, hall, hdrop]

end TextBlock

/-- **How a word is spelled** when it is told that it names no registered type. -/
def NodeType.spelling (word : String) : String := ((ofKeyword? word).map keyword).getD word

theorem Registry.typeOf_eq_error {registry : Registry} {word : String}
    (h : ∀ t, registry.typeOf word ≠ .ok t) :
    registry.typeOf word = .error (.unrecognisedNodeType (NodeType.spelling word)) := by
  unfold typeOf at h ⊢
  unfold NodeType.spelling
  cases hword : NodeType.ofKeyword? word with
  | none => rfl
  | some t =>
      rw [hword] at h
      dsimp only at h ⊢
      split
      · next hadmits => exact absurd (if_pos hadmits) (h t)
      · rfl

/-- A word is not the same as its end. -/
theorem sameName_of_sameName_end {s word : String} (h : sameName s ("End" ++ word) = true) :
    sameName s word = false := by
  rw [← Bool.not_eq_true]
  intro hsame
  rw [sameName, beq_iff_eq] at h hsame
  have hlength := congrArg List.length (hsame.symm.trans h)
  have hend : "End".toList.length = 3 := rfl
  rw [List.length_map, List.length_map, String.toList_append, List.length_append] at hlength
  omega

/-- Naming is left to the tree, so the level of a branch stays. -/
theorem Sequence.level_of_adopt {s s' : Sequence} {t : Subtree}
    (h : s.adopt t = .ok s') : s'.level = s.level := by
  rw [Sequence.adopt, Sequence.place_eq] at h
  split at h
  · cases h
  · cases h
  · obtain rfl := Except.ok.inj h
    exact (s.named_spec t s.nodes.names false).2.2.2 rfl

/-- Whether a place is a list of nodes. -/
def Place.isList : Place → Bool
  | .list => true
  | _ => false

theorem Place.eq_list_of_isList {place : Place} (h : place.isList = true) : place = .list := by
  cases place <;> first | rfl | cases h

/-- Whether lines in a place are passed over. -/
def Place.IsUnreadable : Place → Prop
  | .unreadable _ _ => True
  | _ => False

/-- Whether lines in a place stand in a list of nodes, or in a block in one that is passed over. -/
def Place.IsInList : Place → Prop
  | .list | .unreadable _ _ => True
  | _ => False

namespace Reading

variable {lookup : Lookup} {r : Reading} {word line : String} {number : Nat}

theorem takeLines_append (number : Nat) (r : Reading) (front back : List String) :
    r.takeLines lookup number (front ++ back) =
      (r.takeLines lookup number front).takeLines lookup (number + front.length) back := by
  induction front generalizing number r with
  | nil => rfl
  | cons line front ih =>
      rw [List.cons_append, takeLines, takeLines, ih, List.length_cons, Nat.add_assoc number,
        Nat.add_comm 1]

/-! ## Lines that are passed over -/

/-- The line of a word. -/
theorem numberedLine_of_firstWord {first : String} (h : firstWord? line = some first) :
    ∃ values, ∀ number, numberedLine number line = ⟨number, .ok (first :: values)⟩ := by
  unfold firstWord? at h
  split at h
  · next word values hargs =>
      obtain rfl := Option.some.inj h
      exact ⟨values, fun number => by rw [numberedLine, hargs]; rfl⟩
  · cases h

theorem step_opening (hplace : r.place = .list) (hword : firstWord? line = some word)
    (hend : sameName word r.level.terminator = false)
    (hunknown : ∀ t, lookup.registry.typeOf word ≠ .ok t) (number : Nat) :
    r.step lookup (numberedLine number line) =
      { r.report (.onLine number (.unrecognisedNodeType (NodeType.spelling word))) with
        place := .unreadable word 1 } := by
  obtain ⟨values, hline⟩ := numberedLine_of_firstWord hword
  rw [hline, step, hplace]
  dsimp only
  rw [listStep, hend, Registry.typeOf_eq_error hunknown]
  rfl

/-- A line in the block changes how many blocks of the word are open, if anything. -/
theorem step_unreadable {depth depth' : Nat} (hplace : r.place = .unreadable word (depth + 1))
    (hsplit : isSplittable line = true) (hdepth : depthBehind? word depth line = some depth')
    (number : Nat) : r.step lookup (numberedLine number line) =
      { r with place := .unreadable word (depth' + 1) } := by
  unfold depthBehind? at hdepth
  cases hfirst : firstWord? line with
  | none =>
      -- The line is blank, since it can be split.
      have hargs : tokenise line = .ok [] := by
        unfold firstWord? at hfirst
        unfold isSplittable at hsplit
        cases hargs : tokenise line with
        | error e =>
            rw [hargs] at hsplit
            cases hsplit
        | ok args =>
            cases args with
            | nil => rfl
            | cons word values =>
                rw [hargs] at hfirst
                cases hfirst
      rw [hfirst] at hdepth
      obtain rfl := Option.some.inj hdepth
      rw [numberedLine, hargs, ← hplace]
      exact step_empty r number
  | some first =>
      obtain ⟨values, hline⟩ := numberedLine_of_firstWord hfirst
      rw [hfirst] at hdepth
      rw [hline, step, hplace]
      dsimp only at hdepth ⊢
      unfold unreadableStep
      split at hdepth
      · next hopens =>
          obtain rfl := Option.some.inj hdepth
          rw [if_pos hopens]
      · next hopens =>
          rw [if_neg hopens]
          split at hdepth
          · next hcloses =>
              rw [if_pos hcloses]
              split at hdepth
              · cases hdepth
              · next hzero =>
                  obtain rfl := Option.some.inj hdepth
                  rw [if_neg (by omega), Nat.sub_add_cancel (by omega), Nat.add_sub_cancel]
          · next hcloses =>
              obtain rfl := Option.some.inj hdepth
              rw [if_neg hcloses, ← hplace]

theorem step_closing {first : String} (hplace : r.place = .unreadable word 1)
    (hfirst : firstWord? line = some first) (hsame : sameName first ("End" ++ word) = true)
    (number : Nat) : r.step lookup (numberedLine number line) = { r with place := .list } := by
  obtain ⟨values, hline⟩ := numberedLine_of_firstWord hfirst
  rw [hline, step, hplace]
  dsimp only
  rw [unreadableStep, sameName_of_sameName_end hsame, hsame]
  rfl

/-- A line that cannot be split ends what is passed over. -/
theorem step_unsplittable {depth : Nat} (hplace : r.place = .unreadable word depth)
    (hsplit : isSplittable line = false) (number : Nat) :
    r.step lookup (numberedLine number line) = { r with place := .list } := by
  unfold isSplittable at hsplit
  unfold numberedLine
  cases hargs : tokenise line with
  | ok args =>
      rw [hargs] at hsplit
      cases hsplit
  | error e =>
      rw [step, hplace]
      rfl

theorem takeLines_unreadable {lines : List String} {depth depth' : Nat}
    (hplace : r.place = .unreadable word (depth + 1))
    (hsplit : ∀ line ∈ lines, isSplittable line = true)
    (hdepth : lines.foldlM (depthBehind? word) depth = some depth') (number : Nat) :
    r.takeLines lookup number lines = { r with place := .unreadable word (depth' + 1) } := by
  induction lines generalizing r depth number with
  | nil =>
      obtain rfl := Option.some.inj hdepth
      rw [takeLines, ← hplace]
  | cons line lines ih =>
      obtain ⟨hline, hlines⟩ := List.forall_mem_cons.1 hsplit
      rw [List.foldlM_cons] at hdepth
      obtain ⟨depth₁, hfirst, hrest⟩ := Option.bind_eq_some_iff.1 hdepth
      rw [takeLines, step_unreadable hplace hline hfirst, ih rfl hlines hrest]

/-- What is told of a block of an unknown word. -/
def reportUnknown (r : Reading) (number : Nat) (word : String) : Reading :=
  r.report (.onLine number (.unrecognisedNodeType (NodeType.spelling word)))

section

variable {b : TextBlock} (hplace : r.place = .list)
  (hend : sameName word r.level.terminator = false)
  (hunknown : ∀ t, lookup.registry.typeOf word ≠ .ok t) (hblock : b.IsOf word)
include hplace hend hunknown hblock

theorem takeLines_passed (number : Nat) :
    r.takeLines lookup number b.passed = r.reportUnknown number word := by
  have hdone : ∀ place, ({ ({ r.reportUnknown number word with place } : Reading) with
      place := .list } : Reading) = r.reportUnknown number word := fun place => by
    rw [← hplace]
    rfl
  by_cases hall : ∀ line ∈ b.body, isSplittable line = true
  · have hpassed : b.passed = b.lines := if_pos (by simpa using hall)
    obtain ⟨first, hfirst, hsame⟩ := hblock.closing
    rw [hpassed, TextBlock.lines, takeLines, step_opening hplace hblock.opening hend hunknown,
      takeLines_append, takeLines_unreadable rfl hall hblock.balanced, takeLines, takeLines,
      step_closing rfl hfirst hsame]
    exact hdone _
  · obtain ⟨front, bad, back, hbody, hfront, hbad, hpassed, -⟩ := b.exists_unsplittable hall
    have hdepth := hblock.balanced
    rw [hbody, List.foldlM_append] at hdepth
    obtain ⟨depth, hdepth, -⟩ := Option.bind_eq_some_iff.1 hdepth
    rw [hpassed, takeLines, step_opening hplace hblock.opening hend hunknown, takeLines_append,
      takeLines_unreadable rfl hfront hdepth, takeLines, takeLines, step_unsplittable rfl hbad]
    exact hdone _

/-- **A block of an unknown type**: one problem is told, some lines are passed over, and those that
are left are read. -/
theorem takeLines_block (number : Nat) : r.takeLines lookup number b.lines =
    (r.reportUnknown number word).takeLines lookup (number + b.passed.length) b.left := by
  rw [← b.passed_append_left, takeLines_append,
    takeLines_passed hplace hend hunknown hblock]

end

/-! ## Open nodes -/

/-- **What is open**, the innermost first: the keyword of the branch of each node, if it has one, and
the line on which its block begins. -/
def frames (r : Reading) : List (Option String × Nat) :=
  r.openNodes.map fun o => (o.subtree.node.branch.map Level.keyword, o.line)

/-- **Open nodes in front of a line**: their blocks began earlier, those that enclose others have a
branch, and branches have the keywords of types. -/
structure IsNested (number : Nat) (r : Reading) : Prop where
  lines : ∀ f ∈ r.frames, f.2 < number
  enclosing : ∀ f ∈ r.frames.tail, f.1.isSome = true
  innermost : r.place.IsInList → ∀ f ∈ r.frames.head?, f.1.isSome = true
  words : ∀ f ∈ r.frames, ∃ t : NodeType, f.1 = t.branchKeyword?

theorem isNested_start (root : Sequence) (fresh : NodeId) (number : Nat) :
    (start root fresh).IsNested number := by
  constructor <;> simp [start, frames]

theorem frames_mapOpen {f : Subtree → Subtree} (hf : ∀ t, (f t).node.branch = t.node.branch)
    (r : Reading) : (r.mapOpen f).frames = r.frames := by
  unfold mapOpen
  split
  · rfl
  · next o rest hopen => simp [frames, hopen, hf]

theorem branch_addDynamicSite (d : DynamicSite) (t : Subtree) :
    (addDynamicSite d t).node.branch = t.node.branch := by
  cases hkind : t.node.kind <;> simp [addDynamicSite, hkind]

/-- **What a line does to the open nodes**: they stay, or the innermost is closed, or one more is
opened in a list. Only a problem begins a block that is passed over. -/
inductive FrameStep (number : Nat) (r r' : Reading) : Prop
  | stays (hframes : r'.frames = r.frames) (hfresh : r'.fresh = r.fresh)
      (hplace : r'.place.IsInList → ∀ f ∈ r.frames.head?, f.1.isSome = true)
      (hbegins : r'.place.IsUnreadable → r.place.IsUnreadable ∨ r'.problems ≠ r.problems)
  | closes (hframes : r'.frames = r.frames.tail) (hfresh : r'.fresh = r.fresh)
      (hplace : r'.place = .list)
  | opens (t : NodeType) (hframes : r'.frames = (t.branchKeyword?, number) :: r.frames)
      (hfresh : r'.fresh.value = r.fresh.value + 1) (hlist : r.place = .list)
      (hplace : r'.place = .block)

theorem problems_report_ne (r : Reading) (e : Error) : (r.report e).problems ≠ r.problems := by
  simp [report]

theorem FrameStep.isNested {number : Nat} {r' : Reading} (hstep : r.FrameStep number r')
    (h : r.IsNested number) : r'.IsNested (number + 1) := by
  have hlines : ∀ f ∈ r.frames, f.2 < number + 1 := fun f hf => Nat.lt_succ_of_lt (h.lines f hf)
  cases hstep with
  | stays hframes _ hplace _ =>
      exact ⟨hframes ▸ hlines, hframes ▸ h.enclosing, hframes ▸ hplace, hframes ▸ h.words⟩
  | closes hframes _ _ =>
      refine ⟨?_, ?_, fun _ => ?_, ?_⟩ <;> rw [hframes]
      · exact fun f hf => hlines f (List.mem_of_mem_tail hf)
      · exact fun f hf => h.enclosing f (List.mem_of_mem_tail hf)
      · exact fun f hf => h.enclosing f (List.mem_of_mem_head? hf)
      · exact fun f hf => h.words f (List.mem_of_mem_tail hf)
  -- The new block has the number of this line, which is above all others.
  | opens t hframes _ hlist hplace =>
      have hinnermost := h.innermost (by rw [hlist]; trivial)
      have henclosing := h.enclosing
      refine ⟨?_, ?_, fun hin => ?_, ?_⟩
      · rw [hframes]
        exact List.forall_mem_cons.2 ⟨Nat.lt_succ_self number, hlines⟩
      · rw [hframes, List.tail_cons]
        cases hr : r.frames with
        | nil => simp
        | cons f rest =>
            rw [hr] at hinnermost henclosing
            exact List.forall_mem_cons.2 ⟨hinnermost f rfl, henclosing⟩
      · rw [hplace] at hin
        exact hin.elim
      · rw [hframes]
        exact List.forall_mem_cons.2 ⟨⟨t, rfl⟩, h.words⟩

/-- Closing a block leaves the nodes around it. -/
theorem close_spec (h : r.IsNested number) {o : OpenNode} {rest : List OpenNode}
    (hopen : r.openNodes = o :: rest) :
    r.close.frames = r.frames.tail ∧ r.close.fresh = r.fresh ∧ r.close.place = .list := by
  have hcloses := closesBlock_close r
  generalize r.close = r' at hcloses ⊢
  cases hcloses with
  | nothing hnil =>
      rw [hopen] at hnil
      cases hnil
  | refused hcons => exact ⟨by simp [frames, report, hcons], rfl, rfl⟩
  | outermost hone => exact ⟨by simp [frames, hone], rfl, rfl⟩
  | @inside o o' rest s htwo hadopt =>
      -- The node around has a branch, so the list that it gets has the keyword it had.
      obtain ⟨inner, hinner⟩ : ∃ inner, o'.subtree.node.branch = some inner := by
        have hsome := h.enclosing (o'.subtree.node.branch.map Level.keyword, o'.line)
          (by simp [frames, htwo])
        rwa [Option.isSome_map, Option.isSome_iff_exists] at hsome
      have hlevel : s.level = inner := by
        rw [Sequence.level_of_adopt hadopt]
        simp [hinner]
      exact ⟨by simp [frames, htwo, hlevel, hinner], rfl, rfl⟩

theorem frameStep_listStep (h : r.IsNested number) (hplace : r.place = .list) (keyword : String)
    (values : List String) :
    r.FrameStep number (r.listStep lookup number keyword values) := by
  have hinnermost := h.innermost (by rw [hplace]; trivial)
  have hacts := actsInList_listStep lookup r number keyword values
  generalize r.listStep lookup number keyword values = r' at hacts ⊢
  cases hacts with
  | ends =>
      refine .stays rfl rfl (fun _ => hinnermost) fun hin => ?_
      dsimp only at hin
      split at hin <;> exact hin.elim
  | unknown =>
      exact .stays rfl rfl (fun _ => hinnermost) fun _ => .inr (problems_report_ne r _)
  | @opens t _ _ =>
      have hbranch : (t.branchKeyword?.map (Level.branch r.fresh)).map Level.keyword =
          t.branchKeyword? := by
        rw [Option.map_map]
        exact Option.map_id'
      exact .opens t (by simp [frames, hbranch]) rfl hplace rfl

theorem frameStep_blockStep (h : r.IsNested number) (hplace : r.place = .block) (keyword : String)
    (values : List String) :
    r.FrameStep number (r.blockStep lookup number keyword values) := by
  -- A line that leaves the reader in its block changes no frame.
  have hstays : ∀ r' : Reading, r'.frames = r.frames → r'.fresh = r.fresh → r'.place = .block →
      r.FrameStep number r' := fun r' hframes hfresh hplace' =>
    .stays hframes hfresh (fun hin => by rw [hplace'] at hin; exact hin.elim)
      fun hin => by rw [hplace'] at hin; exact hin.elim
  have hacts := actsInBlock_blockStep lookup r number keyword values
  generalize r.blockStep lookup number keyword values = r' at hacts ⊢
  cases hacts with
  | nothing => exact hstays r rfl rfl hplace
  | ends hopen =>
      obtain ⟨hframes, hfresh, hlist⟩ := close_spec h hopen
      exact .closes hframes hfresh hlist
  | branch hopen _ hbranch =>
      exact .stays rfl rfl (fun _ => by simp [frames, hopen, hbranch]) fun hin => hin.elim
  | sites => exact .stays rfl rfl (fun hin => hin.elim) fun hin => hin.elim
  | @entry o rest outcome m hopen _ _ _ hread =>
      have hkeeps := o.subtree.node.keeps_readLine keyword values lookup.catalogue
      rw [hread] at hkeeps
      have hbranch : m.branch = o.subtree.node.branch := hkeeps.branch
      have hframes : frames { r with
          openNodes := { o with subtree := ⟨m, o.subtree.branch⟩ } :: rest } = r.frames := by
        simp [frames, hopen, hbranch]
      cases outcome <;> exact hstays _ hframes rfl hplace

theorem frameStep_dynamicSiteStep (r : Reading) (d : DynamicSite) (number : Nat) (keyword : String)
    (values : List String) :
    r.FrameStep number (r.dynamicSiteStep lookup d number keyword values) := by
  have hacts := actsInSites_dynamicSiteStep lookup r d number keyword values
  generalize r.dynamicSiteStep lookup d number keyword values = r' at hacts ⊢
  cases hacts with
  | ends =>
      refine .stays (frames_mapOpen (branch_addDynamicSite d) r) ?_ (fun hin => hin.elim)
        fun hin => hin.elim
      unfold closeDynamicSite mapOpen
      split <;> rfl
  | @entry outcome d' =>
      cases outcome <;> exact .stays rfl rfl (fun hin => hin.elim) fun hin => hin.elim

/-- **What a line does to the open nodes.** -/
theorem frameStep_step (lookup : Lookup) (h : r.IsNested number) (line : String) :
    r.FrameStep number (r.step lookup (numberedLine number line)) := by
  have hacts := acts_step lookup r (numberedLine number line)
  generalize r.step lookup (numberedLine number line) = r' at hacts ⊢
  cases hacts with
  | behind => exact .stays rfl rfl h.innermost .inl
  | blank => exact .stays rfl rfl h.innermost .inl
  | resumes hplace =>
      exact .stays rfl rfl (fun _ => h.innermost (by rw [hplace]; trivial)) fun hin => hin.elim
  | unsplittable => exact .stays rfl rfl h.innermost .inl
  | inList hplace => exact frameStep_listStep h hplace _ _
  | inBlock hplace => exact frameStep_blockStep h hplace _ _
  | inSites => exact frameStep_dynamicSiteStep r _ _ _ _
  | @passedOver skipped depth keyword values hplace hargs =>
      have hinnermost := h.innermost (by rw [hplace]; trivial)
      have hbegins : r.place.IsUnreadable := by rw [hplace]; trivial
      have hpasses := passesOver_unreadableStep r skipped depth keyword
      generalize r.unreadableStep skipped depth keyword = r' at hpasses ⊢
      cases hpasses <;> exact .stays rfl rfl (fun _ => hinnermost) fun _ => .inl hbegins

theorem IsNested.takeLines (lookup : Lookup) (h : r.IsNested number) (lines : List String) :
    (r.takeLines lookup number lines).IsNested (number + lines.length) := by
  induction lines generalizing r number with
  | nil => exact h
  | cons line lines ih =>
      rw [List.length_cons, Nat.add_comm lines.length, ← Nat.add_assoc]
      exact ih ((frameStep_step lookup h line).isNested h)

/-! ## What cannot be undone -/

/-- **A reader some lines behind another**: problems and new nodes are never taken back, and without
any no more nodes are open than before, and no lines are passed over. -/
structure Follows (r r' : Reading) : Prop where
  problems : r.problems <+: r'.problems
  fresh : r.fresh.value ≤ r'.fresh.value
  quiet : r'.problems = r.problems → r'.fresh = r.fresh →
    r'.frames.length ≤ r.frames.length ∧ ¬ r'.place.IsUnreadable

theorem Follows.refl (hplace : ¬ r.place.IsUnreadable) : r.Follows r :=
  ⟨List.prefix_rfl, Nat.le_refl _, fun _ _ => ⟨Nat.le_refl _, hplace⟩⟩

/-- What comes behind a line without problems or new nodes came in front of it without any. -/
theorem quiet_of_step {r' : Reading} (h : r.Follows r') (hnested : r'.IsNested number)
    {line : String} (hproblems : (r'.step lookup (numberedLine number line)).problems = r.problems)
    (hfresh : (r'.step lookup (numberedLine number line)).fresh = r.fresh) :
    r'.problems = r.problems ∧ r'.fresh = r.fresh := by
  have hback : r'.problems <+: r.problems := hproblems ▸ problems_prefix_step r' _
  have hle : r'.fresh.value ≤ r.fresh.value := by
    rw [← hfresh]
    cases frameStep_step lookup hnested line with
    | stays _ hsame _ _ => rw [hsame]
    | closes _ hsame _ => rw [hsame]
    | opens _ _ hnext _ _ => omega
  have hvalue := Nat.le_antisymm hle h.fresh
  exact ⟨hback.eq_of_length_le h.problems.length_le, by
    cases hr : r.fresh
    cases hr' : r'.fresh
    simp_all⟩

theorem Follows.step {r' : Reading} (h : r.Follows r') (hnested : r'.IsNested number)
    (line : String) : r.Follows (r'.step lookup (numberedLine number line)) := by
  have hstep := frameStep_step lookup hnested line
  have hquiet : (r'.step lookup (numberedLine number line)).problems = r.problems →
      (r'.step lookup (numberedLine number line)).fresh = r.fresh →
        r'.problems = r.problems ∧ r'.fresh = r.fresh := quiet_of_step h hnested
  have hstays : r'.problems <+: (r'.step lookup (numberedLine number line)).problems :=
    problems_prefix_step r' _
  generalize r'.step lookup (numberedLine number line) = s at *
  refine ⟨h.problems.trans hstays, ?_, fun hproblems hfresh => ?_⟩
  · have hfresh := h.fresh
    cases hstep with
    | stays _ hsame _ _ => rwa [hsame]
    | closes _ hsame _ => rwa [hsame]
    | opens _ _ hnext _ _ => omega
  · obtain ⟨hproblems', hfresh'⟩ := hquiet hproblems hfresh
    obtain ⟨hlength, hplace⟩ := h.quiet hproblems' hfresh'
    cases hstep with
    | stays hframes _ _ hbegins =>
        refine ⟨hframes ▸ hlength, fun hin => ?_⟩
        rcases hbegins hin with hin | hne
        · exact hplace hin
        · exact hne (hproblems.trans hproblems'.symm)
    | closes hframes _ hlist =>
        refine ⟨?_, fun hin => by rw [hlist] at hin; exact hin.elim⟩
        rw [hframes, List.length_tail]
        omega
    | opens _ _ hnext _ _ =>
        rw [hfresh, hfresh'] at hnext
        omega

theorem Follows.takeLines {r' : Reading} (lookup : Lookup) (h : r.Follows r')
    (hnested : r'.IsNested number) (lines : List String) : r.Follows (r'.takeLines lookup number lines) := by
  induction lines generalizing r' number with
  | nil => exact h
  | cons line lines ih =>
      exact ih (h.step hnested line) ((frameStep_step lookup hnested line).isNested hnested)

/-- An end word begins no branch of an open node. -/
theorem IsNested.sameName_branch (h : r.IsNested number) {o : OpenNode} {rest : List OpenNode}
    (hopen : r.openNodes = o :: rest) {l : Level} (hbranch : o.subtree.node.branch = some l)
    {first : String} (hend : sameName first ("End" ++ word) = true) :
    sameName first l.keyword = false := by
  obtain ⟨t, ht⟩ := h.words (o.subtree.node.branch.map Level.keyword, o.line)
    (by simp [frames, hopen])
  have hkeyword : l.keyword ∈ t.branchKeyword? := by
    rw [← ht, hbranch]
    rfl
  rw [sameName_comm, sameName_congr_right hend]
  exact t.sameName_branchKeyword_end word l.keyword hkeyword

/-- A line in a list leads to a list only with a problem. -/
theorem place_listStep_ne {first : String} {values : List String}
    (hproblems : (r.listStep lookup number first values).problems = r.problems) :
    (r.listStep lookup number first values).place ≠ .list := by
  have hacts := actsInList_listStep lookup r number first values
  generalize r.listStep lookup number first values = r' at hacts hproblems ⊢
  intro hlist
  cases hacts with
  | ends =>
      dsimp only at hlist
      split at hlist <;> cases hlist
  | unknown => exact problems_report_ne r _ hproblems
  | opens => cases hlist

/-- An end word in a block leads to a list only out of the block. -/
theorem length_lt_of_blockStep {first : String} {values : List String} (hnested : r.IsNested number)
    (hplace : r.place = .block) (hend : sameName first ("End" ++ word) = true)
    (hlist : (r.blockStep lookup number first values).place = .list) :
    (r.blockStep lookup number first values).frames.length < r.frames.length := by
  have hacts := actsInBlock_blockStep lookup r number first values
  generalize r.blockStep lookup number first values = r' at hacts hlist ⊢
  cases hacts with
  | nothing =>
      rw [hplace] at hlist
      cases hlist
  | ends hopen =>
      rw [(close_spec hnested hopen).1, frames, hopen]
      exact Nat.lt_succ_self _
  | branch hopen _ hbranch hword =>
      rw [hnested.sameName_branch hopen hbranch hend] at hword
      cases hword
  | sites => cases hlist
  | @entry o rest outcome m =>
      cases outcome <;> simp [reportOutcome, report, hplace] at hlist

/-- **An end word leads to a list only out of a block** that it closes, unless it is a problem. -/
theorem length_lt_of_step {first : String} (hnested : r.IsNested number)
    (hplace : ¬ r.place.IsUnreadable) (hfirst : firstWord? line = some first)
    (hend : sameName first ("End" ++ word) = true)
    (hproblems : (r.step lookup (numberedLine number line)).problems = r.problems)
    (hlist : (r.step lookup (numberedLine number line)).place = .list) :
    (r.step lookup (numberedLine number line)).frames.length < r.frames.length := by
  obtain ⟨values, hline⟩ := numberedLine_of_firstWord hfirst
  rw [hline] at hproblems hlist ⊢
  have hacts := acts_step lookup r ⟨number, .ok (first :: values)⟩
  generalize r.step lookup ⟨number, .ok (first :: values)⟩ = r' at hacts hproblems hlist ⊢
  -- Only in a block can the word lead to a list: elsewhere it is a problem or leads nowhere.
  cases hacts with
  | behind hbehind =>
      rw [hbehind] at hlist
      cases hlist
  | blank hblank => cases hblank
  | resumes _ herror => cases herror
  | unsplittable _ herror => cases herror
  | inList _ hwords =>
      cases hwords
      exact absurd hlist (place_listStep_ne hproblems)
  | inBlock hblock hwords =>
      cases hwords
      exact length_lt_of_blockStep hnested hblock hend hlist
  | @inSites d _ _ _ hwords =>
      cases hwords
      have hacts := actsInSites_dynamicSiteStep lookup r d number first values
      generalize r.dynamicSiteStep lookup d number first values = r' at hacts hlist
      cases hacts <;> cases hlist
  | passedOver hskips =>
      rw [hskips] at hplace
      exact (hplace trivial).elim

/-- **A block of an unknown type is passed over as a whole** exactly if all lines in it can be
split. -/
theorem takeLines_block_iff {b : TextBlock} (hnested : r.IsNested number) (hplace : r.place = .list)
    (hend : sameName word r.level.terminator = false)
    (hunknown : ∀ t, lookup.registry.typeOf word ≠ .ok t) (hblock : b.IsOf word) :
    r.takeLines lookup number b.lines = r.reportUnknown number word ↔
      ∀ line ∈ b.body, isSplittable line = true := by
  rw [takeLines_block hplace hend hunknown hblock]
  constructor
  · intro heq
    by_contra hall
    obtain ⟨front, bad, back, -, -, -, hpassed, hleft⟩ := b.exists_unsplittable hall
    have hunread : ¬ (r.reportUnknown number word).place.IsUnreadable := by
      rw [reportUnknown, report, hplace]
      exact id
    have hnested' : (r.reportUnknown number word).IsNested (number + b.passed.length) :=
      ⟨fun f hf => Nat.lt_add_right _ (hnested.lines f hf), hnested.enclosing, hnested.innermost,
        hnested.words⟩
    obtain ⟨first, hfirst, hsame⟩ := hblock.closing
    rw [hleft, takeLines_append, Reading.takeLines, Reading.takeLines] at heq
    -- The last line of the block is taken as any other, and it cannot lead back to the list.
    have hback := (Follows.refl hunread).takeLines lookup hnested' back
    have hlast := hnested'.takeLines lookup back
    obtain ⟨hproblems, hfresh⟩ := quiet_of_step hback hlast (congrArg problems heq)
      (congrArg fresh heq)
    obtain ⟨hlength, hunread'⟩ := hback.quiet hproblems hfresh
    have hlt := length_lt_of_step hlast hunread' hfirst hsame
      ((congrArg problems heq).trans hproblems.symm) ((congrArg place heq).trans hplace)
    rw [heq] at hlt
    omega
  · intro hall
    rw [TextBlock.left_eq_nil_iff.2 hall]
    rfl

/-! ## Whole texts -/

/-- **The reader behind a text**, all blocks closed. -/
def ofLines (lookup : Lookup) (root : Sequence) (fresh : NodeId) (lines : List String) : Reading :=
  ((start root fresh).takeLines lookup 1 lines).finish lines.length

/-- **Lines behind some others** are read with their numbers, and what is told of them comes behind
what was told before. -/
theorem exists_takeLines (lookup : Lookup) (count : Nat) (hnested : r.IsNested number) (e : Error)
    (lines : List String) (last : Nat) :
    ∃ later : Reading,
      (r.takeLines lookup number lines).finish last =
        (Renumbering.behind r.problems).apply later ∧
      ((r.report e).takeLines lookup (number + count) lines).finish (last + count) =
        (Renumbering.inserting number count (r.problems ++ [e])).apply later := by
  -- Both are the reading of the same lines with no problems yet, numbered in two ways.
  refine ⟨(takeLines lookup number { r with problems := [] } lines).finish last, ?_, ?_⟩
  · have hr : (Renumbering.behind r.problems).apply { r with problems := [] } = r := by
      have hsame : r.openNodes.map (Renumbering.behind r.problems).openNode = r.openNodes :=
        List.map_id _
      rw [Renumbering.apply, hsame, List.map_nil]
      exact congrArg (fun ps => { r with problems := ps }) (List.append_nil r.problems)
    conv_lhs => rw [← hr]
    rw [Renumbering.takeLines _ (fun _ => rfl), Renumbering.finish _ (fun _ => rfl)]
  · have hr : (Renumbering.inserting number count (r.problems ++ [e])).apply
        { r with problems := [] } = r.report e := by
      have hsame : r.openNodes.map
          (Renumbering.inserting number count (r.problems ++ [e])).openNode = r.openNodes := by
        refine (List.map_congr_left fun o ho => ?_).trans (List.map_id _)
        have hline : o.line < number := hnested.lines _ (List.mem_map_of_mem ho)
        rw [Renumbering.openNode, Renumbering.number_inserting, if_neg (by omega)]
        rfl
      rw [Renumbering.apply, hsame, List.map_nil]
      exact congrArg (fun ps => { r with problems := ps }) (List.append_nil (r.problems ++ [e]))
    have hnumber : ∀ i, (Renumbering.inserting number count (r.problems ++ [e])).number (number + i) =
        number + count + i := fun i => by
      rw [Renumbering.number_inserting, if_pos (Nat.le_add_right _ _), Nat.add_right_comm]
    rw [← hr, Renumbering.takeLines _ hnumber, Renumbering.finish _ (fun _ => rfl)]

/-- **A text with a block of an unknown type** is read as the text without the lines that are passed
over: it gives the same nodes and the same problems, with the numbers their lines have now, and one
more for the first line of the block. -/
theorem ofLines_block {root : Sequence} {fresh : NodeId} {before : List String} {b : TextBlock}
    (after : List String)
    (hplace : ((start root fresh).takeLines lookup 1 before).place = .list)
    (hend : sameName word ((start root fresh).takeLines lookup 1 before).level.terminator = false)
    (hunknown : ∀ t, lookup.registry.typeOf word ≠ .ok t) (hblock : b.IsOf word) :
    let earlier := ((start root fresh).takeLines lookup 1 before).problems
    let shorter := ofLines lookup root fresh (before ++ b.left ++ after)
    let longer := ofLines lookup root fresh (before ++ b.lines ++ after)
    longer.root = shorter.root ∧ longer.fresh = shorter.fresh ∧
      ∃ later, shorter.problems = earlier ++ later ∧
        longer.problems = earlier ++
          .onLine (before.length + 1) (.unrecognisedNodeType (NodeType.spelling word)) ::
            later.map (Error.moved (before.length + 1) b.passed.length) := by
  have hnested := (isNested_start root fresh 1).takeLines lookup before
  rw [Nat.add_comm] at hnested
  have hlength := congrArg List.length b.passed_append_left
  rw [List.length_append] at hlength
  generalize hr : (start root fresh).takeLines lookup 1 before = r at *
  dsimp only
  obtain ⟨later, hshorter, hlonger⟩ := exists_takeLines lookup b.passed.length
    hnested (.onLine (before.length + 1) (.unrecognisedNodeType (NodeType.spelling word)))
    (b.left ++ after) (before ++ b.left ++ after).length
  -- Behind the block the two texts have the same lines.
  have hofShorter : ofLines lookup root fresh (before ++ b.left ++ after) =
      (Renumbering.behind r.problems).apply later := by
    rw [ofLines, List.append_assoc, takeLines_append, hr, ← List.append_assoc, Nat.add_comm 1,
      hshorter]
  have hofLonger : ofLines lookup root fresh (before ++ b.lines ++ after) =
      (Renumbering.inserting (before.length + 1) b.passed.length (r.problems ++
        [.onLine (before.length + 1) (.unrecognisedNodeType (NodeType.spelling word))])).apply
          later := by
    have hnumber : 1 + (before ++ b.lines).length =
        before.length + 1 + b.passed.length + b.left.length := by
      rw [List.length_append]
      omega
    have hlast : (before ++ b.lines ++ after).length =
        (before ++ b.left ++ after).length + b.passed.length := by
      simp only [List.length_append]
      omega
    rw [ofLines, takeLines_append, takeLines_append, hr, hnumber, hlast, Nat.add_comm 1,
      takeLines_block hplace hend hunknown hblock, ← takeLines_append]
    exact hlonger
  rw [hofShorter, hofLonger]
  refine ⟨rfl, rfl, later.problems, ?_, ?_⟩
  · exact congrArg (r.problems ++ ·) (List.map_id _)
  · exact List.append_assoc _ _ _

end Reading

end SiteAnalysis
