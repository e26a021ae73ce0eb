import Imprint.Proofs.RecordedRepeats
import Imprint.Proofs.RefusedEdits
import Imprint.Proofs.RunAccounting
import Mathlib.Data.List.Infix

/-! # Overlapping repetitions

A repetition takes its templates out of the document when it is carried out.  One that is anchored at a template of
an earlier one finds its anchor gone, and this ends the commit.  There is no other way for repetitions to overlap,
since the templates that they were recorded with have no gaps. -/
set_option autoImplicit false
namespace Imprint
open Imprint.Action Xml Document Node

/-! ## What lasts -/

/-- What is kept while repetitions are carried out: siblings stay in their order, and of what a handler has been
asked for at most the last repetition is asked for again. -/
structure Lasting (paragraphs : List Nat) (start : World) (machine : Machine World) : Prop
    extends Pursuing start machine where
  ordered : Forest.Ordered start.forest.fresh start.forest machine.outer.forest
  lined : ∀ (place : Nat) (handler now : Handler) (pending current : List PendingRepeat),
    start.handlers[place]? = some handler → machine.outer.handlers[place]? = some now →
    handler.duty = .repeatParagraphs pending → now.duty = .repeatParagraphs current →
    pending.dropLast <+: current ∧
      ∃ passed, Lined start.forest.fresh paragraphs passed machine.outer.forest now.anchor current

namespace Lasting

variable {paragraphs : List Nat} {start : World} {machine after : Machine World}

theorem refl (recorded : Recorded paragraphs paragraphs machine.outer) : Lasting paragraphs machine.outer machine where
  toPursuing := .refl recorded.arranged.wellFormed
  ordered := .refl recorded.arranged.wellFormed
  lined place handler now pending current present found duty isDuty := by
    obtain rfl := Option.some.inj (present.symm.trans found)
    obtain rfl := Duty.repeatParagraphs.inj (duty.symm.trans isDuty)
    obtain ⟨passed, -, lined⟩ := recorded.lined handler (List.mem_of_getElem? present) pending duty
    exact ⟨List.dropLast_prefix pending, passed, lined⟩

section Steps

variable (arranged : Arranged paragraphs start.forest) (lasting : Lasting paragraphs start machine)
include arranged lasting

/-- Steps that leave the template and the handlers alone. -/
theorem step (attached : Forest.Loosened start.forest.fresh machine.outer.forest after.outer.forest)
    (ordered : Forest.Ordered start.forest.fresh machine.outer.forest after.outer.forest)
    (template : after.outer.template = machine.outer.template)
    (handlers : after.outer.handlers = machine.outer.handlers) : Lasting paragraphs start after where
  toPursuing := lasting.toPursuing.step (lasting.attached.trans attached) template handlers
  ordered := lasting.ordered.trans ordered
  lined place handler now pending current present found duty isDuty := by
    obtain ⟨kept, passed, lined⟩ :=
      lasting.lined place handler now pending current present (handlers ▸ found) duty isDuty
    exact ⟨kept, passed, lined.step arranged.lt_fresh ordered (Nat.le_refl _)⟩

/-- Steps that leave the forest alone as well. -/
theorem same (forest : after.outer.forest = machine.outer.forest)
    (template : after.outer.template = machine.outer.template)
    (handlers : after.outer.handlers = machine.outer.handlers) : Lasting paragraphs start after :=
  lasting.step arranged (by rw [forest]; exact .refl lasting.attached.wellFormed)
    (by rw [forest]; exact .refl lasting.attached.wellFormed) template handlers

theorem edit {number : Nat} {node : Node} {change : Node → Node}
    (found : machine.outer.forest.find? number = some node) (head : (change node).head = node.head)
    (revised : Revised (fun _ => True) node.children (change node).children) :
    Lasting paragraphs start { machine with
      outer := { machine.outer with forest := machine.outer.forest.edit number change } } := by
  have wellFormed := lasting.attached.wellFormed
  have edited := wellFormed.edit_edited found head revised trivial
  exact lasting.step arranged (edited.loosened lasting.attached.fresh)
    (wellFormed.edit_ordered found head revised lasting.attached.fresh) rfl rfl

/-- An edit that may be made at any node. -/
theorem revise {number : Nat} {change : Node → Node} (head : ∀ node, (change node).head = node.head)
    (revised : ∀ node, Revised (fun _ => True) node.children (change node).children) :
    Lasting paragraphs start { machine with
      outer := { machine.outer with forest := machine.outer.forest.edit number change } } := by
  cases found : machine.outer.forest.find? number with
  | none =>
    rw [Engine.edit_missing found]
    exact lasting
  | some node => exact lasting.edit arranged found (head node) (revised node)

/-- A handler that has been asked before to repeat the paragraph that it is bound to may be asked again. -/
theorem asked {index : Nat} {handler : Handler} {duty : Duty}
    (present : machine.outer.handlers[index]? = some handler)
    (asks : Asks machine.outer.forest handler.anchor handler.duty duty) :
    Lasting paragraphs start { machine with outer := { machine.outer with
      handlers := machine.outer.handlers.modify index fun other => { other with duty } } } where
  toPursuing := lasting.toPursuing.asked present asks.grows
  ordered := lasting.ordered
  lined place other now pending current there found isAsked isDuty := by
    dsimp only at found
    rw [List.getElem?_modify] at found
    obtain ⟨old, isOld, rfl⟩ := Option.map_eq_some_iff.mp found
    by_cases here : index = place
    · subst here
      obtain rfl := Option.some.inj (isOld.symm.trans present)
      rw [if_pos rfl] at isDuty ⊢
      obtain ⟨interface, anchor, inSession, before⟩ := old
      dsimp only at asks isDuty
      subst isDuty
      cases asks with
      | @repetition paragraph before items isBound =>
        obtain ⟨kept, passed, lined⟩ := lasting.lined index other _ pending before there isOld isAsked rfl
        obtain ⟨front, rfl⟩ := lined.last paragraph isBound
        have inOrder := arranged.step arranged.lt_fresh lasting.ordered
        have stretch := commentRange_stretch inOrder.wellFormed
          (inOrder.tagged paragraph (lined.known.subset (by simp))) (anchor.comment.map (·.id))
        obtain ⟨next, keptAgain⟩ :=
          @Lined.ask _ _ _ _ _ _ ⟨paragraph, items, _⟩ lined arranged.unique isBound stretch
        have longer : pending.length ≤ before.length := by
          obtain ⟨now, found, -, grows⟩ := lasting.duties index other there
          obtain rfl := Option.some.inj (isOld.symm.trans found)
          rw [isAsked] at grows
          obtain ⟨_, isBefore, anchors⟩ := grows.anchors
          cases isBefore
          simpa using anchors.length_le
        have shorter : pending.dropLast <+: before.dropLast :=
          List.prefix_of_prefix_length_le kept (List.dropLast_prefix before) (by simp; omega)
        exact ⟨shorter.trans keptAgain, _, next⟩
    · rw [if_neg here] at isDuty ⊢
      exact lasting.lined place other old pending current there isOld isAsked isDuty

end Steps

end Lasting

namespace Engine

section Frame

variable {paragraphs : List Nat} {start : World} (arranged : Arranged paragraphs start.forest)
include arranged

theorem lasting_proof (index : Nat) : StepProof index (Lasting paragraphs start) where
  free _ _ lasting := lasting.same arranged rfl rfl rfl
  step machine after lasting step := by
    cases step with
    | asked present asks => exact lasting.asked arranged present asks
    | written present duty bound letters =>
      exact lasting.revise arranged (fun _ => rfl) fun node => revised_setRunText node (.refl _) letters
    | blanked present duty bound =>
      exact lasting.revise arranged (fun _ => rfl) fun node => revised_withoutText node
    | told entry => exact lasting.same arranged rfl rfl rfl

theorem lasting_frame (positive : 0 < start.forest.fresh) :
    RepeatFrame start.forest.fresh (fun _ => True) (fun _ => True) (Lasting paragraphs start) where
  free := (lasting_proof arranged 0).free
  called index := (lasting_proof arranged index).callDirective_keeps fun _ _ lasting =>
    lasting.same arranged rfl rfl rfl
  reports _ _ lasting reports := lasting.same arranged reports.forest reports.template reports.handlers
  fresh _ lasting := lasting.attached.fresh
  asked _ _ _ _ := ⟨fun _ => trivial, fun _ _ => trivial⟩
  planted tree machine lasting := by
    have fresh := lasting.attached.fresh
    obtain ⟨copy, after, plants, planted⟩ :=
      lasting.attached.wellFormed.plant (Nat.lt_of_lt_of_le positive fresh) tree
    rw [runOn_plantTree plants]
    have edited := planted.edited fun _ => False
    exact lasting.step arranged (edited.loosened fresh) (edited.ordered fresh) rfl rfl
  edits copy _ machine node changed lasting found revised := by
    have outcome := revised (fun _ => True) fun _ _ _ => trivial
    exact lasting.edit arranged found outcome.head outcome.revised
  moved copy anchor new _ machine lasting := lasting.step arranged
    (lasting.attached.wellFormed.moveBefore_loosened new anchor)
    (lasting.attached.wellFormed.moveBefore_ordered new anchor) rfl rfl
  detached number _ machine lasting := lasting.step arranged
    (lasting.attached.wellFormed.detach_loosened number) (lasting.attached.wellFormed.detach_ordered number) rfl rfl
  marked _ _ lasting := lasting.same arranged rfl rfl rfl
  thrownAway verbose _ :=
    inThrowawaySession_keeps (fun _ _ lasting => lasting.same arranged rfl rfl rfl) verbose
  valued _ _ _ _ lasting := lasting.same arranged rfl rfl rfl
  repeated _ _ _ _ _ _ _ _ _ lasting := lasting.same arranged rfl rfl rfl

end Frame

/-! ## Repetitions in their turns -/

/-- A handler that is to carry out the repetitions that a walk has recorded. -/
structure Begins (paragraphs : List Nat) (place : Nat) (handler : Handler) (pending : List PendingRepeat)
    (machine : Machine World) : Prop where
  recorded : Recorded paragraphs paragraphs machine.outer
  positive : 0 < machine.outer.forest.fresh
  unique : (machine.outer.handlers.map (·.interface.name)).Nodup
  present : machine.outer.handlers[place]? = some handler
  duty : handler.duty = .repeatParagraphs pending

/-- How a commit ends at a position or before it: another turn fails, or the one of this position finds that
repetitions have been asked for in the meantime, or that its anchor was removed. -/
inductive Interrupted (settings : RepeatSettings) (handler : Handler) (size position : Nat)
    (machine : Machine World) : Fault → Prop where
  | before {turn : Nat} {middle : Machine World} {fault : Fault} (early : turn < position)
      (runs : runOn (commitTurns settings handler size turn) machine = (.ok (), middle))
      (fails : (runOn (commitPosition settings handler size turn) middle).1 = .error fault) :
      Interrupted settings handler size position machine fault
  | changed {middle : Machine World}
      (runs : runOn (commitTurns settings handler size position) machine = (.ok (), middle))
      (fails : runOn (commitPosition settings handler size position) middle = (.error pendingChanged, middle)) :
      Interrupted settings handler size position machine pendingChanged
  | removed {middle : Machine World}
      (runs : runOn (commitTurns settings handler size position) machine = (.ok (), middle))
      (fails : runOn (commitPosition settings handler size position) middle = (.error anchorRemoved, middle)) :
      Interrupted settings handler size position machine anchorRemoved

theorem Interrupted.fails {settings : RepeatSettings} {handler : Handler} {size position count : Nat}
    {machine : Machine World} {fault : Fault} (interrupted : Interrupted settings handler size position machine fault)
    (early : position < count) : (runOn (commitTurns settings handler size count) machine).1 = .error fault := by
  cases interrupted with
  | before earlier runs fails =>
    rw [commitTurns_fails (Nat.lt_trans earlier early) runs (Prod.ext fails rfl)]
  | changed runs fails => rw [commitTurns_fails early runs fails]
  | removed runs fails => rw [commitTurns_fails early runs fails]

/-- What the first turns of a commit have carried out: the repetitions that were asked for, up to the last one as they
were recorded, none of them with a template of another one, and all templates have been taken out. -/
structure Carried (settings : RepeatSettings) (handler : Handler) (pending : List PendingRepeat)
    (machine after : Machine World) (count : Nat) (carried : List PendingRepeat) : Prop where
  anchors : carried.map PendingRepeat.anchor = (pending.take count).map PendingRepeat.anchor
  recorded : pending.dropLast.take count <+: carried
  apart : carried.Pairwise fun earlier later => earlier.templates.Disjoint later.templates
  taken : ∀ repetition ∈ carried, ∀ template ∈ repetition.templates, after.outer.forest.parent? template = none
  turns : ∀ turn repetition, carried[turn]? = some repetition → ∃ middle,
    runOn (commitTurns settings handler pending.length turn) machine = (.ok (), middle) ∧
      runOn (commitPosition settings handler pending.length turn) middle =
        runOn (commitRepeat settings handler repetition) middle

section Places

variable {α : Type} {items : List α} {item : α} {place count : Nat}

theorem mem_take_of_getElem? (early : place < count) (there : items[place]? = some item) : item ∈ items.take count := by
  refine List.mem_of_getElem? (i := place) ?_
  rw [List.getElem?_take_of_lt early, there]

theorem mem_drop_of_getElem? (there : items[place]? = some item) : item ∈ items.drop place := by
  refine List.mem_of_getElem? (i := 0) ?_
  rw [List.getElem?_drop]
  exact there

theorem take_dropLast (early : count < items.length) : items.dropLast.take count = items.take count := by
  rw [List.dropLast_eq_take, List.take_take, Nat.min_eq_left (by omega)]

theorem take_succ_of_getElem? (there : items[place]? = some item) :
    items.take (place + 1) = items.take place ++ [item] := by
  rw [List.take_add_one, there]
  rfl

/-- What is further in front comes first. -/
theorem pair_of_getElem? {other : α} {later : Nat} (before : place < later) (there : items[place]? = some item)
    (thereToo : items[later]? = some other) : [item, other].Sublist items := by
  have split : items.take later ++ items.drop later = items := List.take_append_drop later items
  have order : [item, other].Sublist (items.take later ++ items.drop later) :=
    (List.singleton_sublist.mpr (mem_take_of_getElem? before there)).append
      (List.singleton_sublist.mpr (mem_drop_of_getElem? thereToo))
  rwa [split] at order

end Places

namespace Carried

variable {settings : RepeatSettings} {handler : Handler} {pending carried : List PendingRepeat}
  {machine middle after : Machine World} {count : Nat}
  (before : Carried settings handler pending machine middle count carried)
include before

/-- Before the last turn everything has been carried out as it was recorded. -/
theorem eq_take (early : count < pending.length) : carried = pending.take count := by
  have sameLength : carried.length = (pending.take count).length := by
    simpa using congrArg List.length before.anchors
  have all : pending.take count <+: carried := take_dropLast early ▸ before.recorded
  exact (all.eq_of_length sameLength.symm).symm

/-- After the last turn nothing is carried out any more. -/
theorem idle (done : pending.length ≤ count) : Carried settings handler pending machine middle (count + 1) carried := by
  refine { before with anchors := ?_, recorded := ?_ }
  · rw [before.anchors, List.take_of_length_le done, List.take_of_length_le (by omega)]
  · have all := before.recorded
    have short : pending.dropLast.length ≤ count := by
      rw [List.length_dropLast]
      omega
    rw [List.take_of_length_le short] at all
    rwa [List.take_of_length_le (Nat.le_succ_of_le short)]

/-- One more repetition is carried out in its turn. -/
theorem add {asked repetition : PendingRepeat} (there : pending[count]? = some asked)
    (sameAnchor : repetition.anchor = asked.anchor) (asRecorded : count + 1 < pending.length → repetition = asked)
    (apart : ∀ earlier ∈ carried, earlier.templates.Disjoint repetition.templates)
    (taken : ∀ earlier ∈ carried ++ [repetition], ∀ template ∈ earlier.templates,
      after.outer.forest.parent? template = none)
    (runs : runOn (commitTurns settings handler pending.length count) machine = (.ok (), middle))
    (run : runOn (commitPosition settings handler pending.length count) middle =
      runOn (commitRepeat settings handler repetition) middle) :
    Carried settings handler pending machine after (count + 1) (carried ++ [repetition]) := by
  have early : count < pending.length := (List.getElem?_eq_some_iff.mp there).1
  refine ⟨?_, ?_, ?_, taken, ?_⟩
  · rw [List.map_append, before.anchors, take_succ_of_getElem? there, List.map_append, List.map_singleton,
      List.map_singleton, sameAnchor]
  · rw [before.eq_take early]
    by_cases last : count + 1 < pending.length
    · rw [take_dropLast last, take_succ_of_getElem? there, asRecorded last]
    · have all : pending.dropLast <+: pending.take count := by
        rw [List.dropLast_eq_take]
        exact (List.take_isPrefix_take).mpr (.inl (by omega))
      exact ((List.take_prefix _ _).trans all).trans (List.prefix_append _ _)
  · refine List.pairwise_append.mpr ⟨before.apart, List.pairwise_singleton _ _, fun earlier member later isLater => ?_⟩
    rw [List.mem_singleton.mp isLater]
    exact apart earlier member
  · intro turn other found
    rcases Nat.lt_trichotomy turn carried.length with inside | here | outside
    · rw [List.getElem?_append_left inside] at found
      exact before.turns turn other found
    · rw [here, List.getElem?_concat_length] at found
      cases found
      have isCount : turn = count := by
        rw [here, before.eq_take early, List.length_take]
        omega
      exact ⟨middle, isCount ▸ runs, isCount ▸ run⟩
    · rw [List.getElem?_eq_none (by rw [List.length_append, List.length_singleton]; omega)] at found
      cases found

end Carried

namespace Begins

variable {paragraphs : List Nat} {place position count : Nat} {handler : Handler} {pending : List PendingRepeat}
  {machine middle after : Machine World} {settings : RepeatSettings}
  (begins : Begins paragraphs place handler pending machine)
include begins

theorem lasting (settings : RepeatSettings) (count : Nat) :
    Lasting paragraphs machine.outer (runOn (commitTurns settings handler pending.length count) machine).2 :=
  Keeps.forM (fun position _ => (lasting_frame begins.recorded.arranged begins.positive).commitPosition_keeps
    settings trivial _ position) machine (.refl begins.recorded)

/-- In its turn a repetition is carried out as it is asked for by then, unless others have been asked for. -/
theorem turn (lasting : Lasting paragraphs machine.outer middle) {asked : PendingRepeat}
    (there : pending[position]? = some asked) :
    runOn (commitPosition settings handler pending.length position) middle = (.error pendingChanged, middle) ∨
      ∃ repetition, repetition.anchor = asked.anchor ∧ (position + 1 < pending.length → repetition = asked) ∧
        (∀ earlier ∈ pending.dropLast.take position, earlier.Clear repetition) ∧
        runOn (commitPosition settings handler pending.length position) middle =
          runOn (commitRepeat settings handler repetition) middle := by
  obtain ⟨now, current, found, isDuty, anchors, isAsked⟩ :=
    askedFor_now lasting.toPursuing begins.unique begins.present begins.duty
  obtain ⟨kept, passed, lined⟩ :=
    lasting.lined place handler now pending current begins.present found begins.duty isDuty
  -- Only the last repetition can have been asked for again, so in all turns but the last it is the recorded one.
  by_cases grown : current.length = pending.length
  · obtain ⟨repetition, isNow, sameAnchor⟩ := same_anchor anchors there
    have run := @runOn_commitPosition settings handler middle current isAsked position
    rw [isNow, grown] at run
    refine .inr ⟨repetition, sameAnchor, fun early => ?_, fun earlier member => ?_, run⟩
    · have asBefore : current[position]? = pending.dropLast[position]? := by
        obtain ⟨rest, rfl⟩ := kept
        exact List.getElem?_append_left (by rw [List.length_dropLast]; omega)
      rw [List.getElem?_dropLast, if_pos (by omega), isNow, there] at asBefore
      exact Option.some.inj asBefore
    · have split : current.take position ++ current.drop position = current := List.take_append_drop position current
      have before : earlier ∈ current.take position := (kept.take position).subset member
      have clear := lined.clear
      rw [← split] at clear
      exact (List.pairwise_append.mp clear).2.2 earlier before repetition (mem_drop_of_getElem? isNow)
  · exact .inl (runOn_commitPosition_changed isAsked grown position)

/-- After the last turn nothing is carried out any more. -/
theorem idle_turn (lasting : Lasting paragraphs machine.outer middle) (done : pending.length ≤ position)
    (run : runOn (commitPosition settings handler pending.length position) middle = (.ok (), after)) :
    after = middle := by
  obtain ⟨now, current, -, -, -, isAsked⟩ :=
    askedFor_now lasting.toPursuing begins.unique begins.present begins.duty
  by_cases grown : current.length = pending.length
  · rw [← grown, runOn_commitPosition isAsked, List.getElem?_eq_none (by omega)] at run
    cases run
    rfl
  · rw [runOn_commitPosition_changed isAsked grown] at run
    cases run

/-- A turn that goes well adds to what has been carried out. -/
theorem next {carried : List PendingRepeat} (lasting : Lasting paragraphs machine.outer middle)
    (before : Carried settings handler pending machine middle count carried)
    (runs : runOn (commitTurns settings handler pending.length count) machine = (.ok (), middle))
    (run : runOn (commitPosition settings handler pending.length count) middle = (.ok (), after)) :
    ∃ more, Carried settings handler pending machine after (count + 1) more := by
  cases there : pending[count]? with
  | none =>
    have done : pending.length ≤ count := List.getElem?_eq_none_iff.mp there
    obtain rfl := begins.idle_turn lasting done run
    exact ⟨carried, before.idle done⟩
  | some asked =>
    have isCarried := before.eq_take (List.getElem?_eq_some_iff.mp there).1
    have wellFormed := lasting.attached.wellFormed
    have fresh := lasting.attached.fresh
    rcases begins.turn lasting there with changed | ⟨repetition, sameAnchor, asRecorded, clear, isRun⟩
    · rw [changed] at run
      cases run
    have carries : runOn (commitRepeat settings handler repetition) middle = (.ok (), after) := isRun ▸ run
    have positive : 0 < middle.outer.forest.fresh := Nat.lt_of_lt_of_le begins.positive fresh
    refine ⟨_, before.add there sameAnchor asRecorded (fun earlier member => ?_) (fun other member template among => ?_)
      runs isRun⟩
    · -- If its anchor were a template of an earlier one, it would be gone, and the turn would not go well.
      refine (clear earlier ?_).resolve_left fun overlap => ?_
      · rwa [take_dropLast (List.getElem?_eq_some_iff.mp there).1, ← isCarried]
      · rw [commitRepeat_apart (before.taken earlier member _ overlap)] at carries
        cases carries
    · rcases List.mem_append.mp member with earlier | isLast
      · have pursuing : Pursuing middle.outer
            (runOn (commitPosition settings handler pending.length count) middle).2 :=
          (pursuing_frame positive).commitPosition_keeps settings trivial _ _ middle (.refl wellFormed)
        rw [run] at pursuing
        have isPending : other ∈ pending := List.mem_of_mem_take (isCarried ▸ earlier)
        have inLine := begins.recorded.inLine handler (List.mem_of_getElem? begins.present) pending begins.duty other
          isPending
        exact pursuing.attached.apart (Nat.lt_of_lt_of_le (inLine.old template among) fresh)
          (before.taken other earlier template among)
      · obtain rfl := List.mem_singleton.mp isLast
        exact commitRepeat_takes wellFormed positive settings handler carries among

/-- What a commit that gets past some turns has carried out. -/
theorem carried (run : runOn (commitTurns settings handler pending.length count) machine = (.ok (), after)) :
    ∃ carried, Carried settings handler pending machine after count carried := by
  induction count generalizing after with
  | zero =>
    refine ⟨[], rfl, List.nil_prefix, .nil, ?_, ?_⟩
    · simp
    · simp
  | succ count hypothesis =>
    rw [commitTurns_succ] at run
    obtain ⟨_, middle, runs, run⟩ := bind_ok run
    obtain ⟨carried, before⟩ := hypothesis runs
    have lasting := begins.lasting settings count
    rw [runs] at lasting
    exact begins.next lasting before runs run

/-- A repetition is anchored behind one that has its anchor as a template. -/
theorem behind {first second : PendingRepeat} {front back : Nat} (isFirst : pending[front]? = some first)
    (isSecond : pending[back]? = some second) (different : first.anchor ≠ second.anchor)
    (overlap : second.anchor ∈ first.templates) : front < back := by
  have member := List.mem_of_getElem? begins.present
  obtain ⟨passed, among, lined⟩ := begins.recorded.lined handler member pending begins.duty
  have inOrder := lined.anchors.trans lined.known.sublist
  have anchor {place : Nat} {repetition : PendingRepeat} (there : pending[place]? = some repetition) :
      (pending.map PendingRepeat.anchor)[place]? = some repetition.anchor := by
    rw [List.getElem?_map, there]
    rfl
  have isParagraph := inOrder.subset (List.mem_of_getElem? (anchor isSecond))
  have inLine := begins.recorded.inLine handler member pending begins.duty first (List.mem_of_getElem? isFirst)
  have order := (inLine.behind second.anchor overlap isParagraph).resolve_left (Ne.symm different)
  rcases Nat.lt_trichotomy front back with before | rfl | after
  · exact before
  · cases isFirst.symm.trans isSecond
    exact absurd rfl different
  · exact absurd ((pair_of_getElem? after (anchor isSecond) (anchor isFirst)).trans inOrder)
      (not_swapped begins.recorded.arranged.unique order)

/-- No commit gets past a repetition that is anchored at a template of another one. -/
theorem overlap (settings : RepeatSettings) {first second : PendingRepeat} (isFirst : first ∈ pending)
    (isSecond : second ∈ pending) (different : first.anchor ≠ second.anchor)
    (overlap : second.anchor ∈ first.templates) :
    ∃ position fault, pending[position]? = some second ∧
      Interrupted settings handler pending.length position machine fault := by
  obtain ⟨before, there⟩ := List.mem_iff_getElem?.mp isFirst
  obtain ⟨position, thereToo⟩ := List.mem_iff_getElem?.mp isSecond
  have early := begins.behind there thereToo different overlap
  have bound := (List.getElem?_eq_some_iff.mp thereToo).1
  refine ⟨position, ?_⟩
  rcases commitTurns_either settings handler pending.length machine position with
    ⟨middle, runs⟩ | ⟨turn, earlier, middle, fault, runs, fails⟩
  · obtain ⟨carried, isCarried⟩ := begins.carried runs
    have lasting := begins.lasting settings position
    rw [runs] at lasting
    rcases begins.turn lasting thereToo with changed | ⟨repetition, sameAnchor, -, -, run⟩
    · exact ⟨pendingChanged, thereToo, .changed runs changed⟩
    · have done : first ∈ carried := isCarried.eq_take bound ▸ mem_take_of_getElem? early there
      have apart : middle.outer.forest.parent? repetition.anchor = none :=
        sameAnchor ▸ isCarried.taken first done second.anchor overlap
      rw [commitRepeat_apart apart] at run
      exact ⟨anchorRemoved, thereToo, .removed runs run⟩
  · exact ⟨fault, thereToo, .before earlier runs fails⟩

end Begins

/-! ## Stamping -/

/-- The part of a stamping run in front of the first commit. -/
def prepareAndWalk (stamper : Stamper) (data : Value) : Engine Unit := do
  prepare stamper
  walkThrough stamper.dispatcher (stamper.functions.copy data)

/-- What is told before a handler carries out what it was asked for. -/
def beginCommit (dispatcher : Dispatcher) (place : Nat) (handler : Handler) : Engine Unit := do
  if dispatcher.verbose then say ("  [Commit] " ++ handler.interface.name).toList
  note (.committed place)

theorem runOn_commitAt {dispatcher : Dispatcher} {place : Nat} {handler : Handler} {pending : List PendingRepeat}
    {machine : Machine World} (present : machine.outer.handlers[place]? = some handler)
    (duty : handler.duty = .repeatParagraphs pending) : runOn (commitAt dispatcher place) machine =
      runOn (commitTurns dispatcher.settings handler pending.length (pending.length + 1))
        (runOn (beginCommit dispatcher place handler) machine).2 := by
  unfold commitAt beginCommit
  rw [runOn_bind, runOn_world]
  dsimp only
  rw [present, ← commitHandler_turns duty]
  cases dispatcher.verbose with
  | true => rfl
  | false => rfl

/-- What a walk has recorded when it has begun with handlers that have been asked for nothing. -/
theorem joinSession_recorded {dispatcher : Dispatcher} {builder : ProxyBuilder} {machine walked : Machine World}
    (opened : Opened machine.outer.template machine.outer.forest)
    (idle : ∀ handler ∈ machine.outer.handlers, handler.anchor.paragraph = none ∧ handler.duty.keys = [])
    (walks : runOn (evaluateDirectives dispatcher builder) { machine with outer := machine.outer.joined } =
      (.ok (), walked)) :
    0 < walked.outer.forest.fresh ∧ ∃ paragraphs, Recorded paragraphs paragraphs walked.outer := by
  have openedJoined : Opened machine.outer.joined.template machine.outer.joined.forest := opened
  have idleJoined : ∀ handler ∈ machine.outer.joined.handlers,
      handler.anchor.paragraph = none ∧ handler.duty.keys = [] := by
    intro handler member
    obtain ⟨old, isOld, rfl⟩ := World.mem_joined member
    rw [old.joined_anchor, old.joined_duty]
    exact idle old isOld
  have walking := @evaluateDirectives_walking dispatcher builder { machine with outer := machine.outer.joined }
    openedJoined.wellFormed
  rw [walks] at walking
  exact ⟨Nat.lt_of_lt_of_le openedJoined.positive walking.edited.fresh, _,
    @evaluateDirectives_recorded _ _ { machine with outer := machine.outer.joined } _ openedJoined idleJoined walks⟩

section Stamp

variable {package : Package} {additional : Expression.Scope} {store : Store} {stamper : Stamper} {data : Value}
  {start walked : Machine World}

/-- How a stamping run comes to its first commit: the comments have been read, handlers have joined the session, and
the directives of the document have been evaluated. -/
theorem prepareAndWalk_ok (opened : Opened start.outer.template start.outer.forest)
    (walks : runOn (prepareAndWalk stamper data) start = (.ok (), walked)) : ∃ read store part,
      runOn (prepare stamper) start = (.ok (), { start with outer := read }) ∧
      Loaded { start.outer with session := Session.start stamper.verbose } read ∧
      Opened read.template read.forest ∧ read.session.comments = some store ∧ Reads read store part ∧
      runOn (evaluateDirectives stamper.dispatcher (stamper.functions.copy data))
        { start with outer := read.joined } = (.ok (), walked) := by
  obtain ⟨read, store, part, prepares, isLoaded, openedRead, -, held, reads, -⟩ := prepare_reads stamper opened
  have loads : runOn loadComments { start with outer := read } = (.ok (), { start with outer := read }) :=
    loadComments_again held
  unfold prepareAndWalk at walks
  rw [runOn_bind, prepares] at walks
  dsimp only at walks
  rw [runOn_walkThrough stamper.dispatcher (stamper.functions.copy data) loads] at walks
  exact ⟨read, store, part, prepares, isLoaded, openedRead, held, reads, walks⟩

/-- The handler of repetitions stays the first of the standard ones. -/
theorem standard_repetition {roots : List Nat} {world : World} (built : Built Handler.standard additional roots world) :
    (world.handlers.map (·.interface.name)).Nodup ∧ ∃ handler pending,
      world.handlers[0]? = some handler ∧ handler.duty = .repeatParagraphs pending := by
  have names : world.handlers.map (·.interface.name) = Handler.standard.map (·.interface.name) := by
    rw [← built.handlers, List.map_map]
    rfl
  have first : (world.handlers[0]?).map forgetful = some Handler.repetition := by
    rw [← List.getElem?_map, built.handlers]
    rfl
  obtain ⟨handler, present, forgotten⟩ := Option.map_eq_some_iff.mp first
  refine ⟨by rw [names]; decide, handler, ?_⟩
  have duty := congrArg Handler.duty forgotten
  cases isDuty : handler.duty with
  | repeatParagraphs pending => exact ⟨pending, present, rfl⟩
  | _ =>
    simp only [forgetful, isDuty] at duty
    cases duty

/-- When all directives have been evaluated, the handler of repetitions is the first one to commit. -/
theorem prepareAndWalk_begins (isStart : start = ⟨store, World.ofPackage package Handler.standard additional⟩)
    (walks : runOn (prepareAndWalk stamper data) start = (.ok (), walked)) :
    ∃ paragraphs handler pending, walked.outer.handlers[0]? = some handler ∧
      Begins paragraphs 0 handler pending (runOn (beginCommit stamper.dispatcher 0 handler) walked).2 := by
  have opened : Opened start.outer.template start.outer.forest :=
    isStart ▸ World.ofPackage_opened package Handler.standard additional
  have built : Built Handler.standard additional start.outer.template.roots start.outer := by
    subst isStart
    exact ⟨rfl, rfl, .fresh, rfl⟩
  have keeps : Keeps (fun machine => Built Handler.standard additional start.outer.template.roots machine.outer)
      (prepareAndWalk stamper data) := Keeps.bind (prepare_built stamper) fun _ => walkThrough_built
  have builtWalked := keeps start built
  rw [walks] at builtWalked
  obtain ⟨read, comments, part, -, isLoaded, openedRead, -, -, walks⟩ := prepareAndWalk_ok opened walks
  have idle : ∀ handler ∈ read.handlers, handler.anchor.paragraph = none ∧ handler.duty.keys = [] := by
    have standard : read.handlers = Handler.standard := isLoaded.handlers.trans (isStart ▸ rfl)
    rw [standard]
    decide
  obtain ⟨positive, paragraphs, recorded⟩ := @joinSession_recorded _ _ { start with outer := read } _ openedRead idle walks
  obtain ⟨unique, handler, pending, present, duty⟩ := standard_repetition builtWalked
  obtain ⟨sameForest, sameHandlers⟩ : (runOn (beginCommit stamper.dispatcher 0 handler) walked).2.outer.forest =
      walked.outer.forest ∧ (runOn (beginCommit stamper.dispatcher 0 handler) walked).2.outer.handlers =
      walked.outer.handlers := by
    unfold beginCommit
    cases stamper.dispatcher.verbose with
    | true => exact ⟨rfl, rfl⟩
    | false => exact ⟨rfl, rfl⟩
  exact ⟨paragraphs, handler, pending, present, recorded.same sameForest sameHandlers, sameForest ▸ positive,
    sameHandlers ▸ unique, sameHandlers ▸ present, duty⟩

/-- A fault of the first commit ends the run. -/
theorem stamp_fails {fault : Fault} (walks : runOn (prepareAndWalk stamper data) start = (.ok (), walked))
    (many : 0 < walked.outer.handlers.length)
    (fails : (runOn (commitAt stamper.dispatcher 0) walked).1 = .error fault) :
    (runOn (stamp stamper data) start).1 = .error fault := by
  obtain ⟨_, prepared, prepares, walks⟩ := bind_ok walks
  have commits : (runOn (commitHandlers stamper.dispatcher) walked).1 = .error fault := by
    unfold commitHandlers
    rw [runOn_bind, runOn_world]
    obtain ⟨count, isCount⟩ := Nat.exists_eq_succ_of_ne_zero (Nat.pos_iff_ne_zero.mp many)
    dsimp only
    rw [isCount, List.range_succ_eq_map]
    exact bind_error fails
  have directs : (runOn (runDirectives stamper.dispatcher (stamper.functions.copy data)) prepared).1 =
      .error fault := by
    rw [runDirectives_eq, runOn_bind, walks]
    exact bind_error commits
  have fills : (runOn (fill stamper data) prepared).1 = .error fault := bind_error directs
  rw [stamp_eq_resetting, runOn_bind, prepares]
  obtain ⟨journal, resets⟩ := runOn_resetting (runOn_ends fills)
  exact congrArg Prod.fst resets

/-- How the repetitions of a handler that is to commit are kept apart.  The commit takes one turn after the other.  If
one repetition is anchored at a template of another one, the commit ends when the turn of it comes, or before.  As far
as it gets, what it carries out has no templates in common. -/
structure KeepsApart (dispatcher : Dispatcher) (place : Nat) (handler : Handler) (pending : List PendingRepeat)
    (walked : Machine World) : Prop where
  present : walked.outer.handlers[place]? = some handler
  duty : handler.duty = .repeatParagraphs pending
  turns : runOn (commitAt dispatcher place) walked =
    runOn (commitTurns dispatcher.settings handler pending.length (pending.length + 1))
      (runOn (beginCommit dispatcher place handler) walked).2
  overlap : ∀ first ∈ pending, ∀ second ∈ pending, first.anchor ≠ second.anchor → second.anchor ∈ first.templates →
    ∃ position fault, pending[position]? = some second ∧
      Interrupted dispatcher.settings handler pending.length position
        (runOn (beginCommit dispatcher place handler) walked).2 fault ∧
      (runOn (commitAt dispatcher place) walked).1 = .error fault
  carried : ∀ count after, runOn (commitTurns dispatcher.settings handler pending.length count)
      (runOn (beginCommit dispatcher place handler) walked).2 = (.ok (), after) →
    ∃ carried, Carried dispatcher.settings handler pending
      (runOn (beginCommit dispatcher place handler) walked).2 after count carried

theorem Begins.keepsApart {dispatcher : Dispatcher} {paragraphs : List Nat} {place : Nat} {handler : Handler}
    {pending : List PendingRepeat} (present : walked.outer.handlers[place]? = some handler)
    (begins : Begins paragraphs place handler pending (runOn (beginCommit dispatcher place handler) walked).2) :
    KeepsApart dispatcher place handler pending walked where
  present := present
  duty := begins.duty
  turns := runOn_commitAt present begins.duty
  overlap first isFirst second isSecond different overlap := by
    obtain ⟨position, fault, there, interrupted⟩ :=
      begins.overlap dispatcher.settings isFirst isSecond different overlap
    refine ⟨position, fault, there, interrupted, ?_⟩
    rw [runOn_commitAt present begins.duty]
    exact interrupted.fails (Nat.lt_succ_of_lt (List.getElem?_eq_some_iff.mp there).1)
  carried _ _ run := begins.carried run

/-- Repetitions are kept apart in every stamping run that comes to its commits, and it does not go on when they
cannot be. -/
theorem stamp_keeps_repetitions_apart (isStart : start = ⟨store, World.ofPackage package Handler.standard additional⟩)
    (walks : runOn (prepareAndWalk stamper data) start = (.ok (), walked)) :
    ∃ handler pending, KeepsApart stamper.dispatcher 0 handler pending walked ∧
      ∀ fault, (runOn (commitAt stamper.dispatcher 0) walked).1 = .error fault →
        (runOn (stamp stamper data) start).1 = .error fault := by
  obtain ⟨paragraphs, handler, pending, present, begins⟩ := prepareAndWalk_begins isStart walks
  refine ⟨handler, pending, begins.keepsApart present, fun fault fails => stamp_fails walks ?_ fails⟩
  exact (List.getElem?_eq_some_iff.mp present).1

end Stamp

/-- A comment on two paragraphs asks for a repetition, and so does the second of them itself. -/
def nested : Package :=
  ⟨Node.ofTag Tag.body [Node.ofTag Tag.paragraph [ofComment Tag.rangeStart [], createRun "a".toList none],
      Node.ofTag Tag.paragraph [createRun "#\x7brepeat_paragraph([1])\x7d".toList none, ofComment Tag.rangeEnd [],
        Node.ofTag Tag.run [ofComment Tag.reference []]]], [], [],
    some (Node.ofTag Tag.comments [ofComment Tag.comment [createParagraph ["repeat_paragraph([1])".toList]]]), false⟩

/-- Whether one of some repetitions is anchored at a template of another one. -/
def overlapping (handler : Handler) : Bool :=
  match handler.duty with
  | .repeatParagraphs pending => pending.any fun first => pending.any fun second =>
      first.anchor != second.anchor && first.templates.contains second.anchor
  | _ => false

def nestedStart : Machine World := ⟨⟨#[], 0⟩, World.ofPackage nested Handler.standard []⟩

theorem nestedStart_eq : nestedStart = ⟨⟨#[], 0⟩, World.ofPackage nested Handler.standard []⟩ := rfl

theorem stamp_keeps_repetitions_apart_nested : ∃ walked,
    runOn (prepareAndWalk .plain .null) nestedStart = (.ok (), walked) ∧
    (runOn (stamp .plain .null) nestedStart).1 = .error anchorRemoved ∧
    ∃ handler pending position fault,
      Interrupted plain.settings handler pending position (runOn (beginCommit plain 0 handler) walked).2 fault := by
  have stamps : (runOn (stamp .plain .null) nestedStart).1 = .error anchorRemoved := by decide +kernel
  obtain ⟨walked, walks, overlaps⟩ : ∃ walked, runOn (prepareAndWalk .plain .null) nestedStart = (.ok (), walked) ∧
      (walked.outer.handlers[0]?).any overlapping = true :=
    ⟨(runOn (prepareAndWalk .plain .null) nestedStart).2, runOn_ends (by decide +kernel), by decide +kernel⟩
  refine ⟨walked, walks, stamps, ?_⟩
  obtain ⟨handler, pending, apart, -⟩ := stamp_keeps_repetitions_apart nestedStart_eq walks
  rw [apart.present, Option.any_some, overlapping, apart.duty] at overlaps
  obtain ⟨first, isFirst, overlapsFirst⟩ := List.any_eq_true.mp overlaps
  obtain ⟨second, isSecond, both⟩ := List.any_eq_true.mp overlapsFirst
  obtain ⟨different, among⟩ := Bool.and_eq_true_iff.mp both
  obtain ⟨position, fault, -, interrupted, -⟩ := apart.overlap first isFirst second isSecond
    (bne_iff_ne.mp different) (List.contains_iff_mem.mp among)
  exact ⟨handler, _, position, fault, interrupted⟩

end Engine

end Imprint
