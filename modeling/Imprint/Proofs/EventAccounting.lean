import Imprint.Proofs.Repetition
import Imprint.Proofs.SparingSteps
/-! # What a run accounts for

What becomes of the nodes of a document is accounted for by what has happened.  Only paragraphs that
directives were called for, in which a directive was evaluated, or whose values were replaced are rewritten;
only those that were repeated, or that directives were called for, are taken out, besides rows and tables. -/
set_option autoImplicit false
namespace Imprint
open Imprint.Action Xml Document Node

/-! ## Copies are paragraphs -/

/-- All nodes of a forest are still there. -/
structure Retained (forest : Forest) (machine : Machine World) : Prop where
  positive : 0 < machine.outer.forest.fresh
  sparing : Forest.Sparing 0 (fun _ => True) (fun _ => True) forest machine.outer.forest

namespace Retained

variable {forest : Forest} {machine : Machine World}

theorem refl (wellFormed : machine.outer.forest.WellFormed) (positive : 0 < machine.outer.forest.fresh) :
    Retained machine.outer.forest machine := ⟨positive, .refl wellFormed⟩

theorem edit {touched : Nat → Prop} (retained : Retained forest machine) {after : Forest}
    (edited : Forest.Edited touched machine.outer.forest after) :
    Retained forest { machine with outer := { machine.outer with forest := after } } :=
  ⟨Nat.lt_of_lt_of_le retained.positive edited.fresh,
    retained.sparing.trans (edited.sparing (Nat.zero_le _) fun _ _ _ => trivial)⟩

theorem tagged {tag : Tag} {number : Nat} (retained : Retained forest machine)
    (isTagged : forest.Tagged tag number) : machine.outer.forest.Tagged tag number :=
  retained.sparing.tagged isTagged

end Retained

namespace Engine

section Retained

variable {forest : Forest} {machine final : Machine World}

/-- Copying keeps all nodes. -/
theorem retained_frame (forest : Forest) : CopyFrame 0 (Retained forest) where
  free _ _ retained := ⟨retained.positive, retained.sparing⟩
  called index := by
    have edits {machine : Machine World} (retained : Retained forest machine) {number : Nat} {change : Node → Node}
        (head : ∀ node, (change node).head = node.head)
        (revised : ∀ node, Revised (fun _ => True) node.children (change node).children) :
        Retained forest { machine with outer := { machine.outer with
          forest := machine.outer.forest.edit number change } } := by
      cases found : machine.outer.forest.find? number with
      | none => rwa [edit_missing found]
      | some node => exact retained.edit (retained.sparing.wellFormed.edit_edited found (head node) (revised node) trivial)
    have proof : StepProof index (Retained forest) := ⟨fun _ _ retained => ⟨retained.positive, retained.sparing⟩,
      fun machine after retained step => by
      cases step with
      | asked => exact ⟨retained.positive, retained.sparing⟩
      | written present duty bound letters =>
        exact edits retained (fun _ => rfl) fun node => revised_setRunText node (.refl _) letters
      | blanked => exact edits retained (fun _ => rfl) fun node => revised_withoutText node
      | told => exact ⟨retained.positive, retained.sparing⟩⟩
    exact proof.callDirective_keeps fun _ _ retained => ⟨retained.positive, retained.sparing⟩
  reports machine after retained reports :=
    ⟨reports.forest ▸ retained.positive, reports.forest ▸ retained.sparing⟩
  fresh _ _ := Nat.zero_le _
  planted tree machine retained := by
    obtain ⟨copy, after, plants, planted⟩ := retained.sparing.wellFormed.plant retained.positive tree
    rw [runOn_plantTree plants]
    exact retained.edit (planted.edited fun _ => True)
  edits copy _ machine node changed retained found revised := by
    have outcome := revised (fun _ => True) fun _ _ _ => trivial
    exact retained.edit (retained.sparing.wellFormed.edit_edited found outcome.head outcome.revised trivial)
  marked _ _ retained := ⟨retained.positive, retained.sparing⟩
  thrownAway verbose _ := inThrowawaySession_keeps (fun _ _ retained => ⟨retained.positive, retained.sparing⟩) verbose
  valued _ _ _ _ retained := ⟨retained.positive, retained.sparing⟩

theorem plantTree_paragraph {machine final : Machine World} {tree : Node} {copy : Nat}
    (wellFormed : machine.outer.forest.WellFormed) (positive : 0 < machine.outer.forest.fresh)
    (isParagraph : tree.hasTag Tag.paragraph = true)
    (run : runOn (plantTree tree) machine = (.ok copy, final)) :
    Retained machine.outer.forest final ∧ final.outer.forest.Tagged Tag.paragraph copy := by
  have retained := (retained_frame machine.outer.forest).planted tree machine (.refl wellFormed positive)
  rw [run] at retained
  obtain ⟨planted, after, plants, isPlanted⟩ := wellFormed.plant positive tree
  rw [runOn_plantTree plants] at run
  cases run
  refine ⟨retained, planted, isPlanted.copy_mem, rfl, ?_⟩
  rw [← hasTag_copied, isPlanted.copied, hasTag_copied]
  exact isParagraph

/-- A copy of a paragraph is one. -/
theorem copyForItem_paragraph (settings : RepeatSettings) (handler : Handler) (context : Context)
    (wellFormed : machine.outer.forest.WellFormed) (positive : 0 < machine.outer.forest.fresh) {template copy : Nat}
    (isTagged : machine.outer.forest.Tagged Tag.paragraph template)
    (run : runOn (copyForItem settings handler context template) machine = (.ok copy, final)) :
    final.outer.forest.Tagged Tag.paragraph copy := by
  obtain ⟨source, member, rfl, isParagraph⟩ := isTagged
  obtain ⟨planted, middle, plants, run⟩ := bind_ok run
  unfold plantCopy at plants
  rw [runOn_bind, runOn_node (wellFormed.find?_key member)] at plants
  obtain ⟨retained, isCopy⟩ := plantTree_paragraph wellFormed positive isParagraph plants
  have again : Retained middle.outer.forest middle := .refl retained.sparing.wellFormed retained.positive
  have frame := retained_frame middle.outer.forest
  have resolves : Keeps (Retained middle.outer.forest) (inSessionOf handler settings.replacer.verbose
      (resolveParagraph settings.replacer (fun _ => return context) planted)) := by
    have kept : Keeps (Retained middle.outer.forest)
        (resolveParagraph settings.replacer (fun _ => return context) planted) :=
      frame.resolveParagraph_keeps (frame.edits planted (Nat.zero_le _)) _ (.pure _)
        (fun expression succeeded => frame.valued _ expression succeeded) (frame.marked _)
    unfold inSessionOf
    split
    · exact kept
    · exact frame.thrownAway _ _ kept
  obtain ⟨_, resolved, resolvesCopy, run⟩ := bind_ok run
  have last := resolves middle again
  rw [resolvesCopy] at last
  cases run
  exact last.tagged isCopy

/-- A paragraph stays one while others are made. -/
theorem retained_stays {α : Type} {body : Engine α} (keeps : ∀ forest, Keeps (Retained forest) body) (first : Forest)
    (copy : Nat) : Keeps (fun machine => Retained first machine ∧ machine.outer.forest.Tagged Tag.paragraph copy) body :=
  fun middle holds => ⟨keeps _ middle holds.1,
    (keeps _ middle (.refl holds.1.sparing.wellFormed holds.1.positive)).tagged holds.2⟩

theorem copiesForItem_paragraphs (settings : RepeatSettings) (handler : Handler) {item : Value}
    (wellFormed : machine.outer.forest.WellFormed) (positive : 0 < machine.outer.forest.fresh)
    {templates copies : List Nat}
    (isTagged : ∀ template ∈ templates, machine.outer.forest.Tagged Tag.paragraph template)
    (run : runOn (copiesForItem settings handler templates item) machine = (.ok copies, final)) :
    ∀ copy ∈ copies, final.outer.forest.Tagged Tag.paragraph copy := by
  obtain ⟨context, middle, builds, run⟩ := bind_ok run
  have sameWorld : middle.outer = machine.outer := by
    rw [runOn_lift] at builds
    exact (congrArg (fun run => run.2.outer) builds).symm
  have keeps (template : Nat) (forest : Forest) :
      Keeps (Retained forest) (copyForItem settings handler (.proxy context) template) := fun machine retained =>
    ((retained_frame forest).copyForItem_gives settings handler _ template machine retained).1
  have start : Retained machine.outer.forest middle := by
    have whole : Retained machine.outer.forest machine := .refl wellFormed positive
    exact ⟨sameWorld ▸ whole.positive, sameWorld ▸ whole.sparing⟩
  refine mapM_holds (Retained machine.outer.forest) (fun copy after => after.outer.forest.Tagged Tag.paragraph copy)
    (fun template _ => keeps template _) (fun template member before copy after retained copies => ?_)
    (fun copy template _ => retained_stays (keeps template) _ copy) start run
  exact copyForItem_paragraph settings handler _ retained.sparing.wellFormed retained.positive
    (retained.tagged (isTagged template member)) copies

/-- The copies that a repetition makes are paragraphs. -/
theorem repetitionOf_paragraphs (settings : RepeatSettings) (handler : Handler) {pending : PendingRepeat}
    (wellFormed : machine.outer.forest.WellFormed) (positive : 0 < machine.outer.forest.fresh) {new : List Nat}
    (templates : ∀ template ∈ pending.templates, machine.outer.forest.Tagged Tag.paragraph template)
    (run : runOn (repetitionOf settings handler pending) machine = (.ok new, final)) :
    ∀ copy ∈ new, final.outer.forest.Tagged Tag.paragraph copy := by
  have frame := retained_frame machine.outer.forest
  have start : Retained machine.outer.forest machine := .refl wellFormed positive
  unfold repetitionOf at run
  split at run
  · obtain ⟨source, here, reads, run⟩ := bind_ok run
    cases reads
    obtain ⟨paragraphs, middle, makes, run⟩ := bind_ok run
    have made : middle.outer = machine.outer ∧ ∀ paragraph ∈ paragraphs, paragraph.hasTag Tag.paragraph = true := by
      rw [runOn_lift] at makes
      rcases runOn_paragraphsForNull settings _ machine.store with ⟨-, nothing⟩ | ⟨-, -, one⟩
      · rw [nothing] at makes
        cases makes
        exact ⟨rfl, fun _ impossible => absurd impossible List.not_mem_nil⟩
      · rw [one] at makes
        split at makes
        · cases makes
          exact ⟨rfl, fun paragraph member => by rw [List.mem_singleton.mp member]; rfl⟩
        · cases makes
    refine mapM_holds (Retained machine.outer.forest) (fun copy after => after.outer.forest.Tagged Tag.paragraph copy)
      (fun tree _ => frame.planted tree) (fun tree member _ copy after retained plants => ?_)
      (fun copy tree _ => retained_stays (fun forest => (retained_frame forest).planted tree) _ copy) ?_ run
    · exact (plantTree_paragraph retained.sparing.wellFormed retained.positive (made.2 tree member) plants).2
    · exact ⟨made.1 ▸ start.positive, made.1 ▸ start.sparing⟩
  · obtain ⟨groups, middle, copies, run⟩ := bind_ok run
    cases run
    have keeps (forest : Forest) (item : Value) :
        Keeps (Retained forest) (copiesForItem settings handler pending.templates item) := fun machine retained =>
      ((retained_frame forest).copiesForItem_gives settings handler pending.templates item machine retained).1
    intro copy member
    obtain ⟨group, inGroups, inGroup⟩ := List.mem_flatten.mp member
    refine mapM_holds (Retained machine.outer.forest)
      (fun group after => ∀ copy ∈ group, after.outer.forest.Tagged Tag.paragraph copy) (fun item _ => keeps _ item)
      (fun item _ before group after retained makes => ?_) (fun group item _ middle holds => ?_) start copies group inGroups
      copy inGroup
    · exact copiesForItem_paragraphs settings handler retained.sparing.wellFormed retained.positive
        (fun template among => retained.tagged (templates template among)) makes
    · refine ⟨keeps _ item middle holds.1, fun copy member => ?_⟩
      exact (keeps _ item middle (.refl holds.1.sparing.wellFormed holds.1.positive)).tagged (holds.2 copy member)

end Retained
end Engine

/-! ## What is accounted for -/

/-- Paragraphs that may have been rewritten: their values were replaced, a directive was called for them, or a
directive in their text was evaluated. -/
def Touched (valued : Nat → Prop) (events : List Event) (paragraph : Nat) : Prop :=
  valued paragraph ∨ paragraph ∈ calledFor none events ∨
    ∃ expression data, .directive ⟨some paragraph, none, none⟩ expression data true ∈ events

/-- Nodes that may have been taken out: rows, tables, and paragraphs that a directive was called for or that
were repeated, besides some that are known. -/
def Taken (start : Forest) (known : Nat → Prop) (events : List Event) (number : Nat) : Prop :=
  known number ∨ start.Tagged Tag.row number ∨ start.Tagged Tag.table number ∨
    (start.Tagged Tag.paragraph number ∧ (number ∈ calledFor none events ∨
      ∃ pending new, .repeated pending new ∈ events ∧ number ∈ pending.templates))

/-- A run is tended by what has happened in it. -/
def Attended (start : Forest) (valued known : Nat → Prop) (machine : Machine World) : Prop :=
  Tended start (Touched valued machine.outer.events) (Taken start known machine.outer.events)
    (· ∈ calledFor none machine.outer.events) (machine.outer.events.findSome? Event.bound?) machine.outer

section Events

variable {start : Forest} {valued known : Nat → Prop} {events after : List Event} {event : Event}

theorem calledFor_noted (unbound : event.bound? = none) {paragraph : Nat} (called : paragraph ∈ calledFor none events) :
    paragraph ∈ calledFor none (event :: events) := by
  rw [calledFor_unbound unbound]
  exact List.mem_append_right _ called

theorem Touched.later (called : ∀ number ∈ calledFor none events, number ∈ calledFor none after)
    (more : events ⊆ after) {paragraph : Nat} (touched : Touched valued events paragraph) :
    Touched valued after paragraph := by
  refine touched.imp_right (Or.imp (called paragraph) ?_)
  exact fun ⟨expression, data, member⟩ => ⟨expression, data, more member⟩

theorem Taken.later (called : ∀ number ∈ calledFor none events, number ∈ calledFor none after)
    (more : events ⊆ after) {number : Nat} (taken : Taken start known events number) :
    Taken start known after number := by
  refine taken.imp_right (Or.imp_right (Or.imp_right (And.imp_right (Or.imp (called number) ?_))))
  exact fun ⟨pending, new, member, template⟩ => ⟨pending, new, more member, template⟩

end Events

namespace Attended

variable {start : Forest} {valued known : Nat → Prop} {machine : Machine World}

/-- Anything but the evaluation of a directive may be noted; of a repetition it has to be known what it has
made of what. -/
theorem noted (attended : Attended start valued known machine) (event : Event) (unbound : event.bound? = none)
    (repeats : ∀ pending new, event = .repeated pending new →
      (∀ template ∈ pending.templates, machine.outer.forest.Tagged Tag.paragraph template) ∧
        ∀ copy ∈ new, start.fresh ≤ copy ∧ machine.outer.forest.Tagged Tag.paragraph copy) :
    Attended start valued known { machine with outer := machine.outer.noting event } := by
  have called : ∀ number ∈ calledFor none machine.outer.events, number ∈ calledFor none (event :: machine.outer.events) :=
    fun _ => calledFor_noted unbound
  have later := List.subset_cons_self event machine.outer.events
  have more := attended.mono (fun _ => Touched.later called later) (fun _ _ => Taken.later called later) called
  have sameBound : (event :: machine.outer.events).findSome? Event.bound? =
      machine.outer.events.findSome? Event.bound? := by rw [List.findSome?_cons, unbound]
  refine { more with anchors := sameBound ▸ more.anchors, runs := sameBound ▸ more.runs, paragraph := sameBound ▸ more.paragraph, repeated := fun pending new member => ?_ }
  rcases List.mem_cons.mp member with rfl | old
  · exact repeats pending new rfl
  · exact more.repeated pending new old

theorem spare (attended : Attended start valued known machine) {forest : Forest}
    (sparing : Forest.Sparing start.fresh (start.TextOf (Touched valued machine.outer.events))
      (Taken start known machine.outer.events) machine.outer.forest forest) :
    Attended start valued known { machine with outer := { machine.outer with forest } } :=
  attended.step sparing rfl fun _ _ => id

theorem same (attended : Attended start valued known machine) {after : World}
    (forest : after.forest = machine.outer.forest) (handlers : after.handlers = machine.outer.handlers)
    (events : after.events = machine.outer.events) :
    Attended start valued known { machine with outer := after } := by
  unfold Attended
  dsimp only
  rw [events]
  exact Tended.same attended forest handlers (events ▸ fun _ _ => id)

end Attended

namespace Engine

section Frames

variable {start : Forest} {rewritten removed called : Nat → Prop} {bound : Option Nat}

/-- A call is part of the evaluation of a directive for a paragraph. -/
theorem tended_proof (isCalled : ∀ paragraph, bound = some paragraph → called paragraph)
    (isRewritten : ∀ paragraph, bound = some paragraph → rewritten paragraph) (events : List Event) (index : Nat) :
    StepProof index fun machine => machine.outer.events = events ∧
      Tended start rewritten removed called bound machine.outer where
  free _ _ holds := holds
  step machine after holds step := by
    obtain ⟨same, tended⟩ := holds
    cases step with
    | asked present asks => exact ⟨same, tended.asked isCalled present asks⟩
    | written present duty isRun letters =>
      exact ⟨same, tended.edit_run isRewritten (List.mem_of_getElem? present) isRun (fun _ => rfl)
        fun node => revised_setRunText node (.refl _) letters⟩
    | blanked present duty isRun =>
      exact ⟨same, tended.edit_run isRewritten (List.mem_of_getElem? present) isRun (fun _ => rfl)
        fun node => revised_withoutText node⟩
    | told entry => exact ⟨same, tended.same rfl rfl fun _ _ => id⟩

/-- Whatever happens while a directive is evaluated for a paragraph. -/
theorem tended_frame (isCalled : ∀ paragraph, bound = some paragraph → called paragraph)
    (isRewritten : ∀ paragraph, bound = some paragraph → rewritten paragraph) :
    Frame fun machine => Tended start rewritten removed called bound machine.outer where
  free _ _ tended := tended
  called index method arguments machine tended := by
    have proof : StepProof index fun after => after.outer.events = .called index method :: machine.outer.events ∧
        Tended start rewritten removed called bound after.outer := tended_proof isCalled isRewritten _ index
    refine (proof.callDirective_after method arguments ⟨rfl, ?_⟩).2
    exact tended.same rfl rfl fun _ _ member => (List.mem_cons.mp member).resolve_left (by simp)
  reports _ _ tended reports := tended.same reports.forest reports.handlers (reports.events ▸ fun _ _ => id)

variable {valued known : Nat → Prop}

theorem attended_frame : Frame (Attended start valued known) where
  free _ _ attended := attended
  called index method arguments machine attended := by
    have noted := attended.noted (.called index method) rfl fun _ _ impossible => by cases impossible
    -- Handlers are still bound to the paragraph of the last directive.
    have isCalled : ∀ paragraph, (Event.called index method :: machine.outer.events).findSome? Event.bound? =
        some paragraph → paragraph ∈ calledFor none (.called index method :: machine.outer.events) := by
      intro paragraph isBound
      rw [calledFor_unbound rfl]
      exact List.mem_append_left _ (Option.mem_toList.mpr isBound)
    obtain ⟨events, tended⟩ := (tended_proof isCalled (fun paragraph isBound => .inr (.inl (isCalled paragraph isBound)))
      _ index).callDirective_after method arguments ⟨rfl, noted⟩
    unfold Attended
    rwa [events]
  reports _ _ attended reports := attended.same reports.forest reports.handlers reports.events

/-- Copies are planted, and only they are edited. -/
theorem attended_copies (positive : 0 < start.fresh) : CopyFrame start.fresh (Attended start valued known) where
  toFrame := attended_frame
  fresh _ attended := attended.sparing.fresh
  planted tree machine attended := by
    have fresh := attended.sparing.fresh
    obtain ⟨copy, after, plants, planted⟩ :=
      attended.sparing.wellFormed.plant (Nat.lt_of_lt_of_le positive fresh) tree
    rw [runOn_plantTree plants]
    exact attended.spare ((planted.edited fun _ => False).sparing fresh fun _ _ => False.elim)
  edits copy new _ _ _ attended found revised := Tended.edit_paragraph attended (.inl new) found revised
  marked _ _ attended := attended.same rfl rfl rfl
  thrownAway verbose _ := inThrowawaySession_keeps (fun _ _ attended => attended.same rfl rfl rfl) verbose
  valued _ _ _ _ attended := attended.noted _ rfl fun _ _ impossible => by cases impossible

end Frames

end Engine
end Imprint
