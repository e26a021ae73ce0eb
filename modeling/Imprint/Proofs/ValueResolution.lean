import Imprint.Proofs.CompiledExpressions
import Imprint.Proofs.DirectiveCalls
import Imprint.Proofs.RunContent
/-! # Values and the runs of a text

The values of two paragraphs with one text are replaced side by side, however the text is cut into runs.
Directives that a value calls may do what they like on both sides, unless they write into a run of one of the two
paragraphs. -/
set_option autoImplicit false
namespace Imprint
open Imprint.Action Xml Document

/-- Duties of one kind. -/
inductive SameDuty : Duty → Duty → Prop where
  | repetition (first second : List PendingRepeat) :
      SameDuty (.repeatParagraphs first) (.repeatParagraphs second)
  | display (paragraphs rows tables paragraphs' rows' tables' : List Nat) :
      SameDuty (.display paragraphs rows tables) (.display paragraphs' rows' tables')
  | replaceWord : SameDuty .replaceWord .replaceWord
  | record (first second : Recorder) : SameDuty (.record first) (.record second)

/-- Two handlers that differ only in what they are bound to and have been asked for. -/
structure Alike (left right : Handler) : Prop where
  duty : SameDuty left.duty right.duty
  paragraph : left.anchor.paragraph.isSome = right.anchor.paragraph.isSome
  run : left.anchor.run.isSome = right.anchor.run.isSome

theorem Alike.refl (handler : Handler) : Alike handler handler := by
  obtain ⟨interface, anchor, inSession, duty⟩ := handler
  refine ⟨?_, rfl, rfl⟩
  cases duty with
  | repeatParagraphs pending => exact .repetition _ _
  | display paragraphs rows tables => exact .display _ _ _ _ _ _
  | replaceWord => exact .replaceWord
  | record recorder => exact .record _ _

/-- Two places that are both filled or both empty. -/
theorem both_or_none {left right : Option Nat} (same : left.isSome = right.isSome) :
    (left = none ∧ right = none) ∨ ∃ one other, left = some one ∧ right = some other := by
  cases left with
  | none => exact .inl ⟨rfl, Option.isNone_iff_eq_none.mp (Option.isSome_eq_false_iff.mp same.symm)⟩
  | some one =>
    obtain ⟨other, isOther⟩ := Option.isSome_iff_exists.mp same.symm
    exact .inr ⟨one, other, rfl, isOther⟩

namespace Engine

/-- What a paragraph may come to hold as a child: what it holds, and what is still to come. -/
def Owned (forest : Forest) (paragraph number : Nat) : Prop :=
  number = paragraph ∨ (∃ node, forest.find? paragraph = some node ∧ number ∈ node.children.map Node.key) ∨
    forest.fresh ≤ number

/-- The handler with a place among the handlers is bound to a run of a paragraph. -/
def WritesInto (world : World) (paragraph index : Nat) : Prop :=
  ∃ handler run, world.handlers[index]? = some handler ∧ handler.anchor.run = some run ∧
    Owned world.forest paragraph run

/-- Since some events, one of some directives has been called. -/
def CalledOne (start : List Event) (writing : Nat → Prop) (machine : Machine World) : Prop :=
  ∃ new index method, machine.outer.events = new ++ start ∧ Event.called index method ∈ new ∧ writing index

/-- One of two paragraphs on its machine: its children are among the owned ones, and no handler is bound to one of
these but those that write. -/
structure Side (paragraph : Nat) (owned writing : Nat → Prop) (world : World) : Prop where
  wellFormed : world.forest.WellFormed
  own : owned paragraph
  fresh : ∀ number, world.forest.fresh ≤ number → owned number
  children : ∀ node, world.forest.find? paragraph = some node → ∀ child ∈ node.children, owned child.key
  apart : ∀ index handler run, world.handlers[index]? = some handler → handler.anchor.run = some run →
    ¬ writing index → ¬ owned run

/-- What ties two machines together: they hold the same values, have recorded the same errors, keep no programs
but those that compiling anew would give, and two paragraphs have aligned texts. -/
structure Paired (first second : Nat) (owned ownedOther writing : Nat → Prop) (start : List Event)
    (left right : Machine World) : Prop where
  store : left.store = right.store
  errors : left.outer.session.errors = right.outer.session.errors
  additional : left.outer.additional = right.outer.additional
  prepared : Prepared left.outer.configured left.outer.compiled
  preparedOther : Prepared right.outer.configured right.outer.compiled
  handlers : List.Forall₂ Alike left.outer.handlers right.outer.handlers
  here : Side first owned writing left.outer
  there : Side second ownedOther writing right.outer
  texts : ∃ one other, left.outer.forest.find? first = some one ∧
    right.outer.forest.find? second = some other ∧ SameText one other
  since : ∃ new, left.outer.events = new ++ start

/-- What a step leaves alone that no other computation has to know about. -/
structure Quiet (before after : World) : Prop where
  forest : after.forest = before.forest
  errors : after.session.errors = before.session.errors
  additional : after.additional = before.additional
  prepared : Prepared before.configured before.compiled → Prepared after.configured after.compiled
  handlers : after.handlers = before.handlers
  since : ∃ new, after.events = new ++ before.events

variable {first second : Nat} {owned ownedOther writing : Nat → Prop} {start : List Event}
  {left right : Machine World}

theorem CalledOne.quiet {machine : Machine World} {after : World} (quiet : Quiet machine.outer after)
    (called : CalledOne start writing machine) : CalledOne start writing { machine with outer := after } := by
  obtain ⟨new, index, method, since, member, writes⟩ := called
  obtain ⟨more, later⟩ := quiet.since
  exact ⟨more ++ new, index, method, by rw [later, since, List.append_assoc], List.mem_append_right _ member, writes⟩

theorem calledOne_proof (index : Nat) : StepProof index (CalledOne start writing) where
  free _ _ called := called
  step _ _ called step := by cases step <;> exact called

/-! ## One paragraph -/

section Side

variable {paragraph : Nat} {world after : World} (side : Side paragraph owned writing world)
include side

theorem Side.of_same (forest : after.forest = world.forest) (handlers : after.handlers = world.handlers) :
    Side paragraph owned writing after where
  wellFormed := forest ▸ side.wellFormed
  own := side.own
  fresh := forest ▸ side.fresh
  children := forest ▸ side.children
  apart := handlers ▸ side.apart

/-- What handlers are asked for does not matter. -/
theorem Side.changeHandler {update : Handler → Handler} (bound : ∀ handler, (update handler).anchor = handler.anchor)
    (place : Nat) : Side paragraph owned writing { world with handlers := world.handlers.modify place update } where
  wellFormed := side.wellFormed
  own := side.own
  fresh := side.fresh
  children := side.children
  apart index handler run present isRun := by
    rw [List.getElem?_modify] at present
    obtain ⟨old, found, same⟩ := Option.map_eq_some_iff.mp present
    refine side.apart index old run found ?_
    split at same
    · rw [← isRun, ← same, bound]
    · rw [← isRun, ← same]

/-- No child comes into a paragraph but new ones. -/
theorem Side.edited {touched : Nat → Prop} {forest : Forest}
    (edited : Forest.Edited touched world.forest forest) : Side paragraph owned writing { world with forest } where
  wellFormed := edited.wellFormed
  own := side.own
  fresh number late := side.fresh number (Nat.le_trans edited.fresh late)
  children node found child direct := by
    rcases Nat.lt_or_ge child.key world.forest.fresh with small | late
    · obtain ⟨inForest, sameKey⟩ := edited.wellFormed.find?_iff.mp found
      obtain ⟨origin, isOrigin, same, held⟩ := edited.children node inForest child direct small
      obtain ⟨other, isChild, sameChild⟩ := List.mem_map.mp held
      exact sameChild ▸ side.children origin
        (side.wellFormed.find?_iff.mpr ⟨isOrigin, same.trans sameKey⟩) other isChild
    · exact side.fresh _ late
  apart := side.apart

/-- Writing into a run of another paragraph leaves the texts of the paragraph as they are. -/
theorem Side.write {run : Nat} (outside : ¬ owned run) {change : Node → Node}
    (head : ∀ node, (change node).head = node.head)
    (revised : ∀ node, Node.Revised (· = run) node.children (change node).children) {node : Node}
    (found : world.forest.find? paragraph = some node) :
    Side paragraph owned writing { world with forest := world.forest.edit run change } ∧
      ∃ new, (world.forest.edit run change).find? paragraph = some new ∧
        runTexts new.children = runTexts node.children := by
  cases present : world.forest.find? run with
  | none =>
    rw [Forest.edit, present]
    exact ⟨side, node, found, rfl⟩
  | some other =>
    have edited := side.wellFormed.edit_edited present (head other) (revised other) rfl
    obtain ⟨member, rfl⟩ := side.wellFormed.find?_iff.mp found
    obtain ⟨new, isNew, -, same⟩ := edited.runTexts member (fun hit => outside (hit ▸ side.own))
      fun child direct hit => outside (hit ▸ side.children node found child direct)
    exact ⟨side.edited edited, new, isNew, same⟩

end Side

theorem Paired.quiet {leftAfter rightAfter : World}
    (paired : Paired first second owned ownedOther writing start left right)
    (quietLeft : Quiet left.outer leftAfter) (quietRight : Quiet right.outer rightAfter) :
    Paired first second owned ownedOther writing start { left with outer := leftAfter }
      { right with outer := rightAfter } where
  store := paired.store
  errors := quietLeft.errors.trans (paired.errors.trans quietRight.errors.symm)
  additional := quietLeft.additional.trans (paired.additional.trans quietRight.additional.symm)
  prepared := quietLeft.prepared paired.prepared
  preparedOther := quietRight.prepared paired.preparedOther
  handlers := by
    show List.Forall₂ Alike leftAfter.handlers rightAfter.handlers
    rw [quietLeft.handlers, quietRight.handlers]
    exact paired.handlers
  here := paired.here.of_same quietLeft.forest quietLeft.handlers
  there := paired.there.of_same quietRight.forest quietRight.handlers
  texts := by
    show ∃ one other, leftAfter.forest.find? first = some one ∧
      rightAfter.forest.find? second = some other ∧ SameText one other
    rw [quietLeft.forest, quietRight.forest]
    exact paired.texts
  since := by
    obtain ⟨new, since⟩ := paired.since
    obtain ⟨more, later⟩ := quietLeft.since
    exact ⟨more ++ new, by rw [later, since, List.append_assoc]⟩

/-- Two machines are tied together until a directive is called that writes. -/
def pairing (first second : Nat) (owned ownedOther writing : Nat → Prop) (start : List Event) :
    Coupling World World where
  broken := CalledOne start writing
  together := Paired first second owned ownedOther writing start
  broken_store _ _ called := called
  same_store paired := paired.store
  together_store _ paired := { paired with store := rfl }

/-! ## Steps that change nothing of interest -/

/-- A computation that always succeeds and is quiet. -/
def Silent (computation : Engine Unit) : Prop :=
  ∀ machine, ∃ after, runOn computation machine = (.ok (), { machine with outer := after }) ∧
    Quiet machine.outer after

theorem silent_say (message : List Char) : Silent (say message) :=
  fun _ => ⟨_, runOn_say _ _, rfl, rfl, rfl, id, rfl, [], rfl⟩

theorem silent_note (event : Event) : Silent (note event) :=
  fun _ => ⟨_, runOn_note _ _, rfl, rfl, rfl, id, rfl, [event], rfl⟩

theorem silent_tell (entry : JournalEntry) : Silent (tell entry) :=
  fun _ => ⟨_, rfl, rfl, rfl, rfl, id, rfl, [], rfl⟩

section Relates

variable {α β : Type}

theorem silent_keeps {computation : Engine Unit} (silent : Silent computation) :
    Keeps (CalledOne start writing) computation := by
  intro machine called
  obtain ⟨after, reached, quiet⟩ := silent machine
  rw [reached]
  exact CalledOne.quiet quiet called

theorem silent_relates {computation other : Engine Unit} (leftSilent : Silent computation)
    (rightSilent : Silent other) : (pairing first second owned ownedOther writing start).Relates computation other where
  stays := silent_keeps leftSilent
  agrees left right paired := by
    obtain ⟨leftAfter, leftReached, quietLeft⟩ := leftSilent left
    obtain ⟨rightAfter, rightReached, quietRight⟩ := rightSilent right
    rw [leftReached, rightReached]
    exact .inr ⟨rfl, paired.quiet quietLeft quietRight⟩

/-- What is only read may differ, as long as what follows does not depend on it. -/
theorem reading_relates {computation other : Engine β} {next otherNext : β → Engine α}
    (leftReads : ∀ machine, ∃ value, runOn computation machine = (.ok value, machine))
    (rightReads : ∀ machine, ∃ value, runOn other machine = (.ok value, machine))
    (each : ∀ value otherValue,
      (pairing first second owned ownedOther writing start).Relates (next value) (otherNext otherValue)) :
    (pairing first second owned ownedOther writing start).Relates (computation >>= next) (other >>= otherNext) where
  stays machine called := by
    obtain ⟨value, reached⟩ := leftReads machine
    rw [runOn_bind, reached]
    exact (each value value).stays machine called
  agrees left right paired := by
    obtain ⟨value, leftReached⟩ := leftReads left
    obtain ⟨otherValue, rightReached⟩ := rightReads right
    rw [runOn_bind, runOn_bind, leftReached, rightReached]
    exact (each value otherValue).agrees left right paired

theorem changeHandler_relates (index : Nat) {update other : Handler → Handler}
    (bound : ∀ handler, (update handler).anchor = handler.anchor)
    (otherBound : ∀ handler, (other handler).anchor = handler.anchor)
    (alike : ∀ handler otherHandler, Alike handler otherHandler →
      Alike (update handler) (other otherHandler)) :
    (pairing first second owned ownedOther writing start).Relates (changeHandler index update)
      (changeHandler index other) where
  stays _ called := called
  agrees left right paired := by
    refine .inr ⟨rfl, { paired with
      handlers := ?_, here := paired.here.changeHandler bound index
      there := paired.there.changeHandler otherBound index }⟩
    show List.Forall₂ Alike (left.outer.handlers.modify index update)
      (right.outer.handlers.modify index other)
    have handlers := paired.handlers
    clear paired
    generalize left.outer.handlers = leftHandlers at handlers
    generalize right.outer.handlers = rightHandlers at handlers
    induction handlers generalizing index with
    | nil => simp
    | cons head rest hypothesis =>
      cases index with
      | zero => exact .cons (alike _ _ head) rest
      | succ index => exact .cons head (hypothesis index)

/-- Writing into runs of other paragraphs. -/
theorem edit_relates {run other : Nat} (outside : ¬ owned run) (outsideOther : ¬ ownedOther other)
    {change : Node → Node} (head : ∀ node, (change node).head = node.head)
    (revised : ∀ (touched : Nat → Prop) (node : Node), Node.Revised touched node.children (change node).children) :
    (pairing first second owned ownedOther writing start).Relates
      (changeForest fun forest => forest.edit run change)
      (changeForest fun forest => forest.edit other change) where
  stays _ called := called
  agrees left right paired := by
    obtain ⟨one, another, foundLeft, foundRight, same⟩ := paired.texts
    obtain ⟨here, newLeft, isLeft, sameLeft⟩ := paired.here.write outside head (revised _) foundLeft
    obtain ⟨there, newRight, isRight, sameRight⟩ := paired.there.write outsideOther head (revised _) foundRight
    refine .inr ⟨rfl, { paired with here, there, texts := ⟨newLeft, newRight, isLeft, isRight, ?_⟩ }⟩
    unfold SameText
    rw [sameLeft, sameRight]
    exact same

theorem writeRun_relates {run other : Nat} (outside : ¬ owned run) (outsideOther : ¬ ownedOther other)
    (letters : List Char) :
    (pairing first second owned ownedOther writing start).Relates (writeRun run letters)
      (writeRun other letters) := by
  unfold writeRun
  split
  · exact edit_relates outside outsideOther (fun _ => rfl) fun _ node => revised_setRunText node (.refl _) letters
  · exact .bind (edit_relates outside outsideOther (fun _ => rfl) fun _ node => revised_withoutText node)
      fun _ => .throw _

/-! ## Directives -/

theorem soleArgument_relates (label parameter : String) (arguments : Arguments) :
    (pairing first second owned ownedOther writing start).Relates (soleArgument label parameter arguments)
      (soleArgument label parameter arguments) :=
  .bind (.lift _) fun _ => .pure _

section Handlers

variable {handler other : Handler} (alike : Alike handler other)
include alike

theorem askRepeat_relates (index : Nat) (items : Value) :
    (pairing first second owned ownedOther writing start).Relates (askRepeat index handler.anchor items)
      (askRepeat index other.anchor items) := by
  unfold askRepeat
  rcases both_or_none alike.paragraph with ⟨leftBound, rightBound⟩ | ⟨_, _, leftBound, rightBound⟩
  · rw [leftBound, rightBound]
    exact .pure _
  · rw [leftBound, rightBound]
    dsimp only
    split
    on_goal 1 => refine .bind (.pure _) fun known => ?_
    on_goal 2 => refine .bind (.lift _) fun _ => .bind (.pure _) fun known => ?_
    all_goals
      refine reading_relates (fun machine => ⟨_, rfl⟩) (fun machine => ⟨_, rfl⟩) fun _ _ => ?_
      refine changeHandler_relates index (fun handler => ?_) (fun handler => ?_) fun handler other alike => ?_
      · split <;> rfl
      · split <;> rfl
      · have duty := alike.duty
        cases leftDuty : handler.duty <;> cases rightDuty : other.duty <;>
          rw [leftDuty, rightDuty] at duty <;> cases duty
        · exact ⟨.repetition _ _, alike.paragraph, alike.run⟩
        all_goals exact alike

theorem askDisplay_relates (index : Nat) (method : String) (condition : Value) :
    (pairing first second owned ownedOther writing start).Relates (askDisplay index handler.anchor method condition)
      (askDisplay index other.anchor method condition) := by
  unfold askDisplay
  refine .bind (.lift _) fun truth => ?_
  cases truth with
  | true => exact .pure _
  | false =>
    rcases both_or_none alike.paragraph with ⟨leftBound, rightBound⟩ | ⟨_, _, leftBound, rightBound⟩
    · rw [leftBound, rightBound]
      exact .pure _
    · rw [leftBound, rightBound]
      refine reading_relates (fun machine => ⟨_, rfl⟩) (fun machine => ⟨_, rfl⟩) fun _ _ => ?_
      refine changeHandler_relates index (fun handler => ?_) (fun handler => ?_) fun handler other alike => ?_
      · dsimp only
        split <;> rfl
      · dsimp only
        split <;> rfl
      · have duty := alike.duty
        cases leftDuty : handler.duty <;> cases rightDuty : other.duty <;>
          rw [leftDuty, rightDuty] at duty <;> cases duty
        · exact alike
        · refine ⟨?_, alike.paragraph, alike.run⟩
          dsimp only
          -- Whatever is asked for, the duty stays one of its kind.
          split
          · exact .display _ _ _ _ _ _
          · split <;> split <;> exact .display _ _ _ _ _ _
          · split <;> split <;> exact .display _ _ _ _ _ _
        all_goals exact alike

theorem recordCall_relates (index : Nat) (recorder otherRecorder : Recorder) (method : String)
    (values : List Value) :
    (pairing first second owned ownedOther writing start).Relates
      (recordCall index handler.anchor recorder method values)
      (recordCall index other.anchor otherRecorder method values) := by
  have tells (entry otherEntry : JournalEntry) :
      (pairing first second owned ownedOther writing start).Relates (tell entry) (tell otherEntry) :=
    silent_relates (silent_tell _) (silent_tell _)
  unfold recordCall
  rcases both_or_none alike.paragraph with ⟨leftBound, rightBound⟩ | ⟨_, _, leftBound, rightBound⟩ <;>
    rcases both_or_none alike.run with ⟨leftRun, rightRun⟩ | ⟨_, _, leftRun, rightRun⟩ <;>
      rw [leftBound, rightBound, leftRun, rightRun]
  case inl.inl => exact .bind (.pure _) fun _ => .bind (.pure _) fun _ => tells _ _
  case inl.inr =>
    exact .bind (.pure _) fun _ => reading_relates (fun machine => ⟨_, rfl⟩) (fun machine => ⟨_, rfl⟩) fun _ _ =>
      tells _ _
  all_goals
    refine .bind (changeHandler_relates index (fun _ => rfl) (fun _ => rfl) fun _ _ alike =>
      ⟨.record _ _, alike.paragraph, alike.run⟩) fun _ => ?_
    refine reading_relates (fun machine => ⟨_, rfl⟩) (fun machine => ⟨_, rfl⟩) fun _ _ => ?_
  case inr.inl => exact .bind (.pure _) fun _ => tells _ _
  case inr.inr =>
    exact reading_relates (fun machine => ⟨_, rfl⟩) (fun machine => ⟨_, rfl⟩) fun _ _ => tells _ _

theorem replaceWord_relates (outside : ∀ run, handler.anchor.run = some run → ¬ owned run)
    (outsideOther : ∀ run, other.anchor.run = some run → ¬ ownedOther run) (value : Value) :
    (pairing first second owned ownedOther writing start).Relates (replaceWord handler.anchor value)
      (replaceWord other.anchor value) := by
  unfold replaceWord
  rcases both_or_none alike.run with ⟨leftRun, rightRun⟩ | ⟨run, otherRun, leftRun, rightRun⟩
  · rw [leftRun, rightRun]
    cases value <;> exact .pure _
  · have writes (value : Value) : (pairing first second owned ownedOther writing start).Relates
        (do writeRun run (← value.plain)) (do writeRun otherRun (← value.plain)) :=
      .bind (.lift _) fun _ => writeRun_relates (outside run leftRun) (outsideOther otherRun rightRun) _
    rw [leftRun, rightRun]
    cases value with
    | null => exact .pure _
    | _ => exact writes _

end Handlers

theorem alike_at {handlers others : List Handler} (alike : List.Forall₂ Alike handlers others)
    (index : Nat) : (handlers[index]? = none ∧ others[index]? = none) ∨
      ∃ handler other, handlers[index]? = some handler ∧ others[index]? = some other ∧
        Alike handler other := by
  induction alike generalizing index with
  | nil => exact .inl ⟨rfl, rfl⟩
  | @cons handler other _ _ head rest hypothesis =>
    cases index with
    | zero => exact .inr ⟨handler, other, rfl, rfl, head⟩
    | succ index => exact hypothesis index

theorem performDirective_relates {handler other : Handler} (alike : Alike handler other)
    (outside : ∀ run, handler.anchor.run = some run → ¬ owned run)
    (outsideOther : ∀ run, other.anchor.run = some run → ¬ ownedOther run) (index : Nat) (method : String)
    (arguments : Arguments) :
    (pairing first second owned ownedOther writing start).Relates
      (performDirective handler index method arguments) (performDirective other index method arguments) := by
  have duty := alike.duty
  unfold performDirective Handler.className
  cases leftDuty : handler.duty <;> cases rightDuty : other.duty <;>
    rw [leftDuty, rightDuty] at duty <;> cases duty
  · exact .bind (soleArgument_relates _ _ _) fun items => askRepeat_relates alike index items
  · exact .bind (soleArgument_relates _ _ _) fun condition =>
      askDisplay_relates alike index method condition
  · exact .bind (soleArgument_relates _ _ _) fun value => replaceWord_relates alike outside outsideOther value
  · exact .bind (.lift _) fun binding =>
      recordCall_relates alike index _ _ method binding.rest

/-- A call goes side by side on both machines, unless its handler writes into one of the paragraphs. -/
theorem callDirective_relates (index : Nat) (method : String) (arguments : Arguments) :
    (pairing first second owned ownedOther writing start).Relates (callDirective index method arguments)
      (callDirective index method arguments) where
  stays := (calledOne_proof index).callDirective_keeps (fun _ => silent_keeps (silent_note _)) method
    arguments
  agrees left right paired := by
    have quiet (world : World) : Quiet world (world.noting (.called index method)) :=
      ⟨rfl, rfl, rfl, id, rfl, [.called index method], rfl⟩
    have noted := paired.quiet (quiet left.outer) (quiet right.outer)
    rcases alike_at paired.handlers index with ⟨leftNone, rightNone⟩ |
      ⟨handler, other, leftFound, rightFound, alike⟩
    · rw [runOn_callDirective_missing leftNone, runOn_callDirective_missing rightNone]
      exact .inr ⟨rfl, noted⟩
    by_cases writes : writing index
    · obtain ⟨earlier, since⟩ := paired.since
      refine .inl ((calledOne_proof index).callDirective_after method arguments ?_)
      exact ⟨.called index method :: earlier, index, method, congrArg (Event.called index method :: ·) since,
        List.mem_cons_self, writes⟩
    · have performed : (pairing first second owned ownedOther writing start).Relates
          (performDirective handler index method arguments >>= fun _ => pure Value.null)
          (performDirective other index method arguments >>= fun _ => pure Value.null) :=
        .bind (performDirective_relates alike (fun run isRun => paired.here.apart index handler run leftFound isRun writes)
          (fun run isRun => paired.there.apart index other run rightFound isRun writes) index method arguments)
          fun _ => .pure _
      rw [runOn_callDirective leftFound, runOn_callDirective rightFound]
      exact performed.agrees _ _ noted

/-! ## Values -/

theorem Quiet.readied (world : World) (expression : String) : Quiet world (world.readied expression) := by
  have prepared (prepared : Prepared world.configured world.compiled) := prepared.readied expression
  rw [World.readied_only]
  exact ⟨rfl, rfl, rfl, prepared, rfl, [], rfl⟩

theorem resolve_relates (context : Context) (expression : String) :
    (pairing first second owned ownedOther writing start).Relates (resolve context expression)
      (resolve context expression) := by
  have side (program : List Char → Heap Expression.Program) (additional : Expression.Scope) :
      (pairing first second owned ownedOther writing start).Relates
        (Expression.resolveBy (fun letters => liftM (program letters)) ⟨context, additional, callDirective⟩ expression)
        (Expression.resolveBy (fun letters => liftM (program letters)) ⟨context, additional, callDirective⟩
          expression) :=
    Expression.resolve_relates context additional expression callDirective_relates fun _ => .lift _
  constructor
  · intro machine called
    rw [runOn_resolve]
    exact (side _ machine.outer.additional).stays _ (CalledOne.quiet (.readied machine.outer expression) called)
  · intro left right paired
    rw [runOn_resolve_anew context expression paired.prepared,
      runOn_resolve_anew context expression paired.preparedOther, ← paired.additional]
    exact (side Expression.compile left.outer.additional).agrees _ _
      (paired.quiet (.readied left.outer expression) (.readied right.outer expression))

theorem attempt_relates (failing : Bool) (context : Context) (expression : String)
    (event otherEvent : Bool → Event) :
    (pairing first second owned ownedOther writing start).Relates (attempt failing context expression event)
      (attempt failing context expression otherEvent) := by
  have notes (succeeded : Bool) : (pairing first second owned ownedOther writing start).Relates (note (event succeeded))
      (note (otherEvent succeeded)) := silent_relates (silent_note _) (silent_note _)
  unfold attempt
  refine .tryCatch ?_ fun fault => .bind (notes false) fun _ => ?_
  · exact .bind (resolve_relates context expression) fun value =>
      .bind (notes true) fun _ => .pure _
  · split
    · split
      · exact .throw _
      · exact .pure _
    · exact .throw _

theorem recordError_relates (expression reason action : String) :
    (pairing first second owned ownedOther writing start).Relates (recordError expression reason action)
      (recordError expression reason action) := by
  have recorded : (pairing first second owned ownedOther writing start).Relates
      (changeSession fun session =>
        { session with errors := session.errors ++ [(expression, reason)] })
      (changeSession fun session =>
        { session with errors := session.errors ++ [(expression, reason)] }) := by
    refine ⟨fun _ called => called, fun left right paired => .inr ⟨rfl, ?_⟩⟩
    exact { paired with
      errors := congrArg (· ++ [(expression, reason)]) paired.errors
      here := paired.here.of_same rfl rfl
      there := paired.there.of_same rfl rfl }
  refine .bind recorded fun _ => ?_
  refine reading_relates (fun machine => ⟨_, rfl⟩) (fun machine => ⟨_, rfl⟩) fun world other => ?_
  have told (verbose : Bool) (message : List Char) :
      Silent (if verbose then say message else pure ()) := by
    cases verbose with
    | true => exact silent_say message
    | false => exact fun _ => ⟨_, rfl, rfl, rfl, rfl, id, rfl, [], rfl⟩
  exact silent_relates (told _ _) (told _ _)

/-- Editing both paragraphs keeps the machines paired if the new texts are aligned. -/
theorem Paired.edit {change otherChange : Node → Node} {one other : Node}
    (paired : Paired first second owned ownedOther writing start left right)
    (foundLeft : left.outer.forest.find? first = some one)
    (foundRight : right.outer.forest.find? second = some other)
    (changed : Replacer.Changed (fun _ => True) one (change one))
    (otherChanged : Replacer.Changed (fun _ => True) other (otherChange other))
    (same : SameText (change one) (otherChange other)) :
    Paired first second owned ownedOther writing start
      { left with outer := { left.outer with forest := left.outer.forest.edit first change } }
      { right with
        outer := { right.outer with forest := right.outer.forest.edit second otherChange } } := by
  obtain ⟨new, found, copied⟩ := paired.here.wellFormed.edit_find? foundLeft changed.head
    changed.revised trivial
  obtain ⟨otherNew, otherFound, otherCopied⟩ := paired.there.wellFormed.edit_find? foundRight
    otherChanged.head otherChanged.revised trivial
  refine { paired with
    here := paired.here.edited (paired.here.wellFormed.edit_edited foundLeft changed.head changed.revised trivial)
    there := paired.there.edited (paired.there.wellFormed.edit_edited foundRight otherChanged.head
      otherChanged.revised trivial)
    texts := ⟨new, otherNew, found, otherFound, ?_⟩ }
  unfold SameText
  rw [runTexts_of_copied copied, runTexts_of_copied otherCopied]
  exact same

theorem mayCut_any (paragraph : Node) : Replacer.MayCut (fun _ => True) paragraph :=
  fun _ _ _ => trivial

/-- Putting content into both paragraphs fails for both, or keeps their texts aligned. -/
theorem replace_relates (replacer : Replacer) (wanted : List Char) (content : Value) :
    (pairing first second owned ownedOther writing start).Relates (replace replacer first wanted content)
      (replace replacer second wanted content) where
  stays := by
    refine Keeps.bind (fun _ called => called) fun _ => ?_
    exact Keeps.bind (.lift (pairing first second owned ownedOther writing start).broken_store _) fun _ => fun _ called => called
  agrees left right paired := by
    obtain ⟨one, other, foundLeft, foundRight, same⟩ := paired.texts
    obtain ⟨changed, otherChanged, store, leftRun, rightRun, outcome⟩ :=
      replacer.replaceIn_same same wanted content left.store
    rw [runOn_replace foundLeft, runOn_replace foundRight, ← paired.store, leftRun, rightRun]
    cases outcome with
    | fault fault => exact .inr ⟨rfl, { paired with store := rfl }⟩
    | @value changed otherChanged related =>
      refine .inr ⟨rfl, ?_⟩
      have changedLeft := replacer.replaceIn_changed (mayCut_any one) wanted content leftRun
      have changedRight := replacer.replaceIn_changed (mayCut_any other) wanted content rightRun
      have moved : Paired first second owned ownedOther writing start { left with store } { right with store } :=
        { paired with store := rfl }
      exact moved.edit foundLeft foundRight changedLeft changedRight related

theorem replaceLineBreaks_relates (replacer : Replacer) :
    (pairing first second owned ownedOther writing start).Relates (replaceLineBreaks replacer first)
      (replaceLineBreaks replacer second) where
  stays := by
    unfold replaceLineBreaks
    split
    · refine Keeps.bind (fun _ called => called) fun _ => ?_
      split
      · exact fun _ called => called
      · exact Keeps.throw _
    · exact fun _ called => called
    · exact Keeps.throw _
  agrees left right paired := by
    unfold replaceLineBreaks
    split
    · rename_i wanted isText
      obtain ⟨one, other, foundLeft, foundRight, same⟩ := paired.texts
      rw [runOn_bind, runOn_bind, runOn_node foundLeft, runOn_node foundRight]
      dsimp only
      obtain ⟨endlessLeft, endlessRight⟩ | ⟨_, _, brokenLeft, brokenRight, aligned⟩ :=
        replacer.breakLines_same wanted.toList same
      · rw [endlessLeft, endlessRight]
        exact .inr ⟨rfl, paired⟩
      · rw [brokenLeft, brokenRight]
        refine .inr ⟨rfl, ?_⟩
        have changedLeft := Replacer.breakLines_changed (mayCut_any one) brokenLeft
        have changedRight := Replacer.breakLines_changed (mayCut_any other) brokenRight
        exact paired.edit foundLeft foundRight changedLeft changedRight aligned
    · exact .inr ⟨rfl, paired⟩
    · exact .inr ⟨rfl, paired⟩

theorem replaceValue_relates (replacer : Replacer) (token : List Char) (renderer : Renderer)
    (value : Value) :
    (pairing first second owned ownedOther writing start).Relates (replaceValue replacer first token renderer value)
      (replaceValue replacer second token renderer value) := by
  refine .bind (.lift _) fun content => .bind (replace_relates replacer token content) fun _ => ?_
  cases replacer.verbose with
  | true => exact .bind (.lift _) fun _ => silent_relates (silent_say _) (silent_say _)
  | false => exact .pure _

theorem replaceResolved_relates (replacer : Replacer) (token : List Char) (value : Value) :
    (pairing first second owned ownedOther writing start).Relates (replaceResolved replacer first token value)
      (replaceResolved replacer second token value) := by
  unfold replaceResolved
  split
  · cases replacer.replaceNull with
    | true => exact replaceValue_relates replacer token _ _
    | false =>
      cases replacer.verbose with
      | true => exact silent_relates (silent_say _) (silent_say _)
      | false => exact .pure _
  · exact replaceValue_relates replacer token _ _

theorem replaceUnresolved_relates (replacer : Replacer) (token : List Char) :
    (pairing first second owned ownedOther writing start).Relates (replaceUnresolved replacer first token)
      (replaceUnresolved replacer second token) := by
  unfold replaceUnresolved
  split
  · exact replace_relates replacer token _
  · split
    · exact replace_relates replacer token _
    · exact .pure _

theorem replaceToken_relates (replacer : Replacer) (context : Heap Context) (token : List Char) :
    (pairing first second owned ownedOther writing start).Relates
      (replaceToken replacer (fun _ => liftM context) first token)
      (replaceToken replacer (fun _ => liftM context) second token) := by
  refine .bind (.lift _) fun context => .bind (attempt_relates _ context _ _ _) fun outcome => ?_
  cases outcome with
  | resolved value => exact replaceResolved_relates replacer token value
  | unresolved expression reason =>
    exact .bind (recordError_relates _ _ _) fun _ => replaceUnresolved_relates replacer token

theorem resolveParagraph_relates (replacer : Replacer) (context : Heap Context) :
    (pairing first second owned ownedOther writing start).Relates
      (resolveParagraph replacer (fun _ => liftM context) first)
      (resolveParagraph replacer (fun _ => liftM context) second) := by
  have marked (paragraph : Nat) : Silent (changeSession fun session =>
      { session with resolved := addOnce paragraph session.resolved }) :=
    fun _ => ⟨_, runOn_changeSession _ _, rfl, rfl, rfl, id, rfl, [], rfl⟩
  have rest (text : List Char) : (pairing first second owned ownedOther writing start).Relates
      (do
        let tokens ← replacer.delimiters.tokens text
        tokens.forM (replaceToken replacer (fun _ => liftM context) first)
        if ← replacer.lineBreak.truth then replaceLineBreaks replacer first)
      (do
        let tokens ← replacer.delimiters.tokens text
        tokens.forM (replaceToken replacer (fun _ => liftM context) second)
        if ← replacer.lineBreak.truth then replaceLineBreaks replacer second) := by
    refine .bind (.lift _) fun tokens => .bind ?_ fun _ => .bind (.lift _) fun truth => ?_
    · exact .forM fun token => replaceToken_relates replacer context token
    · cases truth with
      | true => exact replaceLineBreaks_relates replacer
      | false => exact .pure _
  refine .bind (silent_relates (marked _) (marked _)) fun _ => ⟨?_, fun left right paired => ?_⟩
  · exact Keeps.bind (fun _ called => called) fun found => (rest (paragraphText found)).stays
  · obtain ⟨one, other, foundLeft, foundRight, same⟩ := paired.texts
    rw [runOn_bind, runOn_bind, runOn_node foundLeft, runOn_node foundRight]
    dsimp only
    rw [← same.paragraphText_eq]
    exact (rest (paragraphText one)).agrees left right paired

end Relates

section Independence

variable {one other : Node}

theorem Side.begin {paragraph : Nat} {writing : Nat → Prop} {world : World} (wellFormed : world.forest.WellFormed)
    (writes : ∀ index, WritesInto world paragraph index → writing index) :
    Side paragraph (Owned world.forest paragraph) writing world where
  wellFormed := wellFormed
  own := .inl rfl
  fresh _ late := .inr (.inr late)
  children node found child direct := .inr (.inl ⟨node, found, List.mem_map.mpr ⟨child, direct, rfl⟩⟩)
  apart index handler run present isRun free owned := free (writes index ⟨handler, run, present, isRun, owned⟩)

/-- Resolving a paragraph does not depend on how its text is cut into runs.  Two paragraphs with the same
text, perhaps of different documents, end with the same fault or the same text, and with the same errors
recorded, as long as no value calls a directive that is bound to a run of one of the two paragraphs.  What has been
compiled before may differ on the two sides; it is in order in every run. -/
theorem resolveParagraph_runs_irrelevant (replacer : Replacer) (context : Heap Context)
    (wellFormedLeft : left.outer.forest.WellFormed) (wellFormedRight : right.outer.forest.WellFormed)
    (foundLeft : left.outer.forest.find? first = some one)
    (foundRight : right.outer.forest.find? second = some other)
    (sameText : paragraphText one = paragraphText other) (noReturn : '\r' ∉ paragraphText one)
    (writable : Text.isWritable (paragraphText one) = true) (sameStore : left.store = right.store)
    (sameErrors : left.outer.session.errors = right.outer.session.errors)
    (sameAdditional : left.outer.additional = right.outer.additional)
    (prepared : Prepared left.outer.configured left.outer.compiled)
    (preparedOther : Prepared right.outer.configured right.outer.compiled)
    (sameHandlers : List.Forall₂ Alike left.outer.handlers right.outer.handlers)
    (unwritten : ¬ CalledOne left.outer.events
      (fun index => WritesInto left.outer first index ∨ WritesInto right.outer second index)
      (runOn (resolveParagraph replacer (fun _ => liftM context) first) left).2) :
    let leftRun := runOn (resolveParagraph replacer (fun _ => liftM context) first) left
    let rightRun := runOn (resolveParagraph replacer (fun _ => liftM context) second) right
    leftRun.1 = rightRun.1 ∧ leftRun.2.store = rightRun.2.store ∧
      leftRun.2.outer.session.errors = rightRun.2.outer.session.errors ∧
      ∃ one' other', leftRun.2.outer.forest.find? first = some one' ∧
        rightRun.2.outer.forest.find? second = some other' ∧
        paragraphText one' = paragraphText other' := by
  intro leftRun rightRun
  have paired : Paired first second (Owned left.outer.forest first) (Owned right.outer.forest second)
      (fun index => WritesInto left.outer first index ∨ WritesInto right.outer second index) left.outer.events
      left right :=
    { store := sameStore
      errors := sameErrors
      additional := sameAdditional
      prepared := prepared
      preparedOther := preparedOther
      handlers := sameHandlers
      here := .begin wellFormedLeft fun _ => .inl
      there := .begin wellFormedRight fun _ => .inr
      texts := ⟨one, other, foundLeft, foundRight, .ofText sameText noReturn writable⟩
      since := ⟨[], rfl⟩ }
  have resolved := (resolveParagraph_relates replacer context).agrees left right paired
  rcases resolved with called | ⟨outcome, after⟩
  · exact absurd called unwritten
  · obtain ⟨one', other', found, otherFound, same⟩ := after.texts
    exact ⟨outcome, after.store, after.errors, one', other', found, otherFound,
      same.paragraphText_eq⟩

/-- A document with two paragraphs of one text, in one run and in three, and another paragraph. -/
def cutTwice : Package where
  body := Node.ofTag Tag.body [createParagraph ["$\x7bx\x7d$\x7bwrite(x)\x7d".toList],
    createParagraph ["$".toList, "\x7bx\x7d$\x7bwr".toList, "ite(x)\x7d".toList], createParagraph ["word".toList]]
  headers := []
  footers := []
  comments := none
  commentsApart := false

/-- The document with a value for `x`, and a directive that writes into the run of the last paragraph. -/
def cutMachine : Machine World :=
  ⟨⟨#[.dict [(.text "x", .text "v"), (.text "write", .function (.directive 0 "replace_word_with"))]], 0⟩,
    World.ofPackage cutTwice [{ Handler.replacement with anchor := ⟨none, some 13, none⟩ }] []⟩

theorem resolveParagraph_runs_irrelevant_cutTwice :
    let context : Heap Context := pure (.mapping (.dict 0))
    let leftRun := runOn (resolveParagraph .standard (fun _ => liftM context) 2) cutMachine
    let rightRun := runOn (resolveParagraph .standard (fun _ => liftM context) 5) cutMachine
    (leftRun.2.outer.forest.find? 12).map paragraphText = some ['v'] ∧
      leftRun.1 = rightRun.1 ∧ leftRun.2.store = rightRun.2.store ∧
      leftRun.2.outer.session.errors = rightRun.2.outer.session.errors ∧
      ∃ one other, leftRun.2.outer.forest.find? 2 = some one ∧
        rightRun.2.outer.forest.find? 5 = some other ∧
        paragraphText one = paragraphText other := by
  intro context
  have wellFormed : cutMachine.outer.forest.WellFormed := ⟨by decide +kernel, by decide +kernel⟩
  have writes : ((runOn (resolveParagraph .standard (fun _ => liftM context) 2) cutMachine).2.outer.forest.find? 12).map
      paragraphText = some ['v'] := by decide +kernel
  have bound : ∀ handler ∈ cutMachine.outer.handlers, handler.anchor.run = some 13 := by decide +kernel
  have elsewhere {paragraph index : Nat} (other : 13 ≠ paragraph) (late : ¬ cutMachine.outer.forest.fresh ≤ 13)
      (apart : ∀ node ∈ cutMachine.outer.forest.find? paragraph, 13 ∉ node.children.map Node.key) :
      ¬ WritesInto cutMachine.outer paragraph index := by
    rintro ⟨handler, run, present, isRun, owned⟩
    obtain rfl : run = 13 := Option.some.inj (isRun.symm.trans (bound handler (List.mem_of_getElem? present)))
    rcases owned with same | ⟨node, found, member⟩ | tooLate
    · exact other same
    · exact apart node found member
    · exact late tooLate
  have unwritten : ¬ CalledOne cutMachine.outer.events
      (fun index => WritesInto cutMachine.outer 2 index ∨ WritesInto cutMachine.outer 5 index)
      (runOn (resolveParagraph .standard (fun _ => liftM context) 2) cutMachine).2 := by
    rintro ⟨-, index, -, -, -, writes | writes⟩
    · exact elsewhere (by decide) (by decide +kernel) (by decide +kernel) writes
    · exact elsewhere (by decide) (by decide +kernel) (by decide +kernel) writes
  have prepared : Prepared cutMachine.outer.configured cutMachine.outer.compiled := .ofPackage cutTwice _ _
  let letters := "$\x7bx\x7d$\x7bwrite(x)\x7d".toList
  have first : (cutMachine.outer.forest.find? 2).map paragraphText = some letters := by decide +kernel
  have second : (cutMachine.outer.forest.find? 5).map paragraphText = some letters := by decide +kernel
  obtain ⟨one, foundLeft, textLeft⟩ := Option.map_eq_some_iff.mp first
  obtain ⟨other, foundRight, textRight⟩ := Option.map_eq_some_iff.mp second
  have noReturn : '\r' ∉ paragraphText one := textLeft ▸ (by decide : '\r' ∉ letters)
  have writable : Text.isWritable (paragraphText one) = true := textLeft ▸ (by decide : Text.isWritable letters = true)
  exact ⟨writes, @resolveParagraph_runs_irrelevant 2 5 cutMachine cutMachine one other .standard context wellFormed
    wellFormed foundLeft foundRight (textLeft.trans textRight.symm) noReturn writable rfl rfl rfl prepared prepared
    (List.forall₂_same.mpr fun handler _ => .refl handler) unwritten⟩

end Independence

end Engine
end Imprint
