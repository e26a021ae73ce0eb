import Imprint.Proofs.ConsumptionLedger
import Imprint.Proofs.EventAccounting
/-! # What a walk rewrites

A walk rewrites the text of a paragraph only if a directive is called for it, or if a directive inside of its
text has been evaluated.  It takes nothing out. -/
set_option autoImplicit false
namespace Imprint
open Imprint.Action Xml Document Node

/-- Handlers may be bound to another paragraph. -/
theorem Tended.rebound {start : Forest} {rewritten removed called : Nat → Prop} {bound : Option Nat} {world after : World}
    (tended : Tended start rewritten removed called bound world) (forest : after.forest = world.forest)
    (duties : after.handlers.map Handler.duty = world.handlers.map Handler.duty) {anchor : Anchor}
    (anchors : ∀ handler ∈ after.handlers, handler.anchor = anchor) {paragraph : Nat}
    (isBound : anchor.paragraph = some paragraph) (isParagraph : world.forest.Tagged Tag.paragraph paragraph)
    (runs : ∀ run, anchor.run = some run → start.RunOf paragraph run)
    (events : ∀ pending new, .repeated pending new ∈ after.events → .repeated pending new ∈ world.events) :
    Tended start rewritten removed called (some paragraph) after where
  opened := tended.opened
  sparing := forest ▸ tended.sparing
  duties handler member := by
    have held : handler.duty ∈ world.handlers.map Handler.duty := duties ▸ List.mem_map.mpr ⟨handler, member, rfl⟩
    obtain ⟨other, isOther, same⟩ := List.mem_map.mp held
    exact forest ▸ same ▸ tended.duties other isOther
  anchors handler member := (congrArg Anchor.paragraph (anchors handler member)).trans isBound
  runs handler member run isRun := ⟨paragraph, rfl, runs run (by rw [← anchors handler member]; exact isRun)⟩
  paragraph other same := by
    cases same
    exact forest ▸ isParagraph
  repeated pending new noted := forest ▸ tended.repeated pending new (events pending new noted)

/-- All handlers are bound to a paragraph for the evaluation of a directive. -/
theorem Attended.bind {start : Forest} {valued known : Nat → Prop} {machine : Machine World}
    (attended : Attended start valued known machine) {anchor : Anchor} {paragraph : Nat}
    (isBound : anchor.paragraph = some paragraph) (isParagraph : start.Tagged Tag.paragraph paragraph)
    (runs : ∀ run, anchor.run = some run → start.RunOf paragraph run) :
    Tended start (Touched valued machine.outer.events) (Taken start known machine.outer.events)
      (· ∈ calledFor none machine.outer.events) (some paragraph) (Engine.World.bound machine.outer anchor) := by
  refine Tended.rebound attended ?_ ?_ ?_ isBound (attended.sparing.tagged isParagraph) runs fun _ _ => id
  · rfl
  · simp [Engine.World.bound]
  · intro handler member
    obtain ⟨old, -, rfl⟩ := List.mem_map.mp member
    rfl

/-- A run is tended while it goes through the document, between the evaluations of two directives. -/
structure Strolled (start : Forest) (valued known : Nat → Prop) (machine : Machine World) : Prop where
  attended : Attended start valued known machine
  attributed : Attributed machine.outer.events

namespace Engine

variable {start : Forest} {valued known : Nat → Prop} {dispatcher : Dispatcher} {builder : ProxyBuilder}
  {machine final : Machine World} {paragraph : Nat}

/-- The evaluation of a directive is accounted for if it comes to its end. -/
theorem evaluateDirective_strolled {expression : String} {anchor : Anchor} {succeeded : Bool}
    (strolled : Strolled start valued known machine) (isBound : anchor.paragraph = some paragraph)
    (isParagraph : start.Tagged Tag.paragraph paragraph) (runs : ∀ run, anchor.run = some run → start.RunOf paragraph run)
    (run : runOn (evaluateDirective dispatcher builder expression anchor) machine = (.ok succeeded, final)) :
    Strolled start valued known final ∧ ∃ data, .directive anchor expression data succeeded ∈ final.outer.events := by
  obtain ⟨attended, attributed⟩ := strolled
  have tagged := attended.sparing.tagged isParagraph
  have begun : Tended start (fun number => Touched valued machine.outer.events number ∨ number = paragraph)
      (Taken start known machine.outer.events)
      (fun number => number ∈ calledFor none machine.outer.events ∨ number = paragraph) (some paragraph)
      (World.bound machine.outer anchor) :=
    (attended.bind isBound isParagraph runs).mono (fun _ => .inl) (fun _ _ => id) fun _ => .inl
  have tending : Frame fun after => Tended start (fun number => Touched valued machine.outer.events number ∨ number = paragraph)
      (Taken start known machine.outer.events)
      (fun number => number ∈ calledFor none machine.outer.events ∨ number = paragraph) (some paragraph) after.outer :=
    tended_frame (fun other same => .inr (Option.some.inj same).symm) fun other same => .inr (Option.some.inj same).symm
  have frame := tending.both ((@traces_frame anchor machine.outer).both (calling_frame machine.outer.events))
  obtain ⟨middle, data, ⟨tended, ⟨during, traces⟩, calls, since, calling⟩, reports, -⟩ :=
    evaluateDirective_outcome frame ⟨begun, ⟨[], .bound machine.outer anchor⟩, .refl _⟩ run
  obtain rfl : during = calls := List.append_cancel_right (traces.events.symm.trans since)
  have unbound : ∀ call ∈ during, call.bound? = none := fun call member => by
    have passes := calling call member
    cases call <;> first | rfl | cases passes
  have events : final.outer.events = .directive anchor expression data succeeded :: (during ++ machine.outer.events) := by
    rw [reports.events, World.noting_events, traces.events]
  have eventBound : (Event.directive anchor expression data succeeded).bound? = some paragraph := isBound
  have calledAfter (other : Nat) : other ∈ calledFor none final.outer.events ↔
      (other = paragraph ∧ ∃ call ∈ during, call.isCall = true) ∨ other ∈ calledFor none machine.outer.events := by
    rw [events, calledFor_bound eventBound, mem_calledFor_calls unbound attributed]
  have boundAfter : final.outer.events.findSome? Event.bound? = some paragraph := by
    rw [events, List.findSome?_cons, eventBound]
  have called : ∀ other ∈ calledFor none machine.outer.events, other ∈ calledFor none final.outer.events :=
    fun other before => (calledAfter other).mpr (.inr before)
  have later : machine.outer.events ⊆ final.outer.events := by
    rw [events]
    exact List.subset_cons_of_subset _ (List.subset_append_right _ _)
  have noRepetition (pending : PendingRepeat) (new : List Nat) (member : .repeated pending new ∈ final.outer.events) :
      .repeated pending new ∈ middle.outer.events := by
    rw [reports.events, World.noting_events] at member
    exact (List.mem_cons.mp member).resolve_left (by simp)
  refine ⟨⟨?_, ?_⟩, data, events ▸ List.mem_cons_self⟩
  · unfold Attended
    rw [boundAfter]
    by_cases anyCall : ∃ call ∈ during, call.isCall = true
    · have isCalled : paragraph ∈ calledFor none final.outer.events := (calledAfter paragraph).mpr (.inl ⟨rfl, anyCall⟩)
      refine (tended.mono ?_ (fun _ _ => Taken.later called later) ?_).same reports.forest reports.handlers noRepetition
      · rintro other (before | rfl)
        · exact before.later called later
        · exact .inr (.inl isCalled)
      · rintro other (before | rfl)
        · exact called other before
        · exact isCalled
    · -- Without a call, only the anchors are others than before.
      obtain ⟨sameForest, sameDuties⟩ := traces.uncalled fun place method member => anyCall ⟨_, member, rfl⟩
      have rebound : Tended start (Touched valued machine.outer.events) (Taken start known machine.outer.events)
          (· ∈ calledFor none machine.outer.events) (some paragraph) final.outer := by
        refine Tended.rebound attended (reports.forest.trans sameForest) (by rw [reports.handlers]; exact sameDuties)
          (reports.handlers ▸ traces.anchors) isBound tagged runs fun pending new member => ?_
        have among := noRepetition pending new member
        rw [traces.events] at among
        refine (List.mem_append.mp among).resolve_left fun call => ?_
        have ofWalk := traces.ofWalk _ call
        cases ofWalk
      exact rebound.mono (fun _ => Touched.later called later) (fun _ _ => Taken.later called later) called
  · rw [events]
    exact .bound eventBound

/-- The directive of a comment. -/
theorem runComment_strolled {run : Option Nat} (isParagraph : start.Tagged Tag.paragraph paragraph)
    (runs : ∀ number, run = some number → start.RunOf paragraph number) (id : Option String) :
    Leads (Strolled start valued known) (runComment dispatcher builder paragraph run id) := by
  have reads : Keeps (Strolled start valued known) (pendingComment id) := by
    refine Keeps.bind (fun _ strolled => strolled) fun world => ?_
    split
    · exact .pure _
    · exact .pure _
  refine Leads.bind reads.leads fun found => ?_
  cases found with
  | none => exact (Keeps.pure _).leads
  | some comment =>
    refine Leads.bind (fun machine strolled succeeded after evaluates => ?_) fun succeeded => ?_
    · exact (evaluateDirective_strolled strolled rfl isParagraph runs evaluates).1
    · cases succeeded with
      | true =>
        have consumes : Keeps (Strolled start valued known) (consume comment) := fun machine strolled =>
          ⟨strolled.attended.same rfl rfl rfl, strolled.attributed⟩
        exact consumes.leads
      | false => exact (Keeps.pure _).leads

/-- A directive inside of a text is cut out of it when it has been evaluated. -/
theorem runToken_strolled (isParagraph : start.Tagged Tag.paragraph paragraph) (token : List Char) :
    Leads (Strolled start valued known) (runToken dispatcher builder paragraph token) := by
  intro machine strolled value final run
  obtain ⟨succeeded, middle, evaluates, run⟩ := bind_ok run
  obtain ⟨evaluated, data, noted⟩ := evaluateDirective_strolled strolled rfl isParagraph
    (fun _ impossible => by cases impossible) evaluates
  cases succeeded with
  | false =>
    cases run
    exact evaluated
  | true =>
    have edits : EditsAt paragraph fun after => Strolled start valued known after ∧
        .directive ⟨some paragraph, none, none⟩ (String.ofList (dispatcher.delimiters.strip token)) data true ∈
          after.outer.events := by
      rintro after node changed ⟨strolled, noted⟩ found revised
      have touched : Touched valued after.outer.events paragraph := .inr (.inr ⟨_, _, noted⟩)
      refine ⟨⟨?_, strolled.attributed⟩, noted⟩
      exact Tended.edit_paragraph strolled.attended
        (.inr ⟨touched, strolled.attended.sparing.tagged isParagraph⟩) found revised
    have replaced := replace_keeps (fun _ _ holds => ⟨⟨holds.1.attended, holds.1.attributed⟩, holds.2⟩) edits dispatcher.replacer token .null middle
      ⟨evaluated, noted⟩
    rw [if_pos rfl] at run
    rw [run] at replaced
    exact replaced.1

theorem visitParagraph_strolled (isParagraph : start.Tagged Tag.paragraph paragraph) :
    Leads (Strolled start valued known) (visitParagraph dispatcher builder paragraph) := by
  have free : StoreFree (Strolled start valued known) := fun _ _ strolled => ⟨strolled.attended, strolled.attributed⟩
  have read : Keeps (Strolled start valued known) forest := fun _ strolled => strolled
  have readNode : Keeps (Strolled start valued known) (node paragraph) := fun _ strolled => strolled
  refine Leads.bind read.leads fun forest => Leads.bind ?_ fun _ => ?_
  · exact runComment_strolled isParagraph (fun _ impossible => by cases impossible) _
  · refine Leads.bind readNode.leads fun node => Leads.bind (Keeps.lift free _).leads fun tokens => ?_
    exact Leads.forM fun token _ => runToken_strolled isParagraph token

theorem visitRun_strolled (isParagraph : start.Tagged Tag.paragraph paragraph) {run : Nat}
    (isRun : start.RunOf paragraph run) :
    Leads (Strolled start valued known) (visitRun dispatcher builder run paragraph) := by
  have read : Keeps (Strolled start valued known) forest := fun _ strolled => strolled
  refine Leads.bind read.leads fun forest => runComment_strolled isParagraph ?_ _
  rintro number ⟨⟩
  exact isRun

theorem visitParagraphs_strolled (paragraphs : List Nat)
    (isParagraph : ∀ paragraph ∈ paragraphs, start.Tagged Tag.paragraph paragraph) :
    Leads (Strolled start valued known) (visitParagraphs forest (visitParagraph dispatcher builder)
      (visitRun dispatcher builder) paragraphs) := by
  induction paragraphs with
  | nil => exact (Keeps.pure _).leads
  | cons paragraph rest hypothesis =>
    intro machine strolled value final run
    have own := isParagraph paragraph List.mem_cons_self
    obtain ⟨_, _, reads, run⟩ := bind_ok run
    cases reads
    have runs : ∀ run ∈ runsOf machine.outer.forest paragraph, start.RunOf paragraph run := by
      intro run member
      obtain ⟨node, found, child, direct, isARun, rfl⟩ := mem_runsOf member
      obtain ⟨inForest, rfl⟩ := strolled.attended.sparing.wellFormed.find?_iff.mp found
      exact Tended.runOf strolled.attended inForest direct isARun
    refine Leads.bind (.forM fun run member => visitRun_strolled own (runs run member))
      (fun _ => Leads.bind (visitParagraph_strolled own) fun _ => ?_) machine strolled value final run
    exact hypothesis fun other member => isParagraph other (List.mem_cons_of_mem _ member)

/-- A walk that comes to its end is accounted for. -/
theorem evaluateDirectives_strolled (strolled : Strolled start valued known machine)
    (paragraphs : ∀ paragraph ∈ paragraphsBelow machine.outer.forest machine.outer.template.roots,
      start.Tagged Tag.paragraph paragraph)
    (run : runOn (evaluateDirectives dispatcher builder) machine = (.ok (), final)) :
    Strolled start valued known final :=
  visitParagraphs_strolled _ paragraphs machine strolled () final run

end Engine
end Imprint
