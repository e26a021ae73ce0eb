import Imprint.Proofs.DetachedNodes
/-! # What the evaluation of a directive leaves behind

Whether it succeeds or not, evaluating a directive touches neither the comments nor the template.  Only a
handler one of whose directives was called may have been asked for more, and only the run that the
directive is bound to may have been written to. -/
set_option autoImplicit false
namespace Imprint
open Imprint.Action Xml Document

/-- A text was written into a run, or the run lost the text that it had. -/
inductive RunEdit (run : Nat) (before : Forest) : Forest → Prop where
  | written (letters : List Char) : RunEdit run before (before.edit run fun node => setRunText node letters)
  | blanked : RunEdit run before (before.edit run withoutText)

/-- What has happened to a world by some events.  Every handler is bound to the anchor; it has been asked
for what it had been asked for before, or else one of its directives was called. -/
structure Traces (anchor : Anchor) (before : World) (during : List Event) (after : World) : Prop where
  events : after.events = during ++ before.events
  ofWalk : ∀ event ∈ during, event.ofWalk = true
  template : after.template = before.template
  comments : after.session.comments = before.session.comments
  consumed : after.session.consumed = before.session.consumed
  resolved : after.session.resolved = before.session.resolved
  errors : before.session.errors <+: after.session.errors
  handlers : after.handlers.length = before.handlers.length
  anchors : ∀ handler ∈ after.handlers, handler.anchor = anchor
  duties : ∀ (place : Nat) (handler : Handler), after.handlers[place]? = some handler →
    ∃ old, before.handlers[place]? = some old ∧ old.duty.Grows handler.duty ∧
      (handler.duty = old.duty ∨ ∃ method, Event.called place method ∈ during)
  forest : after.forest = before.forest ∨ ∃ run, anchor.run = some run ∧
    Relation.ReflTransGen (RunEdit run) before.forest after.forest ∧
    ∃ place method handler, Event.called place method ∈ during ∧
      before.handlers[place]? = some handler ∧ handler.duty = .replaceWord

namespace Traces

variable {anchor : Anchor} {before after last : World} {during : List Event}

theorem bound (world : World) (anchor : Anchor) :
    Traces anchor world [] (Engine.World.bound world anchor) where
  events := rfl
  ofWalk _ member := absurd member List.not_mem_nil
  template := rfl
  comments := rfl
  consumed := rfl
  resolved := rfl
  errors := List.prefix_rfl
  handlers := by simp [Engine.World.bound]
  anchors handler member := by
    obtain ⟨old, -, rfl⟩ := List.mem_map.mp member
    rfl
  duties place handler present := by
    simp only [Engine.World.bound, List.getElem?_map] at present
    obtain ⟨old, found, rfl⟩ := Option.map_eq_some_iff.mp present
    exact ⟨old, found, .same _, .inl rfl⟩
  forest := .inl rfl

theorem noted (traces : Traces anchor before during after) {event : Event} (ofWalk : event.ofWalk = true) :
    Traces anchor before (event :: during) (after.noting event) where
  events := congrArg (event :: ·) traces.events
  ofWalk other member := by
    rcases List.mem_cons.mp member with rfl | member
    · exact ofWalk
    · exact traces.ofWalk other member
  template := traces.template
  comments := traces.comments
  consumed := traces.consumed
  resolved := traces.resolved
  errors := traces.errors
  handlers := traces.handlers
  anchors := traces.anchors
  duties place handler present := by
    obtain ⟨old, found, grows, same | ⟨method, called⟩⟩ := traces.duties place handler present
    · exact ⟨old, found, grows, .inl same⟩
    · exact ⟨old, found, grows, .inr ⟨method, List.mem_cons_of_mem _ called⟩⟩
  forest := by
    refine traces.forest.imp_right ?_
    rintro ⟨run, isRun, edits, place, method, handler, called, there⟩
    exact ⟨run, isRun, edits, place, method, handler, List.mem_cons_of_mem _ called, there⟩

theorem reported (traces : Traces anchor before during after) (reports : Reports after last) :
    Traces anchor before during last where
  events := reports.events.trans traces.events
  ofWalk := traces.ofWalk
  template := reports.template.trans traces.template
  comments := reports.comments.trans traces.comments
  consumed := reports.consumed.trans traces.consumed
  resolved := reports.resolved.trans traces.resolved
  errors := traces.errors.trans reports.errors
  handlers := reports.handlers ▸ traces.handlers
  anchors := reports.handlers ▸ traces.anchors
  duties := reports.handlers ▸ traces.duties
  forest := reports.forest ▸ traces.forest

/-- Only the handler that has been called is asked for more. -/
theorem asked (traces : Traces anchor before during after) {index : Nat} {method : String}
    (called : Event.called index method ∈ during) {handler : Handler} {duty : Duty}
    (present : after.handlers[index]? = some handler) (grows : handler.duty.Grows duty) :
    Traces anchor before during { after with
      handlers := after.handlers.modify index fun other => { other with duty } } where
  events := traces.events
  ofWalk := traces.ofWalk
  template := traces.template
  comments := traces.comments
  consumed := traces.consumed
  resolved := traces.resolved
  errors := traces.errors
  handlers := (List.length_modify _ _ _).trans traces.handlers
  anchors other member := by
    rcases mem_modify member with old | ⟨old, found, rfl⟩
    · exact traces.anchors other old
    · exact traces.anchors old (List.mem_of_getElem? found)
  duties place other there := by
    rw [List.getElem?_modify] at there
    obtain ⟨now, found, rfl⟩ := Option.map_eq_some_iff.mp there
    obtain ⟨old, isOld, before, outcome⟩ := traces.duties place now found
    split
    · rename_i here
      subst here
      obtain rfl := Option.some.inj (found.symm.trans present)
      exact ⟨old, isOld, before.trans grows, .inr ⟨method, called⟩⟩
    · exact ⟨old, isOld, before, outcome⟩
  forest := traces.forest

/-- Only a handler of replaced words writes to the run. -/
theorem edited (traces : Traces anchor before during after) {index : Nat} {method : String}
    (called : Event.called index method ∈ during) {handler : Handler} {run : Nat}
    (present : after.handlers[index]? = some handler) (duty : handler.duty = .replaceWord)
    (isBound : handler.anchor.run = some run) {forest : Forest} (edit : RunEdit run after.forest forest) :
    Traces anchor before during { after with forest } where
  events := traces.events
  ofWalk := traces.ofWalk
  template := traces.template
  comments := traces.comments
  consumed := traces.consumed
  resolved := traces.resolved
  errors := traces.errors
  handlers := traces.handlers
  anchors := traces.anchors
  duties := traces.duties
  forest := by
    have isRun : anchor.run = some run := by
      rw [← traces.anchors handler (List.mem_of_getElem? present)]
      exact isBound
    obtain ⟨old, isOld, grows, -⟩ := traces.duties index handler present
    have wasReplacing : old.duty = .replaceWord := by
      rw [duty] at grows
      cases isDuty : old.duty with
      | replaceWord => rfl
      | _ =>
        rw [isDuty] at grows
        cases grows
    refine .inr ⟨run, isRun, ?_, index, method, old, called, isOld, wasReplacing⟩
    rcases traces.forest with same | ⟨other, isOther, edits, -⟩
    · rw [← same]
      exact .single edit
    · obtain rfl := Option.some.inj (isRun.symm.trans isOther)
      exact edits.tail edit

/-- An evaluation that is bound to no run leaves the trees alone. -/
theorem forest_unbound (traces : Traces anchor before during after) (unbound : anchor.run = none) :
    after.forest = before.forest := by
  refine traces.forest.resolve_right ?_
  rintro ⟨run, isRun, -⟩
  rw [unbound] at isRun
  cases isRun

/-- An evaluation touches nothing but the run that it is bound to. -/
theorem forest_edited (traces : Traces anchor before during after) (wellFormed : before.forest.WellFormed) :
    Forest.Edited (fun number => before.forest.fresh ≤ number ∨ anchor.run = some number) before.forest
      after.forest := by
  rcases traces.forest with same | ⟨run, isRun, edits, -⟩
  · rw [same]
    exact .refl wellFormed
  · generalize after.forest = final at edits ⊢
    induction edits with
    | refl => exact .refl wellFormed
    | tail _ edit edited =>
      have step {middle : Forest} (edited : Forest.Edited (fun number => before.forest.fresh ≤ number ∨
            anchor.run = some number) before.forest middle) {change : Node → Node}
          (head : ∀ node, (change node).head = node.head)
          (revised : ∀ node, Node.Revised (fun number => before.forest.fresh ≤ number ∨
            anchor.run = some number) node.children (change node).children) :
          Forest.Edited (fun number => before.forest.fresh ≤ number ∨ anchor.run = some number)
            before.forest (middle.edit run change) := by
        cases found : middle.find? run with
        | none =>
          rw [Engine.edit_missing found]
          exact edited
        | some node =>
          exact edited.trans
            (edited.wellFormed.edit_edited found (head node) (revised node) (.inr isRun))
      cases edit with
      | written letters =>
        exact step edited (fun _ => rfl) fun node => revised_setRunText node (.refl _) letters
      | blanked => exact step edited (fun _ => rfl) fun node => revised_withoutText node

/-- An evaluation that calls no directive leaves nothing behind. -/
theorem uncalled (traces : Traces anchor before during after)
    (uncalled : ∀ place method, Event.called place method ∉ during) :
    after.forest = before.forest ∧ after.handlers.map Handler.duty = before.handlers.map Handler.duty := by
  refine ⟨traces.forest.resolve_right ?_, List.ext_getElem? fun place => ?_⟩
  · rintro ⟨_, -, -, place, method, _, called, -⟩
    exact uncalled place method called
  · rw [List.getElem?_map, List.getElem?_map]
    cases present : after.handlers[place]? with
    | none =>
      have missing := List.getElem?_eq_none_iff.mp present
      rw [traces.handlers] at missing
      rw [List.getElem?_eq_none_iff.mpr missing]
    | some handler =>
      obtain ⟨old, found, -, same | ⟨method, called⟩⟩ := traces.duties place handler present
      · rw [found, Option.map_some, Option.map_some, same]
      · exact absurd called (uncalled place method)

end Traces

namespace Engine

variable {anchor : Anchor} {before : World}

theorem traces_proof (index : Nat) : StepProof index fun machine => ∃ during,
    Traces anchor before during machine.outer ∧ ∃ method, Event.called index method ∈ during where
  free _ _ traced := traced
  step machine after traced step := by
    obtain ⟨during, traces, method, called⟩ := traced
    refine ⟨during, ?_, method, called⟩
    cases step with
    | asked present asks => exact traces.asked called present asks.grows
    | written present duty bound letters => exact traces.edited called present duty bound (.written letters)
    | blanked present duty bound => exact traces.edited called present duty bound .blanked
    | told entry => exact traces.reported ⟨rfl, rfl, rfl, rfl, rfl, rfl, rfl, rfl, List.prefix_rfl, id⟩

theorem traces_frame : Frame fun machine => ∃ during, Traces anchor before during machine.outer where
  free _ _ traced := traced
  called index method arguments := by
    rintro machine ⟨during, traces⟩
    obtain ⟨longer, traced, -⟩ := (traces_proof index).callDirective_after method arguments
      ⟨.called index method :: during, traces.noted rfl, method, List.mem_cons_self⟩
    exact ⟨longer, traced⟩
  reports _ _ traced reports := by
    obtain ⟨during, traces⟩ := traced
    exact ⟨during, traces.reported reports⟩

theorem evaluateDirective_leaves (dispatcher : Dispatcher) (builder : ProxyBuilder) (expression : String)
    (anchor : Anchor) (machine : Machine World) : ∃ during, Traces anchor machine.outer during
      (runOn (evaluateDirective dispatcher builder expression anchor) machine).2.outer := by
  have noted (data : Store) (succeeded : Bool) :
      Keeps (fun after => ∃ during, Traces anchor machine.outer during after.outer)
        (note (.directive anchor expression data succeeded)) := by
    rintro middle ⟨during, traces⟩
    exact ⟨_, traces.noted rfl⟩
  exact traces_frame.evaluateDirective_keeps dispatcher builder noted ⟨[], .bound machine.outer anchor⟩

/-- However the evaluation of a directive ends, the comments stay as they are, every handler is only asked
for more by calls of its own directives, and the trees are only written to in the run that the directive
is bound to, by calls that replace its text.  Without a run the trees stay as they are, and without any
call nothing is left behind. -/
theorem evaluateDirective_traces (dispatcher : Dispatcher) (builder : ProxyBuilder) (expression : String)
    (anchor : Anchor) (machine : Machine World) :
    ∃ during after, (runOn (evaluateDirective dispatcher builder expression anchor) machine).2.outer = after ∧
      Traces anchor machine.outer during after ∧
      (anchor.run = none → after.forest = machine.outer.forest) ∧
      ((∀ place method, Event.called place method ∉ during) → after.forest = machine.outer.forest ∧
        after.handlers.map Handler.duty = machine.outer.handlers.map Handler.duty) := by
  obtain ⟨during, traces⟩ := evaluateDirective_leaves dispatcher builder expression anchor machine
  exact ⟨during, _, rfl, traces, traces.forest_unbound, traces.uncalled⟩

end Engine
end Imprint
