import Imprint.Proofs.UnreachableTrees
import Imprint.Stamping.Dispatch

/-! # Evaluating a directive

While a directive is evaluated, its anchor is what all handlers are bound to.  Afterwards there is one
more event, and whatever directives keep has been kept. -/
set_option autoImplicit false
namespace Imprint
open Imprint.Action Xml Document

/-! ## Taking part in a session -/

/-- A handler as it takes part in the current session, if it keeps one. -/
def Handler.joined (handler : Handler) : Handler :=
  if handler.isPlain then handler else { handler with inSession := true }

section Joined

variable (handler : Handler)

@[simp] theorem Handler.joined_interface : handler.joined.interface = handler.interface := by
  unfold joined
  split <;> rfl

@[simp] theorem Handler.joined_anchor : handler.joined.anchor = handler.anchor := by
  unfold joined
  split <;> rfl

@[simp] theorem Handler.joined_duty : handler.joined.duty = handler.duty := by
  unfold joined
  split <;> rfl

end Joined

/-- All handlers take part in the current session. -/
def World.joined (world : World) : World :=
  { world with handlers := world.handlers.map Handler.joined }

theorem World.joined_interfaces (world : World) :
    world.joined.handlers.map Handler.interface = world.handlers.map Handler.interface := by
  refine List.map_map.trans (List.map_congr_left fun handler _ => ?_)
  exact handler.joined_interface

theorem World.mem_joined {world : World} {handler : Handler} (member : handler ∈ world.joined.handlers) :
    ∃ old ∈ world.handlers, handler = old.joined := by
  obtain ⟨old, isOld, rfl⟩ := List.mem_map.mp member
  exact ⟨old, isOld, rfl⟩

theorem Engine.runOn_joinSession (machine : Machine World) :
    runOn joinSession machine = (.ok (), { machine with outer := machine.outer.joined }) := rfl

/-! ## Directives -/

/-- Whether an event is the evaluation of a directive. -/
def Event.isDirective : Event → Bool
  | .directive .. => true
  | _ => false

namespace Engine

variable {condition : Machine World → Prop}

theorem recordError_reports (expression reason action : String) (machine : Machine World) :
    ∃ after, runOn (recordError expression reason action) machine =
        (.ok (), { machine with outer := after }) ∧ Reports machine.outer after ∧
      after.session.errors = machine.outer.session.errors ++ [(expression, reason)] := by
  unfold recordError
  rw [runOn_bind, runOn_changeSession]
  dsimp only
  rw [runOn_bind, runOn_world]
  dsimp only
  split
  · exact ⟨_, rfl, ⟨rfl, rfl, rfl, rfl, rfl, rfl, rfl, rfl, List.prefix_append _ _, id⟩, rfl⟩
  · exact ⟨_, rfl, ⟨rfl, rfl, rfl, rfl, rfl, rfl, rfl, rfl, List.prefix_append _ _, id⟩, rfl⟩

theorem withHandlers_keeps (free : StoreFree condition) (builder : ProxyBuilder) :
    Keeps condition (withHandlers builder) := by
  refine Keeps.bind (fun _ holds => holds) fun world => ?_
  generalize world.handlers.zipIdx = handlers
  induction handlers generalizing builder with
  | nil => exact .pure _
  | cons handler rest hypothesis =>
    rw [List.foldlM_cons]
    exact Keeps.bind (.lift free _) fun builder => hypothesis builder

/-- Binds all handlers to an anchor. -/
def World.bound (world : World) (anchor : Anchor) : World :=
  { world with handlers := world.handlers.map fun handler => { handler with anchor } }

theorem runOn_bindHandlers (anchor : Anchor) (machine : Machine World) :
    runOn (bindHandlers anchor) machine =
      (.ok (), { machine with outer := World.bound machine.outer anchor }) := rfl

/-- A directive is evaluated after its handlers have been bound; from then on a condition is kept that
calls, reports and the note about the outcome keep. -/
theorem Frame.evaluateDirective_keeps (frame : Frame condition) (dispatcher : Dispatcher)
    (builder : ProxyBuilder) {expression : String} {anchor : Anchor}
    (noted : ∀ data succeeded, Keeps condition (note (.directive anchor expression data succeeded)))
    {start : Machine World} (bound : condition { start with outer := World.bound start.outer anchor }) :
    condition (runOn (evaluateDirective dispatcher builder expression anchor) start).2 := by
  unfold evaluateDirective
  refine Keeps.after (runOn_bindHandlers anchor start) ?_ bound
  refine Keeps.bind (withHandlers_keeps frame.free builder) fun extended =>
    Keeps.bind (.lift frame.free _) fun context => Keeps.bind (fun _ holds => holds) fun values =>
      Keeps.bind (frame.attempt_keeps _ _ _ (noted values)) fun outcome => ?_
  cases outcome with
  | resolved value =>
    cases dispatcher.verbose with
    | true => exact Keeps.bind (frame.say_keeps _) fun _ => .pure _
    | false => exact .pure _
  | unresolved expression reason =>
    exact Keeps.bind (frame.recordError_keeps _ _ _) fun _ => .pure _

/-- Evaluating a directive keeps a condition until its outcome is noted.  If the directive could not be
evaluated, an error is recorded. -/
theorem evaluateDirective_outcome (frame : Frame condition) {dispatcher : Dispatcher}
    {builder : ProxyBuilder} {expression : String} {anchor : Anchor} {start final : Machine World}
    {succeeded : Bool} (bound : condition { start with outer := World.bound start.outer anchor })
    (run : runOn (evaluateDirective dispatcher builder expression anchor) start =
      (.ok succeeded, final)) :
    ∃ middle data, condition middle ∧
      Reports (middle.outer.noting (.directive anchor expression data succeeded)) final.outer ∧
      (final.outer.session.errors = [] → succeeded = true) := by
  obtain ⟨_, here, isBound, run⟩ := bind_ok run
  have bound : condition here := by
    cases isBound
    exact bound
  obtain ⟨extended, ready, collected, run⟩ := bind_ok run
  have ready_ : condition ready := by
    have kept := withHandlers_keeps frame.free builder here bound
    rwa [collected] at kept
  obtain ⟨context, built, made, run⟩ := bind_ok run
  have built_ : condition built := by
    have kept := Keeps.lift frame.free (extended.build) ready ready_
    rwa [made] at kept
  obtain ⟨data, read, isData, run⟩ := bind_ok run
  rw [runOn_data] at isData
  cases isData
  obtain ⟨outcome, attempted, tried, run⟩ := bind_ok run
  obtain ⟨middle, success, holds, noted, meaning⟩ := frame.attempt_notes dispatcher.failing
    (.proxy context) expression (.directive anchor expression built.store) built_
  rw [tried] at noted meaning
  obtain rfl : attempted = _ := noted
  refine ⟨middle, built.store, holds, ?_⟩
  cases outcome with
  | resolved value =>
    obtain rfl : success = true := (meaning _ rfl).mpr ⟨value, rfl⟩
    cases verbose : dispatcher.verbose with
    | true =>
      rw [verbose] at run
      cases run
      exact ⟨⟨rfl, rfl, rfl, rfl, rfl, rfl, rfl, rfl, List.prefix_rfl, id⟩, fun _ => rfl⟩
    | false =>
      rw [verbose] at run
      cases run
      exact ⟨⟨rfl, rfl, rfl, rfl, rfl, rfl, rfl, rfl, List.prefix_rfl, id⟩, fun _ => rfl⟩
  | unresolved expression reason =>
    obtain rfl : success = false := by
      cases success with
      | false => rfl
      | true =>
        obtain ⟨value, impossible⟩ := (meaning _ rfl).mp rfl
        cases impossible
    obtain ⟨after, recorded, reports, errors⟩ := recordError_reports expression reason "directive"
      { middle with outer := middle.outer.noting (.directive anchor _ built.store false) }
    dsimp only at run
    rw [runOn_bind, recorded] at run
    cases run
    refine ⟨reports, fun spotless => ?_⟩
    rw [errors, List.append_eq_nil_iff] at spotless
    cases spotless.2

end Engine
end Imprint
