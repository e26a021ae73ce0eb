import Imprint.Proofs.UnreachableTrees
import Imprint.Stamping.Dispatch

/-! # What a commit keeps

A handler that carries out what it was asked for plants copies, resolves and moves them, and takes nodes
out of their trees.  A condition is kept by all of it if it is kept by each of these edits, where copies
have keys that are new. -/
set_option autoImplicit false
namespace Imprint
open Imprint.Action Xml Document

namespace Xml.Forest

/-- A planted tree has the first unused key. -/
theorem plant_key (forest : Forest) (tree : Node) : (forest.plant tree).1 = forest.fresh := by
  cases tree
  rfl

end Xml.Forest

namespace Engine

/-- How directives are found and evaluated where no option is set. -/
def plain : Dispatcher :=
  ⟨.ofScanner .directives, .standard, true, false, .ofReplacer .standard⟩

/-- What does not depend on the session is kept in one that is thrown away. -/
theorem inThrowawaySession_keeps {α : Type} {condition : Machine World → Prop}
    (sessionFree : ∀ update, Keeps condition (changeSession update)) (verbose : Bool) {body : Engine α}
    (kept : Keeps condition body) : Keeps condition (inThrowawaySession verbose body) := by
  unfold inThrowawaySession
  refine Keeps.bind (fun _ holds => holds) fun world => Keeps.bind (sessionFree _) fun _ => ?_
  refine Keeps.tryCatch (Keeps.bind kept fun _ => ?_) fun _ => ?_
  · exact Keeps.bind (sessionFree _) fun _ => .pure _
  · exact Keeps.bind (sessionFree _) fun _ => .throw _

theorem inSessionOf_keeps {α : Type} {condition : Machine World → Prop}
    (sessionFree : ∀ update, Keeps condition (changeSession update)) (handler : Handler)
    (verbose : Bool) {body : Engine α} (kept : Keeps condition body) :
    Keeps condition (inSessionOf handler verbose body) := by
  unfold inSessionOf
  split
  · exact kept
  · exact inThrowawaySession_keeps sessionFree verbose kept

/-- Whatever happens in a session that is thrown away, the old one is put back. -/
theorem inThrowawaySession_restores {α : Type} (verbose : Bool) (body : Engine α) (machine : Machine World) :
    (runOn (inThrowawaySession verbose body) machine).2.outer.session = machine.outer.session := by
  unfold inThrowawaySession
  rw [runOn_bind, runOn_world]
  dsimp only
  rw [runOn_bind, runOn_changeSession]
  dsimp only
  rw [runOn_tryCatch, runOn_bind]
  cases runOn body _ with
  | mk outcome after =>
    cases outcome with
    | ok value => rfl
    | error fault => rfl

/-- A condition that is kept while copies are planted and resolved.  The keys of copies are not below a
bound. -/
structure CopyFrame (bound : Nat) (condition : Machine World → Prop) : Prop extends Frame condition where
  fresh : ∀ machine, condition machine → bound ≤ machine.outer.forest.fresh
  planted : ∀ tree, Keeps condition (plantTree tree)
  edits : ∀ copy, bound ≤ copy → EditsAt copy condition
  marked : ∀ paragraph, Keeps condition (changeSession fun session =>
    { session with resolved := addOnce paragraph session.resolved })
  thrownAway : ∀ verbose (body : Engine Unit), Keeps condition body →
    Keeps condition (inThrowawaySession verbose body)
  valued : ∀ paragraph expression succeeded,
    Keeps condition (note (.value paragraph expression succeeded))

namespace CopyFrame

variable {bound : Nat} {condition : Machine World → Prop} (frame : CopyFrame bound condition)
  (settings : RepeatSettings) (handler : Handler)
include frame

theorem plantTree_gives (tree : Node) : Gives condition (bound ≤ ·) (plantTree tree) := by
  refine fun machine holds => ⟨frame.planted tree machine holds, ?_⟩
  intro key given
  have planted : (runOn (plantTree tree) machine).1 = .ok (machine.outer.forest.plant tree).1 := rfl
  rw [planted, Forest.plant_key] at given
  cases given
  exact frame.fresh machine holds

theorem copyForItem_gives (context : Context) (template : Nat) :
    Gives condition (bound ≤ ·) (copyForItem settings handler context template) := by
  have read : Keeps condition (node template) := fun _ holds => holds
  refine Gives.bind (Gives.bind read.gives fun node _ => frame.plantTree_gives node)
    fun copy fresh => Gives.bind (Keeps.gives ?_) fun _ _ => Gives.pure fresh
  have resolves : Keeps condition
      (resolveParagraph settings.replacer (fun _ => return context) copy) :=
    frame.resolveParagraph_keeps (frame.edits copy fresh) _ (.pure _)
      (fun expression succeeded => frame.valued _ expression succeeded) (frame.marked _)
  unfold inSessionOf
  split
  · exact resolves
  · exact frame.thrownAway _ _ resolves

theorem copiesForItem_gives (templates : List Nat) (item : Value) :
    Gives condition (fun copies => ∀ copy ∈ copies, bound ≤ copy)
      (copiesForItem settings handler templates item) :=
  Gives.bind (Keeps.lift frame.free _).gives fun _ _ =>
    .mapM fun template _ => frame.copyForItem_gives settings handler _ template

theorem repetitionOf_gives (pending : PendingRepeat) :
    Gives condition (fun copies => ∀ copy ∈ copies, bound ≤ copy)
      (repetitionOf settings handler pending) := by
  unfold repetitionOf
  split
  · have read : Keeps condition (node pending.anchor) := fun _ holds => holds
    exact Gives.bind read.gives fun node _ => Gives.bind (Keeps.lift frame.free _).gives
      fun paragraphs _ => .mapM fun paragraph _ => frame.plantTree_gives paragraph
  · refine Gives.bind (.mapM fun item _ => frame.copiesForItem_gives settings handler _ item)
      fun copies fresh => Gives.pure fun copy member => ?_
    obtain ⟨group, inCopies, inGroup⟩ := List.mem_flatten.mp member
    exact fresh group inCopies copy inGroup

end CopyFrame

/-- A condition that is kept while repetitions are carried out.  All handlers but plain ones have joined, and are
only asked for keys that may be edited. -/
structure RepeatFrame (bound : Nat) (may : Nat → Prop) (joined : Handler → Prop)
    (condition : Machine World → Prop) : Prop extends CopyFrame bound condition where
  asked : ∀ machine, condition machine → ∀ handler ∈ machine.outer.handlers,
    (handler.isPlain = false → joined handler) ∧ ∀ number ∈ handler.duty.keys, may number
  moved : ∀ copy anchor, bound ≤ copy → may anchor →
    Keeps condition (changeForest fun forest => forest.moveBefore copy anchor)
  detached : ∀ number, may number → Keeps condition (changeForest fun forest => forest.detach number)
  repeated : ∀ settings handler, joined handler → ∀ pending machine new after, condition machine →
    runOn (repetitionOf settings handler pending) machine = (.ok new, after) → condition after →
    condition { after with outer := after.outer.noting (.repeated pending new) }

/-- A condition that is kept by everything that a handler does when it commits. -/
structure CommitFrame (bound : Nat) (may : Nat → Prop) (joined : Handler → Prop)
    (condition : Machine World → Prop) : Prop extends RepeatFrame bound may joined condition where
  emptied : ∀ paragraph, may paragraph →
    Keeps condition (changeForest fun forest => forest.edit paragraph emptied)
  raised : ∀ target, may target →
    Keeps condition (changeForest fun forest => forest.update target withUpperCase)
  told : ∀ entry, Keeps condition (tell entry)

theorem isVerbose_keeps {condition : Machine World → Prop} (handler : Handler) : Keeps condition (isVerbose handler) :=
  Keeps.bind (fun _ holds => holds) fun _ => .pure _

namespace RepeatFrame

variable {bound : Nat} {may : Nat → Prop} {joined : Handler → Prop} {condition : Machine World → Prop}
  (frame : RepeatFrame bound may joined condition) (settings : RepeatSettings)
include frame

theorem commitRepeat_keeps {handler : Handler} (isJoined : joined handler) {pending : PendingRepeat}
    (anchor : may pending.anchor)
    (templates : ∀ template ∈ pending.templates, may template) :
    Keeps condition (commitRepeat settings handler pending) := by
  refine Keeps.bind (fun _ holds => holds) fun forest => ?_
  dsimp only
  split
  · exact .throw _
  · have repeats := frame.repetitionOf_gives settings handler pending
    refine Keeps.bindRun repeats.keeps fun machine new after holds run copied => ?_
    have fresh : ∀ copy ∈ new, bound ≤ copy := (repeats machine holds).2 new (by rw [run])
    have noted := frame.repeated settings handler isJoined pending machine new after holds run copied
    refine Keeps.after (runOn_note _ after) ?_ noted
    refine Keeps.bind (.forM fun copy member => frame.moved copy _ (fresh copy member) anchor) fun _ =>
      Keeps.bind (.forM fun template member => frame.detached template (templates template member)) fun _ =>
        Keeps.bind (isVerbose_keeps handler) fun verbose => ?_
    cases verbose with
    | true => exact frame.say_keeps _
    | false => exact .pure _

theorem pendingRepeats_gives (interface : Interface) : Gives condition
    (fun pending => ∀ repetition ∈ pending, may repetition.anchor ∧
      ∀ template ∈ repetition.templates, may template) (pendingRepeats interface) := by
  intro machine holds
  unfold pendingRepeats
  rw [runOn_bind, runOn_world]
  dsimp only
  split
  · rename_i pending anchor inSession owner found
    refine ⟨holds, ?_⟩
    rintro _ ⟨⟩ repetition member
    obtain ⟨-, asked⟩ := frame.asked machine holds _ (List.mem_of_find?_eq_some found)
    have known (number : Nat) (isKey : number ∈ repetition.anchor :: repetition.templates) : may number :=
      asked number (List.mem_flatMap.mpr ⟨repetition, member, isKey⟩)
    exact ⟨known _ List.mem_cons_self, fun template isTemplate => known template (List.mem_cons_of_mem _ isTemplate)⟩
  · refine ⟨holds, ?_⟩
    rintro _ ⟨⟩ repetition member
    cases member

theorem commitPosition_keeps {handler : Handler} (isJoined : joined handler) (size position : Nat) :
    Keeps condition (commitPosition settings handler size position) := by
  refine (Gives.bind (frame.pendingRepeats_gives handler.interface) fun pending known =>
    Keeps.gives ?_).keeps
  dsimp only
  split
  · exact .throw _
  · split
    · rename_i repetition found
      have member := List.mem_of_getElem? found
      exact frame.commitRepeat_keeps settings isJoined (known repetition member).1 (known repetition member).2
    · exact .pure _

end RepeatFrame

namespace CommitFrame

variable {bound : Nat} {may : Nat → Prop} {joined : Handler → Prop} {condition : Machine World → Prop}
  (frame : CommitFrame bound may joined condition)
  (settings : RepeatSettings) (handler : Handler)
include frame

theorem removeParagraph_keeps {paragraph : Nat} (allowed : may paragraph) :
    Keeps condition (removeParagraph paragraph) := by
  refine Keeps.bind (fun _ holds => holds) fun forest => ?_
  split
  · exact .throw _
  · rename_i parent _
    cases isOnlyParagraphOfCell parent with
    | true => exact frame.emptied paragraph allowed
    | false => exact frame.detached paragraph allowed

theorem removeElement_keeps {element : Nat} (allowed : may element) : Keeps condition (removeElement element) := by
  refine Keeps.bind (fun _ holds => holds) fun forest => ?_
  split
  · exact Keeps.bind (fun _ holds => holds) fun _ => .throw _
  · exact frame.detached element allowed

theorem commitDisplay_keeps {paragraphs rows tables : List Nat}
    (allowed : ∀ number ∈ (Duty.display paragraphs rows tables).keys, may number) :
    Keeps condition (commitDisplay handler paragraphs rows tables) := by
  simp only [Duty.keys, List.append_assoc, List.mem_append] at allowed
  refine Keeps.bind (.forM fun paragraph member => frame.removeParagraph_keeps (allowed _ (.inl member))) fun _ =>
    Keeps.bind (.forM fun element member => frame.removeElement_keeps
      (allowed _ (.inr (List.mem_append.mp member)))) fun _ =>
      Keeps.bind (isVerbose_keeps handler) fun verbose => ?_
  cases verbose with
  | true => exact frame.say_keeps _
  | false => exact .pure _

/-- Whatever a handler was asked for, carrying it out keeps the condition. -/
theorem commitHandler_keeps {handler : Handler} (isJoined : handler.isPlain = false → joined handler)
    (allowed : ∀ number ∈ handler.duty.keys, may number) :
    Keeps condition (commitHandler settings handler) := by
  unfold commitHandler
  split
  · rename_i pending duty
    have notPlain : handler.isPlain = false := by rw [Handler.isPlain, duty]
    exact .forM fun position _ => frame.commitPosition_keeps settings (isJoined notPlain) _ position
  · rename_i duty
    exact frame.commitDisplay_keeps handler (duty ▸ allowed)
  · exact .pure _
  · rename_i recorder duty
    rw [duty] at allowed
    refine Keeps.bind (frame.told _) fun _ => ?_
    cases recorder.upper with
    | true => exact .forM fun target member => frame.raised target (allowed target member)
    | false => exact .pure _

theorem commitAt_keeps (dispatcher : Dispatcher)
    (noted : ∀ place, Keeps condition (note (.committed place))) (place : Nat) :
    Keeps condition (commitAt dispatcher place) := by
  intro machine holds
  unfold commitAt
  rw [runOn_bind, runOn_world]
  dsimp only
  cases found : machine.outer.handlers[place]? with
  | none => exact holds
  | some handler =>
    obtain ⟨isJoined, allowed⟩ := frame.asked machine holds handler (List.mem_of_getElem? found)
    have commits : Keeps condition (note (.committed place) >>= fun _ =>
        commitHandler dispatcher.settings handler) :=
      Keeps.bind (noted place) fun _ => frame.commitHandler_keeps _ isJoined allowed
    cases dispatcher.verbose with
    | true => exact Keeps.bind (frame.say_keeps _) (fun _ => commits) machine holds
    | false => exact commits machine holds

end CommitFrame

end Engine
end Imprint
