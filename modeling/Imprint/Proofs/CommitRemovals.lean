import Imprint.Proofs.EventAccounting
/-! # What commits take out

Handlers are asked for what fits the document, and it still does when they carry it out: they put new
paragraphs in front of others, take out paragraphs that they were called for or that were repeated, and rows
and tables. -/
set_option autoImplicit false
namespace Imprint
open Imprint.Action Xml Document Node

/-- A run is tended, and what a handler was asked for fits the document. -/
structure Due (start : Forest) (valued known : Nat → Prop) (duty : Duty) (machine : Machine World) : Prop where
  attended : Attended start valued known machine
  fits : duty.Fits machine.outer.forest (· ∈ calledFor none machine.outer.events)

namespace Due

variable {start : Forest} {valued known : Nat → Prop} {duty : Duty} {machine : Machine World}

theorem spare (due : Due start valued known duty machine) {forest : Forest}
    (sparing : Forest.Sparing start.fresh (start.TextOf (Touched valued machine.outer.events))
      (Taken start known machine.outer.events) machine.outer.forest forest) :
    Due start valued known duty { machine with outer := { machine.outer with forest } } :=
  ⟨due.attended.spare sparing, due.fits.mono (fun _ _ => sparing.tagged) fun _ => id⟩

theorem detach (due : Due start valued known duty machine) {number : Nat}
    (taken : number < start.fresh → Taken start known machine.outer.events number) :
    Due start valued known duty { machine with outer := { machine.outer with
      forest := machine.outer.forest.detach number } } :=
  due.spare (due.attended.sparing.wellFormed.detach_sparing fun small _ _ _ _ _ => taken small)

/-- Tags are those of the beginning. -/
theorem tagged_origin (due : Due start valued known duty machine) {tag : Tag} {number : Nat}
    (isTagged : machine.outer.forest.Tagged tag number) (small : number < start.fresh) : start.Tagged tag number :=
  due.attended.sparing.tagged_origin isTagged small

theorem noted (due : Due start valued known duty machine) {event : Event} (unbound : event.bound? = none)
    (other : ∀ pending new, event ≠ .repeated pending new) :
    Due start valued known duty { machine with outer := machine.outer.noting event } :=
  ⟨due.attended.noted event unbound fun pending new same => absurd same (other pending new),
    due.fits.mono (fun _ _ => id) fun _ => calledFor_noted unbound⟩

theorem say_keeps (message : List Char) : Keeps (Due start valued known duty) (Engine.say message) :=
  fun machine due => ⟨Engine.attended_frame.say_keeps message machine due.attended, due.fits⟩

end Due

namespace Engine

variable {start : Forest} {valued known : Nat → Prop} {machine : Machine World}

/-- A repetition of paragraphs puts copies in front of its anchor, and takes the paragraphs out. -/
theorem commitRepeat_attended (positive : 0 < start.fresh) (settings : RepeatSettings) (handler : Handler)
    {pending : PendingRepeat} (attended : Attended start valued known machine)
    (templates : ∀ template ∈ pending.templates, machine.outer.forest.Tagged Tag.paragraph template) :
    Attended start valued known (runOn (commitRepeat settings handler pending) machine).2 := by
  unfold commitRepeat
  rw [runOn_bind, runOn_forest]
  dsimp only
  split
  · exact attended
  · have wellFormed := attended.sparing.wellFormed
    have isPositive := Nat.lt_of_lt_of_le positive attended.sparing.fresh
    obtain ⟨copied, fresh⟩ := (attended_copies positive).repetitionOf_gives settings handler pending machine attended
    have retained := ((retained_frame machine.outer.forest).repetitionOf_gives settings handler pending).keeps machine
      (.refl wellFormed isPositive)
    rw [runOn_bind]
    cases reached : runOn (repetitionOf settings handler pending) machine with
    | mk outcome middle =>
      rw [reached] at copied fresh retained
      cases outcome with
      | error fault => exact copied
      | ok new =>
        have paragraphs := repetitionOf_paragraphs settings handler wellFormed isPositive templates reached
        have noted : Attended start valued known { middle with outer := middle.outer.noting (.repeated pending new) } :=
          copied.noted _ rfl fun other others same => by
            cases same
            exact ⟨fun template member => retained.tagged (templates template member),
              fun copy member => ⟨fresh new rfl copy member, paragraphs copy member⟩⟩
        -- From here on the repetition is among the events, and tells what is put in and taken out.
        have rest (body : Engine Unit) (keeps : Keeps (fun after => Attended start valued known after ∧
            .repeated pending new ∈ after.outer.events) body) :
            Attended start valued known
              (runOn body { middle with outer := middle.outer.noting (.repeated pending new) }).2 :=
          (keeps _ ⟨noted, List.mem_cons_self⟩).1
        refine rest _ (Keeps.bind (.forM fun copy member => ?_) fun _ =>
          Keeps.bind (.forM fun template member => ?_) fun _ =>
            Keeps.bind (isVerbose_keeps handler) fun verbose => ?_)
        · rintro after ⟨attended, known⟩
          obtain ⟨isNew, isParagraph⟩ := (attended.repeated pending new known).2 copy member
          exact ⟨attended.spare (attended.sparing.wellFormed.moveBefore_sparing isNew isParagraph _), known⟩
        · rintro after ⟨attended, known⟩
          refine ⟨attended.spare (attended.sparing.wellFormed.detach_sparing fun small _ _ _ _ _ => ?_), known⟩
          have isParagraph := (attended.repeated pending new known).1 template member
          exact .inr (.inr (.inr ⟨attended.sparing.tagged_origin isParagraph small, .inr ⟨pending, new, known, member⟩⟩))
        · split
          · rintro after ⟨attended, noted⟩
            rw [runOn_say]
            exact ⟨attended.same rfl rfl rfl, noted⟩
          · exact .pure _

/-- What the handler of an interface is asked to repeat fits the document. -/
theorem pendingRepeats_fits {interface : Interface} (attended : Attended start valued known machine)
    {pending : List PendingRepeat} {after : Machine World}
    (run : runOn (pendingRepeats interface) machine = (.ok pending, after)) :
    after = machine ∧ ∀ repetition ∈ pending, ∀ template ∈ repetition.templates,
      machine.outer.forest.Tagged Tag.paragraph template := by
  unfold pendingRepeats at run
  obtain ⟨_, _, reads, run⟩ := bind_ok run
  cases reads
  split at run
  · rename_i found
    cases run
    exact ⟨rfl, attended.duties _ (List.mem_of_find?_eq_some found)⟩
  · cases run
    exact ⟨rfl, fun _ member => absurd member List.not_mem_nil⟩

theorem commitPosition_attended (positive : 0 < start.fresh) (settings : RepeatSettings) (handler : Handler)
    (size position : Nat) : Keeps (Attended start valued known) (commitPosition settings handler size position) := by
  have reads : Keeps (Attended start valued known) (pendingRepeats handler.interface) := by
    refine Keeps.bind (fun _ attended => attended) fun world => ?_
    split
    · exact .pure _
    · exact .pure _
  refine Keeps.bindRun reads fun machine pending after attended run _ => ?_
  obtain ⟨rfl, fits⟩ := pendingRepeats_fits attended run
  dsimp only
  split
  · exact attended
  · split
    · rename_i repetition found
      exact commitRepeat_attended positive settings handler attended (fits repetition (List.mem_of_getElem? found))
    · exact attended

/-- A paragraph that a handler was called for is taken out, or else loses what it holds. -/
theorem removeParagraph_due {paragraphs rows tables : List Nat} {paragraph : Nat} (member : paragraph ∈ paragraphs) :
    Keeps (Due start valued known (.display paragraphs rows tables)) (removeParagraph paragraph) := by
  intro machine due
  unfold removeParagraph
  rw [runOn_bind, runOn_forest]
  dsimp only
  obtain ⟨called, isParagraph⟩ := due.fits.1 paragraph member
  split
  · exact due
  · rename_i parent located
    rw [runOn_changeForest]
    dsimp only
    split
    · cases found : machine.outer.forest.find? paragraph with
      | none =>
        rw [edit_missing found]
        exact due
      | some node =>
        have edited : Forest.Edited (· = paragraph) machine.outer.forest (machine.outer.forest.edit paragraph emptied) :=
          due.attended.sparing.wellFormed.edit_edited found rfl ((Revised.refl node.children).filter _) rfl
        refine due.spare (edited.sparing due.attended.sparing.fresh ?_)
        rintro number small rfl
        obtain ⟨owner, inStart, rfl, tag⟩ := due.tagged_origin isParagraph small
        exact ⟨owner, inStart, tag, .inr (.inl called), .inl rfl⟩
    · exact due.detach fun small => .inr (.inr (.inr ⟨due.tagged_origin isParagraph small, .inl called⟩))

theorem removeElement_due {paragraphs rows tables : List Nat} {element : Nat} (member : element ∈ rows ++ tables) :
    Keeps (Due start valued known (.display paragraphs rows tables)) (removeElement element) := by
  intro machine due
  unfold removeElement
  rw [runOn_bind, runOn_forest]
  dsimp only
  split
  · have reads : Keeps (Due start valued known (.display paragraphs rows tables)) (node element) := fun _ due => due
    exact Keeps.bind reads (fun _ => .throw _) machine due
  · refine due.detach fun small => ?_
    rcases List.mem_append.mp member with isRow | isTable
    · exact .inr (.inl (due.tagged_origin (due.fits.2.1 element isRow) small))
    · exact .inr (.inr (.inl (due.tagged_origin (due.fits.2.2 element isTable) small)))

/-- Whatever a handler was asked for that fits the document, carrying it out is accounted for. -/
theorem commitHandler_due (positive : 0 < start.fresh) (settings : RepeatSettings) (handler : Handler)
    (due : Due start valued known handler.duty machine) :
    Attended start valued known (runOn (commitHandler settings handler) machine).2 := by
  unfold commitHandler
  cases isDuty : handler.duty with
  | repeatParagraphs pending =>
    exact Keeps.forM (fun position _ => commitPosition_attended positive settings handler _ position) machine due.attended
  | display paragraphs rows tables =>
    have removes : Keeps (Due start valued known (.display paragraphs rows tables))
        (commitDisplay handler paragraphs rows tables) := by
      refine Keeps.bind (.forM fun paragraph member => removeParagraph_due member) fun _ =>
        Keeps.bind (.forM fun element member => removeElement_due member) fun _ =>
          Keeps.bind (isVerbose_keeps handler) fun verbose => ?_
      cases verbose with
      | true => exact Due.say_keeps _
      | false => exact .pure _
    exact (removes machine (isDuty ▸ due)).attended
  | replaceWord => exact due.attended
  | record recorder =>
    have fits := due.fits
    rw [isDuty] at fits
    exact fits.elim

theorem commitAt_attended (positive : 0 < start.fresh) (dispatcher : Dispatcher) (place : Nat) :
    Keeps (Attended start valued known) (commitAt dispatcher place) := by
  intro machine attended
  unfold commitAt
  rw [runOn_bind, runOn_world]
  dsimp only
  cases found : machine.outer.handlers[place]? with
  | none => exact attended
  | some handler =>
    have due : Due start valued known handler.duty machine :=
      ⟨attended, attended.duties handler (List.mem_of_getElem? found)⟩
    have commits {machine : Machine World} (due : Due start valued known handler.duty machine) :
        Attended start valued known
          (runOn (note (.committed place) >>= fun _ => commitHandler dispatcher.settings handler) machine).2 := by
      rw [runOn_bind, runOn_note]
      dsimp only
      exact commitHandler_due positive dispatcher.settings handler (due.noted rfl fun _ _ impossible => by cases impossible)
    dsimp only
    cases dispatcher.verbose with
    | true =>
      rw [if_pos rfl, runOn_bind, runOn_say]
      dsimp only
      exact commits ⟨due.attended.same rfl rfl rfl, due.fits⟩
    | false =>
      rw [if_neg Bool.false_ne_true]
      exact commits due

/-- Whatever commits take out or rewrite is accounted for. -/
theorem commitHandlers_attended (positive : 0 < start.fresh) (dispatcher : Dispatcher) :
    Keeps (Attended start valued known) (commitHandlers dispatcher) :=
  Keeps.bind (fun _ attended => attended) fun _ => .forM fun place _ => commitAt_attended positive dispatcher place

end Engine
end Imprint
