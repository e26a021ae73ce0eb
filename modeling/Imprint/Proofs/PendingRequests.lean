import Imprint.Proofs.OverlappingRepeats
/-! # What is about to be carried out

When a walk has come to its end, the templates of every repetition that was asked for stand beside its anchor.
As long as no directive is called any more, handlers carry out what they had been asked for by then, and nothing
else. -/
set_option autoImplicit false
namespace Imprint
open Imprint.Action Xml Document Node

/-! ## Templates -/

/-- A repetition whose templates stand beside its anchor, as long as they have parents.  None of them is a section,
unless the anchor is one. -/
structure PendingRepeat.Grouped (roots : List Nat) (forest : Forest) (repetition : PendingRepeat) : Prop where
  old : ∀ template ∈ repetition.templates, template < forest.fresh ∧ repetition.anchor < forest.fresh
  inside : ∀ template ∈ repetition.templates, template = repetition.anchor ∨ template ∉ roots
  beside : ∀ template ∈ repetition.templates, ∀ node ∈ forest.nodes, template ∈ node.children.map key →
    ∀ other ∈ forest.nodes, repetition.anchor ∈ other.children.map key → other.key = node.key

theorem PendingRepeat.Grouped.step {roots : List Nat} {before after : Forest} {repetition : PendingRepeat}
    (grouped : repetition.Grouped roots before) (loosened : Forest.Loosened before.fresh before after) :
    repetition.Grouped roots after where
  old template member := (grouped.old template member).imp (Nat.lt_of_lt_of_le · loosened.fresh)
    (Nat.lt_of_lt_of_le · loosened.fresh)
  inside := grouped.inside
  beside template member node inAfter held other alsoInAfter heldToo := by
    obtain ⟨small, smallAnchor⟩ := grouped.old template member
    obtain ⟨child, direct, rfl⟩ := List.mem_map.mp held
    obtain ⟨last, directToo, isAnchor⟩ := List.mem_map.mp heldToo
    obtain ⟨origin, inBefore, same, heldBefore⟩ := loosened.children node inAfter child direct small
    obtain ⟨holder, alsoInBefore, sameHolder, heldBeforeToo⟩ :=
      loosened.children other alsoInAfter last directToo (isAnchor ▸ smallAnchor)
    rw [← same, ← sameHolder]
    exact grouped.beside child.key member origin inBefore heldBefore holder alsoInBefore (isAnchor ▸ heldBeforeToo)

/-- The templates of a range stand beside the paragraph that it starts at. -/
theorem commentRange_grouped {forest : Forest} (wellFormed : forest.WellFormed) {roots : List Nat}
    (sections : ∀ root ∈ roots, forest.IsRoot root) (paragraph : Nat) (items : Option (List Value))
    (id : Option String) : PendingRepeat.Grouped roots forest
      ⟨paragraph, items, (commentRange forest paragraph id).paragraphs.map key⟩ := by
  have template {number : Nat} (member : number ∈ (commentRange forest paragraph id).paragraphs.map key) :
      (number = paragraph ∧ paragraph < forest.fresh) ∨ ∃ parent ∈ forest.nodes, number ∈ parent.children.map key ∧
        paragraph ∈ parent.children.map key := by
    obtain ⟨element, inRange, rfl⟩ := List.mem_map.mp member
    obtain ⟨node, found, rfl | ⟨parent, isParent, direct⟩⟩ := mem_commentRange (List.mem_of_mem_filter inRange)
    · obtain ⟨inForest, same⟩ := Forest.mem_of_find? found
      exact .inl ⟨same, same ▸ wellFormed.key_lt inForest⟩
    · obtain ⟨inForest, held⟩ := Forest.mem_of_parent? isParent
      exact .inr ⟨parent, inForest, List.mem_map.mpr ⟨element, direct, rfl⟩, held⟩
  have small {parent : Node} (inForest : parent ∈ forest.nodes) {number : Nat}
      (held : number ∈ parent.children.map key) : number < forest.fresh := by
    obtain ⟨child, direct, rfl⟩ := List.mem_map.mp held
    exact wellFormed.key_lt (child_mem_allBelow inForest direct)
  refine ⟨fun number member => ?_, fun number member => ?_, fun number member => ?_⟩
  · rcases template member with ⟨rfl, old⟩ | ⟨parent, inForest, held, heldToo⟩
    · exact ⟨old, old⟩
    · exact ⟨small inForest held, small inForest heldToo⟩
  · rcases template member with ⟨same, -⟩ | ⟨parent, inForest, held, -⟩
    · exact .inl same
    · refine .inr fun isSection => ?_
      obtain ⟨tree, outermost, rfl⟩ := sections number isSection
      have rootless := wellFormed.root_parent? outermost
      rw [wellFormed.parent?_iff.mpr ⟨inForest, held⟩] at rootless
      cases rootless
  · intro node inForest held other alsoInForest heldToo
    rcases template member with ⟨rfl, -⟩ | ⟨parent, isParent, beside, anchored⟩
    · rw [parent_unique wellFormed.unique alsoInForest inForest heldToo held]
    · rw [parent_unique wellFormed.unique alsoInForest isParent heldToo anchored,
        parent_unique wellFormed.unique inForest isParent held beside]

/-! ## At the end of a walk -/

/-- Handlers that take part in the session, and have only been asked for repetitions of templates that stand
beside their anchors. -/
structure Poised (world : World) : Prop where
  wellFormed : world.forest.WellFormed
  sections : ∀ root ∈ world.template.roots, world.forest.IsRoot root
  grouped : ∀ handler ∈ world.handlers, ∀ pending, handler.duty = .repeatParagraphs pending →
    ∀ repetition ∈ pending, repetition.Grouped world.template.roots world.forest
  joined : ∀ handler ∈ world.handlers, handler.isPlain = false → handler.inSession = true

namespace Poised

variable {world after : World}

/-- Steps after which every node has its parent or none, and that leave the handlers alone. -/
theorem step (poised : Poised world) (loosened : Forest.Loosened world.forest.fresh world.forest after.forest)
    (template : after.template = world.template) (handlers : after.handlers = world.handlers) : Poised after where
  wellFormed := loosened.wellFormed
  sections root isSection := by
    have isRoot := poised.sections root (template ▸ isSection)
    exact loosened.roots root (isRoot.lt_fresh poised.wellFormed) isRoot
  grouped handler member pending duty repetition among := by
    rw [template]
    exact (poised.grouped handler (handlers ▸ member) pending duty repetition among).step loosened
  joined := handlers ▸ poised.joined

theorem same (poised : Poised world) (forest : after.forest = world.forest)
    (template : after.template = world.template) (handlers : after.handlers = world.handlers) : Poised after :=
  poised.step (by rw [forest]; exact .refl poised.wellFormed) template handlers

/-- Handlers that join the session when they have been asked for nothing. -/
theorem of_joined (opened : Opened world.template world.forest)
    (idle : ∀ handler ∈ world.handlers, handler.duty.keys = []) : Poised world.joined := by
  refine ⟨opened.wellFormed, opened.sections, fun handler member pending duty repetition among => ?_,
    fun handler member notPlain => ?_⟩
  · obtain ⟨old, isOld, rfl⟩ := World.mem_joined member
    have nothing := idle old isOld
    rw [← old.joined_duty, duty] at nothing
    exact absurd (List.mem_flatMap.mpr ⟨repetition, among, List.mem_cons_self⟩) (List.eq_nil_iff_forall_not_mem.mp nothing _)
  · obtain ⟨old, isOld, rfl⟩ := World.mem_joined member
    unfold Handler.joined at notPlain ⊢
    cases plain : old.isPlain with
    | true =>
      rw [plain, if_pos rfl, plain] at notPlain
      cases notPlain
    | false => rfl

theorem bound (poised : Poised world) (anchor : Anchor) : Poised (Engine.World.bound world anchor) where
  wellFormed := poised.wellFormed
  sections := poised.sections
  grouped handler member := by
    obtain ⟨old, isOld, rfl⟩ := List.mem_map.mp member
    exact poised.grouped old isOld
  joined handler member := by
    obtain ⟨old, isOld, rfl⟩ := List.mem_map.mp member
    exact poised.joined old isOld

/-- A handler is asked for what it can find. -/
theorem asked (poised : Poised world) {index : Nat} {handler : Handler} {duty : Duty}
    (present : world.handlers[index]? = some handler) (asks : Asks world.forest handler.anchor handler.duty duty) :
    Poised { world with handlers := world.handlers.modify index fun other => { other with duty } } := by
  have isHandler := List.mem_of_getElem? present
  refine { poised with grouped := fun now member pending isDuty => ?_, joined := fun now member => ?_ }
  · rcases mem_modify member with old | ⟨old, found, rfl⟩
    · exact poised.grouped now old pending isDuty
    · obtain rfl := Option.some.inj (found.symm.trans present)
      have before := poised.grouped old isHandler
      obtain ⟨interface, anchor, inSession, duty⟩ := old
      dsimp only at asks isDuty before
      subst isDuty
      cases asks with
      | repetition pending items isBound =>
        intro repetition among
        rcases mem_setPending among with rfl | earlier
        · exact commentRange_grouped poised.wellFormed poised.sections _ items _
        · exact before pending rfl repetition earlier
  · rcases mem_modify member with old | ⟨old, found, rfl⟩
    · exact poised.joined now old
    · obtain rfl := Option.some.inj (found.symm.trans present)
      have before := poised.joined old isHandler
      obtain ⟨interface, anchor, inSession, duty⟩ := old
      cases asks <;> exact before

theorem edit (poised : Poised world) {number : Nat} {change : Node → Node}
    (head : ∀ node, (change node).head = node.head)
    (revised : ∀ node, Revised (fun _ => True) node.children (change node).children) :
    Poised { world with forest := world.forest.edit number change } := by
  cases found : world.forest.find? number with
  | none =>
    rw [Engine.edit_missing found]
    exact poised
  | some node =>
    have edited := poised.wellFormed.edit_edited found (head node) (revised node) trivial
    exact poised.step (edited.loosened (Nat.le_refl _)) rfl rfl

end Poised

namespace Engine

theorem poised_proof (index : Nat) : StepProof index fun machine => Poised machine.outer where
  free _ _ poised := poised
  step machine after poised step := by
    cases step with
    | asked present asks => exact poised.asked present asks
    | written present duty bound letters =>
      exact poised.edit (fun _ => rfl) fun node => revised_setRunText node (.refl _) letters
    | blanked present duty bound => exact poised.edit (fun _ => rfl) fun node => revised_withoutText node
    | told entry => exact poised.same rfl rfl rfl

theorem poised_frame : Frame fun machine => Poised machine.outer where
  free := (poised_proof 0).free
  called index := (poised_proof index).callDirective_keeps fun _ _ poised => poised.same rfl rfl rfl
  reports _ _ poised reports := poised.same reports.forest reports.template reports.handlers

theorem poised_walkFrame {dispatcher : Dispatcher} {builder : ProxyBuilder} :
    WalkFrame dispatcher builder (fun _ => True) (fun _ => True) fun machine => Poised machine.outer where
  free := poised_frame.free
  evaluates expression anchor _ _ machine poised := poised_frame.evaluateDirective_keeps dispatcher builder
    (fun _ _ _ poised => poised.same rfl rfl rfl) (poised.bound anchor)
  pending _ _ _ _ _ _ := trivial
  consumes _ _ poised := poised.same rfl rfl rfl
  edits paragraph _ machine node changed poised found revised := by
    have outcome := revised (fun _ => True) fun _ _ _ => trivial
    have edited : Forest.Edited (fun _ => True) machine.outer.forest
        (machine.outer.forest.edit paragraph fun _ => changed) :=
      poised.wellFormed.edit_edited found outcome.head outcome.revised trivial
    exact poised.step (edited.loosened (Nat.le_refl _)) rfl rfl
  runs _ _ _ _ _ _ := trivial

/-! ## While handlers commit -/

/-- Whether some handler has been asked for a repetition. -/
def AwaitsRepetition (handlers : List Handler) (repetition : PendingRepeat) : Prop :=
  ∃ handler ∈ handlers, ∃ pending, handler.duty = .repeatParagraphs pending ∧ repetition ∈ pending

/-- Commits in which no directive has been called since a walk: what they do is accounted for, no node has got
another parent, and handlers have been asked for nothing more. -/
structure Underway (start : Forest) (walked : World) (machine : Machine World) : Prop where
  attended : Attended start (fun _ => False) (fun _ => False) machine
  pursuing : Pursuing walked machine
  handlers : machine.outer.handlers = walked.handlers
  since : ∃ new, machine.outer.events = new ++ walked.events

section Commits

variable {start : Forest} {walked : World} {machine final : Machine World} {settings : RepeatSettings}
  {handler : Handler} {repetition : PendingRepeat}

/-- Since a walk a directive has been called, or handlers have been asked for nothing more. -/
def Unasked (walked : World) (machine : Machine World) : Prop :=
  Called walked.events machine ∨
    (machine.outer.handlers = walked.handlers ∧ ∃ new, machine.outer.events = new ++ walked.events)

theorem Unasked.noted {machine : Machine World} (unasked : Unasked walked machine) (event : Event) :
    Unasked walked { machine with outer := machine.outer.noting event } :=
  unasked.imp (fun called => called.later [event] rfl) fun ⟨handlers, new, since⟩ =>
    ⟨handlers, event :: new, congrArg (event :: ·) since⟩

/-- Handlers are only asked for something when a directive is called. -/
theorem unasked_frame : CommitFrame 0 (fun _ => True) (fun _ => True) (Unasked walked) where
  toFrame := called_or_frame (fun _ _ unasked => unasked) (fun _ unasked => unasked.2) fun _ _ unasked reports =>
    ⟨reports.handlers.trans unasked.1, reports.events ▸ unasked.2⟩
  fresh _ _ := Nat.zero_le _
  asked _ _ _ _ := ⟨fun _ => trivial, fun _ _ => trivial⟩
  planted _ := Keeps.bind (fun _ unasked => unasked) fun _ => Keeps.bind (fun _ unasked => unasked) fun _ => .pure _
  edits _ _ _ _ _ unasked _ _ := unasked
  moved _ _ _ _ _ unasked := unasked
  detached _ _ _ unasked := unasked
  emptied _ _ _ unasked := unasked
  raised _ _ _ unasked := unasked
  marked _ _ unasked := unasked
  thrownAway verbose _ := inThrowawaySession_keeps (fun _ _ unasked => unasked) verbose
  valued _ _ _ _ unasked := unasked.noted _
  repeated _ _ _ _ _ _ _ _ _ unasked := unasked.noted _
  told _ _ unasked := unasked

namespace Underway

variable (underway : Underway start walked machine)
include underway

/-- What is awaited stands as it did when the walk had come to its end. -/
theorem grouped (poised : Poised walked) (awaits : AwaitsRepetition walked.handlers repetition) :
    repetition.Grouped walked.template.roots machine.outer.forest := by
  obtain ⟨handler, member, pending, duty, among⟩ := awaits
  exact (poised.grouped handler member pending duty repetition among).step underway.pursuing.attached

theorem templates (awaits : AwaitsRepetition walked.handlers repetition) :
    ∀ template ∈ repetition.templates, machine.outer.forest.Tagged Tag.paragraph template := by
  obtain ⟨handler, member, pending, duty, among⟩ := awaits
  have fits := underway.attended.duties handler (underway.handlers ▸ member)
  rw [duty] at fits
  exact fits repetition among

theorem called (called : Called machine.outer.events final) : Called walked.events final := by
  obtain ⟨new, since⟩ := underway.since
  obtain ⟨more, index, method, later, member⟩ := called
  exact ⟨more ++ new, index, method, by rw [later, since, List.append_assoc], List.mem_append_left _ member⟩

/-- Commits stay under way while a part of them is carried out, unless a directive is called. -/
theorem next {computation : Engine Unit} (attended : Attended start (fun _ => False) (fun _ => False) final)
    (pursues : Keeps (Pursuing walked) computation) (asks : Keeps (Unasked walked) computation)
    (run : runOn computation machine = (.ok (), final)) : Called walked.events final ∨ Underway start walked final := by
  have pursuing := pursues machine underway.pursuing
  have unasked := asks machine (.inr ⟨underway.handlers, underway.since⟩)
  rw [run] at pursuing unasked
  exact unasked.imp_right fun ⟨handlers, since⟩ => ⟨attended, pursuing, handlers, since⟩

theorem said (diagnostics : List String) :
    Underway start walked { machine with outer := { machine.outer with diagnostics } } where
  attended := underway.attended.same rfl rfl rfl
  pursuing := underway.pursuing.step underway.pursuing.attached rfl rfl
  handlers := underway.handlers
  since := underway.since

theorem noted (place : Nat) :
    Underway start walked { machine with outer := machine.outer.noting (.committed place) } where
  attended := underway.attended.noted _ rfl fun _ _ impossible => by cases impossible
  pursuing := underway.pursuing.step underway.pursuing.attached rfl rfl
  handlers := underway.handlers
  since := by
    obtain ⟨new, since⟩ := underway.since
    exact ⟨.committed place :: new, congrArg (Event.committed place :: ·) since⟩

end Underway

theorem pendingRepeats_awaits {interface : Interface} {pending : List PendingRepeat} {after : Machine World}
    (run : runOn (pendingRepeats interface) machine = (.ok pending, after)) :
    after = machine ∧ ∀ repetition ∈ pending, AwaitsRepetition machine.outer.handlers repetition := by
  unfold pendingRepeats at run
  obtain ⟨_, _, reads, run⟩ := bind_ok run
  cases reads
  split at run
  · rename_i found
    cases run
    exact ⟨rfl, fun repetition among => ⟨_, List.mem_of_find?_eq_some found, _, rfl, among⟩⟩
  · cases run
    exact ⟨rfl, fun _ member => absurd member List.not_mem_nil⟩

/-- Something about a run that handlers keep to as long as no directive is called. -/
structure Upheld (start : Forest) (walked : World) (settings : RepeatSettings) (holds : World → Prop) : Prop where
  said : ∀ world diagnostics, holds world → holds { world with diagnostics }
  committed : ∀ world place, holds world → holds (world.noting (.committed place))
  repeats : ∀ handler ∈ walked.handlers, handler.isPlain = false →
    ∀ (repetition : PendingRepeat) (machine final : Machine World), AwaitsRepetition walked.handlers repetition →
    Underway start walked machine → holds machine.outer →
    runOn (commitRepeat settings handler repetition) machine = (.ok (), final) → ¬ Called walked.events final →
    holds final.outer
  emptied : ∀ (machine : Machine World) (paragraph : Nat), Underway start walked machine →
    machine.outer.forest.Tagged Tag.paragraph paragraph → holds machine.outer →
    holds { machine.outer with forest := machine.outer.forest.edit paragraph emptied }
  removed : ∀ (machine : Machine World) (paragraph : Nat) (parent : Node), Underway start walked machine →
    machine.outer.forest.parent? paragraph = some parent → isOnlyParagraphOfCell parent = false →
    holds machine.outer → holds { machine.outer with forest := machine.outer.forest.detach paragraph }
  taken : ∀ (machine : Machine World) (element : Nat), Underway start walked machine →
    machine.outer.forest.Tagged Tag.row element ∨ machine.outer.forest.Tagged Tag.table element →
    holds machine.outer → holds { machine.outer with forest := machine.outer.forest.detach element }

/-- Whether a directive has been called, or commits are under way and keep to something. -/
def Upholds (start : Forest) (walked : World) (holds : World → Prop) (machine : Machine World) : Prop :=
  Called walked.events machine ∨ (Underway start walked machine ∧ holds machine.outer)

namespace Upheld

variable {holds : World → Prop} (upheld : Upheld start walked settings holds)
  (opened : 0 < start.fresh) (positive : 0 < walked.forest.fresh)
include upheld opened positive

section Repetitions

variable (member : handler ∈ walked.handlers) (notPlain : handler.isPlain = false)
include member notPlain

theorem commitRepeat_upholds (awaits : AwaitsRepetition walked.handlers repetition) :
    Leads (Upholds start walked holds) (commitRepeat settings handler repetition) := by
  intro machine upholds value final run
  rcases upholds with called | ⟨underway, held⟩
  · exact .inl ((called_commitFrame.commitRepeat_keeps settings trivial trivial fun _ _ => trivial).leads machine called
      value final run)
  · have attended := commitRepeat_attended opened settings handler underway.attended (underway.templates awaits)
    rw [run] at attended
    by_cases called : Called walked.events final
    · exact .inl called
    · have next := underway.next attended
        ((pursuing_frame positive).commitRepeat_keeps settings trivial trivial fun _ _ => trivial)
        (unasked_frame.commitRepeat_keeps settings trivial trivial fun _ _ => trivial) run
      exact .inr ⟨next.resolve_left called,
        upheld.repeats handler member notPlain repetition machine final awaits underway held run called⟩

theorem commitPosition_upholds (size position : Nat) :
    Leads (Upholds start walked holds) (commitPosition settings handler size position) := by
  intro machine upholds value final run
  rcases upholds with called | ⟨underway, held⟩
  · exact .inl ((called_commitFrame.commitPosition_keeps settings trivial size position).leads machine called
      value final run)
  · obtain ⟨pending, after, reads, rest⟩ := bind_ok run
    obtain ⟨rfl, awaits⟩ := pendingRepeats_awaits reads
    rw [underway.handlers] at awaits
    dsimp only at rest
    split at rest
    · cases rest
    · split at rest
      · rename_i repetition found
        exact upheld.commitRepeat_upholds opened positive member notPlain
          (awaits repetition (List.mem_of_getElem? found)) after (.inr ⟨underway, held⟩) () final rest
      · cases rest
        exact .inr ⟨underway, held⟩

end Repetitions

section Display

variable {paragraphs rows tables : List Nat} (member : handler ∈ walked.handlers)
  (duty : handler.duty = .display paragraphs rows tables)
include member duty

omit opened in
theorem removeParagraph_upholds {paragraph : Nat} (among : paragraph ∈ paragraphs) :
    Leads (Upholds start walked holds) (removeParagraph paragraph) := by
  intro machine upholds value final run
  rcases upholds with called | ⟨underway, held⟩
  · exact .inl ((called_commitFrame.removeParagraph_keeps trivial).leads machine called value final run)
  · have due : Due start (fun _ => False) (fun _ => False) (.display paragraphs rows tables) machine :=
      ⟨underway.attended, duty ▸ underway.attended.duties handler (underway.handlers ▸ member)⟩
    have isTagged := (due.fits.1 paragraph among).2
    have kept := removeParagraph_due among machine due
    rw [run] at kept
    refine (underway.next kept.attended ((pursuing_frame positive).removeParagraph_keeps trivial)
      (unasked_frame.removeParagraph_keeps trivial) run).imp_right fun next => ⟨next, ?_⟩
    unfold removeParagraph at run
    rw [runOn_bind, runOn_forest] at run
    dsimp only at run
    split at run
    · cases run
    · rename_i parent located
      rw [runOn_changeForest] at run
      cases run
      cases only : isOnlyParagraphOfCell parent with
      | true => exact upheld.emptied machine paragraph underway isTagged held
      | false => exact upheld.removed machine paragraph parent underway located only held

omit opened in
theorem removeElement_upholds {element : Nat} (among : element ∈ rows ++ tables) :
    Leads (Upholds start walked holds) (removeElement element) := by
  intro machine upholds value final run
  rcases upholds with called | ⟨underway, held⟩
  · exact .inl ((called_commitFrame.removeElement_keeps trivial).leads machine called value final run)
  · have due : Due start (fun _ => False) (fun _ => False) (.display paragraphs rows tables) machine :=
      ⟨underway.attended, duty ▸ underway.attended.duties handler (underway.handlers ▸ member)⟩
    have isTagged := (List.mem_append.mp among).imp (due.fits.2.1 element) (due.fits.2.2 element)
    have kept := removeElement_due among machine due
    rw [run] at kept
    refine (underway.next kept.attended ((pursuing_frame positive).removeElement_keeps trivial)
      (unasked_frame.removeElement_keeps trivial) run).imp_right fun next => ⟨next, ?_⟩
    unfold removeElement at run
    rw [runOn_bind, runOn_forest] at run
    dsimp only at run
    split at run
    · obtain ⟨_, _, -, impossible⟩ := bind_ok run
      cases impossible
    · cases run
      exact upheld.taken machine element underway isTagged held

end Display

omit opened positive in
theorem say_upholds (message : List Char) : Keeps (Upholds start walked holds) (say message) := by
  intro machine upholds
  rw [runOn_say]
  exact upholds.imp (fun called => called.later [] rfl) fun kept => ⟨kept.1.said _, upheld.said _ _ kept.2⟩

theorem commitHandler_upholds (member : handler ∈ walked.handlers) :
    Leads (Upholds start walked holds) (commitHandler settings handler) := by
  intro machine upholds value final run
  rcases upholds with called | ⟨underway, held⟩
  · exact .inl ((called_commitFrame.commitHandler_keeps settings (fun _ => trivial) fun _ _ => trivial).leads machine
      called value final run)
  · have fits := underway.attended.duties handler (underway.handlers ▸ member)
    have begun : Upholds start walked holds machine := .inr ⟨underway, held⟩
    unfold commitHandler at run
    cases duty : handler.duty with
    | repeatParagraphs pending =>
      rw [duty] at run
      have notPlain : handler.isPlain = false := by rw [Handler.isPlain, duty]
      exact Leads.forM (fun position _ => upheld.commitPosition_upholds opened positive member notPlain _ position)
        machine begun value final run
    | display paragraphs rows tables =>
      rw [duty] at run
      have commits : Leads (Upholds start walked holds) (commitDisplay handler paragraphs rows tables) := by
        refine Leads.bind (.forM fun paragraph among => upheld.removeParagraph_upholds positive member duty among)
          fun _ => Leads.bind (.forM fun element among => upheld.removeElement_upholds positive member duty among)
            fun _ => Leads.bind (isVerbose_keeps handler).leads fun verbose => ?_
        cases verbose with
        | true => exact (upheld.say_upholds _).leads
        | false => exact (Keeps.pure ()).leads
      exact commits machine begun value final run
    | replaceWord =>
      rw [duty] at run
      cases run
      exact begun
    | record recorder =>
      rw [duty] at fits
      exact fits.elim

end Upheld

/-- When all handlers have committed, a directive has been called, or what they keep to still holds. -/
theorem commitHandlers_upholds {holds : World → Prop} {dispatcher : Dispatcher}
    (upheld : Upheld start walked dispatcher.settings holds) (opened : 0 < start.fresh)
    (positive : 0 < walked.forest.fresh) : Leads (Upholds start walked holds) (commitHandlers dispatcher) := by
  have noted (place : Nat) : Keeps (Upholds start walked holds) (note (.committed place)) := fun machine upholds =>
    upholds.imp (fun called => called.later [_] rfl) fun kept => ⟨kept.1.noted place, upheld.committed _ place kept.2⟩
  refine Leads.bind (Keeps.leads fun _ upholds => upholds) fun world => .forM fun place _ => ?_
  intro machine upholds value final run
  rcases upholds with called | ⟨underway, held⟩
  · exact .inl ((called_commitFrame.commitAt_keeps dispatcher (fun _ _ called => called.later [_] rfl) place).leads
      machine called value final run)
  · unfold commitAt at run
    rw [runOn_bind, runOn_world] at run
    dsimp only at run
    cases found : machine.outer.handlers[place]? with
    | none =>
      rw [found] at run
      cases run
      exact .inr ⟨underway, held⟩
    | some handler =>
      rw [found] at run
      have member : handler ∈ walked.handlers := underway.handlers ▸ List.mem_of_getElem? found
      have commits : Leads (Upholds start walked holds)
          (note (.committed place) >>= fun _ => commitHandler dispatcher.settings handler) :=
        Leads.bind (noted place).leads fun _ => upheld.commitHandler_upholds opened positive member
      cases verbose : dispatcher.verbose with
      | true =>
        rw [verbose] at run
        exact Leads.bind (upheld.say_upholds _).leads (fun _ => commits) machine (.inr ⟨underway, held⟩) value final run
      | false =>
        rw [verbose] at run
        exact commits machine (.inr ⟨underway, held⟩) value final run

end Commits

/-! ## Before handlers commit -/

/-- What is about to be carried out when a walk has come to its end that began when the comments had been read. -/
structure Impending (read : World) (walked : Machine World) : Prop where
  opened : Opened walked.outer.template walked.outer.forest
  template : walked.outer.template = read.template
  edited : Forest.Edited read.Inline read.forest walked.outer.forest
  poised : Poised walked.outer
  underway : Underway read.forest walked.outer walked
  unrepeated : ∀ pending new, .repeated pending new ∉ walked.outer.events
  held : ∃ store, walked.outer.session.comments = some store
  used : ∀ comment ∈ walked.outer.session.consumed, ∀ element, comment.element = some element →
    read.forest.Tagged Tag.comment element

section Stamp

variable {stamper : Stamper} {data : Value} {start walked : Machine World} {package : Package}
  {registrations : List Handler} {additional : Expression.Scope} {values : Store}

theorem prepareAndWalk_impending
    (isStart : start = ⟨values, World.ofPackage package (registered registrations) additional⟩)
    (standard : ∀ handler ∈ registrations, handler ∈ Handler.standard)
    (walks : runOn (prepareAndWalk stamper data) start = (.ok (), walked)) : ∃ read,
      runOn (prepare stamper) start = (.ok (), { start with outer := read }) ∧
      Loaded { start.outer with session := Session.start stamper.verbose } read ∧ Impending read walked := by
  have opened : Opened start.outer.template start.outer.forest :=
    isStart ▸ World.ofPackage_opened package (registered registrations) additional
  obtain ⟨read, store, part, prepares, isLoaded, openedRead, held, reads, walks⟩ := prepareAndWalk_ok opened walks
  have handlers : read.handlers = registered registrations := isLoaded.handlers.trans (by rw [isStart]; rfl)
  have quiet : read.events = [] := isLoaded.events.trans (by rw [isStart]; rfl)
  have fits := standard_fits standard read.forest
  rw [← handlers] at fits
  have attended : Attended read.forest (fun _ => False) (fun _ => False) { start with outer := read } :=
    .idle openedRead.wellFormed rfl quiet (fun handler member => (fits handler member).1)
      fun handler member => (fits handler member).2
  have poised : Poised read.joined := by
    refine .of_joined openedRead fun handler member => ?_
    have idle : ∀ handler ∈ Handler.standard, handler.duty.keys = [] := by decide
    exact idle handler (standard handler (mem_registered (handlers ▸ member)))
  have unnoted : read.joined.events = [] := quiet
  have openedJoined : Opened read.joined.template read.joined.forest := openedRead
  have keeps : Keeps (fun machine => Poised machine.outer)
      (evaluateDirectives stamper.dispatcher (stamper.functions.copy data)) :=
    Keeps.bind (fun _ poised => poised) fun _ machine poised =>
      poised_walkFrame.visitParagraphs_keeps _ (fun _ _ => trivial) machine poised
  have still := keeps { start with outer := read.joined } poised
  have walking := @evaluateDirectives_walking stamper.dispatcher (stamper.functions.copy data)
    { start with outer := read.joined } openedJoined.wellFormed
  rw [walks] at walking still
  have strolled := evaluateDirectives_strolled ⟨attended.joined, unnoted ▸ .nil⟩
    (tagged_paragraphsBelow read.forest read.template.roots) walks
  obtain ⟨during, ledger, -⟩ := @evaluateDirectives_ledger _ _ _ { start with outer := read.joined }
    _ openedJoined held walks
  have edited : Forest.Edited read.Inline read.forest walked.outer.forest := walking.edited
  refine ⟨read, prepares, isLoaded, ?_, walking.template, edited, still,
    ⟨strolled.attended, .refl walking.edited.wellFormed, rfl, [], rfl⟩, fun pending new noted => ?_,
    ⟨_, ledger.comments⟩, fun comment member element isElement => ?_⟩
  · have loosened : Forest.Loosened read.forest.fresh read.forest walked.outer.forest :=
      edited.loosened (Nat.le_refl _)
    rw [walking.template]
    exact openedRead.loosened loosened
  · obtain ⟨during, events, ofWalk⟩ := walking.events
    rw [events, unnoted, List.append_nil] at noted
    cases ofWalk _ noted
  · have unused : read.joined.session.consumed = [] := isLoaded.consumed
    rw [ledger.consumed, unused, List.nil_append] at member
    exact reads.element_tagged (ledger.consumption_pending comment member) isElement

/-- How a stamping run carries out the directives of a document: a walk, the commits of the handlers, and the deletion
of the comments that were used up. -/
structure Directing (stamper : Stamper) (data : Value) (start : Machine World) (read : World)
    (walked committed directed : Machine World) : Prop where
  walks : runOn (prepareAndWalk stamper data) start = (.ok (), walked)
  loaded : Loaded { start.outer with session := Session.start stamper.verbose } read
  impending : Impending read walked
  commits : runOn (commitHandlers stamper.dispatcher) walked = (.ok (), committed)
  committing : ∃ committing, committed.outer.events = committing ++ walked.outer.events
  opened : Opened directed.outer.template directed.outer.forest
  roots : directed.outer.template.roots = walked.outer.template.roots
  erased : directed.outer.forest =
    walked.outer.session.consumed.foldl (eraseComment committed.outer.template) committed.outer.forest
  resolved : directed.outer.session.resolved = committed.outer.session.resolved
  events : ∃ deleting, directed.outer.events = deleting ++ committed.outer.events ∧
    ∀ event ∈ deleting, ∃ id, event = .deleted id

/-- The deletion of comments is all that follows the commits. -/
theorem carryOut_cleans {dispatcher : Dispatcher} {machine final : Machine World}
    (run : runOn (carryOut dispatcher) machine = (.ok (), final)) : ∃ committed,
      runOn (commitHandlers dispatcher) machine = (.ok (), committed) ∧
      final.outer.session.resolved = committed.outer.session.resolved ∧
      ∃ deleting, final.outer.events = deleting ++ committed.outer.events ∧ ∀ event ∈ deleting, ∃ id, event = .deleted id := by
  obtain ⟨_, committed, commits, run⟩ := bind_ok run
  have cleans : Keeps (fun after : Machine World => after.outer.session.resolved = committed.outer.session.resolved ∧
      ∃ deleting, after.outer.events = deleting ++ committed.outer.events ∧ ∀ event ∈ deleting, ∃ id, event = .deleted id)
      (world >>= fun world => world.session.consumed.forM deleteComment >>= fun _ => saveComments) := by
    refine Keeps.bind (fun _ cleaned => cleaned) fun world => Keeps.bind (.forM fun comment _ => ?_) fun _ => ?_
    · refine Keeps.bind (fun machine cleaned => ?_) fun _ => Keeps.bind (fun _ cleaned => cleaned) fun world => ?_
      · obtain ⟨resolved, deleting, events, areDeletions⟩ := cleaned
        refine ⟨resolved, .deleted comment.id :: deleting, congrArg (Event.deleted comment.id :: ·) events, fun event member => ?_⟩
        rcases List.mem_cons.mp member with rfl | member
        · exact ⟨_, rfl⟩
        · exact areDeletions event member
      · split
        · exact .pure _
        · exact Keeps.bind (fun _ cleaned => cleaned) fun _ => Keeps.bind (fun _ cleaned => cleaned) fun _ _ cleaned => cleaned
    · refine Keeps.bind (fun _ cleaned => cleaned) fun world => ?_
      split
      · exact .pure _
      · exact Keeps.bind (fun _ cleaned => cleaned) fun _ => Keeps.bind (fun _ cleaned => cleaned) fun _ =>
          Keeps.bind (fun _ cleaned => cleaned) fun _ _ cleaned => cleaned
  exact ⟨committed, commits, cleans.leads committed ⟨rfl, [], rfl, fun _ member => absurd member List.not_mem_nil⟩ () final run⟩

theorem stamp_directing {directed : Machine World}
    (isStart : start = ⟨values, World.ofPackage package (registered registrations) additional⟩)
    (standard : ∀ handler ∈ registrations, handler ∈ Handler.standard)
    (directs : runOn (runDirectives stamper.dispatcher (stamper.functions.copy data)) (runOn (prepare stamper) start).2 =
      (.ok (), directed)) :
    ∃ read walked committed, Directing stamper data start read walked committed directed := by
  have opened : Opened start.outer.template start.outer.forest :=
    isStart ▸ World.ofPackage_opened package (registered registrations) additional
  obtain ⟨read, store, part, prepares, -, openedRead, -⟩ := prepare_reads stamper opened
  rw [prepares] at directs
  have openedAfter := runDirectives_opened openedRead directs
  rw [runDirectives_eq] at directs
  obtain ⟨_, walked, walks, carries⟩ := bind_ok directs
  have whole : runOn (prepareAndWalk stamper data) start = (.ok (), walked) := by
    unfold prepareAndWalk
    rw [runOn_bind, prepares]
    exact walks
  obtain ⟨other, preparesToo, isLoaded, impending⟩ := prepareAndWalk_impending isStart standard whole
  cases prepares.symm.trans preparesToo
  obtain ⟨held, isHeld⟩ := impending.held
  obtain ⟨committed, deleted, stages⟩ := carryOut_stages impending.opened isHeld carries
  obtain ⟨_, commits, resolved, events⟩ := carryOut_cleans carries
  cases commits.symm.trans stages.commits
  obtain ⟨last, isLast, -⟩ := stages.isDeleted.held
  have committing := forM_commitAt_commits stamper.dispatcher (List.range walked.outer.handlers.length)
    fun place member => List.mem_range.mp member
  obtain ⟨during, since, -⟩ := committing.events
  refine ⟨read, walked, committed, whole, isLoaded, impending, commits, ⟨during, ?_⟩, openedAfter, ?_,
    stages.forest.trans stages.isDeleted.forest, resolved, events⟩
  · rw [← since, ← show (runOn (commitHandlers stamper.dispatcher) walked).2 = committed from congrArg Prod.snd commits]
    rfl
  · rw [stages.saved last isLast, last.save_roots, stages.isDeleted.template, stages.template]

end Stamp

end Engine
end Imprint
