import Imprint.Proofs.PendingRequests
import Imprint.Proofs.SparedContent
/-! # What repetitions leave to be done

A repetition that is carried out marks its copies as resolved, and takes its templates out of the document with all
that is inside of them.  So the pass that replaces the values of a document comes to none of these paragraphs. -/
set_option autoImplicit false
namespace Imprint
open Imprint.Action Xml Document Node

/-- Whether an event is a repetition that was carried out. -/
def Event.isRepetition : Event → Bool
  | .repeated .. => true
  | _ => false

namespace Xml.Forest

section Outside

variable {before after : Forest} {tree : Node} {roots : List Nat} {number : Nat}

/-- What is inside of a node is the node itself, or hangs from something inside. -/
theorem held_inside (inBefore : tree ∈ before.nodes) (inside : number ∈ keysOf [tree]) : number = tree.key ∨
    ∃ parent ∈ before.nodes, number ∈ parent.children.map key ∧ parent.key ∈ keysOf [tree] := by
  obtain ⟨found, place, rfl⟩ := List.mem_map.mp inside
  rcases exists_parent place with outermost | ⟨parent, inTree, direct⟩
  · exact .inl (congrArg key (List.mem_singleton.mp outermost))
  · exact .inr ⟨parent, below_subset inBefore inTree, List.mem_map.mpr ⟨found, direct, rfl⟩,
      List.mem_map.mpr ⟨parent, inTree, rfl⟩⟩

/-- What is inside of a node that has been taken out is in no section any more. -/
theorem Loosened.outside (loosened : Loosened before.fresh before after) (wellFormed : before.WellFormed)
    (areRoots : ∀ root ∈ roots, before.IsRoot root) (inBefore : tree ∈ before.nodes) (noSection : tree.key ∉ roots)
    (apart : after.parent? tree.key = none) (inside : number ∈ keysOf [tree]) :
    number ∉ keysOf (sections after roots) := by
  intro inSection
  obtain ⟨found, place, isFound⟩ := List.mem_map.mp inside
  have small : number < before.fresh := isFound ▸ wellFormed.key_lt (below_subset inBefore place)
  obtain ⟨node, isBelow, rfl⟩ := List.mem_map.mp inSection
  -- Going down to the node, one never comes to anything old that is inside.
  refine path_induction (motive := fun node => node.key < before.fresh → node.key ∉ keysOf [tree])
    (sections after roots) (fun top isTop _ _ within => ?_)
    (fun parent isParent _ outside child direct _ old within => ?_) isBelow small inside
  · obtain ⟨root, isRoot, isTree⟩ := List.mem_filterMap.mp isTop
    obtain ⟨-, rfl⟩ := mem_of_find? isTree
    rcases held_inside inBefore within with same | ⟨holder, inForest, held, -⟩
    · exact noSection (same ▸ isRoot)
    · obtain ⟨origin, outermost, same⟩ := areRoots top.key isRoot
      have rootless := wellFormed.root_parent? outermost
      rw [same, wellFormed.parent?_iff.mpr ⟨inForest, held⟩] at rootless
      cases rootless
  · have inAfter := sections_subset after roots isParent
    rcases held_inside inBefore within with same | ⟨holder, inForest, held, holderInside⟩
    · rw [← same, loosened.wellFormed.parent?_iff.mpr ⟨inAfter, List.mem_map.mpr ⟨child, direct, rfl⟩⟩] at apart
      cases apart
    · obtain ⟨origin, alsoInForest, same, heldBefore⟩ := loosened.children parent inAfter child direct old
      obtain rfl : origin = holder := parent_unique wellFormed.unique alsoInForest inForest heldBefore held
      exact outside (same ▸ wellFormed.key_lt inForest) (same ▸ holderInside)

end Outside

end Xml.Forest

namespace Engine

/-! ## Copies -/

section Copies

variable {settings : RepeatSettings} {handler : Handler} {machine final : Machine World} {number : Nat}
  {start : List Event}

/-- A paragraph that has been marked as resolved stays marked. -/
theorem marked_frame : CopyFrame 0 fun machine => number ∈ machine.outer.session.resolved where
  free _ _ marked := marked
  called index := by
    have proof : StepProof index fun machine : Machine World => number ∈ machine.outer.session.resolved :=
      ⟨fun _ _ marked => marked, fun machine after marked step => by cases step <;> exact marked⟩
    exact proof.callDirective_keeps fun _ _ marked => marked
  reports _ _ marked reports := reports.resolved ▸ marked
  fresh _ _ := Nat.zero_le _
  planted _ _ marked := marked
  edits _ _ _ _ _ marked _ _ := marked
  marked _ _ marked := mem_addOnce.mpr (.inr marked)
  thrownAway verbose body _ machine marked := by
    have same := inThrowawaySession_restores verbose body machine
    show number ∈ (runOn (inThrowawaySession verbose body) machine).2.outer.session.resolved
    rw [same]
    exact marked
  valued _ _ _ _ marked := marked

/-- To make copies is to carry out no repetition. -/
theorem unrepeated_frame :
    CopyFrame 0 fun machine => Since (fun event => !event.isRepetition) start machine.outer.events where
  free _ _ since := since
  called index := by
    have proof : StepProof index fun machine =>
        Since (fun event => !event.isRepetition) start machine.outer.events :=
      ⟨fun _ _ since => since, fun machine after since step => by cases step <;> exact since⟩
    exact proof.callDirective_keeps fun method machine since => since.trans (.noted rfl _)
  reports _ _ since reports := reports.events ▸ since
  fresh _ _ := Nat.zero_le _
  planted _ _ since := since
  edits _ _ _ _ _ since _ _ := since
  marked _ _ since := since
  thrownAway verbose _ := inThrowawaySession_keeps (fun _ _ since => since) verbose
  valued _ _ _ _ since := since.trans (.noted rfl _)

theorem addOnce_addOnce (number : Nat) (numbers : List Nat) :
    addOnce number (addOnce number numbers) = addOnce number numbers :=
  if_pos (List.contains_iff_mem.mpr (mem_addOnce.mpr (.inl rfl)))

/-- A copy that is resolved in a session has been marked in it. -/
theorem copyForItem_marks (joined : handler.inSession = true) {context : Context} {template copy : Nat}
    (run : runOn (copyForItem settings handler context template) machine = (.ok copy, final)) :
    copy ∈ final.outer.session.resolved := by
  obtain ⟨planted, middle, -, run⟩ := bind_ok run
  obtain ⟨_, resolved, resolves, run⟩ := bind_ok run
  cases run
  rw [inSessionOf, if_pos joined] at resolves
  -- To mark the copy before it is resolved makes no difference.
  obtain ⟨marked, isMarked⟩ : ∃ marked : Machine World, marked = { middle with outer := { middle.outer with
      session := { middle.outer.session with resolved := addOnce copy middle.outer.session.resolved } } } := ⟨_, rfl⟩
  have same : runOn (resolveParagraph settings.replacer (fun _ => return context) copy) marked =
      runOn (resolveParagraph settings.replacer (fun _ => return context) copy) middle := by
    unfold resolveParagraph
    rw [runOn_bind, runOn_bind, runOn_changeSession, runOn_changeSession, isMarked]
    dsimp only
    rw [addOnce_addOnce]
  have frame := @marked_frame copy
  have kept : Keeps (fun machine => copy ∈ machine.outer.session.resolved)
      (resolveParagraph settings.replacer (fun _ => return context) copy) :=
    frame.resolveParagraph_keeps (frame.edits copy (Nat.zero_le _)) _ (.pure _)
      (fun expression succeeded => frame.valued _ expression succeeded) (frame.marked _)
  have holds := kept marked (isMarked ▸ mem_addOnce.mpr (.inl rfl))
  rw [same, resolves] at holds
  exact holds

theorem copiesForItem_marks (joined : handler.inSession = true) {templates copies : List Nat} {item : Value}
    (run : runOn (copiesForItem settings handler templates item) machine = (.ok copies, final)) :
    ∀ copy ∈ copies, copy ∈ final.outer.session.resolved := by
  obtain ⟨context, middle, -, run⟩ := bind_ok run
  refine mapM_holds (fun _ => True) (fun copy after => copy ∈ after.outer.session.resolved) (fun _ _ _ _ => trivial)
    (fun template _ machine copy after _ copies => copyForItem_marks joined copies)
    (fun copy template _ machine holds => ⟨trivial, ?_⟩) trivial run
  exact (marked_frame.copyForItem_gives settings handler _ template machine holds.2).1

/-- The copies for the items of a repetition have been marked when it has been carried out. -/
theorem repetitionOf_marks (joined : handler.inSession = true) {pending : PendingRepeat} (given : pending.items ≠ none)
    {new : List Nat} (run : runOn (repetitionOf settings handler pending) machine = (.ok new, final)) :
    ∀ copy ∈ new, copy ∈ final.outer.session.resolved := by
  unfold repetitionOf at run
  split at run
  · rename_i missing
    exact absurd missing given
  · obtain ⟨groups, middle, copies, run⟩ := bind_ok run
    cases run
    intro copy member
    obtain ⟨group, inGroups, inGroup⟩ := List.mem_flatten.mp member
    refine mapM_holds (fun _ => True) (fun group after => ∀ copy ∈ group, copy ∈ after.outer.session.resolved)
      (fun _ _ _ _ => trivial) (fun item _ machine group after _ makes => copiesForItem_marks joined makes)
      (fun group item _ machine holds => ⟨trivial, fun copy member => ?_⟩) trivial copies group inGroups copy inGroup
    exact (marked_frame.copiesForItem_gives settings handler pending.templates item machine (holds.2 copy member)).1

end Copies

/-! ## Commits -/

/-- A repetition that has been dealt with since a walk: if it had items, its copies are marked as resolved, and its
templates, which are no sections, have been taken out. -/
structure Dealt (walked world : World) (repetition : PendingRepeat) (new : List Nat) : Prop where
  marked : repetition.items ≠ none → ∀ copy ∈ new, copy ∈ world.session.resolved
  taken : ∀ template ∈ repetition.templates, template < walked.forest.fresh ∧ template ∉ walked.template.roots ∧
    world.forest.parent? template = none

section Commits

variable {start : Forest} {walked world after : World} {repetition : PendingRepeat} {new : List Nat}

theorem Dealt.step (dealt : Dealt walked world repetition new)
    (resolved : world.session.resolved ⊆ after.session.resolved)
    (apart : ∀ number < walked.forest.fresh, world.forest.parent? number = none → after.forest.parent? number = none) :
    Dealt walked after repetition new where
  marked given copy member := resolved (dealt.marked given copy member)
  taken template member := by
    obtain ⟨small, noSection, away⟩ := dealt.taken template member
    exact ⟨small, noSection, apart template small away⟩

/-- Whether all repetitions that have been carried out have been dealt with. -/
def DealsWithAll (walked world : World) : Prop :=
  ∀ repetition new, .repeated repetition new ∈ world.events → Dealt walked world repetition new

theorem DealsWithAll.loosened {bound : Nat} (deals : DealsWithAll walked world) (small : walked.forest.fresh ≤ bound)
    {forest : Forest} (loosened : Forest.Loosened bound world.forest forest) :
    DealsWithAll walked { world with forest } := fun repetition new noted =>
  (deals repetition new noted).step (List.Subset.refl _) fun _ old =>
    loosened.apart (Nat.lt_of_lt_of_le old small)

/-- As long as no directive is called, repetitions are dealt with when they are carried out. -/
theorem dealt_upheld (poised : Poised walked) (positive : 0 < walked.forest.fresh) (settings : RepeatSettings) :
    Upheld start walked settings (DealsWithAll walked) where
  said _ _ deals repetition new noted := (deals repetition new noted).step (List.Subset.refl _) fun _ _ apart => apart
  committed _ place deals repetition new noted := by
    rcases List.mem_cons.mp noted with impossible | noted
    · cases impossible
    · exact (deals repetition new noted).step (List.Subset.refl _) fun _ _ apart => apart
  repeats handler member notPlain repetition machine final awaits underway deals run _ := by
    have attached := underway.pursuing.attached
    have pursues : Keeps (Pursuing machine.outer) (commitRepeat settings handler repetition) :=
      (pursuing_frame (Nat.lt_of_lt_of_le positive attached.fresh)).commitRepeat_keeps settings trivial trivial
        fun _ _ => trivial
    have pursuing := pursues machine (.refl attached.wellFormed)
    have taken := fun template => @commitRepeat_takes machine attached.wellFormed
      (Nat.lt_of_lt_of_le positive attached.fresh) settings handler repetition final run template
    rw [run] at pursuing
    have grouped := underway.grouped poised awaits
    obtain ⟨located, new, middle, diagnostics, makes, rfl⟩ := commitRepeat_ok run
    have resolved {number : Nat} (marked : number ∈ machine.outer.session.resolved) :
        number ∈ middle.outer.session.resolved := by
      have kept := (marked_frame.repetitionOf_gives settings handler repetition machine marked).1
      rwa [makes] at kept
    have unrepeated := (unrepeated_frame.repetitionOf_gives settings handler repetition machine (.refl _)).1
    rw [makes] at unrepeated
    obtain ⟨during, events, noRepetition⟩ := unrepeated
    intro other copies noted
    rcases List.mem_cons.mp noted with here | earlier
    · obtain ⟨rfl, rfl⟩ := Event.repeated.inj here
      have marks (given : other.items ≠ none) := repetitionOf_marks (poised.joined handler member notPlain) given makes
      refine ⟨marks, fun template among => ⟨?_, ?_, ?_⟩⟩
      · obtain ⟨owner, isOwner, pending, duty, inPending⟩ := awaits
        exact ((poised.grouped owner isOwner pending duty other inPending).old template among).1
      · rcases grouped.inside template among with rfl | noSection
        · intro isSection
          have isRoot := poised.sections other.anchor isSection
          obtain ⟨tree, outermost, same⟩ := attached.roots _ (isRoot.lt_fresh poised.wellFormed) isRoot
          rw [← same, attached.wellFormed.root_parent? outermost] at located
          cases located
        · exact noSection
      · exact taken template among
    · rw [events] at earlier
      rcases List.mem_append.mp earlier with new | old
      · cases noRepetition _ new
      · exact (deals other copies old).step (fun _ marked => resolved marked) fun number small =>
          pursuing.attached.apart (Nat.lt_of_lt_of_le small attached.fresh)
  emptied machine paragraph underway isParagraph deals := by
    obtain ⟨node, inForest, rfl, -⟩ := isParagraph
    have wellFormed := underway.pursuing.attached.wellFormed
    have edited : Forest.Edited (· = node.key) machine.outer.forest (machine.outer.forest.edit node.key emptied) :=
      wellFormed.edit_edited (wellFormed.find?_key inForest) rfl ((Revised.refl node.children).filter _) rfl
    exact deals.loosened underway.pursuing.attached.fresh (edited.loosened (Nat.le_refl _))
  removed _ paragraph _ underway _ _ deals :=
    deals.loosened (Nat.le_refl _) (underway.pursuing.attached.wellFormed.detach_loosened paragraph)
  taken _ element underway _ deals :=
    deals.loosened (Nat.le_refl _) (underway.pursuing.attached.wellFormed.detach_loosened element)

end Commits

/-! ## Stamping -/

section Stamp

variable {package : Package} {registrations : List Handler} {additional : Expression.Scope} {values : Store}
  {stamper : Stamper} {data : Value} {start directed : Machine World}

/-- When the directives of a document have been carried out, no copy of a repetition is left to be resolved, and no
paragraph inside of a template is in a section, unless a directive has been called after the document had been gone
through. -/
theorem Directing.dealt {read : World} {walked committed : Machine World}
    (directing : Directing stamper data start read walked committed directed) :
    Called walked.outer.events committed ∨ ∀ repetition new, .repeated repetition new ∈ committed.outer.events →
      (repetition.items ≠ none → ∀ copy ∈ new, copy ∈ directed.outer.session.resolved) ∧
      ∀ template ∈ repetition.templates, ∀ tree, walked.outer.forest.find? template = some tree →
        ∀ number ∈ keysOf [tree], number ∉ paragraphsBelow directed.outer.forest directed.outer.template.roots := by
  obtain ⟨-, loaded, impending, commits, -, -, roots, erased, resolved, -⟩ := directing
  have none : DealsWithAll walked.outer walked.outer := fun repetition new noted =>
    absurd noted (impending.unrepeated repetition new)
  rcases commitHandlers_upholds (dealt_upheld impending.poised impending.opened.positive stamper.dispatcher.settings)
    loaded.extended.positive impending.opened.positive walked (.inr ⟨impending.underway, none⟩) () committed commits with
    called | ⟨underway, deals⟩
  · exact .inl called
  refine .inr fun repetition new noted => ?_
  obtain ⟨marked, taken⟩ := deals repetition new noted
  refine ⟨fun given copy member => resolved ▸ marked given copy member, fun template among tree found number inside => ?_⟩
  obtain ⟨thinned, -⟩ := eraseComments_clear committed.outer.template walked.outer.session.consumed
    underway.pursuing.attached.wellFormed
  rw [← erased] at thinned
  obtain ⟨inForest, rfl⟩ := Forest.mem_of_find? found
  obtain ⟨-, noSection, away⟩ := taken tree.key among
  have outside := (underway.pursuing.attached.trans thinned.loosened).outside impending.opened.wellFormed
    impending.opened.sections inForest noSection (thinned.apart away) inside
  intro isParagraph
  rw [roots, paragraphsBelow_eq] at isParagraph
  obtain ⟨node, isNode, rfl⟩ := List.mem_map.mp isParagraph
  exact outside (List.mem_map.mpr ⟨node, (List.mem_filter.mp isNode).1, rfl⟩)

/-- When the values of a document are replaced after its directives have been carried out, none is evaluated for a
copy that a repetition has made for an item, and none for a paragraph inside of a template of a repetition, unless a
directive was called after the document had been gone through. -/
theorem stamp_spares_repetitions
    (isStart : start = ⟨values, World.ofPackage package (registered registrations) additional⟩)
    (standard : ∀ handler ∈ registrations, handler ∈ Handler.standard)
    (directs : runOn (runDirectives stamper.dispatcher (stamper.functions.copy data)) (runOn (prepare stamper) start).2 =
      (.ok (), directed)) :
    ∃ walked later during, runOn (prepareAndWalk stamper data) start = (.ok (), walked) ∧
      directed.outer.events = later ++ walked.outer.events ∧
      (runOn (stamp stamper data) start).2.outer.events = during ++ directed.outer.events ∧
      ((∃ handler method, .called handler method ∈ during ++ later) ∨
        ∀ repetition new, .repeated repetition new ∈ later →
          ∀ paragraph expression succeeded, .value paragraph expression succeeded ∈ during →
            (repetition.items ≠ none → paragraph ∉ new) ∧
            ∀ template ∈ repetition.templates, ∀ tree, walked.outer.forest.find? template = some tree →
              paragraph ∉ keysOf [tree]) := by
  obtain ⟨-, -, evaluates⟩ := stamp_evaluates package registrations additional values stamper data
  rw [← isStart, directs] at evaluates
  obtain ⟨during, stamped, offers⟩ := evaluates rfl
  obtain ⟨read, walked, committed, directing⟩ := stamp_directing isStart standard directs
  obtain ⟨deleting, deletes, areDeletions⟩ := directing.events
  obtain ⟨committing, commits⟩ := directing.committing
  have whole : directed.outer.events = (deleting ++ committing) ++ walked.outer.events := by
    rw [deletes, commits, List.append_assoc]
  refine ⟨walked, deleting ++ committing, during, directing.walks, whole, stamped, ?_⟩
  rcases offers with ⟨handler, method, called⟩ | offered
  · exact .inl ⟨handler, method, List.mem_append_left _ called⟩
  rcases directing.dealt with called | dealt
  · obtain ⟨new, handler, method, since, member⟩ := called
    obtain rfl : committing = new := List.append_cancel_right (commits.symm.trans since)
    exact .inl ⟨handler, method, List.mem_append_right _ (List.mem_append_right _ member)⟩
  refine .inr fun repetition new noted paragraph expression succeeded valued => ?_
  have inCommits : .repeated repetition new ∈ committed.outer.events := by
    rw [commits]
    refine List.mem_append_left _ ((List.mem_append.mp noted).resolve_left fun isDeletion => ?_)
    obtain ⟨id, impossible⟩ := areDeletions _ isDeletion
    cases impossible
  obtain ⟨marked, away⟩ := dealt repetition new inCommits
  obtain ⟨_, _, _, same, unresolved, inSection, -⟩ := offered _ valued
  obtain ⟨rfl, rfl, rfl⟩ := Event.value.inj same
  exact ⟨fun given member => unresolved (marked given paragraph member),
    fun template among tree found inside => away template among tree found paragraph inside inSection⟩

end Stamp

/-- A paragraph that is repeated once, with another one inside of it. -/
def boxed : Package :=
  ⟨Node.ofTag Tag.body [Node.ofTag Tag.paragraph [
    createRun "#\x7brepeat_paragraph([1])\x7d$\x7b1\x7d".toList none,
    Node.ofTag Tag.run [createParagraph ["$\x7b2\x7d".toList]]]], [], [], none, false⟩

/-- The pass through the document comes to the paragraph inside of a copy, since only the copy is marked. -/
example :
    let events := (runOn (stamp .plain .null) ⟨⟨#[], 0⟩, World.ofPackage boxed Handler.standard []⟩).2.outer.events
    (events.filterMap fun event => match event with
      | .repeated pending new => some (pending.templates, new)
      | _ => none) = [([2], [10])] ∧
    (events.filterMap fun event => match event with
      | .value paragraph expression _ => some (paragraph, expression)
      | _ => none) = [(14, "2"), (10, "1")] := by
  decide +kernel

end Engine
end Imprint
