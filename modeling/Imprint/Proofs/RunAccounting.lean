import Imprint.Proofs.CommentDeletion
import Imprint.Proofs.CommitRemovals
import Imprint.Proofs.StamperReuse
import Imprint.Proofs.ValuesInPlace
import Imprint.Proofs.WalkRewrites
/-! # The course of a run

A run reads the comments, goes through the document, lets the handlers commit, deletes comments, and replaces
values.  Whatever all of this rewrites or takes out is accounted for by what has happened and by the traces of
the comments that were used up. -/
set_option autoImplicit false
namespace Imprint
open Imprint.Action Xml Document Node

namespace Attended

variable {start : Forest} {valued known : Nat → Prop} {machine : Machine World}

/-- Reading the comments touches nothing. -/
theorem loaded (attended : Attended start valued known machine) {after : World}
    (isLoaded : Engine.Loaded machine.outer after) : Attended start valued known { machine with outer := after } := by
  have spared : Forest.Sparing start.fresh (start.TextOf (Touched valued machine.outer.events))
      (Taken start known machine.outer.events) machine.outer.forest after.forest :=
    (isLoaded.edited fun _ => False).sparing attended.sparing.fresh fun _ _ => False.elim
  unfold Attended
  dsimp only
  rw [isLoaded.events]
  exact attended.step spared isLoaded.handlers (isLoaded.events ▸ fun _ _ => id)

/-- Handlers may take part in a session. -/
theorem joined (attended : Attended start valued known machine) :
    Attended start valued known { machine with outer := machine.outer.joined } := by
  refine { attended with duties := fun handler member => ?_, anchors := fun handler member => ?_, runs := fun handler member => ?_ }
  · obtain ⟨old, isOld, rfl⟩ := World.mem_joined member
    exact old.joined_duty ▸ attended.duties old isOld
  · obtain ⟨old, isOld, rfl⟩ := World.mem_joined member
    exact old.joined_anchor ▸ attended.anchors old isOld
  · obtain ⟨old, isOld, rfl⟩ := World.mem_joined member
    exact old.joined_anchor ▸ attended.runs old isOld

/-- Before anything has happened. -/
theorem idle (opened : start.WellFormed) (forest : machine.outer.forest = start) (quiet : machine.outer.events = [])
    (anchors : ∀ handler ∈ machine.outer.handlers, handler.anchor = .nowhere)
    (duties : ∀ handler ∈ machine.outer.handlers, handler.duty.Fits start fun _ => False) :
    Attended start valued known machine where
  opened := opened
  sparing := by
    rw [forest]
    exact .refl opened
  duties handler member := forest ▸ (duties handler member).mono (fun _ _ => id) fun _ => False.elim
  anchors handler member := by
    rw [anchors handler member, quiet]
    rfl
  runs handler member run isRun := by
    rw [anchors handler member] at isRun
    cases isRun
  paragraph paragraph isBound := by
    rw [quiet] at isBound
    cases isBound
  repeated pending new noted := by
    rw [quiet] at noted
    cases noted

/-- Comments may be deleted now. -/
theorem erasing {apart : Nat → Prop} {used : String → Prop}
    (attended : Attended start valued (Trace start apart used) machine) :
    Erasing start (Touched valued machine.outer.events) (Taken start (Trace start apart used) machine.outer.events)
      apart used machine.outer.forest machine.outer.forest where
  opened := attended.opened
  traces _ := .inl
  others node inStart taken := by
    have tagged {tag : Tag} (isTagged : start.Tagged tag node.key) : node.hasTag tag = true :=
      attended.opened.hasTag_of_tagged inStart isTagged
    rcases taken with trace | row | table | ⟨paragraph, -⟩
    · exact .inr trace
    · exact .inl (by simp [isNested, tagged row])
    · exact .inl (by simp [isNested, tagged table])
    · exact .inl (by simp [isNested, tagged paragraph])
  sparing := attended.sparing
  step := .refl attended.sparing.wellFormed

end Attended

theorem standard_fits {registrations : List Handler} (standard : ∀ handler ∈ registrations, handler ∈ Handler.standard)
    (forest : Forest) : ∀ handler ∈ registered registrations, handler.anchor = .nowhere ∧
      handler.duty.Fits forest fun _ => False := by
  intro handler member
  have isStandard := standard handler (mem_registered member)
  simp only [Handler.standard, List.mem_cons, List.not_mem_nil, or_false] at isStandard
  rcases isStandard with rfl | rfl | rfl
  · exact ⟨rfl, fun _ impossible => absurd impossible List.not_mem_nil⟩
  · exact ⟨rfl, fun _ impossible => absurd impossible List.not_mem_nil,
      fun _ impossible => absurd impossible List.not_mem_nil, fun _ impossible => absurd impossible List.not_mem_nil⟩
  · exact ⟨rfl, trivial⟩

/-- Comments are read from elements of a tree. -/
theorem Reads.element_mem {world : World} {store : CommentStore} {part : Option Node}
    (reads : Reads world store part) {comment : Comment}
    (pending : comment ∈ store.pending) {element : Nat} (isElement : comment.element = some element) :
    ∃ tree ∈ part, element ∈ keysOf [tree] := by
  obtain ⟨tree, isPart, node, place, -, -, same⟩ := reads.element pending
  refine ⟨tree, isPart, List.mem_map.mpr ⟨node, by rwa [allBelow_singleton], ?_⟩⟩
  exact Option.some.inj (same.symm.trans isElement)

theorem Reads.element_tagged {world : World} {store : CommentStore} {part : Option Node}
    (reads : Reads world store part) {comment : Comment}
    (pending : comment ∈ store.pending) {element : Nat} (isElement : comment.element = some element) :
    world.forest.Tagged Tag.comment element := by
  obtain ⟨tree, isPart, node, place, tag, -, same⟩ := reads.element pending
  cases reads with
  | nothing => cases isPart
  | tree outermost =>
    cases isPart
    exact ⟨node, below_subset (mem_allBelow_of_mem outermost) (by rwa [allBelow_singleton]),
      Option.some.inj (same.symm.trans isElement), tag⟩

/-- The part with the comments lies apart from the sections. -/
theorem Reads.element_apart {world : World} {store : CommentStore} {part : Option Node}
    (opened : Opened world.template world.forest) (reads : Reads world store part)
    {comment : Comment} (pending : comment ∈ store.pending) {element : Nat} (isElement : comment.element = some element) :
    element ∉ keysOf (sections world.forest world.template.roots) := by
  obtain ⟨tree, isPart, inTree⟩ := reads.element_mem pending isElement
  exact fun inSection => sections_apart opened reads.apart inSection
    (mem_keysOf.mpr ⟨tree, Option.mem_toList.mpr isPart, inTree⟩)

namespace Engine

variable {start : Forest} {valued apart : Nat → Prop} {used : String → Prop} {machine final : Machine World}
  {dispatcher : Dispatcher} {builder : ProxyBuilder} {store : CommentStore}

/-! ## Deleting comments -/

/-- Deleting a comment that was used up, whose element lies apart. -/
theorem deleteComment_attended {comment : Comment} (isUsed : used comment.id)
    (isApart : ∀ element, comment.element = some element → element < start.fresh → apart element) :
    Keeps (Attended start valued (Trace start apart used)) (deleteComment comment) := by
  intro machine attended
  have noted := attended.noted (.deleted comment.id) rfl fun _ _ impossible => by cases impossible
  unfold deleteComment
  rw [runOn_bind, runOn_note]
  dsimp only
  rw [runOn_bind, runOn_world]
  dsimp only
  cases held : machine.outer.session.comments with
  | none =>
    rw [World.noting_session, held]
    exact noted
  | some store =>
    rw [World.noting_session, held]
    obtain ⟨erases, -⟩ := delete_erases machine.outer.template store noted.sparing.wellFormed comment
    have erased := noted.spare (noted.erasing.eraseComment machine.outer.template isUsed isApart).step
    exact erased.same erases rfl rfl

/-- The end of a run is accounted for: commits, and the deletion of the comments that were used up. -/
theorem carryOut_attended (positive : 0 < start.fresh) (attended : Attended start valued (Trace start apart used) machine)
    (isUsed : ∀ comment ∈ machine.outer.session.consumed, used comment.id)
    (isApart : ∀ comment ∈ machine.outer.session.consumed, ∀ element, comment.element = some element →
      element < start.fresh → apart element)
    (run : runOn (carryOut dispatcher) machine = (.ok (), final)) :
    Attended start valued (Trace start apart used) final := by
  obtain ⟨committed, deleted, commits, -, -, deletes, run⟩ := carryOut_ok run
  have isCommitted := (commitHandlers_attended positive dispatcher).leads machine attended () committed commits
  have removes : Keeps (Attended start valued (Trace start apart used))
      (machine.outer.session.consumed.forM deleteComment) :=
    .forM fun comment member => deleteComment_attended (isUsed comment member) (isApart comment member)
  have saves : Keeps (Attended start valued (Trace start apart used)) saveComments := by
    refine Keeps.bind (fun _ attended => attended) fun world => ?_
    split
    · exact .pure _
    · refine Keeps.bind (fun _ attended => attended) fun forest => Keeps.bind (fun _ attended => attended) fun world => ?_
      exact Keeps.bind (fun _ attended => attended.same rfl rfl rfl) fun _ _ attended => attended.same rfl rfl rfl
  exact saves.leads deleted (removes.leads committed isCommitted () deleted deletes) () final run

/-- The comments that a run used up have been deleted at its end. -/
theorem carryOut_deleted (run : runOn (carryOut dispatcher) machine = (.ok (), final)) :
    ∀ comment ∈ machine.outer.session.consumed, .deleted comment.id ∈ final.outer.events := by
  obtain ⟨committed, deleted, -, -, -, deletes, run⟩ := carryOut_ok run
  obtain ⟨after, deletesToo, events⟩ := runOn_forM_deleteComment machine.outer.session.consumed committed
  rw [deletes] at deletesToo
  cases deletesToo
  obtain ⟨saved, saves, same⟩ := runOn_saveComments deleted
  rw [run] at saves
  cases saves
  intro comment member
  rw [same, events]
  exact List.mem_append_left _ (List.mem_reverse.mpr (List.mem_map.mpr ⟨comment, member, rfl⟩))

/-! ## Directives -/

/-- The run of the directives is accounted for, if the comments that are used up may be deleted. -/
theorem runDirectives_attended (positive : 0 < start.fresh)
    (opened : Opened machine.outer.template machine.outer.forest) (held : machine.outer.session.comments = some store)
    (unused : machine.outer.session.consumed = []) (quiet : machine.outer.events = [])
    (attended : Attended start valued (Trace start apart used) machine)
    (paragraphs : ∀ paragraph ∈ paragraphsBelow machine.outer.forest machine.outer.template.roots,
      start.Tagged Tag.paragraph paragraph)
    (isUsed : ∀ id, .deleted id ∈ final.outer.events → used id)
    (isApart : ∀ comment ∈ store.pending, ∀ element, comment.element = some element →
      element < start.fresh → apart element)
    (run : runOn (runDirectives dispatcher builder) machine = (.ok (), final)) :
    Attended start valued (Trace start apart used) final := by
  rw [runDirectives_goesOn (loadComments_again held)] at run
  obtain ⟨_, walked, walks, carries⟩ := bind_ok run
  have unnoted : machine.outer.joined.events = [] := quiet
  have nothingUsed : machine.outer.joined.session.consumed = [] := unused
  obtain ⟨during, ledger, -⟩ := @evaluateDirectives_ledger _ _ _ { machine with outer := machine.outer.joined }
    _ opened held walks
  have strolled := evaluateDirectives_strolled ⟨attended.joined, unnoted ▸ .nil⟩ paragraphs walks
  have consumed : walked.outer.session.consumed = consumption during := by
    rw [ledger.consumed, nothingUsed, List.nil_append]
  refine carryOut_attended positive strolled.attended (fun comment member => ?_) (fun comment member => ?_) carries
  · exact isUsed comment.id (carryOut_deleted carries comment member)
  · rw [consumed] at member
    exact isApart comment (ledger.consumption_pending comment member)


/-! ## Stamping -/

/-- Whether all tokens of a paragraph are left in place when a template is stamped: when the directives have been
carried out, and the paragraph comes up. -/
def leavesStamped (stamper : Stamper) (data : Value) (start : Machine World) (paragraph : Nat) : Bool :=
  leavesValues stamper.replacer (fun _ => dataContext stamper data) paragraph
    (runOn (runDirectives stamper.dispatcher (stamper.functions.copy data)) (runOn (prepare stamper) start).2).2

/-- What may be taken out of a template for a comment that has been deleted. -/
abbrev Erasable (start : World) (events : List Event) : Nat → Prop :=
  Trace start.forest (· ∉ keysOf (sections start.forest start.template.roots)) fun id => .deleted id ∈ events

/-- A stamping run that comes to its end is accounted for. -/
theorem stamp_attended {package : Package} {registrations : List Handler} {additional : Expression.Scope} {values : Store}
    {stamper : Stamper} {data : Value} {start : Machine World}
    (isStart : start = ⟨values, World.ofPackage package (registered registrations) additional⟩)
    (standard : ∀ handler ∈ registrations, handler ∈ Handler.standard) (noBreaks : stamper.replacer.NoBreaks)
    (run : runOn (stamp stamper data) start = (.ok (), final)) :
    ∃ filled, Attended start.outer.forest (leavesStamped stamper data start · = false)
        (Erasable start.outer final.outer.events) filled ∧
      filled.outer.forest = final.outer.forest ∧ filled.outer.events = final.outer.events := by
  have opened : Opened start.outer.template start.outer.forest :=
    isStart ▸ World.ofPackage_opened package (registered registrations) additional
  have idle : Attended start.outer.forest (leavesStamped stamper data start · = false)
      (Erasable start.outer final.outer.events) start := by
    have fits := standard_fits standard start.outer.forest
    refine .idle opened.wellFormed rfl (by rw [isStart]; rfl) (fun handler member => ?_) fun handler member => ?_
    · exact (fits handler (by rw [isStart] at member; exact member)).1
    · exact (fits handler (by rw [isStart] at member; exact member)).2
  obtain ⟨read, comments, part, prepares, isLoaded, openedRead, events, held, reads, -⟩ := prepare_reads stamper opened
  have begun : Attended start.outer.forest (leavesStamped stamper data start · = false)
      (Erasable start.outer final.outer.events)
      { start with outer := { start.outer with session := Session.start stamper.verbose } } := idle.same rfl rfl rfl
  have isRead := begun.loaded isLoaded
  have same : sections read.forest read.template.roots = sections start.outer.forest start.outer.template.roots := by
    rw [isLoaded.template]
    exact sections_extend opened isLoaded.extended
  rw [stamp_eq_resetting, runOn_bind, prepares] at run
  obtain ⟨filled, journal, fills, rfl⟩ := resetting_ok run
  obtain ⟨_, directed, directs, resolves⟩ := bind_ok fills
  have sources : ∀ condition : Machine World → Prop, StoreFree condition → ∀ number : Nat,
      Keeps condition (dataContext stamper data) :=
    fun condition free _ => Keeps.bind (.lift free _) fun _ => .pure _
  obtain ⟨during, offered, -⟩ := @resolveDocument_offers stamper.replacer directed (runDirectives_opened openedRead directs)
    (fun _ => dataContext stamper data) sources
  rw [resolves] at offered
  have quiet : read.events = [] := events.trans (by rw [isStart]; rfl)
  refine ⟨filled, ?_, rfl, rfl⟩
  refine resolveDocument_attended sources noBreaks (fun number leaves => ?_) (runDirectives_attended opened.positive openedRead
    held isLoaded.consumed quiet isRead ?_ ?_ ?_ directs) resolves
  · rw [leavesStamped, prepares, directs]
    exact leaves
  · intro paragraph member
    rw [paragraphsBelow_eq, same] at member
    obtain ⟨node, isParagraph, rfl⟩ := List.mem_map.mp member
    obtain ⟨inSection, tag⟩ := List.mem_filter.mp isParagraph
    exact ⟨node, sections_subset _ _ inSection, rfl, tag⟩
  · intro id deleted
    exact offered ▸ List.mem_append_right _ deleted
  · intro comment pending element isElement _ inSection
    exact reads.element_apart openedRead pending isElement (same ▸ inSection)

end Engine
end Imprint
