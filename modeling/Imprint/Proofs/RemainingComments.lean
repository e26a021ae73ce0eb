import Imprint.Proofs.StamperReuse
/-! # What stamping leaves of the comments

Comments are deleted at the end of the directives and put back at once.  Before that nothing reaches their tree,
and after that nothing does either.  So however a run ends, either all comments are left, or all but those that
were used up. -/
set_option autoImplicit false
namespace Imprint
open Imprint.Action Xml Document Node

/-! ## The tree of comments -/

theorem Shows.live_key {tree : Node} {comments : CommentsPart} (shows : Shows tree comments) {root : Nat}
    (live : comments = .live root) : tree.key = root := by
  cases shows with
  | live => exact CommentsPart.live.inj live
  | stored => cases live

/-- The tree of comments whose changes show at once, if there is one. -/
def World.liveComments (world : World) : List Node :=
  match world.template.comments with
  | .live root => (world.forest.find? root).toList
  | _ => []

/-- The tree of comments, unless it is kept on its own, is a tree of the forest that is no section. -/
theorem World.mem_liveComments {world : World} (opened : Opened world.template world.forest) {tree : Node}
    (member : tree ∈ world.liveComments) : world.template.comments = .live tree.key ∧
      tree ∈ world.forest.trees ∧ tree.key ∉ world.template.roots := by
  unfold World.liveComments at member
  split at member
  · rename_i root live
    obtain ⟨⟨outermost, isTree, rfl⟩, apart⟩ := opened.comments root live
    rw [opened.wellFormed.find?_key (mem_allBelow_of_mem isTree)] at member
    obtain rfl := List.mem_singleton.mp member
    exact ⟨live, isTree, apart⟩
  · cases member

theorem Sheltered.mono {trees fewer : List Node} {world : World} (sheltered : Sheltered trees world)
    (among : fewer ⊆ trees) : Sheltered fewer world where
  wellFormed := sheltered.wellFormed
  present tree member := sheltered.present tree (among member)
  outside handler member := by
    have reaches {number : Nat} (inside : number ∈ keysOf fewer) : number ∈ keysOf trees := by
      obtain ⟨tree, among', place⟩ := mem_keysOf.mp inside
      exact mem_keysOf.mpr ⟨tree, among among', place⟩
    exact ⟨fun number bound inside => (sheltered.outside handler member).anchor number bound (reaches inside),
      fun number asked inside => (sheltered.outside handler member).duty number asked (reaches inside)⟩

theorem commentsOf_sheltered {before after : World} (opened : Opened before.template before.forest)
    (sheltered : Sheltered before.liveComments after) (template : after.template = before.template) :
    Package.commentsOf after.forest after.template.comments =
      Package.commentsOf before.forest before.template.comments := by
  rw [template]
  cases part : before.template.comments with
  | none => rfl
  | stored tree => rfl
  | live root =>
    obtain ⟨⟨tree, isTree, rfl⟩, -⟩ := opened.comments root part
    have found := opened.wellFormed.find?_key (mem_allBelow_of_mem isTree)
    have member : tree ∈ before.liveComments := by
      rw [World.liveComments, part]
      exact Option.mem_toList.mpr found
    have foundAfter := sheltered.wellFormed.find?_key (mem_allBelow_of_mem (sheltered.present tree member))
    rw [Package.commentsOf, Package.commentsOf, Package.treeOf, Package.treeOf, found, foundAfter]

theorem Reads.part_eq {world : World} {store : CommentStore} {part : Option Node} (reads : Reads world store part)
    (wellFormed : world.forest.WellFormed) : part = store.root.bind world.forest.find? := by
  cases reads with
  | nothing => rfl
  | tree outermost => exact (wellFormed.find?_key (mem_allBelow_of_mem outermost)).symm

theorem Ready.commentsTree {store : CommentStore} {part : Option Node} {world : World} (ready : Ready store part world) :
    part = world.commentsTree := by
  rw [World.commentsTree, ready.held]
  exact ready.reads.part_eq ready.opened.wellFormed

theorem Ready.live_subset {store : CommentStore} {part : Option Node} {world : World}
    (ready : Ready store part world) : world.liveComments ⊆ part.toList := by
  intro tree member
  unfold World.liveComments at member
  cases ready.reads with
  | nothing none =>
    rw [none] at member
    cases member
  | @tree root outermost apart shows =>
    obtain ⟨comments, isPart⟩ : ∃ comments, comments = world.template.comments := ⟨_, rfl⟩
    rw [← isPart] at shows member
    cases shows with
    | live =>
      dsimp only at member
      rw [ready.opened.wellFormed.find?_key (mem_allBelow_of_mem outermost)] at member
      exact member
    | stored => cases member

namespace Engine

variable {store : CommentStore} {part : Option Node} {dispatcher : Dispatcher} {builder : ProxyBuilder}
  {machine final : Machine World} {trees : List Node} {template : Template}

/-! ## Phases of a run -/

/-- Certain trees are sheltered while the template stays as it is. -/
def Guarded (trees : List Node) (template : Template) (machine : Machine World) : Prop :=
  Sheltered trees machine.outer ∧ machine.outer.template = template

theorem template_frame : Frame fun machine => machine.outer.template = template where
  free _ _ same := same
  called index := by
    have proof : StepProof index fun machine : Machine World => machine.outer.template = template :=
      ⟨fun _ _ same => same, fun machine after same step => by cases step <;> exact same⟩
    exact proof.callDirective_keeps fun _ _ same => same
  reports _ _ same reports := reports.template.trans same

theorem guarded_frame : Frame (Guarded trees template) := sheltered_frame.both template_frame

/-- The replacement of values leaves trees alone that no section belongs to. -/
theorem resolveDocument_guarded (replacer : Replacer) {source : Nat → Engine Context}
    (sources : ∀ condition : Machine World → Prop, StoreFree condition → ∀ number, Keeps condition (source number))
    (guarded : Guarded trees template machine)
    (outside : ∀ paragraph ∈ paragraphsBelow machine.outer.forest machine.outer.template.roots,
      paragraph ∉ keysOf trees) :
    Guarded trees template (runOn (resolveDocument replacer source) machine).2 := by
  refine resolveDocument_after guarded fun paragraph member => Keeps.bind (fun _ guarded => guarded) fun world => ?_
  have edits : EditsAt paragraph (Guarded trees template) := fun after node changed guarded found revised =>
    ⟨sheltered_edits (outside paragraph member) after node changed guarded.1 found revised, guarded.2⟩
  have resolves := guarded_frame.resolveParagraph_keeps edits replacer (sources _ guarded_frame.free _)
    (fun _ _ _ guarded => ⟨guarded.1.step rfl rfl, guarded.2⟩) fun _ guarded => ⟨guarded.1.step rfl rfl, guarded.2⟩
  cases world.session.resolved.contains paragraph with
  | true => exact .pure _
  | false => exact resolves

theorem Guarded.comments {before : World} (opened : Opened before.template before.forest)
    (guarded : Guarded before.liveComments before.template machine) :
    Package.commentsOf machine.outer.forest machine.outer.template.comments =
      Package.commentsOf before.forest before.template.comments :=
  commentsOf_sheltered opened guarded.1 guarded.2

theorem resolveDocument_comments (replacer : Replacer) {source : Nat → Engine Context}
    (sources : ∀ condition : Machine World → Prop, StoreFree condition → ∀ number, Keeps condition (source number))
    (opened : Opened machine.outer.template machine.outer.forest)
    (sheltered : Sheltered machine.outer.liveComments machine.outer) :
    Package.commentsOf (runOn (resolveDocument replacer source) machine).2.outer.forest
        (runOn (resolveDocument replacer source) machine).2.outer.template.comments =
      Package.commentsOf machine.outer.forest machine.outer.template.comments := by
  have guarded : Guarded machine.outer.liveComments machine.outer.template machine := ⟨sheltered, rfl⟩
  exact (resolveDocument_guarded replacer sources guarded fun _ member =>
    paragraphs_apart opened (fun _ live => (World.mem_liveComments opened live).2) member).comments opened

/-- The comments of a document that is ready are those that were read, while their tree is guarded. -/
theorem Guarded.comments_read {before : World} (ready : Ready store part before)
    (guarded : Guarded part.toList before.template machine) :
    Package.commentsOf machine.outer.forest machine.outer.template.comments = part.map copied :=
  (Guarded.comments ready.opened ⟨guarded.1.mono ready.live_subset, guarded.2⟩).trans
    (ready.reads.comments ready.opened.wellFormed)

theorem deleteComment_handlers {handlers : List Handler} (comment : Comment) :
    Keeps (fun machine => machine.outer.handlers = handlers) (deleteComment comment) := by
  refine Keeps.bind (fun _ same => same) fun _ => Keeps.bind (fun _ same => same) fun world => ?_
  split
  · exact .pure _
  · exact fun _ same => same

theorem saveComments_handlers {handlers : List Handler} :
    Keeps (fun machine => machine.outer.handlers = handlers) saveComments := by
  refine Keeps.bind (fun _ same => same) fun world => ?_
  split
  · exact .pure _
  · exact fun _ same => same

/-- When the handlers have committed, nothing can fail any more and no handler changes. -/
theorem carryOut_committed {committed : Machine World} {outcome : Except Fault Unit}
    (commits : runOn (commitHandlers dispatcher) machine = (outcome, committed)) :
    (runOn (carryOut dispatcher) machine).1 = outcome ∧
      (runOn (carryOut dispatcher) machine).2.outer.handlers = committed.outer.handlers ∧
      ∀ fault, outcome = .error fault → (runOn (carryOut dispatcher) machine).2 = committed := by
  unfold carryOut
  rw [runOn_bind, commits]
  cases outcome with
  | error fault => exact ⟨rfl, rfl, fun _ _ => rfl⟩
  | ok value =>
    dsimp only
    rw [runOn_bind, runOn_world]
    dsimp only
    have kept : Keeps (fun machine => machine.outer.handlers = committed.outer.handlers)
        (committed.outer.session.consumed.forM deleteComment >>= fun _ => saveComments) :=
      Keeps.bind (.forM fun comment _ => deleteComment_handlers comment) fun _ => saveComments_handlers
    refine ⟨?_, kept committed rfl, fun fault impossible => by cases impossible⟩
    obtain ⟨deleted, deletes, -⟩ := runOn_forM_deleteComment committed.outer.session.consumed committed
    obtain ⟨saved, saves, -⟩ := runOn_saveComments deleted
    rw [runOn_bind, deletes]
    exact congrArg Prod.fst saves

end Engine

/-- Comments are not kept together with the other trees because of a save. -/
theorem Document.CommentStore.save_live {store : CommentStore} {forest : Forest} {template : Template} {root : Nat}
    (live : (store.save forest template).2.comments = .live root) : template.comments = .live root := by
  unfold CommentStore.save at live
  split at live
  · exact live
  · split at live
    · split at live
      · cases live
      · exact live
    · exact live

namespace Engine

variable {store : CommentStore} {part : Option Node} {dispatcher : Dispatcher} {builder : ProxyBuilder}
  {machine final : Machine World} {trees : List Node} {template : Template} {start : World} {during : List Event}

/-- When the comments have been put back, their tree is still out of reach. -/
theorem carryOut_sheltered (ready : Ready store part start) (evaluated : Evaluated store part start during machine.outer)
    (accepted : runOn (carryOut dispatcher) machine = (.ok (), final)) :
    Opened final.outer.template final.outer.forest ∧ Sheltered final.outer.liveComments final.outer := by
  obtain ⟨committed, deleted, stages⟩ := carryOut_stages (evaluated.template ▸ evaluated.opened)
    evaluated.comments accepted
  obtain ⟨-, sheltered⟩ := commitHandlers_secluded dispatcher evaluated.opened.positive evaluated.sheltered
  obtain ⟨-, handlers, -⟩ := carryOut_committed stages.commits
  rw [stages.commits] at sheltered
  rw [accepted] at handlers
  have opened := stages.final_opened
  refine ⟨opened, opened.wellFormed, fun tree member => (World.mem_liveComments opened member).2.1, fun handler member => ?_⟩
  have inside {number : Nat} (inside : number ∈ keysOf final.outer.liveComments) : number ∈ keysOf part.toList := by
    obtain ⟨tree, isLive, place⟩ := mem_keysOf.mp inside
    obtain ⟨live, isTree, -⟩ := World.mem_liveComments opened isLive
    obtain ⟨last, held, -⟩ := stages.isDeleted.held
    have template := stages.isDeleted.template.trans (stages.template.trans evaluated.template)
    rw [stages.saved last held] at live
    have wasLive := CommentStore.save_live live
    rw [template] at wasLive
    -- A live tree has been live all along, so deleting comments has thinned out the one that was read.
    have shown : ∃ origin ∈ part, origin.key = tree.key := by
      cases ready.reads with
      | nothing none => cases wasLive.symm.trans none
      | @tree origin outermost apart shows => exact ⟨origin, rfl, shows.live_key wasLive⟩
    obtain ⟨origin, isPart, sameKey⟩ := shown
    have present := sheltered.present origin (Option.mem_toList.mpr isPart)
    obtain ⟨thinned, -⟩ := eraseComments_clear committed.outer.template machine.outer.session.consumed
      stages.opened.wellFormed
    rw [← stages.isDeleted.forest, ← stages.forest] at thinned
    have below := thinned.below stages.opened.wellFormed [tree] (below_subset (mem_allBelow_of_mem isTree)) [origin]
      (below_subset (mem_allBelow_of_mem present)) (by simp [sameKey])
    exact mem_keysOf.mpr ⟨origin, Option.mem_toList.mpr isPart, below place⟩
  have outside := sheltered.outside handler (handlers ▸ member)
  exact ⟨fun number bound here => outside.anchor number bound (inside here),
    fun number asked here => outside.duty number asked (inside here)⟩

/-- What directives leave of the comments: those that were used up are gone if all of it has succeeded. -/
def remaining (part : Option Node) (consumed : List Comment) : Except Fault Unit → Option Node
  | .ok () => part.map fun tree => (tree.pruned (consumed.filterMap Comment.element)).copied
  | .error _ => part.map copied

theorem remaining_none (consumed : List Comment) (outcome : Except Fault Unit) :
    remaining none consumed outcome = none := by
  cases outcome <;> rfl

/-- What a run leaves of the comments when directives have been evaluated, and where their tree is then. -/
structure Leaves (part : Option Node) (run : Except Fault Unit × Machine World) : Prop where
  comments : Package.commentsOf run.2.outer.forest run.2.outer.template.comments =
    remaining part run.2.outer.session.consumed run.1
  sheltered : run.1 = .ok () →
    Opened run.2.outer.template run.2.outer.forest ∧ Sheltered run.2.outer.liveComments run.2.outer

theorem carryOut_leaves (ready : Ready store part start) (evaluated : Evaluated store part start during machine.outer) :
    Leaves part (runOn (carryOut dispatcher) machine) := by
  cases commits : runOn (commitHandlers dispatcher) machine with
  | mk outcome committed =>
    -- Only the handlers can fail, and then no comment has been deleted yet.
    obtain ⟨sameOutcome, -, fails⟩ := carryOut_committed commits
    cases outcome with
    | error fault =>
      obtain ⟨pursuing, sheltered⟩ := commitHandlers_secluded dispatcher evaluated.opened.positive evaluated.sheltered
      rw [commits] at pursuing sheltered
      have kept : Guarded part.toList start.template committed := ⟨sheltered, pursuing.template.trans evaluated.template⟩
      refine ⟨?_, fun succeeded => by cases sameOutcome.symm.trans succeeded⟩
      rw [sameOutcome, fails fault rfl]
      exact kept.comments_read ready
    | ok value =>
      cases carries : runOn (carryOut dispatcher) machine with
      | mk outcome final =>
        rw [carries] at sameOutcome
        obtain rfl : outcome = .ok value := sameOutcome
        obtain ⟨consumed, -, -, -, comments⟩ := carryOut_deletes ready evaluated carries
        refine ⟨?_, fun _ => carryOut_sheltered ready evaluated carries⟩
        dsimp only
        rw [comments, consumed]
        rfl

theorem followDirectives_leaves (ready : Ready store part machine.outer) (dispatcher : Dispatcher)
    (builder : ProxyBuilder) : Leaves part (runOn (followDirectives dispatcher builder) machine) := by
  have readyJoined := ready.joined
  have whole : followDirectives dispatcher builder = joinSession >>= fun _ =>
      evaluateDirectives dispatcher builder >>= fun _ => carryOut dispatcher := rfl
  rw [whole, runOn_bind, runOn_joinSession]
  dsimp only
  rw [runOn_bind]
  cases walks : runOn (evaluateDirectives dispatcher builder) { machine with outer := machine.outer.joined } with
  | mk outcome walked =>
    cases outcome with
    | error fault =>
      have sheltered := @evaluateDirectives_sheltered store part dispatcher builder
        { machine with outer := machine.outer.joined } readyJoined
      have walking := @evaluateDirectives_walking dispatcher builder { machine with outer := machine.outer.joined }
        readyJoined.opened.wellFormed
      rw [walks] at sheltered walking
      have kept : Guarded part.toList machine.outer.joined.template walked := ⟨sheltered, walking.template⟩
      exact ⟨kept.comments_read readyJoined, fun impossible => by cases impossible⟩
    | ok value =>
      obtain ⟨during, evaluated, -⟩ := @evaluateDirectives_evaluated store part dispatcher builder
        { machine with outer := machine.outer.joined } walked readyJoined walks
      exact carryOut_leaves readyJoined evaluated

/-! ## Stamping -/

/-- When its comments have been read, a template is ready. -/
theorem prepare_ready (stamper : Stamper) (opened : Opened machine.outer.template machine.outer.forest)
    (quiet : machine.outer.events = [])
    (idle : ∀ handler ∈ machine.outer.handlers, handler.anchor.keys = [] ∧ handler.duty.keys = []) :
    ∃ read store part, runOn (prepare stamper) machine = (.ok (), { machine with outer := read }) ∧
      Ready store part read ∧
      part.map copied = Package.commentsOf machine.outer.forest machine.outer.template.comments := by
  obtain ⟨read, store, part, prepares, isLoaded, openedRead, events, held, reads, copies⟩ := prepare_reads stamper opened
  refine ⟨read, store, part, prepares, reads.ready openedRead held isLoaded.consumed (events.trans quiet) ?_, copies⟩
  exact isLoaded.handlers ▸ idle

theorem resetting_congr {first second : Engine Unit} (same : runOn first machine = runOn second machine) :
    runOn (resetting first) machine = runOn (resetting second) machine := by
  unfold resetting
  rw [runOn_bind, runOn_bind, runOn_tryCatch, runOn_tryCatch, same]

theorem runOn_stamp (stamper : Stamper) (data : Value) {prepared : Machine World}
    (prepares : runOn (prepare stamper) machine = (.ok (), prepared))
    (held : prepared.outer.session.comments = some store) :
    runOn (stamp stamper data) machine = runOn (stampRead stamper data) prepared := by
  have same : runOn (fill stamper data) prepared = runOn (followDirectives stamper.dispatcher
      (stamper.functions.copy data) >>= fun _ => resolveDocument stamper.replacer fun _ => dataContext stamper data)
        prepared := by
    unfold fill
    rw [runDirectives_eq_follow, bind_assoc, runOn_bind, loadComments_again held]
  rw [stamp_eq_resetting, runOn_bind, prepares]
  exact resetting_congr same

/-- A stamping run leaves of the comments what its directives have left of them. -/
theorem stampRead_comments (ready : Ready store part machine.outer) (stamper : Stamper) (data : Value) :
    let directed := runOn (followDirectives stamper.dispatcher (stamper.functions.copy data)) machine
    let final := (runOn (stampRead stamper data) machine).2.outer
    Package.commentsOf final.forest final.template.comments =
      remaining part directed.2.outer.session.consumed directed.1 := by
  intro directed final
  have sources : ∀ condition : Machine World → Prop, StoreFree condition → ∀ number : Nat,
      Keeps condition (dataContext stamper data) :=
    fun condition free _ => Keeps.bind (.lift free _) fun _ => .pure _
  obtain ⟨comments, sheltered⟩ := followDirectives_leaves ready stamper.dispatcher (stamper.functions.copy data)
  obtain ⟨filled, fills, sameComments⟩ : ∃ filled, runOn (followDirectives stamper.dispatcher
      (stamper.functions.copy data) >>= fun _ => resolveDocument stamper.replacer fun _ => dataContext stamper data) machine =
        filled ∧ Package.commentsOf filled.2.outer.forest filled.2.outer.template.comments =
          Package.commentsOf directed.2.outer.forest directed.2.outer.template.comments := by
    refine ⟨_, rfl, ?_⟩
    rw [runOn_bind]
    cases reached : directed with
    | mk outcome middle =>
      have isDirected : runOn (followDirectives stamper.dispatcher (stamper.functions.copy data)) machine =
        (outcome, middle) := reached
      rw [isDirected] at sheltered ⊢
      cases outcome with
      | error fault => rfl
      | ok value =>
        obtain ⟨opened, outOfReach⟩ := sheltered rfl
        exact resolveDocument_comments stamper.replacer sources opened outOfReach
  obtain ⟨journal, ran⟩ := runOn_resetting (show runOn _ machine = (filled.1, filled.2) from fills)
  have isFinal : final = _ := congrArg (fun run => run.2.outer) ran
  rw [isFinal]
  exact sameComments.trans comments

end Engine
end Imprint
