import Imprint.Proofs.ConsumptionLedger
import Imprint.Proofs.Phases
import Imprint.Proofs.UntouchedTrees
/-! # What a run does with comments

A run that returns has used up the comments whose directive it evaluated successfully.  Their traces are
gone from the sections, and the elements that they were read from are gone from the part with the
comments, where everything else has stayed. -/
set_option autoImplicit false
namespace Imprint
open Imprint.Action Xml Document Node

/-! ## The part with the comments -/

/-- A tree shows in a template as its comments: it is the live tree, or it is a copy of the one that is
kept on its own. -/
inductive Shows (tree : Node) : CommentsPart → Prop where
  | live : Shows tree (.live tree.key)
  | stored {other : Node} (same : tree.copied = other.copied) : Shows tree (.stored other)

/-- What the comments of a world have been read from: nothing, or a tree that is no section. -/
inductive Reads (world : World) : CommentStore → Option Node → Prop where
  | nothing (part : world.template.comments = .none) : Reads world ⟨[], none, false⟩ none
  | tree {tree : Node} (outermost : tree ∈ world.forest.trees) (apart : tree.key ∉ world.template.roots)
      (shows : Shows tree world.template.comments) :
      Reads world ⟨CommentStore.read tree, some tree.key, false⟩ (some tree)

/-- The tree that the comments of a world were read from. -/
def World.commentsTree (world : World) : Option Node :=
  world.session.comments.bind fun store => store.root.bind world.forest.find?

namespace Document.CommentStore

theorem mem_insert {comment new : Comment} {comments : List Comment} (member : comment ∈ insert new comments) :
    comment = new ∨ comment ∈ comments := by
  induction comments with
  | nil => exact .inl (List.mem_singleton.mp member)
  | cons first rest hypothesis =>
    rw [insert] at member
    split at member
    · rcases List.mem_cons.mp member with same | member
      · exact .inl same
      · exact .inr (List.mem_cons_of_mem _ member)
    · rcases List.mem_cons.mp member with rfl | member
      · exact .inr List.mem_cons_self
      · exact (hypothesis member).imp_right (List.mem_cons_of_mem _)

/-- The element that a comment was read from. -/
def IsElementOf (tree : Node) (comment : Comment) (node : Node) : Prop :=
  node ∈ tree.selfAndBelow ∧ node.hasTag Tag.comment = true ∧ identifier? node = some comment.id ∧
    comment.element = some node.key

/-- Every comment is read from an element with its identifier. -/
theorem mem_read {tree : Node} : ∀ comment ∈ read tree, ∃ node, IsElementOf tree comment node := by
  unfold read
  refine List.foldlRecOn (motive := fun found => ∀ comment ∈ found, ∃ node, IsElementOf tree comment node)
    _ _ (fun _ impossible => absurd impossible List.not_mem_nil) fun found known element among => ?_
  split
  · rename_i id isId
    intro comment member
    rcases mem_insert member with rfl | member
    · obtain ⟨inTree, tag⟩ := List.mem_filter.mp among
      exact ⟨element, inTree, tag, isId, rfl⟩
    · exact known comment member
  · exact known

end Document.CommentStore

namespace Engine

theorem runOn_loadComments_reads {machine : Machine World}
    (opened : Opened machine.outer.template machine.outer.forest)
    (unread : machine.outer.session.comments = none) :
    ∃ after store part, runOn loadComments machine = (.ok (), { machine with outer := after }) ∧
      after.session.comments = some store ∧ Reads after store part := by
  unfold loadComments
  rw [runOn_bind, runOn_world]
  dsimp only
  rw [unread, Option.isNone_none, if_pos rfl, runOn_bind, runOn_forest]
  dsimp only
  rw [runOn_bind, runOn_world]
  dsimp only
  unfold CommentStore.load
  cases part : machine.outer.template.comments with
  | none => exact ⟨_, _, none, rfl, rfl, .nothing part⟩
  | live root =>
    obtain ⟨⟨tree, outermost, rfl⟩, apart⟩ := opened.comments root part
    have found := opened.wellFormed.find?_key (mem_allBelow_of_mem outermost)
    simp only [found]
    exact ⟨_, _, some tree, rfl, rfl, .tree outermost apart (part ▸ .live)⟩
  | stored tree =>
    obtain ⟨copy, after, plants, planted⟩ := opened.wellFormed.plant opened.positive tree
    have outermost : copy ∈ after.trees := by
      rw [planted.trees]
      simp
    have found := planted.wellFormed.find?_key (mem_allBelow_of_mem outermost)
    simp only [plants, found]
    refine ⟨_, _, some copy, rfl, rfl, .tree outermost (fun isSection => ?_) (part ▸ .stored planted.copied)⟩
    have old := (opened.sections copy.key isSection).lt_fresh opened.wellFormed
    have new := planted.key_fresh
    omega

end Engine

/-! ## Deleting -/

/-- What deleting some comments leaves.  The store has noticed if anything was taken out of a tree that is
no section. -/
structure Deleted (comments : List Comment) (store : CommentStore) (before after : World) : Prop where
  forest : after.forest = comments.foldl (eraseComment before.template) before.forest
  template : after.template = before.template
  consumed : after.session.consumed = before.session.consumed
  held : ∃ last, after.session.comments = some last ∧ last.root = store.root ∧
    (last.dirty = false → store.dirty = false ∧ ∀ tree ∈ before.forest.trees,
      (∀ root ∈ before.template.roots, before.forest.IsRoot root ∧ root ≠ tree.key) →
      tree.pruned (comments.filterMap Comment.element) = tree)

namespace Engine

theorem runOn_deleteComments (comments : List Comment) : ∀ {machine : Machine World} {store : CommentStore},
    machine.outer.forest.WellFormed → machine.outer.session.comments = some store →
    ∃ after, runOn (comments.forM deleteComment) machine = (.ok (), { machine with outer := after }) ∧
      Deleted comments store machine.outer after := by
  induction comments with
  | nil =>
    intro machine store _ held
    refine ⟨machine.outer, rfl, rfl, rfl, rfl, store, held, rfl, fun clean => ⟨clean, fun tree _ _ => ?_⟩⟩
    exact pruned_absent fun _ impossible => absurd impossible List.not_mem_nil
  | cons comment rest hypothesis =>
    intro machine store wellFormed held
    obtain ⟨isErased, sameRoot, notices⟩ := delete_erases machine.outer.template store wellFormed comment
    obtain ⟨step, -⟩ := eraseComment_clears machine.outer.template wellFormed comment
    obtain ⟨middle, deletes, forest, template, consumed, now⟩ : ∃ middle, runOn (deleteComment comment) machine =
        (.ok (), { machine with outer := middle }) ∧
        middle.forest = eraseComment machine.outer.template machine.outer.forest comment ∧
        middle.template = machine.outer.template ∧
        middle.session.consumed = machine.outer.session.consumed ∧ middle.session.comments =
          some (store.delete machine.outer.forest machine.outer.template comment).1 := by
      unfold deleteComment
      rw [runOn_bind, runOn_note]
      dsimp only
      rw [runOn_bind, runOn_world]
      dsimp only
      rw [World.noting_session, held]
      exact ⟨_, rfl, isErased, rfl, rfl, rfl⟩
    obtain ⟨after, deletesRest, others⟩ := @hypothesis { machine with outer := middle } _
      (forest ▸ step.wellFormed) now
    refine ⟨after, ?_, ?_, others.template.trans template, others.consumed.trans consumed, ?_⟩
    · show runOn (deleteComment comment >>= fun _ => _) machine = _
      rw [runOn_bind, deletes]
      exact deletesRest
    · rw [others.forest, forest, template]
      rfl
    · obtain ⟨last, holds, root, clean⟩ := others.held
      refine ⟨last, holds, root.trans sameRoot, fun isClean => ?_⟩
      obtain ⟨cleanBefore, same⟩ := clean isClean
      obtain ⟨cleanStore, sameFirst⟩ := notices cleanBefore
      refine ⟨cleanStore, fun tree outermost sections => ?_⟩
      have first := sameFirst tree outermost sections
      have remains := eraseComment_tree machine.outer.template wellFormed outermost sections comment
      rw [first, ← forest] at remains
      have later := same tree remains fun root isRoot => by
        rw [template] at isRoot
        exact ⟨forest ▸ step.roots root (sections root isRoot).1, (sections root isRoot).2⟩
      have split : (comment :: rest).filterMap Comment.element =
          comment.element.toList ++ rest.filterMap Comment.element := by
        cases element : comment.element with
        | none => simp [element]
        | some number => simp [element]
      rw [split, ← pruned_pruned, first, later]

end Engine

/-! ## What is left of the comments -/

/-- Saving the comments leaves the sections alone. -/
theorem Document.Opened.save {template : Template} {forest : Forest} (opened : Opened template forest)
    (store : CommentStore) : Opened (store.save forest template).2 forest := by
  unfold CommentStore.save
  split
  · exact opened
  · split
    · split
      · exact ⟨opened.wellFormed, opened.positive, opened.sections, fun root live => by cases live⟩
      · exact opened
    · exact opened

namespace Document.CommentStore

/-- Saving a store puts the tree of comments, as it is then, into the template. -/
theorem save_part {world : World} {store last : CommentStore} {part : Option Node} {forest : Forest}
    {gone : List Nat} (reads : Reads world store part) (root : last.root = store.root)
    (found : ∀ tree ∈ part, forest.find? tree.key = some (tree.pruned gone))
    (clean : last.dirty = false → ∀ tree ∈ part, tree.pruned gone = tree) :
    (last.save forest world.template).2.roots = world.template.roots ∧
      Package.commentsOf forest (last.save forest world.template).2.comments =
        part.map fun tree => (tree.pruned gone).copied := by
  cases reads with
  | nothing none =>
    rw [save, root]
    exact ⟨rfl, congrArg (Package.commentsOf forest) none⟩
  | @tree tree outermost apart shows =>
    have isFound := found tree rfl
    rw [save, root]
    dsimp only
    obtain ⟨part, isPart⟩ : ∃ part, part = world.template.comments := ⟨_, rfl⟩
    rw [← isPart] at shows
    cases shows with
    | live =>
      have shown : Package.commentsOf forest (.live tree.key) = some (tree.pruned gone).copied := by
        rw [Package.commentsOf, Package.treeOf, isFound]
        rfl
      split
      · rw [← isPart]
        exact ⟨rfl, (congrArg (Package.commentsOf forest) isPart.symm).trans shown⟩
      · exact ⟨rfl, (congrArg (Package.commentsOf forest) isPart.symm).trans shown⟩
    | @stored other same =>
      split
      · rw [← isPart, isFound]
        exact ⟨rfl, rfl⟩
      · rename_i isClean
        refine ⟨rfl, (congrArg (Package.commentsOf forest) isPart.symm).trans ?_⟩
        rw [Package.commentsOf, ← same, Option.map_some, clean (Bool.eq_false_iff.mpr isClean) tree rfl]

end Document.CommentStore

/-- Comments are not nested in each other. -/
def Unnested (tree : Node) : Prop :=
  tree.hasTag Tag.comment = false ∧ ∀ comment ∈ tree.selfAndBelow, comment.hasTag Tag.comment = true →
    ∀ inner ∈ allBelow comment.children, inner.hasTag Tag.comment = false

section Unnested

variable {tree : Node} {gone : List Nat}

/-- Without the element of a comment there is nothing of it. -/
theorem not_mem_pruned {number : Nat} (isGone : number ∈ gone) (other : number ≠ tree.key) :
    number ∉ keysOf [tree.pruned gone] := by
  cases tree with
  | mk own label lead inner tail =>
    rw [pruned, Forest.expand, keysOf_cons, List.mem_cons, List.mem_append]
    rintro (same | inside | impossible)
    · exact other same
    · exact (expandAll_keys inner number inside).2 isGone
    · cases impossible

/-- The other comments stay as they are. -/
theorem Unnested.mem_pruned (unnested : Unnested tree) {forest : Forest} (wellFormed : forest.WellFormed)
    (outermost : tree ∈ forest.trees) (elements : ∀ number ∈ gone, ∃ node ∈ tree.selfAndBelow, node.key = number ∧ node.hasTag Tag.comment = true)
    {kept : Node} (member : kept ∈ tree.selfAndBelow) (isComment : kept.hasTag Tag.comment = true)
    (stays : kept.key ∉ gone) : kept ∈ (tree.pruned gone).selfAndBelow := by
  have sameNode {node other : Node} (inTree : node ∈ tree.selfAndBelow) (alsoInTree : other ∈ tree.selfAndBelow)
      (same : node.key = other.key) : node = other :=
    wellFormed.eq_of_key_eq (selfAndBelow_subset outermost inTree) (selfAndBelow_subset outermost alsoInTree) same
  have below {node : Node} (inTree : node ∈ tree.selfAndBelow) : allBelow node.children ⊆ tree.selfAndBelow := by
    rw [← allBelow_singleton] at inTree ⊢
    exact fun inner place => allBelow_trans inTree place
  rw [selfAndBelow_eq, List.mem_cons] at member ⊢
  rcases member with rfl | member
  · rw [unnested.1] at isComment
    cases isComment
  · right
    cases tree with
    | mk own label lead inner tail =>
      rw [pruned, Forest.expand]
      have inTree : allBelow inner ⊆ (mk own label lead inner tail).selfAndBelow := by
        rw [selfAndBelow_eq]
        exact List.subset_cons_self _ _
      refine expandAll_mem member (fun holder place isGone inside => ?_) fun number isGone inside => ?_
      · obtain ⟨element, isElement, same, tag⟩ := elements holder.key isGone
        obtain rfl := sameNode isElement (inTree place) same
        obtain ⟨node, here, sameKey⟩ := List.mem_map.mp inside
        rw [allBelow_singleton, selfAndBelow_eq, List.mem_cons] at here
        rcases here with rfl | here
        · exact stays (sameKey ▸ isGone)
        · obtain rfl := sameNode (below isElement here) (inTree member) sameKey
          rw [unnested.2 element isElement tag node here] at isComment
          cases isComment
      · obtain ⟨element, isElement, same, tag⟩ := elements number isGone
        obtain ⟨node, here, sameKey⟩ := List.mem_map.mp inside
        obtain rfl := sameNode isElement (below (inTree member) here) (same.trans sameKey.symm)
        rw [unnested.2 kept (inTree member) isComment element here] at tag
        cases tag

theorem allBelow_copiedAll (nodes : List Node) : allBelow (copiedAll nodes) = (allBelow nodes).map copied := by
  induction nodes using nodes_induction with
  | nil => rfl
  | cons own label lead inner tail rest below beside =>
    rw [copiedAll, allBelow_cons, allBelow_cons, copied, children, below, beside, List.map_cons, List.map_append]
    rfl

theorem selfAndBelow_copied (node : Node) : node.copied.selfAndBelow = node.selfAndBelow.map copied := by
  have whole := allBelow_copiedAll [node]
  rwa [copiedAll, copiedAll, allBelow_singleton, allBelow_singleton] at whole

/-- Copies have no nested comments either. -/
theorem Unnested.of_copied (unnested : Unnested tree) {other : Node} (same : other.copied = tree.copied) :
    Unnested other := by
  have inner (node : Node) : node.copied.children = copiedAll node.children := by
    cases node
    rfl
  refine ⟨?_, fun comment place isComment node below => ?_⟩
  · rw [← hasTag_copied, same, hasTag_copied]
    exact unnested.1
  · have inTree : comment.copied ∈ tree.selfAndBelow.map copied := by
      rw [← selfAndBelow_copied, ← same, selfAndBelow_copied]
      exact List.mem_map.mpr ⟨comment, place, rfl⟩
    obtain ⟨origin, isOrigin, sameComment⟩ := List.mem_map.mp inTree
    have inOrigin : node.copied ∈ (allBelow origin.children).map copied := by
      rw [← allBelow_copiedAll, ← inner, sameComment, inner, allBelow_copiedAll]
      exact List.mem_map.mpr ⟨node, below, rfl⟩
    obtain ⟨last, isLast, sameNode⟩ := List.mem_map.mp inOrigin
    rw [← hasTag_copied, ← sameNode, hasTag_copied]
    refine unnested.2 origin isOrigin ?_ last isLast
    rw [← hasTag_copied, sameComment, hasTag_copied]
    exact isComment

end Unnested

/-! ## The run -/

theorem Document.Opened.loosened {template : Template} {before after : Forest} (opened : Opened template before)
    (loosened : Forest.Loosened before.fresh before after) : Opened template after where
  wellFormed := loosened.wellFormed
  positive := Nat.lt_of_lt_of_le opened.positive loosened.fresh
  sections root member :=
    loosened.roots root ((opened.sections root member).lt_fresh opened.wellFormed) (opened.sections root member)
  comments root live := by
    obtain ⟨isRoot, apart⟩ := opened.comments root live
    exact ⟨loosened.roots root (isRoot.lt_fresh opened.wellFormed) isRoot, apart⟩

section Apart

variable {world : World} (opened : Opened world.template world.forest) {trees : List Node}
  (apart : ∀ tree ∈ trees, tree ∈ world.forest.trees ∧ tree.key ∉ world.template.roots)
include opened apart

/-- Trees that are no sections share nothing with the sections. -/
theorem sections_apart {number : Nat} (inSection : number ∈ keysOf (sections world.forest world.template.roots)) :
    number ∉ keysOf trees := by
  intro inside
  obtain ⟨tree, member, place⟩ := mem_keysOf.mp inside
  obtain ⟨outermost, noSection⟩ := apart tree member
  obtain ⟨other, isTree, isRoot, shared⟩ := sections_tree opened inSection
  rw [opened.wellFormed.tree_unique outermost isTree place shared] at noSection
  exact noSection isRoot

theorem paragraphs_apart {paragraph : Nat}
    (member : paragraph ∈ paragraphsBelow world.forest world.template.roots) : paragraph ∉ keysOf trees := by
  rw [paragraphsBelow_eq] at member
  obtain ⟨node, isParagraph, rfl⟩ := List.mem_map.mp member
  exact sections_apart opened apart (List.mem_map.mpr ⟨node, (List.mem_filter.mp isParagraph).1, rfl⟩)

end Apart

/-- The tree of comments is no section. -/
theorem Reads.apart {world : World} {store : CommentStore} {part : Option Node} (reads : Reads world store part) :
    ∀ tree ∈ part.toList, tree ∈ world.forest.trees ∧ tree.key ∉ world.template.roots := by
  intro tree member
  cases reads with
  | nothing => cases member
  | tree outermost apart => exact List.mem_singleton.mp member ▸ ⟨outermost, apart⟩

/-- A document whose comments have been read and whose directives have not been evaluated yet. -/
structure Ready (store : CommentStore) (part : Option Node) (world : World) : Prop where
  opened : Opened world.template world.forest
  reads : Reads world store part
  held : world.session.comments = some store
  unused : world.session.consumed = []
  quiet : world.events = []
  sheltered : Sheltered part.toList world

/-- A document whose comments have been read is ready while nothing has happened and no handler is bound to
anything or has been asked for anything. -/
theorem Reads.ready {world : World} {store : CommentStore} {part : Option Node} (reads : Reads world store part)
    (opened : Opened world.template world.forest) (held : world.session.comments = some store)
    (unused : world.session.consumed = []) (quiet : world.events = [])
    (idle : ∀ handler ∈ world.handlers, handler.anchor.keys = [] ∧ handler.duty.keys = []) :
    Ready store part world := by
  refine ⟨opened, reads, held, unused, quiet, opened.wellFormed, fun tree member => (reads.apart tree member).1,
    fun handler member => ?_⟩
  obtain ⟨anchor, duty⟩ := idle handler member
  exact ⟨by rw [anchor]; exact fun _ => (absurd · List.not_mem_nil),
    by rw [duty]; exact fun _ => (absurd · List.not_mem_nil)⟩

/-- The directives of a document whose comments have been read have been evaluated; it may have been changed
further since. -/
structure Evaluated (store : CommentStore) (part : Option Node) (start : World) (during : List Event)
    (world : World) : Prop where
  opened : Opened start.template world.forest
  sheltered : Sheltered part.toList world
  template : world.template = start.template
  consumed : world.session.consumed = consumption during
  comments : world.session.comments = some (store.without (consumption during))

namespace Engine

variable {store : CommentStore} {part : Option Node} {start : World} {during : List Event}
  {dispatcher : Dispatcher} {builder : ProxyBuilder} {machine final : Machine World}

/-- Going through the document leaves the tree of comments alone, also if it fails. -/
theorem evaluateDirectives_sheltered (ready : Ready store part machine.outer) :
    Sheltered part.toList (runOn (evaluateDirectives dispatcher builder) machine).2.outer :=
  sheltered_walkFrame.visitParagraphs_keeps _ (fun _ member => paragraphs_apart ready.opened ready.reads.apart member)
    machine ready.sheltered

theorem evaluateDirectives_evaluated (ready : Ready store part machine.outer)
    (accepted : runOn (evaluateDirectives dispatcher builder) machine = (.ok (), final)) :
    ∃ during, Evaluated store part machine.outer during final.outer ∧
      Ledger store machine.outer machine.outer.met during final.outer ∧ ∀ id, during.countP (Event.isFor id) ≤
        (allBelow (sections machine.outer.forest machine.outer.template.roots)).countP (isStartOf id) := by
  obtain ⟨during, ledger, counted⟩ := evaluateDirectives_ledger ready.opened ready.held accepted
  have walking := @evaluateDirectives_walking dispatcher builder machine ready.opened.wellFormed
  have sheltered := @evaluateDirectives_sheltered store part dispatcher builder machine ready
  rw [accepted] at walking sheltered
  refine ⟨during, ⟨?_, sheltered, ledger.template, ?_, ledger.comments⟩, ledger, counted⟩
  · exact ready.opened.loosened (walking.edited.loosened (Nat.le_refl _))
  · rw [ledger.consumed, ready.unused, List.nil_append]

/-- Committing uses up no comment. -/
theorem keptComments_frame (comments : Option CommentStore) (consumed : List Comment) :
    CommitFrame 0 (fun _ => True) (fun _ => True) fun machine =>
      machine.outer.session.comments = comments ∧ machine.outer.session.consumed = consumed where
  free _ _ kept := kept
  called index := by
    have proof : StepProof index fun machine : Machine World =>
        machine.outer.session.comments = comments ∧ machine.outer.session.consumed = consumed :=
      ⟨fun _ _ kept => kept, fun machine after kept step => by cases step <;> exact kept⟩
    exact proof.callDirective_keeps fun _ _ kept => kept
  reports _ _ kept reports := ⟨reports.comments.trans kept.1, reports.consumed.trans kept.2⟩
  fresh _ _ := Nat.zero_le _
  asked _ _ _ _ := ⟨fun _ => trivial, fun _ _ => trivial⟩
  planted _ _ kept := kept
  edits _ _ _ _ _ kept _ _ := kept
  moved _ _ _ _ _ kept := kept
  detached _ _ _ kept := kept
  emptied _ _ _ kept := kept
  raised _ _ _ kept := kept
  marked _ _ kept := kept
  thrownAway verbose body _ machine kept := by
    have same := inThrowawaySession_restores verbose body machine
    exact ⟨(congrArg Session.comments same).trans kept.1, (congrArg Session.consumed same).trans kept.2⟩
  valued _ _ _ _ kept := kept
  repeated _ _ _ _ _ _ _ _ _ kept := kept
  told _ _ kept := kept

theorem commitHandlers_kept (dispatcher : Dispatcher) (machine : Machine World) :
    (runOn (commitHandlers dispatcher) machine).2.outer.session.comments = machine.outer.session.comments ∧
      (runOn (commitHandlers dispatcher) machine).2.outer.session.consumed = machine.outer.session.consumed := by
  have kept : Keeps (fun after : Machine World =>
      after.outer.session.comments = machine.outer.session.comments ∧
        after.outer.session.consumed = machine.outer.session.consumed) (commitHandlers dispatcher) :=
    Keeps.bind (fun _ kept => kept) fun world => .forM fun place _ =>
      (keptComments_frame _ _).commitAt_keeps dispatcher (fun _ _ kept => kept) place
  exact kept machine ⟨rfl, rfl⟩

/-- A run that comes to its end has deleted the comments that were used up before the handlers have committed. -/
theorem carryOut_ok {dispatcher : Dispatcher} {machine final : Machine World}
    (run : runOn (carryOut dispatcher) machine = (.ok (), final)) : ∃ committed deleted,
      runOn (commitHandlers dispatcher) machine = (.ok (), committed) ∧
      committed.outer.session.comments = machine.outer.session.comments ∧
      committed.outer.session.consumed = machine.outer.session.consumed ∧
      runOn (machine.outer.session.consumed.forM deleteComment) committed = (.ok (), deleted) ∧
      runOn saveComments deleted = (.ok (), final) := by
  obtain ⟨_, committed, commits, run⟩ := bind_ok run
  obtain ⟨_, _, reads, run⟩ := bind_ok run
  cases reads
  obtain ⟨_, deleted, deletes, saves⟩ := bind_ok run
  obtain ⟨comments, consumed⟩ := commitHandlers_kept dispatcher machine
  rw [commits] at comments consumed
  rw [consumed] at deletes
  exact ⟨committed, deleted, commits, comments, consumed, deletes, saves⟩

end Engine

/-- What a run leaves that started from some world. -/
structure Settled (store : CommentStore) (part : Option Node) (start final : World) : Prop where
  /-- The comments that are used up are those whose directive was evaluated successfully. -/
  evaluated : ∀ comment, comment ∈ final.session.consumed ↔
    ∃ anchor data, anchor.comment = some comment ∧ .directive anchor comment.text data true ∈ final.events
  /-- Every directive of a comment is the text of one that was pending. -/
  texts : ∀ anchor expression data succeeded comment, .directive anchor expression data succeeded ∈ final.events →
    anchor.comment = some comment → comment ∈ store.pending ∧ expression = comment.text
  unique : (final.session.consumed.map Comment.id).Nodup
  /-- No directive is evaluated twice if there is only one start marker for it. -/
  once : ∀ id, (allBelow (sections start.forest start.template.roots)).countP (isStartOf id) ≤ 1 →
    final.events.countP (Event.isFor id) ≤ 1
  /-- What is left in the sections of a comment that is used up has no place to be taken from. -/
  traces : ∀ comment ∈ final.session.consumed, ∀ tree ∈ sections final.forest final.template.roots,
    ∀ tag ∈ [Tag.rangeStart, Tag.rangeEnd, Tag.reference], ∀ node ∈ tree.selfAndBelow,
      isTraceOf comment.id tag node = true →
        node = tree ∨ (tag = Tag.reference ∧ holdsOnlyReferences tree = true ∧ node ∈ tree.children)
  /-- The part with the comments loses the elements of those that are used up. -/
  remaining : Package.commentsOf final.forest final.template.comments =
    part.map fun tree => (tree.pruned (final.session.consumed.filterMap Comment.element)).copied
  gone : ∀ comment ∈ final.session.consumed, ∃ tree ∈ part, ∃ node, CommentStore.IsElementOf tree comment node ∧
    node.key ∉ keysOf [tree.pruned (final.session.consumed.filterMap Comment.element)]
  kept : ∀ tree ∈ part, ∀ node ∈ tree.selfAndBelow, node.hasTag Tag.comment = true →
    (∀ comment ∈ final.session.consumed, comment.element ≠ some node.key) →
      node ∈ (tree.pruned (final.session.consumed.filterMap Comment.element)).selfAndBelow

/-- Every comment that may be pending was read from an element of the tree. -/
theorem Reads.element {world : World} {store : CommentStore} {part : Option Node} (reads : Reads world store part)
    {comment : Comment} (pending : comment ∈ store.pending) :
    ∃ tree ∈ part, ∃ node, CommentStore.IsElementOf tree comment node := by
  cases reads with
  | nothing => cases pending
  | @tree tree => exact ⟨tree, rfl, CommentStore.mem_read comment pending⟩

theorem Reads.step {world after : World} {store : CommentStore} {part : Option Node} (reads : Reads world store part)
    (forest : after.forest = world.forest) (template : after.template = world.template) :
    Reads after store part := by
  cases reads with
  | nothing isNone => exact .nothing (template ▸ isNone)
  | tree outermost apart shows => exact .tree (forest ▸ outermost) (template ▸ apart) (template ▸ shows)

theorem Reads.comments {world : World} {store : CommentStore} {part : Option Node} (reads : Reads world store part)
    (wellFormed : world.forest.WellFormed) :
    Package.commentsOf world.forest world.template.comments = part.map copied := by
  cases reads with
  | nothing part => rw [part]; rfl
  | @tree tree outermost apart shows =>
    obtain ⟨part, isPart⟩ : ∃ part, part = world.template.comments := ⟨_, rfl⟩
    rw [← isPart] at shows ⊢
    cases shows with
    | live =>
      rw [Package.commentsOf, Package.treeOf, wellFormed.find?_key (mem_allBelow_of_mem outermost)]
      rfl
    | stored same => exact congrArg some same.symm

theorem Ready.joined {world : World} {store : CommentStore} {part : Option Node} (ready : Ready store part world) :
    Ready store part world.joined := by
  refine ⟨ready.opened, ready.reads.step rfl rfl, ready.held, ready.unused, ready.quiet,
    ready.sheltered.wellFormed, ready.sheltered.present, fun handler member => ?_⟩
  obtain ⟨old, isOld, rfl⟩ := World.mem_joined member
  have outside := ready.sheltered.outside old isOld
  exact ⟨old.joined_anchor ▸ outside.anchor, old.joined_duty ▸ outside.duty⟩

namespace Engine

variable {store : CommentStore} {part : Option Node} {start : World} {during : List Event}
  {dispatcher : Dispatcher} {builder : ProxyBuilder} {machine final : Machine World}

/-- No directive is evaluated when the handlers have begun to commit. -/
theorem carryOut_events (accepted : runOn (carryOut dispatcher) machine = (.ok (), final)) :
    ∃ later, final.outer.events = later ++ machine.outer.events ∧ ∀ event ∈ later, event.isDirective = false := by
  obtain ⟨deleting, committing, events, ofCommits, whole, -⟩ := carryOut_carriedOut dispatcher machine
  rw [accepted] at events whole
  obtain ⟨-, comments, rfl⟩ := whole rfl
  refine ⟨_, events, fun event member => ?_⟩
  rcases List.mem_append.mp member with member | member
  · obtain ⟨comment, -, rfl⟩ := List.mem_map.mp (List.mem_reverse.mp member)
    rfl
  · have passes := ofCommits event member
    cases event with
    | directive => cases passes
    | _ => rfl

/-- The stages of the end of a run: the handlers have committed, then the comments are deleted that were used
up, and then the others are saved. -/
structure Stages (dispatcher : Dispatcher) (store : CommentStore) (start committed : Machine World)
    (deleted final : World) : Prop where
  commits : runOn (commitHandlers dispatcher) start = (.ok (), committed)
  opened : Opened start.outer.template committed.outer.forest
  template : committed.outer.template = start.outer.template
  isDeleted : Deleted start.outer.session.consumed store committed.outer deleted
  consumed : final.session.consumed = start.outer.session.consumed
  forest : final.forest = deleted.forest
  saved : ∀ last, deleted.session.comments = some last →
    final.template = (last.save deleted.forest deleted.template).2

theorem carryOut_stages (opened : Opened machine.outer.template machine.outer.forest)
    (held : machine.outer.session.comments = some store)
    (accepted : runOn (carryOut dispatcher) machine = (.ok (), final)) :
    ∃ committed deleted, Stages dispatcher store machine committed deleted final.outer := by
  obtain ⟨committed, _, commits, comments, consumed, deletes, saves⟩ := carryOut_ok accepted
  have pursuing := commitHandlers_pursuing dispatcher opened.wellFormed opened.positive
  rw [commits] at pursuing
  have openedAfter := opened.loosened pursuing.attached
  obtain ⟨deleted, deletesAll, isDeleted⟩ := runOn_deleteComments machine.outer.session.consumed
    openedAfter.wellFormed (comments.trans held)
  rw [deletesAll] at deletes
  cases deletes
  obtain ⟨last, heldLast, -⟩ := isDeleted.held
  rw [@runOn_saveComments_some { committed with outer := deleted } last heldLast] at saves
  cases saves
  refine ⟨committed, deleted, commits, openedAfter, pursuing.template, isDeleted,
    isDeleted.consumed.trans consumed, rfl, fun other isOther => ?_⟩
  obtain rfl := Option.some.inj (heldLast.symm.trans isOther)
  rfl

/-- At the end of a run the document is still one. -/
theorem Stages.final_opened {committed : Machine World} {deleted : World}
    (stages : Stages dispatcher store machine committed deleted final.outer) :
    Opened final.outer.template final.outer.forest := by
  obtain ⟨thinned, -⟩ := eraseComments_clear committed.outer.template machine.outer.session.consumed
    stages.opened.wellFormed
  obtain ⟨last, held, -⟩ := stages.isDeleted.held
  have after : Opened machine.outer.template final.outer.forest := by
    rw [stages.forest, stages.isDeleted.forest]
    exact stages.opened.loosened thinned.loosened
  rw [stages.saved last held, stages.isDeleted.template, stages.template, ← stages.forest]
  exact after.save last

/-- The end of a run deletes the comments that were used up. -/
theorem carryOut_deletes (ready : Ready store part start)
    (evaluated : Evaluated store part start during machine.outer)
    (accepted : runOn (carryOut dispatcher) machine = (.ok (), final)) :
    final.outer.session.consumed = consumption during ∧ final.outer.forest.WellFormed ∧
      final.outer.template.roots = start.template.roots ∧
      (∀ comment ∈ consumption during, ∀ root ∈ start.template.roots,
        Cleared comment.id final.outer.forest root) ∧
      Package.commentsOf final.outer.forest final.outer.template.comments =
        part.map fun tree => (tree.pruned ((consumption during).filterMap Comment.element)).copied := by
  obtain ⟨committed, deleted, stages⟩ := carryOut_stages (evaluated.template ▸ evaluated.opened)
    evaluated.comments accepted
  obtain ⟨-, sheltered⟩ := commitHandlers_secluded dispatcher evaluated.opened.positive evaluated.sheltered
  rw [stages.commits] at sheltered
  have template := stages.template.trans evaluated.template
  obtain ⟨opened, isDeleted⟩ : Opened start.template committed.outer.forest ∧
      Deleted (consumption during) (store.without (consumption during)) committed.outer deleted :=
    ⟨evaluated.template ▸ stages.opened, evaluated.consumed ▸ stages.isDeleted⟩
  obtain ⟨last, held, root, clean⟩ := isDeleted.held
  obtain ⟨thinned, cleared⟩ := eraseComments_clear committed.outer.template (consumption during)
    opened.wellFormed
  rw [← isDeleted.forest] at thinned cleared
  have others : ∀ tree ∈ part, ∀ root ∈ committed.outer.template.roots,
      committed.outer.forest.IsRoot root ∧ root ≠ tree.key := by
    intro tree isPart root isSection
    rw [template] at isSection
    refine ⟨opened.sections root isSection, ?_⟩
    rintro rfl
    exact (ready.reads.apart tree (Option.mem_toList.mpr isPart)).2 isSection
  have present : ∀ tree ∈ part, tree ∈ committed.outer.forest.trees := fun tree isPart =>
    sheltered.present tree (Option.mem_toList.mpr isPart)
  have remains : ∀ tree ∈ part, final.outer.forest.find? tree.key =
      some (tree.pruned ((consumption during).filterMap Comment.element)) := by
    intro tree isPart
    have outermost := eraseComments_tree committed.outer.template (consumption during) opened.wellFormed
      (present tree isPart) (others tree isPart)
    rw [← isDeleted.forest] at outermost
    have found := thinned.wellFormed.find?_key (mem_allBelow_of_mem outermost)
    rwa [key_pruned, ← stages.forest] at found
  obtain ⟨roots, comments⟩ := CommentStore.save_part ready.reads
    (root.trans (CommentStore.without_root _ _)) remains fun isClean tree isPart =>
      (clean isClean).2 tree (present tree isPart) (others tree isPart)
  have saved := stages.saved last held
  rw [isDeleted.template, template, ← stages.forest] at saved
  refine ⟨stages.consumed.trans evaluated.consumed, stages.final_opened.wellFormed, ?_, ?_, ?_⟩
  · rw [saved]
    exact roots
  · rw [stages.forest]
    exact template ▸ cleared
  · rw [saved]
    exact comments

/-- A run that comes to an end settles the comments. -/
theorem evaluate_settles (ready : Ready store part machine.outer) (unnested : ∀ tree ∈ part, Unnested tree)
    (accepted : runOn (evaluateDirectives dispatcher builder >>= fun _ => carryOut dispatcher) machine =
      (.ok (), final)) : Settled store part machine.outer final.outer := by
  obtain ⟨_, walked, walks, accepted⟩ := bind_ok accepted
  obtain ⟨during, evaluated, ledger, counted⟩ := evaluateDirectives_evaluated ready walks
  obtain ⟨later, events, noDirective⟩ := carryOut_events accepted
  rw [ledger.events, ready.quiet, List.append_nil] at events
  obtain ⟨consumed, wellFormed, roots, cleared, remaining⟩ := carryOut_deletes ready evaluated accepted
  have isDirective {event : Event} (member : event ∈ final.outer.events) (directive : event.isDirective = true) :
      event ∈ during := by
    rw [events] at member
    rcases List.mem_append.mp member with member | member
    · rw [noDirective event member] at directive
      cases directive
    · exact member
  have elements := ledger.consumption_pending
  constructor
  case evaluated =>
    intro comment
    rw [consumed, consumption, List.mem_reverse, List.mem_filterMap]
    constructor
    · rintro ⟨event, inDuring, used⟩
      obtain ⟨anchor, expression, data, rfl, isComment⟩ := consumed_of_directive used
      obtain ⟨-, rfl⟩ := ledger.texts anchor expression data true comment inDuring isComment
      exact ⟨anchor, data, isComment, events ▸ List.mem_append_right _ inDuring⟩
    · rintro ⟨anchor, data, isComment, member⟩
      exact ⟨_, isDirective member rfl, isComment⟩
  case texts =>
    intro anchor expression data succeeded comment member
    exact ledger.texts anchor expression data succeeded comment (isDirective member rfl)
  case unique => exact consumed ▸ ledger.unique
  case once =>
    intro id single
    have none : later.countP (Event.isFor id) = 0 := by
      rw [List.countP_eq_zero]
      intro event member
      have passes := noDirective event member
      cases event with
      | directive => cases passes
      | _ => simp [Event.isFor, Event.comment?]
    rw [events, List.countP_append, none, Nat.zero_add]
    exact Nat.le_trans (counted id) single
  case traces =>
    intro comment used tree isSection tag isTag node place trace
    obtain ⟨root, isRoot, found⟩ := List.mem_filterMap.mp isSection
    rw [consumed] at used
    rw [roots] at isRoot
    exact (cleared comment used root isRoot).left wellFormed found place isTag trace
  case remaining => exact consumed ▸ remaining
  case gone =>
    intro comment used
    rw [consumed] at used ⊢
    obtain ⟨tree, isPart, node, place, isComment, isId, element⟩ := ready.reads.element (elements comment used)
    refine ⟨tree, isPart, node, ⟨place, isComment, isId, element⟩,
      not_mem_pruned (List.mem_filterMap.mpr ⟨comment, used, element⟩) fun same => ?_⟩
    have outermost := ready.sheltered.present tree (Option.mem_toList.mpr isPart)
    rw [ready.opened.wellFormed.eq_of_key_eq (selfAndBelow_subset outermost place)
      (mem_allBelow_of_mem outermost) same, (unnested tree isPart).1] at isComment
    cases isComment
  case kept =>
    intro tree isPart node place isComment others
    rw [consumed] at others ⊢
    refine (unnested tree isPart).mem_pruned ready.opened.wellFormed
      (ready.sheltered.present tree (Option.mem_toList.mpr isPart)) (fun number isGone => ?_) place isComment fun isGone => ?_
    · obtain ⟨comment, used, element⟩ := List.mem_filterMap.mp isGone
      obtain ⟨other, isOther, found, inTree, tag, -, isElement⟩ := ready.reads.element (elements comment used)
      obtain rfl := Option.some.inj (isPart.symm.trans isOther)
      exact ⟨found, inTree, Option.some.inj (isElement.symm.trans element), tag⟩
    · obtain ⟨comment, used, element⟩ := List.mem_filterMap.mp isGone
      exact others comment used element

/-- Reading the comments makes a document ready that no handler has been asked anything for. -/
theorem loadComments_ready {machine : Machine World} (opened : Opened machine.outer.template machine.outer.forest)
    (session : ∃ verbose, machine.outer.session = .start verbose) (quiet : machine.outer.events = [])
    (idle : ∀ handler ∈ machine.outer.handlers, handler.anchor.keys = [] ∧ handler.duty.keys = []) :
    ∃ loaded store part, runOn loadComments machine = (.ok (), { machine with outer := loaded }) ∧
      Ready store part loaded ∧ part.map copied =
        Package.commentsOf machine.outer.forest machine.outer.template.comments := by
  obtain ⟨verbose, isSession⟩ := session
  obtain ⟨loaded, loads, isLoaded⟩ := runOn_loadComments opened
  obtain ⟨after, store, part, loadsToo, held, reads⟩ :=
    runOn_loadComments_reads opened (congrArg Session.comments isSession)
  rw [loads] at loadsToo
  obtain rfl : loaded = after := congrArg (fun run => run.2.outer) loadsToo
  have openedLoaded := opened.extend isLoaded.extended
  refine ⟨loaded, store, part, loads, reads.ready ?_ held ?_ ?_ ?_, ?_⟩
  · rwa [isLoaded.template]
  · rw [isLoaded.consumed, isSession]
    rfl
  · exact isLoaded.events.trans quiet
  · exact isLoaded.handlers ▸ idle
  · rw [← reads.comments openedLoaded.wellFormed, isLoaded.template,
      Package.commentsOf_extend opened isLoaded.extended]

theorem loadComments_held (machine : Machine World) :
    ∃ comments, (runOn loadComments machine).2.outer.session.comments = some comments := by
  cases held : machine.outer.session.comments with
  | none => exact ⟨_, by rw [runOn_loadComments_unread held]⟩
  | some comments => exact ⟨comments, by rw [loadComments_again held]; exact held⟩

theorem standard_idle {registrations : List Handler}
    (standard : ∀ handler ∈ registrations, handler ∈ Handler.standard) :
    ∀ handler ∈ registered registrations, handler.anchor.keys = [] ∧ handler.duty.keys = [] := by
  intro handler member
  have isStandard := standard handler (mem_registered member)
  simp only [Handler.standard, List.mem_cons, List.not_mem_nil, or_false] at isStandard
  rcases isStandard with rfl | rfl | rfl
  · exact ⟨rfl, rfl⟩
  · exact ⟨rfl, rfl⟩
  · exact ⟨rfl, rfl⟩

/-- When the comments have been read, a run goes on with the evaluation of the directives. -/
theorem runDirectives_goesOn {machine : Machine World} {read : World}
    (reads : runOn loadComments machine = (.ok (), { machine with outer := read })) :
    runOn (runDirectives dispatcher builder) machine =
      runOn (evaluateDirectives dispatcher builder >>= fun _ => carryOut dispatcher)
        { machine with outer := read.joined } := by
  rw [runDirectives_eq, runOn_bind, runOn_walkThrough dispatcher builder reads, runOn_bind]

theorem runDirectives_settles_read {machine : Machine World} {read : World}
    (reads : runOn loadComments machine = (.ok (), { machine with outer := read })) (ready : Ready store part read)
    (unnested : ∀ tree ∈ part, Unnested tree)
    (accepted : (runOn (runDirectives dispatcher builder) machine).1 = .ok ()) :
    Settled store part read (runOn (runDirectives dispatcher builder) machine).2.outer := by
  rw [runDirectives_goesOn reads] at accepted ⊢
  have settled := evaluate_settles ready.joined unnested (Prod.ext accepted rfl)
  exact { settled with once := settled.once }

/-- A run that comes to an end leaves a document. -/
theorem runDirectives_opened {machine final : Machine World}
    (opened : Opened machine.outer.template machine.outer.forest)
    (accepted : runOn (runDirectives dispatcher builder) machine = (.ok (), final)) :
    Opened final.outer.template final.outer.forest := by
  obtain ⟨loaded, loads, isLoaded⟩ := runOn_loadComments opened
  obtain ⟨comments, held⟩ := loadComments_held machine
  rw [loads] at held
  dsimp only at held
  have joinedOpened : Opened loaded.joined.template loaded.joined.forest := by
    have after := opened.extend isLoaded.extended
    rwa [← isLoaded.template] at after
  rw [runDirectives_goesOn loads] at accepted
  obtain ⟨_, walked, walks, carries⟩ := bind_ok accepted
  obtain ⟨during, ledger, -⟩ := evaluateDirectives_ledger joinedOpened held walks
  have walking := @evaluateDirectives_walking dispatcher builder { machine with outer := loaded.joined }
    joinedOpened.wellFormed
  rw [walks] at walking
  have walkedOpened : Opened walked.outer.template walked.outer.forest := by
    rw [ledger.template]
    exact joinedOpened.loosened (walking.edited.loosened (Nat.le_refl _))
  obtain ⟨committed, deleted, stages⟩ := carryOut_stages walkedOpened ledger.comments carries
  exact stages.final_opened

/-- A document is ready once its comments have been read, whether they are read now or have been read
before. -/
theorem prepared_ready (package : Package) (registrations : List Handler)
    (standard : ∀ handler ∈ registrations, handler ∈ Handler.standard) (additional : Expression.Scope)
    (verbose preloaded : Bool) (store : Store) {machine : Machine World}
    (prepared : runOn (if preloaded then loadComments else pure ()) ⟨store, { World.ofPackage package
      (registered registrations) additional with session := .start verbose }⟩ = (.ok (), machine)) :
    ∃ read comments part, runOn loadComments machine = (.ok (), { machine with outer := read }) ∧
      Ready comments part read ∧ part.map copied = package.comments.map copied := by
  obtain ⟨start, isStart⟩ : ∃ start : Machine World, start = ⟨store, { World.ofPackage package
    (registered registrations) additional with session := .start verbose }⟩ := ⟨_, rfl⟩
  rw [← isStart] at prepared
  have opened : Opened start.outer.template start.outer.forest :=
    isStart ▸ World.ofPackage_opened package (registered registrations) additional
  obtain ⟨read, comments, part, reads, ready, copies⟩ := loadComments_ready opened
    ⟨verbose, by rw [isStart]⟩ (by rw [isStart]; rfl) (by rw [isStart]; exact standard_idle standard)
  refine ⟨read, comments, part, ?_, ready, ?_⟩
  · cases preloaded with
    | false =>
      obtain rfl : start = machine := congrArg Prod.snd prepared
      exact reads
    | true =>
      rw [if_pos rfl, reads] at prepared
      obtain rfl : { start with outer := read } = machine := congrArg Prod.snd prepared
      exact loadComments_again ready.held
  · rw [copies, isStart]
    exact package.openIn_comments

/-- A run that comes to an end settles the comments of the document, whether it has to read them or they have
been read before. -/
theorem runDirectives_settles (package : Package) (unnested : ∀ tree ∈ package.comments, Unnested tree)
    (registrations : List Handler) (standard : ∀ handler ∈ registrations, handler ∈ Handler.standard)
    (additional : Expression.Scope) (verbose preloaded : Bool) (store : Store) {machine : Machine World}
    (prepared : runOn (if preloaded then loadComments else pure ()) ⟨store, { World.ofPackage package
      (registered registrations) additional with session := .start verbose }⟩ = (.ok (), machine))
    (dispatcher : Dispatcher) (builder : ProxyBuilder)
    (accepted : (runOn (runDirectives dispatcher builder) machine).1 = .ok ()) :
    ∃ loaded comments part, runOn loadComments machine = (.ok (), { machine with outer := loaded }) ∧
      Reads loaded comments part ∧ part.map copied = package.comments.map copied ∧
      Settled comments part loaded (runOn (runDirectives dispatcher builder) machine).2.outer := by
  obtain ⟨read, comments, part, loads, ready, fromPackage⟩ :=
    prepared_ready package registrations standard additional verbose preloaded store prepared
  refine ⟨read, comments, part, loads, ready.reads, fromPackage,
    runDirectives_settles_read loads ready (fun tree isPart => ?_) accepted⟩
  obtain ⟨origin, isOrigin, same⟩ :=
    Option.map_eq_some_iff.mp (fromPackage.symm.trans (congrArg (Option.map copied) isPart))
  exact (unnested origin isOrigin).of_copied same.symm

/-- An element that tells the comment it belongs to. -/
def ofComment (tag : Tag) (children : List Node) : Node :=
  .mk 0 (.element tag [(Tag.identifier, "0")]) "" children ""

/-- A paragraph with a comment around its only run. -/
def commented (headers : List Part) : Package :=
  ⟨Node.ofTag Tag.body [Node.ofTag Tag.paragraph [ofComment Tag.rangeStart [], createRun "a".toList none,
      ofComment Tag.rangeEnd [], Node.ofTag Tag.run [ofComment Tag.reference []]]], headers, [],
    some (Node.ofTag Tag.comments [ofComment Tag.comment [createParagraph ["display_paragraph_if(true)".toList]]]),
    false⟩

/-- A document before its directives are run. -/
def unprocessed (package : Package) : Machine World :=
  ⟨⟨#[], 0⟩, { World.ofPackage package (registered Handler.standard) [] with session := .start false }⟩

theorem runDirectives_settles_commented :
    (runOn (runDirectives plain (.ofRoot .null)) (unprocessed (commented []))).1 = .ok () ∧
      (runOn (runDirectives plain (.ofRoot .null)) (unprocessed (commented []))).2.outer.session.consumed ≠ [] ∧
      ∃ loaded comments part, Settled comments part loaded
        (runOn (runDirectives plain (.ofRoot .null)) (unprocessed (commented []))).2.outer := by
  have unnested : ∀ tree ∈ (commented []).comments, Unnested tree := by
    intro tree isTree
    obtain rfl := Option.some.inj isTree
    exact ⟨by decide +kernel, by decide +kernel⟩
  have returns : (runOn (runDirectives plain (.ofRoot .null)) (unprocessed (commented []))).1 = .ok () := by
    decide +kernel
  have prepared : runOn (if false then loadComments else pure ()) ⟨⟨#[], 0⟩, { World.ofPackage (commented [])
      (registered Handler.standard) [] with session := .start false }⟩ =
        (.ok (), unprocessed (commented [])) := rfl
  refine ⟨returns, by decide +kernel, ?_⟩
  obtain ⟨loaded, comments, part, -, -, -, settled⟩ := runDirectives_settles (commented []) unnested
    Handler.standard (fun _ member => member) [] false false ⟨#[], 0⟩ prepared plain (.ofRoot .null) returns
  exact ⟨loaded, comments, part, settled⟩

/-- A reference that is the only content of a run stays if that run is a whole header. -/
theorem runDirectives_leaves_reference :
    let run := runOn (runDirectives plain (.ofRoot .null))
      (unprocessed (commented [.tree (Node.ofTag Tag.run [ofComment Tag.reference []])]))
    run.1 = .ok () ∧ ∃ comment ∈ run.2.outer.session.consumed,
      ∃ tree ∈ sections run.2.outer.forest run.2.outer.template.roots, ∃ node ∈ tree.selfAndBelow,
        isTraceOf comment.id Tag.reference node = true := by
  decide +kernel

end Engine

end Imprint
