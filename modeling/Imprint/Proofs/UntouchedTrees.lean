import Imprint.Proofs.CommentErasure
/-! # Trees that a run leaves alone

A tree that no section belongs to is out of reach for the walk, whose handlers are only bound to keys of
the sections, and then for all commits. -/
set_option autoImplicit false
namespace Imprint
open Imprint.Action Xml Document Node

namespace Sheltered

variable {trees : List Node} {world after : World}

/-- Steps that leave the trees and the handlers alone. -/
theorem step (sheltered : Sheltered trees world) (forest : after.forest = world.forest)
    (handlers : after.handlers = world.handlers) : Sheltered trees after where
  wellFormed := forest ▸ sheltered.wellFormed
  present := forest ▸ sheltered.present
  outside := handlers ▸ sheltered.outside

theorem edited (sheltered : Sheltered trees world) {forest : Forest}
    (edited : Forest.Edited (fun number => number ∉ keysOf trees) world.forest forest) :
    Sheltered trees { world with forest } where
  wellFormed := edited.wellFormed
  present tree member := by
    refine edited.trees tree (sheltered.present tree member) fun number inside free => ?_
    exact free (mem_keysOf.mpr ⟨tree, member, inside⟩)
  outside := sheltered.outside

theorem edit (sheltered : Sheltered trees world) {number : Nat} (outside : number ∉ keysOf trees)
    {change : Node → Node} (head : ∀ node, (change node).head = node.head)
    (revised : ∀ node, Revised (fun number => number ∉ keysOf trees) node.children (change node).children) :
    Sheltered trees { world with forest := world.forest.edit number change } := by
  cases found : world.forest.find? number with
  | none =>
    rw [Engine.edit_missing found]
    exact sheltered
  | some node =>
    exact sheltered.edited (sheltered.wellFormed.edit_edited found (head node) (revised node) outside)

/-- A child of a node outside of the trees is outside. -/
theorem child (sheltered : Sheltered trees world) {node child : Node} (inForest : node ∈ world.forest.nodes)
    (outside : node.key ∉ keysOf trees) (direct : child ∈ node.children) : child.key ∉ keysOf trees := by
  intro inside
  obtain ⟨tree, member, place⟩ := mem_keysOf.mp inside
  exact outside (mem_keysOf.mpr ⟨tree, member,
    sheltered.wellFormed.parent_mem_tree (sheltered.present tree member) inForest direct place⟩)

end Sheltered

namespace Engine

variable {trees : List Node}

/-! ## Through a walk -/

theorem sheltered_proof (index : Nat) : StepProof index fun machine => Sheltered trees machine.outer where
  free _ _ sheltered := sheltered
  step machine after sheltered step := by
    have bound {handler : Handler} {run : Nat} (present : machine.outer.handlers[index]? = some handler)
        (isRun : handler.anchor.run = some run) : run ∉ keysOf trees :=
      (sheltered.outside handler (List.mem_of_getElem? present)).anchor run (by simp [Anchor.keys, isRun])
    cases step with
    | asked present asks =>
      refine ⟨sheltered.wellFormed, sheltered.present, fun handler member => ?_⟩
      rcases mem_modify member with old | ⟨old, found, rfl⟩
      · exact sheltered.outside handler old
      · obtain rfl := Option.some.inj (found.symm.trans present)
        have outside := sheltered.outside old (List.mem_of_getElem? found)
        exact ⟨outside.anchor, sheltered.asks outside.anchor outside.duty asks⟩
    | written present duty isRun letters =>
      exact sheltered.edit (bound present isRun) (fun _ => rfl)
        fun node => revised_setRunText node (.refl _) letters
    | blanked present duty isRun =>
      exact sheltered.edit (bound present isRun) (fun _ => rfl) fun node => revised_withoutText node
    | told entry => exact sheltered.step rfl rfl

theorem sheltered_frame : Frame fun machine => Sheltered trees machine.outer where
  free := (sheltered_proof 0).free
  called index := (sheltered_proof index).callDirective_keeps fun _ _ sheltered => sheltered.step rfl rfl
  reports _ _ sheltered reports := sheltered.step reports.forest reports.handlers

theorem sheltered_edits {paragraph : Nat} (outside : paragraph ∉ keysOf trees) :
    EditsAt paragraph fun machine => Sheltered trees machine.outer := by
  intro machine node changed sheltered found revised
  obtain ⟨inForest, rfl⟩ := sheltered.wellFormed.find?_iff.mp found
  have outcome := revised (fun number => number ∉ keysOf trees) fun child direct _ =>
    sheltered.child inForest outside direct
  exact sheltered.edited (sheltered.wellFormed.edit_edited found outcome.head outcome.revised outside)

theorem sheltered_walkFrame {dispatcher : Dispatcher} {builder : ProxyBuilder} :
    WalkFrame dispatcher builder (fun number => number ∉ keysOf trees) (fun _ => True)
      fun machine => Sheltered trees machine.outer where
  free := sheltered_frame.free
  evaluates expression anchor allowed _ machine sheltered := by
    refine sheltered_frame.evaluateDirective_keeps dispatcher builder
      (fun _ _ _ sheltered => sheltered.step rfl rfl) ⟨sheltered.wellFormed, sheltered.present, ?_⟩
    intro handler member
    obtain ⟨old, isOld, rfl⟩ := List.mem_map.mp member
    exact ⟨allowed, (sheltered.outside old isOld).duty⟩
  pending _ _ _ _ _ _ := trivial
  consumes _ _ sheltered := sheltered.step rfl rfl
  edits _ outside := sheltered_edits outside
  runs machine sheltered paragraph outside run member := by
    obtain ⟨node, found, child, direct, -, rfl⟩ := mem_runsOf member
    obtain ⟨inForest, rfl⟩ := sheltered.wellFormed.find?_iff.mp found
    exact sheltered.child inForest outside direct

/-! ## Through commits -/

section Moving

variable {forest : Forest} {tree : Node}

/-- Moving a node in front of another one leaves a tree alone that neither of them is in. -/
theorem moveBefore_outside (wellFormed : forest.WellFormed) (outermost : tree ∈ forest.trees) {number anchor : Nat}
    (outside : number ∉ keysOf [tree]) (anchorOutside : anchor ∉ keysOf [tree]) :
    tree ∈ (forest.moveBefore number anchor).trees := by
  have thinned := wellFormed.detach_thinned number
  have inFree := wellFormed.detach_outside outermost outside
  unfold Forest.moveBefore
  dsimp only
  split
  · rename_i node parent found located
    obtain ⟨inRest, held⟩ := Forest.mem_of_parent? located
    have inForest : parent ∈ (forest.detach number).nodes := allBelow_mono List.filter_sublist.subset inRest
    have other : tree.key ≠ number := by
      rintro rfl
      exact outside (by rw [keysOf_cons]; exact List.mem_cons_self)
    refine Forest.update_trees (List.mem_filter.mpr ⟨inFree, bne_iff_ne.mpr other⟩) fun inside => ?_
    obtain ⟨child, direct, rfl⟩ := List.mem_map.mp held
    exact anchorOutside (thinned.wellFormed.child_mem_tree inFree inForest direct inside)
  · exact outermost

end Moving

/-- While handlers commit, trees are left alone that no handler has been asked to edit. -/
theorem secluded_frame {start : World} (positive : 0 < start.forest.fresh)
    (old : ∀ number ∈ keysOf trees, number < start.forest.fresh) :
    CommitFrame start.forest.fresh (fun number => number ∉ keysOf trees) (fun _ => True)
      fun machine => Pursuing start machine ∧ Sheltered trees machine.outer where
  toFrame := (pursuing_frame positive).toFrame.both sheltered_frame
  fresh _ holds := holds.1.attached.fresh
  asked _ holds handler member := ⟨fun _ => trivial, (holds.2.outside handler member).duty⟩
  planted tree machine holds := by
    have pursuing := (pursuing_frame positive).planted tree machine holds.1
    obtain ⟨copy, after, plants, planted⟩ :=
      holds.1.attached.wellFormed.plant (Nat.lt_of_lt_of_le positive holds.1.attached.fresh) tree
    rw [runOn_plantTree plants] at pursuing ⊢
    exact ⟨pursuing, holds.2.edited (planted.edited _)⟩
  edits copy new machine node changed holds found revised := by
    refine ⟨(pursuing_frame positive).edits copy new machine node changed holds.1 found revised, ?_⟩
    refine sheltered_edits (fun inside => ?_) machine node changed holds.2 found revised
    have small := old copy inside
    omega
  moved copy anchor new outside machine holds := by
    have pursuing := (pursuing_frame positive).moved copy anchor new trivial machine holds.1
    refine ⟨pursuing, pursuing.attached.wellFormed, fun tree member => ?_, holds.2.outside⟩
    refine moveBefore_outside holds.2.wellFormed (holds.2.present tree member) (fun inside => ?_) fun inside =>
      outside (keysOf_subset member inside)
    have small := old copy (keysOf_subset member inside)
    omega
  detached number outside machine holds := by
    have pursuing := (pursuing_frame positive).detached number trivial machine holds.1
    refine ⟨pursuing, pursuing.attached.wellFormed, fun tree member => ?_, holds.2.outside⟩
    exact holds.2.wellFormed.detach_outside (holds.2.present tree member) fun inside =>
      outside (keysOf_subset member inside)
  emptied paragraph outside machine holds := by
    refine ⟨(pursuing_frame positive).emptied paragraph trivial machine holds.1, ?_⟩
    exact holds.2.edit outside (fun _ => rfl) fun node => (Revised.refl node.children).filter _
  raised target outside machine holds := by
    have pursuing := (pursuing_frame positive).raised target trivial machine holds.1
    refine ⟨pursuing, pursuing.attached.wellFormed, fun tree member => ?_, holds.2.outside⟩
    exact Forest.update_trees (holds.2.present tree member) fun inside => outside (keysOf_subset member inside)
  marked _ _ holds := ⟨holds.1.step holds.1.attached rfl rfl, holds.2.step rfl rfl⟩
  thrownAway verbose _ := inThrowawaySession_keeps
    (fun _ _ holds => ⟨holds.1.step holds.1.attached rfl rfl, holds.2.step rfl rfl⟩) verbose
  valued _ _ _ _ holds := ⟨holds.1.step holds.1.attached rfl rfl, holds.2.step rfl rfl⟩
  repeated _ _ _ _ _ _ _ _ _ holds := ⟨holds.1.step holds.1.attached rfl rfl, holds.2.step rfl rfl⟩
  told _ _ holds := ⟨holds.1.step holds.1.attached rfl rfl, holds.2.step rfl rfl⟩

/-- Committing all handlers leaves the trees alone. -/
theorem commitHandlers_secluded {machine : Machine World} (dispatcher : Dispatcher)
    (positive : 0 < machine.outer.forest.fresh) (sheltered : Sheltered trees machine.outer) :
    Pursuing machine.outer (runOn (commitHandlers dispatcher) machine).2 ∧
      Sheltered trees (runOn (commitHandlers dispatcher) machine).2.outer := by
  have old : ∀ number ∈ keysOf trees, number < machine.outer.forest.fresh := by
    intro number inside
    obtain ⟨tree, member, place⟩ := mem_keysOf.mp inside
    exact (sheltered.wellFormed.bounded number
      (keysOf_subset (sheltered.present tree member) place)).2
  have kept : Keeps (fun after => Pursuing machine.outer after ∧ Sheltered trees after.outer)
      (commitHandlers dispatcher) := by
    refine Keeps.bind (fun _ holds => holds) fun world => .forM fun place _ => ?_
    exact (secluded_frame positive old).commitAt_keeps dispatcher
      (fun _ _ holds => ⟨holds.1.step holds.1.attached rfl rfl, holds.2.step rfl rfl⟩) place
  exact kept machine ⟨.refl sheltered.wellFormed, sheltered⟩

end Engine

end Imprint
