import Imprint.Proofs.CommitFrame
import Imprint.Proofs.OpenedPackages
import Imprint.Proofs.ResolvedCopies
import Imprint.Proofs.Walk
/-! # What stays attached to the document

While handlers commit, a node that is not new keeps its parent or loses it, but never gets another one.
So what has been taken out stays out, and a commit that is to edit it is refused. -/
set_option autoImplicit false
namespace Imprint
open Imprint.Action Xml Document Node

/-! ## Parents -/

namespace Xml.Forest

/-- One forest comes out of another in which the nodes with keys below a bound have kept their parents or
lost them, and every tree has stayed one. -/
structure Loosened (bound : Nat) (before after : Forest) : Prop where
  wellFormed : after.WellFormed
  fresh : before.fresh ≤ after.fresh
  roots : ∀ root < bound, before.IsRoot root → after.IsRoot root
  children : ∀ found ∈ after.nodes, ∀ child ∈ found.children, child.key < bound →
    ∃ node ∈ before.nodes, node.key = found.key ∧ child.key ∈ node.children.map key

section Loosened

variable {bound : Nat} {before middle after forest : Forest}

theorem Loosened.refl (wellFormed : before.WellFormed) : Loosened bound before before where
  wellFormed := wellFormed
  fresh := Nat.le_refl _
  roots _ _ isRoot := isRoot
  children found member child direct _ := ⟨found, member, rfl, List.mem_map.mpr ⟨child, direct, rfl⟩⟩

theorem Loosened.trans (first : Loosened bound before middle) (second : Loosened bound middle after) :
    Loosened bound before after where
  wellFormed := second.wellFormed
  fresh := Nat.le_trans first.fresh second.fresh
  roots root small isRoot := second.roots root small (first.roots root small isRoot)
  children found member child direct small := by
    obtain ⟨node, place, same, held⟩ := second.children found member child direct small
    obtain ⟨inner, isChild, sameChild⟩ := List.mem_map.mp held
    obtain ⟨origin, inBefore, sameOrigin, heldBefore⟩ :=
      first.children node place inner isChild (sameChild ▸ small)
    exact ⟨origin, inBefore, sameOrigin.trans same, sameChild ▸ heldBefore⟩

theorem Edited.loosened {touched : Nat → Prop} (edited : Edited touched before after)
    (small : bound ≤ before.fresh) : Loosened bound before after where
  wellFormed := edited.wellFormed
  fresh := edited.fresh
  roots := by
    rintro root - ⟨tree, member, rfl⟩
    obtain ⟨last, isTree, head⟩ := edited.roots tree member
    exact ⟨last, isTree, congrArg Head.key head⟩
  children found member child direct below :=
    edited.children found member child direct (Nat.lt_of_lt_of_le below small)

/-- Placing children loosens them if no other ones come in their places. -/
theorem Grown.loosened {place : Nat → List Nat} (grown : Grown place before after)
    (noMore : after.fresh ≤ before.fresh)
    (roots : ∀ root < bound, before.IsRoot root → after.IsRoot root)
    (same : ∀ number, ∀ other ∈ place number, other < bound → other = number) :
    Loosened bound before after where
  wellFormed := grown.wellFormed
  fresh := grown.fresh
  roots := roots
  children found member child direct small := by
    obtain ⟨origin, inBefore, head, children⟩ := grown.origin noMore member
    have held : child.key ∈ found.children.map key := List.mem_map.mpr ⟨child, direct, rfl⟩
    rw [children] at held
    obtain ⟨number, inOrigin, placed⟩ := List.mem_flatMap.mp held
    rw [same number child.key placed small]
    exact ⟨origin, inBefore, (congrArg Head.key head).symm, inOrigin⟩

/-- What has no parent does not get one. -/
theorem Loosened.apart (loosened : Loosened bound before after) {number : Nat} (small : number < bound)
    (apart : before.parent? number = none) : after.parent? number = none := by
  cases located : after.parent? number with
  | none => rfl
  | some parent =>
    obtain ⟨inAfter, held⟩ := mem_of_parent? located
    obtain ⟨child, direct, rfl⟩ := List.mem_map.mp held
    obtain ⟨node, inBefore, -, heldBefore⟩ := loosened.children parent inAfter child direct small
    rw [parent?_eq, List.find?_eq_none] at apart
    exact absurd ((holds_iff child.key node).mpr heldBefore) (apart node inBefore)

theorem IsRoot.update {root number : Nat} {change : Node → Node} (same : ∀ node, (change node).key = node.key)
    (isRoot : forest.IsRoot root) : (forest.update number change).IsRoot root := by
  obtain ⟨tree, member, rfl⟩ := isRoot
  refine ⟨Node.update number change tree, List.mem_map.mpr ⟨tree, member, rfl⟩, ?_⟩
  cases tree
  rw [Node.update]
  split
  · exact same _
  · rfl

theorem detach_roots {root number : Nat} (isRoot : forest.IsRoot root) :
    (forest.detach number).IsRoot root := by
  unfold detach
  split
  · rename_i parent node _ _
    obtain ⟨tree, member, same⟩ := isRoot.update (fun _ => rfl : ∀ other, (Node.without number other).key = other.key)
    exact ⟨tree, List.mem_append_left _ member, same⟩
  · exact isRoot

theorem moveBefore_roots {root number anchor : Nat} (other : root ≠ number) (isRoot : forest.IsRoot root) :
    (forest.moveBefore number anchor).IsRoot root := by
  unfold moveBefore
  dsimp only
  split
  · have stays : (forest.detach number).IsRoot root := detach_roots isRoot
    obtain ⟨tree, member, rfl⟩ := stays
    exact IsRoot.update (fun _ => rfl) ⟨tree, List.mem_filter.mpr ⟨member, bne_iff_ne.mpr other⟩, rfl⟩
  · exact isRoot

theorem WellFormed.detach_loosened (wellFormed : forest.WellFormed) (number : Nat) :
    Loosened bound forest (forest.detach number) := by
  refine (wellFormed.detach_grown number).loosened (Nat.le_of_eq (detach_fresh forest number))
    (fun root _ isRoot => detach_roots isRoot) ?_
  intro held other placed _
  split at placed
  · cases placed
  · exact List.mem_singleton.mp placed

/-- Moving a node leaves the forest alone, or else the node is moved as a tree that has been taken out of its
parent before. -/
theorem WellFormed.moveBefore_detached (wellFormed : forest.WellFormed) (number anchor : Nat) :
    forest.moveBefore number anchor = forest ∨ ∃ node ∈ (forest.detach number).trees, node.key = number ∧
      anchor ∉ keysOf [node] ∧ ((forest.detach number).parent? anchor).isSome = true ∧
      forest.moveBefore number anchor = (forest.detach number).moveBefore number anchor := by
  have freed := (wellFormed.detach_grown number).wellFormed
  obtain ⟨free, isFree⟩ : ∃ free, free = forest.detach number := ⟨_, rfl⟩
  cases found : free.find? number with
  | none =>
    simp only [moveBefore, ← isFree, found]
    exact .inl trivial
  | some node =>
    obtain ⟨rest, isRest⟩ : ∃ rest : Forest, rest =
        { free with trees := free.trees.filter fun tree => tree.key != number } := ⟨_, rfl⟩
    cases located : rest.parent? anchor with
    | none =>
      simp only [moveBefore, ← isFree, found, ← isRest, located]
      exact .inl trivial
    | some parent =>
      rw [← isFree] at freed
      have outermost : node ∈ free.trees := by
        subst isFree
        exact wellFormed.detach_outermost found
      obtain ⟨-, rfl⟩ := mem_of_find? found
      obtain ⟨inRest, held⟩ := mem_of_parent? located
      have inFree : parent ∈ free.nodes := by
        subst isRest
        exact allBelow_mono List.filter_sublist.subset inRest
      refine .inr ⟨node, isFree ▸ outermost, rfl, fun inside => ?_, ?_, ?_⟩
      · obtain ⟨child, direct, rfl⟩ := List.mem_map.mp held
        obtain ⟨tree, inTrees, place⟩ := mem_allBelow.mp (child_mem_allBelow inRest direct)
        subst isRest
        obtain ⟨isTree, different⟩ := List.mem_filter.mp inTrees
        have inTree : child.key ∈ keysOf [tree] :=
          List.mem_map.mpr ⟨child, by rwa [allBelow_singleton], rfl⟩
        rw [freed.tree_unique isTree outermost inTree inside] at different
        exact absurd rfl (bne_iff_ne.mp different)
      · rw [← isFree, freed.parent?_iff.mpr ⟨inFree, held⟩]
        rfl
      · simp only [moveBefore, ← isFree, freed.detach_root outermost, found, ← isRest, located]

/-- What is moved is new, and nothing else gets another parent. -/
theorem WellFormed.moveBefore_loosened (wellFormed : forest.WellFormed) {number : Nat} (new : bound ≤ number)
    (anchor : Nat) : Loosened bound forest (forest.moveBefore number anchor) := by
  rcases wellFormed.moveBefore_detached number anchor with
    same | ⟨node, outermost, rfl, outside, located, same⟩
  · rw [same]
    exact .refl wellFormed
  · have freed : Loosened bound forest (forest.detach node.key) := wellFormed.detach_loosened node.key
    refine freed.trans ?_
    rw [same]
    refine (freed.wellFormed.moveBefore_grown outermost outside located).loosened
      (Nat.le_of_eq (moveBefore_fresh _ _ _)) (fun root small isRoot => ?_) ?_
    · exact moveBefore_roots (by omega) isRoot
    intro held other placed small
    split at placed
    · rename_i here
      rcases List.mem_cons.mp placed with rfl | placed
      · omega
      · rw [List.mem_singleton.mp placed, here]
    · exact List.mem_singleton.mp placed

theorem moveAllBefore_loosened (numbers : List Nat) {forest : Forest} (wellFormed : forest.WellFormed)
    (new : ∀ number ∈ numbers, bound ≤ number) (anchor : Nat) : Loosened bound forest
      (numbers.foldl (fun forest number => forest.moveBefore number anchor) forest) := by
  induction numbers generalizing forest with
  | nil => exact .refl wellFormed
  | cons number rest hypothesis =>
    have moved := wellFormed.moveBefore_loosened (new number List.mem_cons_self) anchor
    exact moved.trans (hypothesis moved.wellFormed fun other member =>
      new other (List.mem_cons_of_mem _ member))

end Loosened

end Xml.Forest

/-! ## Capital letters -/

namespace Xml.Node

/-- The keys of all nodes with the keys of their children. -/
def skeleton (nodes : List Node) : List (Nat × List Nat) :=
  (allBelow nodes).map fun node => (node.key, node.children.map key)

theorem skeleton_cons (node : Node) (rest : List Node) : skeleton (node :: rest) =
    (node.key, node.children.map key) :: (skeleton node.children ++ skeleton rest) := by
  rw [skeleton, allBelow_cons, List.map_cons, List.map_append]
  rfl

theorem keysOf_skeleton (nodes : List Node) : keysOf nodes = (skeleton nodes).map Prod.fst := by
  rw [keysOf, skeleton, List.map_map]
  rfl

theorem keys_withUpperCaseAll (nodes : List Node) : (withUpperCaseAll nodes).map key = nodes.map key := by
  induction nodes with
  | nil => simp [withUpperCaseAll]
  | cons node rest hypothesis =>
    cases node
    simp [withUpperCaseAll, withUpperCase, hypothesis, key]

theorem skeleton_withUpperCaseAll (nodes : List Node) :
    skeleton (withUpperCaseAll nodes) = skeleton nodes := by
  induction nodes using nodes_induction with
  | nil => simp [withUpperCaseAll]
  | cons own label lead inner tail rest below beside =>
    rw [withUpperCaseAll, skeleton_cons, skeleton_cons, beside]
    simp [withUpperCase, children, key, below, keys_withUpperCaseAll]

theorem keys_updateAll {number : Nat} {change : Node → Node} (same : ∀ node, (change node).key = node.key)
    (nodes : List Node) : (updateAll number change nodes).map key = nodes.map key := by
  induction nodes with
  | nil => simp [updateAll]
  | cons node rest hypothesis =>
    cases node
    rw [updateAll, List.map_cons, List.map_cons, hypothesis, update]
    split
    · rw [same]
    · rfl

theorem skeleton_updateAll {number : Nat} {change : Node → Node}
    (same : ∀ node, skeleton [change node] = skeleton [node]) (nodes : List Node) :
    skeleton (updateAll number change nodes) = skeleton nodes := by
  have sameKey (node : Node) : (change node).key = node.key := by
    have whole := same node
    rw [skeleton_cons, skeleton_cons] at whole
    exact congrArg Prod.fst (List.cons.inj whole).1
  have split (node : Node) (rest : List Node) : skeleton (node :: rest) = skeleton [node] ++ skeleton rest := by
    rw [skeleton, ← List.singleton_append, allBelow_append, List.map_append]
    rfl
  induction nodes using nodes_induction with
  | nil => simp [updateAll]
  | cons own label lead inner tail rest below beside =>
    rw [updateAll, split, split (mk own label lead inner tail), beside, update]
    split
    · rw [same]
    · simp [skeleton_cons, children, key, below, keys_updateAll sameKey]

end Xml.Node

namespace Xml.Forest

theorem Loosened.of_skeleton {bound : Nat} {before after : Forest} (wellFormed : before.WellFormed)
    (fresh : after.fresh = before.fresh)
    (roots : ∀ root < bound, before.IsRoot root → after.IsRoot root) (same : skeleton after.trees = skeleton before.trees) :
    Loosened bound before after where
  wellFormed := by
    have keys : after.keys = before.keys := by
      rw [Forest.keys, Forest.keys, keysOf_skeleton, keysOf_skeleton, same]
    exact ⟨keys ▸ wellFormed.unique, fun number member => fresh ▸ wellFormed.bounded number (keys ▸ member)⟩
  fresh := Nat.le_of_eq fresh.symm
  roots := roots
  children found member child direct _ := by
    have outlined : (found.key, found.children.map key) ∈ skeleton before.trees := by
      rw [← same]
      exact List.mem_map.mpr ⟨found, member, rfl⟩
    obtain ⟨node, inBefore, equal⟩ := List.mem_map.mp outlined
    obtain ⟨sameKey, sameChildren⟩ := Prod.mk.inj equal
    refine ⟨node, inBefore, sameKey, ?_⟩
    rw [sameChildren]
    exact List.mem_map.mpr ⟨child, direct, rfl⟩

theorem WellFormed.raise_loosened {bound : Nat} {forest : Forest} (wellFormed : forest.WellFormed)
    (target : Nat) : Loosened bound forest (forest.update target withUpperCase) := by
  have sameKey (node : Node) : (withUpperCase node).key = node.key := by
    cases node
    rw [withUpperCase]
    rfl
  refine .of_skeleton wellFormed rfl (fun root _ isRoot => isRoot.update sameKey) ?_
  show skeleton (forest.trees.map (Node.update target withUpperCase)) = _
  rw [← updateAll_eq_map]
  refine skeleton_updateAll (fun node => ?_) _
  simpa [withUpperCaseAll] using skeleton_withUpperCaseAll [node]

end Xml.Forest

/-! ## What is to be edited -/

/-- The nodes that a handler edits when it commits. -/
def Duty.targets : Duty → List Nat
  | .repeatParagraphs pending => pending.map PendingRepeat.anchor
  | .display paragraphs rows tables => paragraphs ++ (rows ++ tables)
  | _ => []

/-- A handler has been asked for more: what it had been asked for before comes first. -/
inductive Duty.Grows : Duty → Duty → Prop where
  | same (duty : Duty) : Grows duty duty
  | repeats {before after : List PendingRepeat}
      (anchors : before.map PendingRepeat.anchor <+: after.map PendingRepeat.anchor) :
      Grows (.repeatParagraphs before) (.repeatParagraphs after)
  | display {paragraphs rows tables moreParagraphs moreRows moreTables : List Nat}
      (growsParagraphs : paragraphs <+: moreParagraphs) (growsRows : rows <+: moreRows)
      (growsTables : tables <+: moreTables) :
      Grows (.display paragraphs rows tables) (.display moreParagraphs moreRows moreTables)
  | record (before after : Recorder) : Grows (.record before) (.record after)

namespace Duty.Grows

variable {first second third : Duty}

theorem trans (before : Grows first second) (after : Grows second third) : Grows first third := by
  cases before with
  | same => exact after
  | repeats anchors =>
    cases after with
    | same => exact .repeats anchors
    | repeats more => exact .repeats (anchors.trans more)
  | display paragraphs rows tables =>
    cases after with
    | same => exact .display paragraphs rows tables
    | display moreParagraphs moreRows moreTables =>
      exact .display (paragraphs.trans moreParagraphs) (rows.trans moreRows) (tables.trans moreTables)
  | record one other =>
    cases after with
    | same => exact .record one other
    | record _ last => exact .record one last

theorem targets (grows : Grows first second) : first.targets ⊆ second.targets := by
  cases grows with
  | same => exact fun _ member => member
  | repeats anchors => exact anchors.subset
  | display paragraphs rows tables =>
    intro target member
    simp only [Duty.targets, List.mem_append] at member ⊢
    rcases member with member | member | member
    · exact .inl (paragraphs.subset member)
    · exact .inr (.inl (rows.subset member))
    · exact .inr (.inr (tables.subset member))
  | record => exact fun _ member => member

/-- Repetitions that have been asked for keep their anchors. -/
theorem anchors {before : List PendingRepeat} (grows : (Duty.repeatParagraphs before).Grows second) :
    ∃ after, second = .repeatParagraphs after ∧
      before.map PendingRepeat.anchor <+: after.map PendingRepeat.anchor := by
  cases grows with
  | same => exact ⟨before, rfl, List.prefix_rfl⟩
  | repeats anchors => exact ⟨_, rfl, anchors⟩

end Duty.Grows

theorem setPending_anchors (new : PendingRepeat) (pending : List PendingRepeat) :
    pending.map PendingRepeat.anchor <+: (setPending new pending).map PendingRepeat.anchor := by
  induction pending with
  | nil => exact List.nil_prefix
  | cons first rest hypothesis =>
    rw [setPending]
    split
    · rename_i same
      simp only [List.map_cons, same, List.prefix_rfl]
    · rw [List.map_cons, List.map_cons]
      exact List.prefix_cons_inj first.anchor |>.mpr hypothesis

theorem addOnce_grows (number : Nat) (numbers : List Nat) : numbers <+: addOnce number numbers := by
  unfold addOnce
  split
  · exact List.prefix_rfl
  · exact List.prefix_append _ _

theorem Asks.grows {forest : Forest} {anchor : Anchor} {before after : Duty}
    (asks : Asks forest anchor before after) : before.Grows after := by
  cases asks with
  | repetition pending items bound => exact .repeats (setPending_anchors _ pending)
  | paragraph paragraphs rows tables bound =>
    exact .display (addOnce_grows _ _) List.prefix_rfl List.prefix_rfl
  | row paragraphs rows tables bound around =>
    exact .display List.prefix_rfl (addOnce_grows _ _) List.prefix_rfl
  | table paragraphs rows tables bound around =>
    exact .display List.prefix_rfl List.prefix_rfl (addOnce_grows _ _)
  | record recorder bound => exact .record _ _

/-- What commits keep: no node gets another parent, and no handler forgets what it has been asked for. -/
structure Pursuing (start : World) (machine : Machine World) : Prop where
  attached : Forest.Loosened start.forest.fresh start.forest machine.outer.forest
  template : machine.outer.template = start.template
  interfaces : machine.outer.handlers.map Handler.interface = start.handlers.map Handler.interface
  duties : ∀ (place : Nat) (handler : Handler), start.handlers[place]? = some handler →
    ∃ now, machine.outer.handlers[place]? = some now ∧ now.interface = handler.interface ∧
      handler.duty.Grows now.duty

namespace Pursuing

variable {start : World} {machine after : Machine World}

theorem refl (wellFormed : machine.outer.forest.WellFormed) : Pursuing machine.outer machine where
  attached := .refl wellFormed
  template := rfl
  interfaces := rfl
  duties _ handler present := ⟨handler, present, rfl, .same _⟩

/-- Steps that leave the template and the handlers alone. -/
theorem step (pursuing : Pursuing start machine)
    (attached : Forest.Loosened start.forest.fresh start.forest after.outer.forest)
    (template : after.outer.template = machine.outer.template)
    (handlers : after.outer.handlers = machine.outer.handlers) : Pursuing start after where
  attached := attached
  template := template.trans pursuing.template
  interfaces := handlers ▸ pursuing.interfaces
  duties := handlers ▸ pursuing.duties

theorem names (pursuing : Pursuing start machine) : machine.outer.handlers.map (·.interface.name) =
    start.handlers.map (·.interface.name) := by
  have same := congrArg (List.map Interface.name) pursuing.interfaces
  rwa [List.map_map, List.map_map] at same

theorem asked (pursuing : Pursuing start machine) {index : Nat} {handler : Handler} {duty : Duty}
    (present : machine.outer.handlers[index]? = some handler) (grows : handler.duty.Grows duty) :
    Pursuing start { machine with outer := { machine.outer with
      handlers := machine.outer.handlers.modify index fun other => { other with duty } } } where
  attached := pursuing.attached
  template := pursuing.template
  interfaces := (map_modify Handler.interface (fun other : Handler => { other with duty })
    (fun _ => rfl) machine.outer.handlers index).trans pursuing.interfaces
  duties place other there := by
    obtain ⟨now, found, sameInterface, before⟩ := pursuing.duties place other there
    dsimp only
    rw [List.getElem?_modify, found]
    by_cases here : index = place
    · subst here
      obtain rfl := Option.some.inj (found.symm.trans present)
      exact ⟨{ now with duty }, by simp, sameInterface, before.trans grows⟩
    · exact ⟨now, by simp [here], sameInterface, before⟩

theorem edit (pursuing : Pursuing start machine) {number : Nat} {change : Node → Node}
    (head : ∀ node, (change node).head = node.head)
    (revised : ∀ node, Revised (fun _ => True) node.children (change node).children) :
    Pursuing start { machine with
      outer := { machine.outer with forest := machine.outer.forest.edit number change } } := by
  cases found : machine.outer.forest.find? number with
  | none =>
    rw [Engine.edit_missing found]
    exact pursuing
  | some node =>
    have edited := pursuing.attached.wellFormed.edit_edited found (head node) (revised node) trivial
    exact pursuing.step (pursuing.attached.trans (edited.loosened pursuing.attached.fresh)) rfl rfl

end Pursuing

namespace Engine

variable {start : World}

theorem pursuing_proof (index : Nat) : StepProof index (Pursuing start) where
  free _ _ pursuing := ⟨pursuing.attached, pursuing.template, pursuing.interfaces, pursuing.duties⟩
  step machine after pursuing step := by
    cases step with
    | asked present asks => exact pursuing.asked present asks.grows
    | written present duty bound letters =>
      exact pursuing.edit (fun _ => rfl) fun node => revised_setRunText node (.refl _) letters
    | blanked present duty bound =>
      exact pursuing.edit (fun _ => rfl) fun node => revised_withoutText node
    | told entry => exact pursuing.step pursuing.attached rfl rfl

theorem pursuing_frame (positive : 0 < start.forest.fresh) :
    CommitFrame start.forest.fresh (fun _ => True) (fun _ => True) (Pursuing start) where
  free := (pursuing_proof 0).free
  called index := (pursuing_proof index).callDirective_keeps fun _ _ pursuing =>
    pursuing.step pursuing.attached rfl rfl
  reports _ _ pursuing reports := pursuing.step (reports.forest ▸ pursuing.attached) reports.template reports.handlers
  fresh _ pursuing := pursuing.attached.fresh
  asked _ _ _ _ := ⟨fun _ => trivial, fun _ _ => trivial⟩
  planted tree machine pursuing := by
    have fresh := pursuing.attached.fresh
    obtain ⟨copy, after, plants, planted⟩ :=
      pursuing.attached.wellFormed.plant (Nat.lt_of_lt_of_le positive fresh) tree
    rw [runOn_plantTree plants]
    exact pursuing.step (pursuing.attached.trans ((planted.edited fun _ => True).loosened fresh)) rfl rfl
  edits copy _ machine node changed pursuing found revised := by
    have outcome := revised (fun _ => True) fun _ _ _ => trivial
    have edited : Forest.Edited (fun _ => True) machine.outer.forest
        (machine.outer.forest.edit copy fun _ => changed) :=
      pursuing.attached.wellFormed.edit_edited found outcome.head outcome.revised trivial
    exact pursuing.step (pursuing.attached.trans (edited.loosened pursuing.attached.fresh)) rfl rfl
  moved copy anchor new _ machine pursuing := pursuing.step
    (pursuing.attached.trans (pursuing.attached.wellFormed.moveBefore_loosened new anchor)) rfl rfl
  detached number _ machine pursuing := pursuing.step
    (pursuing.attached.trans (pursuing.attached.wellFormed.detach_loosened number)) rfl rfl
  emptied paragraph _ machine pursuing :=
    pursuing.edit (fun _ => rfl) fun node => (Revised.refl node.children).filter _
  raised target _ machine pursuing := pursuing.step
    (pursuing.attached.trans (pursuing.attached.wellFormed.raise_loosened target)) rfl rfl
  marked _ _ pursuing := pursuing.step pursuing.attached rfl rfl
  thrownAway verbose _ :=
    inThrowawaySession_keeps (fun _ _ pursuing => pursuing.step pursuing.attached rfl rfl) verbose
  valued _ _ _ _ pursuing := pursuing.step pursuing.attached rfl rfl
  repeated _ _ _ _ _ _ _ _ _ pursuing := pursuing.step pursuing.attached rfl rfl
  told _ _ pursuing := pursuing.step pursuing.attached rfl rfl

theorem commitHandlers_pursuing (dispatcher : Dispatcher) {machine : Machine World}
    (wellFormed : machine.outer.forest.WellFormed) (positive : 0 < machine.outer.forest.fresh) :
    Pursuing machine.outer (runOn (commitHandlers dispatcher) machine).2 :=
  Keeps.bind (fun _ pursuing => pursuing) (fun _ => .forM fun place _ => (pursuing_frame positive).commitAt_keeps
    dispatcher (fun _ _ pursuing => pursuing.step pursuing.attached rfl rfl) place) machine (.refl wellFormed)

end Engine
end Imprint
