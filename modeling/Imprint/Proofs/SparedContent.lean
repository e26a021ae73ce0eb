import Imprint.Proofs.SparingSteps
import Mathlib.Data.List.Perm.Basic

/-! # What is left of a spared node

A node is compared with what has become of it apart from the paragraphs in it.  If its text has not been
rewritten it is the same, but for nodes that have been taken out. -/
set_option autoImplicit false
namespace Imprint
open Xml Document Forest Node

/-! ## Bare nodes -/

namespace Xml.Node

mutual

/-- A node without the paragraphs in it. -/
def bare : Node → Node
  | .mk key label lead children tail => .mk key label lead (bareAll children) tail

/-- The nodes that are no paragraphs, without those in them. -/
def bareAll : List Node → List Node
  | [] => []
  | node :: rest => if node.hasTag Tag.paragraph then bareAll rest else bare node :: bareAll rest

end

@[simp] theorem head_bare (node : Node) : node.bare.head = node.head := by
  cases node
  rw [bare]
  rfl

@[simp] theorem key_bare (node : Node) : node.bare.key = node.key :=
  congrArg Head.key (head_bare node)

theorem children_bare (node : Node) : node.bare.children = bareAll node.children := by
  cases node
  rw [bare]
  rfl

theorem bareAll_eq (nodes : List Node) :
    bareAll nodes = (nodes.filter fun node => !node.hasTag Tag.paragraph).map bare := by
  induction nodes with
  | nil => rw [bareAll]; rfl
  | cons node rest hypothesis =>
    rw [bareAll, hypothesis]
    cases isParagraph : node.hasTag Tag.paragraph with
    | true => simp [isParagraph]
    | false => simp [isParagraph]

/-- Below a bare node are its children that are no paragraphs, and what is below them. -/
theorem mem_keysOf_bare {node : Node} {number : Nat} : number ∈ keysOf node.bare.children ↔
    ∃ child ∈ node.children, child.hasTag Tag.paragraph = false ∧ (number = child.key ∨ number ∈ keysOf child.bare.children) := by
  have inChild (child : Node) : number ∈ keysOf [child.bare] ↔ number = child.key ∨ number ∈ keysOf child.bare.children := by
    rw [keysOf_cons, key_bare]
    simp [keysOf]
  rw [children_bare, bareAll_eq, mem_keysOf]
  constructor
  · rintro ⟨_, member, within⟩
    obtain ⟨child, among, rfl⟩ := List.mem_map.mp member
    obtain ⟨direct, noParagraph⟩ := List.mem_filter.mp among
    exact ⟨child, direct, by simpa using noParagraph, (inChild child).mp within⟩
  · rintro ⟨child, direct, noParagraph, place⟩
    refine ⟨child.bare, List.mem_map.mpr ⟨child, List.mem_filter.mpr ⟨direct, by rw [noParagraph]; rfl⟩, rfl⟩, ?_⟩
    exact (inChild child).mpr place

theorem eq_of_head_of_children {first second : Node} (head : first.head = second.head)
    (children : first.children = second.children) : first = second := by
  cases first
  cases second
  cases head
  cases children
  rfl

theorem expandAll_eq (gone : List Nat) (nodes : List Node) :
    expandAll (fun _ => []) gone nodes = (nodes.filter fun node => !gone.contains node.key).map (pruned gone) := by
  induction nodes with
  | nil => rw [expandAll]; rfl
  | cons node rest hypothesis =>
    rw [expandAll, hypothesis]
    cases hit : gone.contains node.key with
    | true => simp only [List.filter_cons, hit, if_true, Bool.not_true, Bool.false_eq_true, if_false, List.nil_append]
    | false => simp only [List.filter_cons, hit, Bool.not_false, if_true, Bool.false_eq_true, if_false, List.nil_append,
        List.map_cons, List.singleton_append, pruned]

/-- Nodes with the same keys are taken to the same results if those of equal keys are. -/
theorem map_eq_of_keys_eq {α : Type} {left right : Node → α} {first second : List Node}
    (same : first.map key = second.map key)
    (each : ∀ node ∈ first, ∀ other ∈ second, node.key = other.key → left node = right other) :
    first.map left = second.map right := by
  induction first generalizing second with
  | nil => rw [List.map_eq_nil_iff.mp same.symm]; rfl
  | cons node rest hypothesis =>
    cases second with
    | nil => cases same
    | cons other others =>
      obtain ⟨here, beside⟩ := List.cons.inj same
      rw [List.map_cons, List.map_cons, each node List.mem_cons_self other List.mem_cons_self here]
      exact congrArg _ (hypothesis beside fun node member other among =>
        each node (List.mem_cons_of_mem _ member) other (List.mem_cons_of_mem _ among))

/-- What goes from nodes to those of their children that lie above another node, or are it, goes down to it. -/
theorem path_induction {motive : Node → Prop} {target : Node} (nodes : List Node)
    (outermost : ∀ node ∈ nodes, target ∈ node.selfAndBelow → motive node)
    (step : ∀ node ∈ allBelow nodes, target ∈ allBelow node.children → motive node →
      ∀ child ∈ node.children, target ∈ child.selfAndBelow → motive child)
    (member : target ∈ allBelow nodes) : motive target := by
  induction nodes using nodes_induction with
  | nil => cases member
  | cons own label lead inner tail rest below beside =>
    obtain ⟨node, isNode⟩ : ∃ node, node = Node.mk own label lead inner tail := ⟨_, rfl⟩
    rw [← isNode] at outermost step member
    have isInner : node.children = inner := by rw [isNode]; rfl
    have here : node ∈ allBelow (node :: rest) := mem_allBelow_of_mem List.mem_cons_self
    rw [allBelow, List.mem_append] at member
    rcases member with within | member
    · have holds := outermost node List.mem_cons_self within
      rw [selfAndBelow_eq, List.mem_cons] at within
      rcases within with rfl | deeper
      · exact holds
      · refine below (fun child direct => ?_) (fun other place => ?_) (isInner ▸ deeper)
        · exact step node here deeper holds child (isInner ▸ direct)
        · exact step other (allBelow_trans here (isInner ▸ place))
    · refine beside (fun other among => outermost other (List.mem_cons_of_mem _ among)) (fun other place => ?_) member
      exact step other (by rw [allBelow, List.mem_append]; exact .inr place)

end Xml.Node

/-- Of two parts of a list without repetitions, one lies in the other in order if its members do. -/
theorem sublist_of_subset {α : Type} [DecidableEq α] {whole first second : List α} (unique : whole.Nodup)
    (isFirst : first.Sublist whole) (isSecond : second.Sublist whole) (among : first ⊆ second) :
    first.Sublist second := by
  have part : (second.filter (· ∈ first)).Sublist whole := List.filter_sublist.trans isSecond
  have same : first.Perm (second.filter (· ∈ first)) := by
    refine (List.perm_ext_iff_of_nodup (isFirst.nodup unique) (part.nodup unique)).mpr fun item => ?_
    simp only [List.mem_filter, decide_eq_true_eq]
    exact ⟨fun member => ⟨among member, member⟩, And.right⟩
  have equal : first = second.filter (· ∈ first) := (unique.perm_iff_eq_of_sublist isFirst part).mp same
  exact equal ▸ List.filter_sublist

/-! ## Spared nodes -/

namespace Xml.Forest

section Keeping

variable {start after : Forest} {paragraphs removed : Nat → Prop} {node found child : Node}

/-- Below a node whose text is not rewritten, only that of paragraphs may be. -/
theorem WellFormed.free_child (opened : start.WellFormed) (inStart : node ∈ start.nodes)
    (free : ¬ start.TextOf paragraphs node.key) (direct : child ∈ node.children)
    (noParagraph : child.hasTag Tag.paragraph = false) : ¬ start.TextOf paragraphs child.key := by
  rintro ⟨owner, isOwner, isParagraph, may, same | ⟨other, inOwner, -, same⟩⟩
  · have inStartToo := child_mem_allBelow inStart direct
    rw [opened.eq_of_key_eq inStartToo isOwner same, isParagraph] at noParagraph
    cases noParagraph
  · obtain rfl : node = owner := parent_unique opened.unique inStart isOwner
      (List.mem_map.mpr ⟨child, direct, rfl⟩) (List.mem_map.mpr ⟨other, inOwner, same⟩)
    exact free ⟨node, inStart, isParagraph, may, .inl rfl⟩

variable (opened : start.WellFormed)
  (sparing : Sparing start.fresh (start.TextOf paragraphs) removed start after)
include opened sparing

namespace Sparing

/-- A child that still has a parent still has the same one. -/
theorem parent_key (inStart : node ∈ start.nodes) (direct : child ∈ node.children) {parent : Node}
    (isParent : after.parent? child.key = some parent) : parent.key = node.key := by
  obtain ⟨place, held⟩ := mem_of_parent? isParent
  obtain ⟨last, inParent, same⟩ := List.mem_map.mp held
  have small : last.key < start.fresh := same ▸ opened.key_lt (child_mem_allBelow inStart direct)
  obtain ⟨origin, isOrigin, sameKey, holds⟩ := sparing.children parent place last inParent small
  obtain rfl : origin = node := parent_unique opened.unique isOrigin inStart (same ▸ holds)
    (List.mem_map.mpr ⟨child, direct, rfl⟩)
  exact sameKey.symm

theorem held_iff (inStart : node ∈ start.nodes) (inAfter : found ∈ after.nodes) (head : found.head = node.head)
    (direct : child ∈ node.children) :
    child.key ∈ found.children.map key ↔ after.parent? child.key ≠ none := by
  constructor
  · intro held
    rw [sparing.wellFormed.parent?_iff.mpr ⟨inAfter, held⟩]
    exact Option.some_ne_none _
  · intro located
    obtain ⟨parent, isParent⟩ := Option.ne_none_iff_exists'.mp located
    have sameKey := sparing.parent_key opened inStart direct isParent
    obtain ⟨place, held⟩ := mem_of_parent? isParent
    rwa [← sparing.wellFormed.eq_of_key_eq inAfter place ((congrArg Head.key head).trans sameKey.symm)] at held

omit opened in
/-- What has become of a node has its head. -/
theorem head_eq (inStart : node ∈ start.nodes) (inAfter : found ∈ after.nodes) (same : found.key = node.key) :
    found.head = node.head := by
  obtain ⟨last, inAfterToo, head, -⟩ := sparing.found node inStart
  rwa [sparing.wellFormed.eq_of_key_eq inAfter inAfterToo (same.trans (congrArg Head.key head).symm)]

/-- The children of a node whose text is not rewritten, paragraphs aside, are those that still have a parent, in
their order. -/
theorem keys_bare (inStart : node ∈ start.nodes) (free : ¬ start.TextOf paragraphs node.key)
    (inAfter : found ∈ after.nodes) (head : found.head = node.head) {gone : List Nat}
    (isGone : ∀ child ∈ node.children, child.hasTag Tag.paragraph = false → (child.key ∈ gone ↔ after.parent? child.key = none)) :
    (found.children.filter fun child => !child.hasTag Tag.paragraph).map key =
      ((node.children.filter fun child => !child.hasTag Tag.paragraph).filter fun child => !gone.contains child.key).map key := by
  have sameKey : found.key = node.key := congrArg Head.key head
  obtain ⟨last, inAfterToo, lastHead, spared⟩ := sparing.found node inStart
  obtain rfl : found = last := sparing.wellFormed.eq_of_key_eq inAfter inAfterToo
    (sameKey.trans (congrArg Head.key lastHead).symm)
  have spared := spared (opened.key_lt inStart) free
  -- Children that are no paragraphs are no new ones.
  have known {child : Node} (direct : child ∈ found.children) (noParagraph : child.hasTag Tag.paragraph = false) :
      child.key < start.fresh ∧ ∃ old ∈ node.children, old.head = child.head := by
    have small : child.key < start.fresh := by
      by_contra large
      rcases spared.new child direct (Nat.not_lt.mp large) with isParagraph | ⟨old, inNode, same⟩
      · rw [isParagraph] at noParagraph
        cases noParagraph
      · have sameKey : old.key = child.key := congrArg Head.key same
        exact large (sameKey ▸ opened.key_lt (child_mem_allBelow inStart inNode))
    obtain ⟨holder, isHolder, same, held⟩ := sparing.children found inAfter child direct small
    obtain rfl : holder = node := opened.eq_of_key_eq isHolder inStart (same.trans sameKey)
    obtain ⟨old, inNode, sameChild⟩ := List.mem_map.mp held
    exact ⟨small, old, inNode, (sparing.head_eq (child_mem_allBelow inStart inNode)
      (child_mem_allBelow inAfter direct) sameChild.symm).symm⟩
  have isFirst : ((found.children.filter fun child => !child.hasTag Tag.paragraph).map key).Sublist (node.children.map key) := by
    have small : ∀ number ∈ (found.children.filter fun child => !child.hasTag Tag.paragraph).map key, number < start.fresh := by
      intro number member
      obtain ⟨child, among, rfl⟩ := List.mem_map.mp member
      obtain ⟨direct, noParagraph⟩ := List.mem_filter.mp among
      exact (known direct (by simpa using noParagraph)).1
    rw [← List.filter_eq_self.mpr fun number member => decide_eq_true (small number member)]
    exact ((List.filter_sublist.map key).filter _).trans (spared.order.trans List.filter_sublist)
  have isSecond : (((node.children.filter fun child => !child.hasTag Tag.paragraph).filter
      fun child => !gone.contains child.key).map key).Sublist (node.children.map key) :=
    (List.filter_sublist.trans List.filter_sublist).map key
  have unique := children_nodup opened.unique inStart
  refine (List.Nodup.perm_iff_eq_of_sublist unique isFirst isSecond).mp
    ((List.perm_ext_iff_of_nodup (isFirst.nodup unique) (isSecond.nodup unique)).mpr fun number => ?_)
  simp only [List.mem_map, List.mem_filter, Bool.not_eq_true', List.contains_eq_mem, decide_eq_false_iff_not]
  constructor
  · rintro ⟨child, ⟨direct, noParagraph⟩, rfl⟩
    obtain ⟨-, old, inNode, same⟩ := known direct noParagraph
    have sameKey : old.key = child.key := congrArg Head.key same
    have noParagraph : old.hasTag Tag.paragraph = false := (hasTag_of_head same _).trans noParagraph
    refine ⟨old, ⟨⟨inNode, noParagraph⟩, fun isMissing => ?_⟩, sameKey⟩
    exact (sparing.held_iff opened inStart inAfter head inNode).mp
      (List.mem_map.mpr ⟨child, direct, sameKey.symm⟩) ((isGone old inNode noParagraph).mp isMissing)
  · rintro ⟨old, ⟨⟨inNode, noParagraph⟩, remains⟩, rfl⟩
    have located : after.parent? old.key ≠ none := fun none => remains ((isGone old inNode noParagraph).mpr none)
    obtain ⟨child, direct, same⟩ := List.mem_map.mp ((sparing.held_iff opened inStart inAfter head inNode).mpr located)
    have sameHead := sparing.head_eq (child_mem_allBelow inStart inNode) (child_mem_allBelow inAfter direct) same
    exact ⟨child, ⟨direct, (hasTag_of_head sameHead _).trans noParagraph⟩, same⟩

/-- A node whose text is not rewritten stays the same, paragraphs in it aside, but for nodes that have lost their
parents. -/
theorem bare_eq {gone : List Nat} (nodes : List Node) : ∀ node ∈ nodes, node ∈ start.nodes →
    ¬ start.TextOf paragraphs node.key → ∀ found ∈ after.nodes, found.key = node.key →
    (∀ number ∈ keysOf node.bare.children, number ∈ gone ↔ after.parent? number = none) →
    found.bare = node.bare.pruned gone := by
  induction nodes using nodes_induction with
  | nil => exact fun _ impossible => absurd impossible List.not_mem_nil
  | cons own label lead inner tail rest below beside =>
    intro node member inStart free found inAfter same isGone
    rcases List.mem_cons.mp member with isNode | member
    · have isInner : node.children = inner := by rw [isNode]; rfl
      have head := sparing.head_eq inStart inAfter same
      have keys := sparing.keys_bare opened inStart free inAfter head fun child direct noParagraph =>
        isGone child.key (mem_keysOf_bare.mpr ⟨child, direct, noParagraph, .inl rfl⟩)
      refine eq_of_head_of_children (by rw [head_bare, head_pruned, head_bare, head]) ?_
      rw [children_bare, pruned, children_expand, expandAll_eq, children_bare, bareAll_eq, bareAll_eq, List.filter_map,
        List.map_map]
      have sameKeys : (fun child : Node => !gone.contains child.key) ∘ bare = fun child => !gone.contains child.key :=
        funext fun child => by rw [Function.comp_apply, key_bare]
      rw [sameKeys]
      refine map_eq_of_keys_eq keys fun child direct old among sameKey => ?_
      obtain ⟨noParagraph, -⟩ := List.mem_filter.mp among
      obtain ⟨inNode, noParagraph⟩ := List.mem_filter.mp noParagraph
      have noParagraph : old.hasTag Tag.paragraph = false := by simpa using noParagraph
      refine below old (isInner ▸ inNode) (child_mem_allBelow inStart inNode)
        (opened.free_child inStart free inNode noParagraph) child
        (child_mem_allBelow inAfter (List.mem_of_mem_filter direct)) sameKey fun number member => ?_
      exact isGone number (mem_keysOf_bare.mpr ⟨old, inNode, noParagraph, .inr member⟩)
    · exact beside node member inStart free found inAfter same isGone

/-- What has lost its parent in such a node may be removed. -/
theorem bare_removed (nodes : List Node) : ∀ node ∈ nodes, node ∈ start.nodes →
    ¬ start.TextOf paragraphs node.key → ∀ number ∈ keysOf node.bare.children, after.parent? number = none →
    removed number ∧ ∃ child ∈ allBelow node.children, child.key = number ∧ child.hasTag Tag.paragraph = false := by
  induction nodes using nodes_induction with
  | nil => exact fun _ impossible => absurd impossible List.not_mem_nil
  | cons own label lead inner tail rest below beside =>
    intro node member inStart free number place isGone
    rcases List.mem_cons.mp member with isNode | member
    · have isInner : node.children = inner := by rw [isNode]; rfl
      obtain ⟨child, direct, noParagraph, rfl | deeper⟩ := mem_keysOf_bare.mp place
      · refine ⟨?_, child, mem_allBelow_of_mem direct, rfl, noParagraph⟩
        by_contra keeps
        obtain ⟨found, inAfter, head, held⟩ := sparing.stays opened (Nat.le_refl _) inStart direct free keeps
        exact (sparing.held_iff opened inStart inAfter head direct).mp held isGone
      · obtain ⟨mayBe, other, inChild, same⟩ := below child (isInner ▸ direct) (child_mem_allBelow inStart direct)
          (opened.free_child inStart free direct noParagraph) number deeper isGone
        exact ⟨mayBe, other, allBelow_trans (mem_allBelow_of_mem direct) inChild, same⟩
    · exact beside node member inStart free number place isGone

/-- Children of a node whose text is not rewritten that still have a parent are still in their order. -/
theorem kept_sublist (inStart : node ∈ start.nodes) (free : ¬ start.TextOf paragraphs node.key) {kept : List Nat}
    (isPart : kept.Sublist (node.children.map key)) (located : ∀ number ∈ kept, after.parent? number ≠ none) :
    ∃ found ∈ after.nodes, found.head = node.head ∧ kept.Sublist (found.children.map key) := by
  obtain ⟨found, inAfter, head, spared⟩ := sparing.found node inStart
  have order := (spared (opened.key_lt inStart) free).order.trans List.filter_sublist
  refine ⟨found, inAfter, head, (sublist_of_subset (children_nodup opened.unique inStart) isPart order
    fun number member => ?_).trans List.filter_sublist⟩
  obtain ⟨child, direct, rfl⟩ := List.mem_map.mp (isPart.subset member)
  refine List.mem_filter.mpr ⟨(sparing.held_iff opened inStart inAfter head direct).mpr (located _ member), ?_⟩
  exact decide_eq_true (opened.key_lt (child_mem_allBelow inStart direct))

end Sparing

end Keeping

end Xml.Forest

end Imprint
