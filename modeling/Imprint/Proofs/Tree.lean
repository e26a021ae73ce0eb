import Imprint.Xml.Node
import Mathlib.Data.List.Nodup
import Mathlib.Data.List.Pairwise

/-! # Trees as lists of nodes

The nodes at and below some nodes are listed in document order.  Keys that are pairwise different make
this list a table: a node is found by its key, has one parent, and can be exchanged for another one
without a trace anywhere else but in its own place. -/
set_option autoImplicit false
namespace Imprint.Xml

/-- What a node is without its children. -/
structure Head where
  key : Nat
  label : Label
  lead : String
  tail : String
deriving DecidableEq

namespace Node

/-- A node without its children. -/
def head (node : Node) : Head := ⟨node.key, node.label, node.lead, node.tail⟩

/-- What can be read off a node and its children, but not what is below these. -/
def outline (node : Node) : Head × List Head := (node.head, node.children.map head)

/-- The keys at and below some nodes. -/
def keysOf (nodes : List Node) : List Nat := (allBelow nodes).map key

@[simp] theorem key_withChildren (node : Node) (children : List Node) :
    (node.withChildren children).key = node.key := rfl

@[simp] theorem head_withChildren (node : Node) (children : List Node) :
    (node.withChildren children).head = node.head := rfl

@[simp] theorem children_withChildren (node : Node) (children : List Node) :
    (node.withChildren children).children = children := rfl

@[simp] theorem withChildren_children (node : Node) : node.withChildren node.children = node := by
  cases node
  rfl

theorem hasTag_of_head {first second : Node} (same : first.head = second.head) (tag : Tag) :
    first.hasTag tag = second.hasTag tag := by
  have label : first.label = second.label := congrArg Head.label same
  simp only [hasTag, tag?, label]

theorem isElement_of_hasTag {node : Node} {tag : Tag} (isTag : node.hasTag tag = true) : node.isElement = true := by
  rw [hasTag, beq_iff_eq] at isTag
  rw [isElement, isTag]
  rfl

theorem selfAndBelow_eq (node : Node) : node.selfAndBelow = node :: allBelow node.children := by
  cases node
  rw [selfAndBelow]
  rfl

@[simp] theorem allBelow_nil : allBelow [] = [] := by
  rw [allBelow]

theorem allBelow_cons (node : Node) (rest : List Node) :
    allBelow (node :: rest) = node :: (allBelow node.children ++ allBelow rest) := by
  rw [allBelow, selfAndBelow_eq]
  rfl

theorem allBelow_append (first second : List Node) :
    allBelow (first ++ second) = allBelow first ++ allBelow second := by
  induction first with
  | nil => simp
  | cons node rest hypothesis => simp [allBelow_cons, hypothesis]

theorem allBelow_singleton (node : Node) : allBelow [node] = node.selfAndBelow := by
  simp [allBelow_cons, selfAndBelow_eq]

theorem mem_selfAndBelow_self (node : Node) : node ∈ node.selfAndBelow := by
  rw [selfAndBelow_eq]
  exact List.mem_cons_self

theorem mem_allBelow_of_mem {node : Node} {nodes : List Node} (member : node ∈ nodes) :
    node ∈ allBelow nodes := by
  obtain ⟨before, after, rfl⟩ := List.append_of_mem member
  simp [allBelow_append, allBelow_cons]

theorem selfAndBelow_subset {node : Node} {nodes : List Node} (member : node ∈ nodes) :
    node.selfAndBelow ⊆ allBelow nodes := by
  intro below inside
  obtain ⟨before, after, rfl⟩ := List.append_of_mem member
  rw [selfAndBelow_eq] at inside
  simp only [allBelow_append, allBelow_cons, List.mem_append, List.mem_cons]
  rcases List.mem_cons.mp inside with rfl | deeper
  · exact .inr (.inl rfl)
  · exact .inr (.inr (.inl deeper))

theorem mem_allBelow {node : Node} {nodes : List Node} :
    node ∈ allBelow nodes ↔ ∃ tree ∈ nodes, node ∈ tree.selfAndBelow := by
  constructor
  · intro member
    induction nodes with
    | nil => simp at member
    | cons tree rest hypothesis =>
      rw [allBelow, List.mem_append] at member
      rcases member with inside | beside
      · exact ⟨tree, List.mem_cons_self, inside⟩
      · obtain ⟨other, among, inside⟩ := hypothesis beside
        exact ⟨other, List.mem_cons_of_mem _ among, inside⟩
  · rintro ⟨tree, among, inside⟩
    exact selfAndBelow_subset among inside

theorem allBelow_mono {first second : List Node} (among : first ⊆ second) :
    allBelow first ⊆ allBelow second := by
  intro node member
  obtain ⟨tree, inFirst, inside⟩ := mem_allBelow.mp member
  exact mem_allBelow.mpr ⟨tree, among inFirst, inside⟩

theorem keysOf_subset {node : Node} {nodes : List Node} (member : node ∈ nodes) :
    keysOf [node] ⊆ keysOf nodes := by
  intro number inside
  obtain ⟨below, inNode, same⟩ := List.mem_map.mp inside
  rw [allBelow_singleton] at inNode
  exact List.mem_map.mpr ⟨below, selfAndBelow_subset member inNode, same⟩

/-- Induction over some nodes with everything below the first one, and then the others. -/
theorem nodes_induction {motive : List Node → Prop} (nil : motive [])
    (cons : ∀ key label lead children tail rest, motive children → motive rest →
      motive (mk key label lead children tail :: rest)) (nodes : List Node) : motive nodes :=
  match nodes with
  | [] => nil
  | mk key label lead children tail :: rest =>
      cons key label lead children tail rest (nodes_induction nil cons children)
        (nodes_induction nil cons rest)

/-- Below a node below some nodes is below them. -/
theorem allBelow_trans {node : Node} {nodes : List Node} :
    node ∈ allBelow nodes → allBelow node.children ⊆ allBelow nodes := by
  induction nodes using nodes_induction with
  | nil => intro member; simp at member
  | cons key label lead children tail rest below beside =>
    intro member found inside
    simp only [allBelow_cons, List.mem_cons, List.mem_append] at member ⊢
    rcases member with rfl | member | member
    · exact .inr (.inl inside)
    · exact .inr (.inl (below member inside))
    · exact .inr (.inr (beside member inside))

/-- A node below some nodes is there with everything below it. -/
theorem below_subset {node : Node} {nodes : List Node} (member : node ∈ allBelow nodes) :
    allBelow [node] ⊆ allBelow nodes := by
  rw [allBelow_singleton, selfAndBelow_eq]
  exact List.cons_subset.mpr ⟨member, allBelow_trans member⟩

theorem child_mem_allBelow {node child : Node} {nodes : List Node} (member : node ∈ allBelow nodes)
    (direct : child ∈ node.children) : child ∈ allBelow nodes :=
  allBelow_trans member (mem_allBelow_of_mem direct)

/-- Every node is one of the outermost or a child of another. -/
theorem nodes_perm (nodes : List Node) :
    (allBelow nodes).Perm (nodes ++ (allBelow nodes).flatMap children) := by
  induction nodes using nodes_induction with
  | nil => simp
  | cons key label lead inner tail rest below beside =>
    have apart : (allBelow inner ++ allBelow rest).Perm
        (rest ++ (inner ++ (allBelow inner).flatMap children ++ (allBelow rest).flatMap children)) :=
      (below.append beside).trans (List.perm_append_comm_assoc _ _ _)
    rw [allBelow_cons, List.flatMap_cons, List.flatMap_append, List.cons_append]
    refine List.Perm.cons _ (apart.trans ?_)
    simp only [Node.children, List.append_assoc]
    exact .refl _

theorem exists_parent {node : Node} {nodes : List Node} (member : node ∈ allBelow nodes) :
    node ∈ nodes ∨ ∃ parent ∈ allBelow nodes, node ∈ parent.children := by
  rcases List.mem_append.mp ((nodes_perm nodes).mem_iff.mp member) with outermost | held
  · exact .inl outermost
  · exact .inr (List.mem_flatMap.mp held)

theorem keys_perm (nodes : List Node) :
    (keysOf nodes).Perm
      (nodes.map key ++ (allBelow nodes).flatMap fun node => node.children.map key) := by
  have keys := (nodes_perm nodes).map key
  rw [List.map_append, List.map_flatMap] at keys
  exact keys

/-! ## Nodes by their keys -/

section Unique

variable {nodes : List Node} (unique : (keysOf nodes).Nodup)
include unique

/-- A node below some nodes is determined by its key. -/
theorem eq_of_key_eq {first second : Node} (memberFirst : first ∈ allBelow nodes)
    (memberSecond : second ∈ allBelow nodes) (same : first.key = second.key) : first = second :=
  List.inj_on_of_nodup_map unique memberFirst memberSecond same

theorem find?_eq_some_iff {number : Nat} {node : Node} :
    (allBelow nodes).find? (fun candidate => candidate.key == number) = some node ↔
      node ∈ allBelow nodes ∧ node.key = number := by
  constructor
  · intro found
    exact ⟨List.mem_of_find?_eq_some found, by simpa using List.find?_some found⟩
  · rintro ⟨member, rfl⟩
    cases found : (allBelow nodes).find? fun candidate => candidate.key == node.key with
    | none =>
      have missing := List.find?_eq_none.mp found node member
      simp at missing
    | some other =>
      have same : other.key = node.key := by simpa using List.find?_some found
      rw [eq_of_key_eq unique (List.mem_of_find?_eq_some found) member same]

/-- Two nodes that hold the same key are the same. -/
theorem parent_unique {first second : Node} (memberFirst : first ∈ allBelow nodes)
    (memberSecond : second ∈ allBelow nodes) {number : Nat}
    (holdsFirst : number ∈ first.children.map key)
    (holdsSecond : number ∈ second.children.map key) : first = second := by
  have apart := ((keys_perm nodes).nodup_iff.mp unique).of_append_right
  by_contra different
  have pairs := (List.nodup_flatMap.mp apart).2
  have symmetric : Std.Symm (Function.onFun List.Disjoint fun node : Node => node.children.map key) :=
    ⟨fun _ _ disjoint _ left right => disjoint right left⟩
  exact pairs.forall memberFirst memberSecond different holdsFirst holdsSecond

/-- An outermost node has no parent. -/
theorem not_held_of_outermost {number : Nat} (outermost : number ∈ nodes.map key) {node : Node}
    (member : node ∈ allBelow nodes) : number ∉ node.children.map key := by
  intro held
  have apart := List.disjoint_of_nodup_append ((keys_perm nodes).nodup_iff.mp unique)
  exact apart outermost (List.mem_flatMap.mpr ⟨node, member, held⟩)

theorem children_nodup {node : Node} (member : node ∈ allBelow nodes) :
    (node.children.map key).Nodup := by
  have apart := ((keys_perm nodes).nodup_iff.mp unique).of_append_right
  exact (List.nodup_flatMap.mp apart).1 node member

end Unique

theorem holds_iff (number : Nat) (node : Node) :
    node.holds number = true ↔ number ∈ node.children.map key := by
  simp [holds]

/-! ## Exchanging a node -/

mutual

theorem update_absent {number : Nat} (change : Node → Node) : (node : Node) →
    number ∉ node.selfAndBelow.map key → update number change node = node
  | mk own label lead inner tail => by
      intro absent
      rw [selfAndBelow, List.map_cons, List.mem_cons, not_or] at absent
      have different : own ≠ number := Ne.symm absent.1
      rw [update, if_neg different, updateAll_absent change inner absent.2]

theorem updateAll_absent {number : Nat} (change : Node → Node) : (nodes : List Node) →
    number ∉ keysOf nodes → updateAll number change nodes = nodes
  | [] => by
      intro absent
      rw [updateAll]
  | node :: rest => by
      intro absent
      rw [keysOf, allBelow, List.map_append, List.mem_append, not_or] at absent
      rw [updateAll, update_absent change node absent.1, updateAll_absent change rest absent.2]

end

theorem updateAll_eq_map (number : Nat) (change : Node → Node) (nodes : List Node) :
    updateAll number change nodes = nodes.map (update number change) := by
  induction nodes with
  | nil => simp [updateAll]
  | cons node rest hypothesis => simp [updateAll, hypothesis]

/-- A change that keeps what a node is apart from its children keeps that of all nodes. -/
theorem head_update {number : Nat} {change : Node → Node} {node : Node}
    (keeps : node.key = number → (change node).head = node.head) :
    (update number change node).head = node.head := by
  cases node with
  | mk own label lead inner tail =>
    rw [update]
    split
    · rename_i here
      exact keeps here
    · rfl

/-- Exchanging a node for another one with the same head changes the list of nodes in one place, and no
outline anywhere else. -/
theorem updateAll_split {node new : Node} {change : Node → Node} (changed : change node = new)
    (kept : new.head = node.head) {nodes : List Node} :
    (keysOf nodes).Nodup → node ∈ allBelow nodes →
      ∃ before before' after, allBelow nodes = before ++ node.selfAndBelow ++ after ∧
        allBelow (updateAll node.key change nodes) = before' ++ new.selfAndBelow ++ after ∧
        before'.map outline = before.map outline := by
  induction nodes using nodes_induction with
  | nil => intro unique member; simp at member
  | cons own label lead inner tail rest below beside =>
    intro unique member
    simp only [keysOf, allBelow_cons, Node.children, List.map_cons, List.map_append,
      List.nodup_cons, List.nodup_append, List.mem_append, not_or] at unique member
    obtain ⟨⟨notInner, notRest⟩, uniqueInner, uniqueRest, apart⟩ := unique
    have apart : ∀ number, number ∈ keysOf inner → number ∉ keysOf rest :=
      fun number inside outside => apart number inside number outside rfl
    rw [updateAll]
    rcases List.mem_cons.mp member with rfl | member
    · -- The first node itself is exchanged.
      have others : updateAll own change rest = rest := updateAll_absent change rest notRest
      refine ⟨[], [], allBelow rest, ?_, ?_, rfl⟩
      · simp [allBelow_cons, selfAndBelow_eq]
      · simp [update, Node.key, changed, others, allBelow_cons, selfAndBelow_eq]
    · rcases List.mem_append.mp member with member | member
      · -- The node is below the first one, whose outline stays.
        have different : own ≠ node.key := fun same =>
          notInner (same ▸ List.mem_map.mpr ⟨node, member, rfl⟩)
        have others : updateAll node.key change rest = rest :=
          updateAll_absent change rest (apart _ (List.mem_map.mpr ⟨node, member, rfl⟩))
        obtain ⟨before, before', after, split, split', same⟩ := below uniqueInner member
        refine ⟨mk own label lead inner tail :: before,
          mk own label lead (updateAll node.key change inner) tail :: before',
          after ++ allBelow rest, ?_, ?_, ?_⟩
        · simp [allBelow_cons, Node.children, split]
        · simp [update, if_neg different, others, allBelow_cons, Node.children, split']
        · rw [List.map_cons, List.map_cons, same]
          congr 1
          simp only [outline, head, Node.key, Node.label, Node.lead, Node.tail, Node.children,
            updateAll_eq_map, List.map_map, Prod.mk.injEq, true_and]
          refine List.map_congr_left fun child direct => head_update fun here => ?_
          have same : child = node :=
            eq_of_key_eq uniqueInner (mem_allBelow_of_mem direct) member here
          rw [same, changed, kept]
      · -- The node is among the others or below them.
        have inRest : node.key ∈ keysOf rest := List.mem_map.mpr ⟨node, member, rfl⟩
        have different : own ≠ node.key := fun same => notRest (same ▸ inRest)
        have stays : updateAll node.key change inner = inner :=
          updateAll_absent change inner fun inside => apart _ inside inRest
        obtain ⟨before, before', after, split, split', same⟩ := beside uniqueRest member
        refine ⟨mk own label lead inner tail :: (allBelow inner ++ before),
          mk own label lead inner tail :: (allBelow inner ++ before'), after, ?_, ?_, ?_⟩
        · simp [allBelow_cons, Node.children, split]
        · simp [update, if_neg different, stays, allBelow_cons, Node.children, split']
        · simp [same]

end Node
end Imprint.Xml
