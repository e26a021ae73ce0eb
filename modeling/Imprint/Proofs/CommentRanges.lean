import Imprint.Document.Range
import Imprint.Proofs.Forest
/-! # What the range of a comment covers

A range begins with a paragraph and goes on over the elements behind it in the same container.  Two things can
end it: an end marker among the siblings, which stays outside, or a sibling that holds an end marker among its
children, which is the last one inside.  Markers of other comments, and markers deeper below a sibling, do not. -/
set_option autoImplicit false
namespace Imprint.Document
open Xml Node

/-- A marker where the range of a comment ends. -/
def IsEnd (id : String) (node : Node) : Prop :=
  node.hasTag Tag.rangeEnd = true ∧ identifier? node = some id

/-- One of the children of a node is a marker where the range of a comment ends. -/
def HoldsEnd (id : String) (node : Node) : Prop :=
  ∃ child ∈ node.children, IsEnd id child

/-- A sibling that the range of a comment goes past. -/
def Passed (id : String) (sibling : Node) : Prop :=
  ¬ IsEnd id sibling ∧ (sibling.isElement = true → ¬ HoldsEnd id sibling)

/-- The comment whose range is asked for: the given one, or else the one whose start marker is the last among
the children of the paragraph. -/
inductive Chosen (paragraph : Node) : Option String → Option String → Prop where
  | given (id : String) : Chosen paragraph (some id) (some id)
  | unstarted (unstarted : ∀ child ∈ paragraph.children, child.hasTag Tag.rangeStart = false) :
      Chosen paragraph none none
  | started {front behind : List Node} {marker : Node} (place : paragraph.children = front ++ marker :: behind)
      (starts : marker.hasTag Tag.rangeStart = true)
      (last : ∀ child ∈ behind, child.hasTag Tag.rangeStart = false) :
      Chosen paragraph none (identifier? marker)

/-- The siblings behind a node, from the nearest one on; a node without a parent has none. -/
inductive Behind (forest : Forest) (node : Node) : List Node → Prop where
  | root (isRoot : forest.parent? node.key = none) : Behind forest node []
  | child {parent : Node} {front siblings : List Node} (isParent : forest.parent? node.key = some parent)
      (place : parent.children = front ++ node :: siblings) : Behind forest node siblings

/-- The siblings behind the first paragraph that the range of a comment covers, and whether it ends there. -/
inductive Reaches (id : String) : List Node → List Node → Bool → Prop where
  | marker {front rest : List Node} {stop : Node} (passed : ∀ sibling ∈ front, Passed id sibling)
      (ends : IsEnd id stop) : Reaches id (front ++ stop :: rest) (front.filter isElement) true
  | holder {front rest : List Node} {stop : Node} (passed : ∀ sibling ∈ front, Passed id sibling)
      (other : ¬ IsEnd id stop) (element : stop.isElement = true) (holds : HoldsEnd id stop) :
      Reaches id (front ++ stop :: rest) (front.filter isElement ++ [stop]) true
  | unended {siblings : List Node} (passed : ∀ sibling ∈ siblings, Passed id sibling) :
      Reaches id siblings (siblings.filter isElement) false

/-- The elements that the range of a comment covers, and whether it ends. -/
inductive Covers (paragraph : Node) (siblings : List Node) : CommentRange → Prop where
  | unnamed : Covers paragraph siblings ⟨none, true, [paragraph]⟩
  | within {id : String} (holds : HoldsEnd id paragraph) : Covers paragraph siblings ⟨some id, true, [paragraph]⟩
  | beyond {id : String} {found : List Node} {bounded : Bool} (open_ : ¬ HoldsEnd id paragraph)
      (reaches : Reaches id siblings found bounded) :
      Covers paragraph siblings ⟨some id, bounded, paragraph :: found⟩

/-! ## The comment of a range -/

theorem lastStarted_chosen (paragraph : Node) : Chosen paragraph none (lastStarted paragraph) := by
  unfold lastStarted
  cases last : (paragraph.children.filter (Node.hasTag Tag.rangeStart)).getLast? with
  | none =>
    apply Chosen.unstarted
    intro child member
    have none := List.filter_eq_nil_iff.mp (List.getLast?_eq_none_iff.mp last) child member
    exact Bool.eq_false_iff.mpr none
  | some marker =>
    obtain ⟨started, split⟩ := List.getLast?_eq_some_iff.mp last
    obtain ⟨front, back, place, -, isLast⟩ := List.filter_eq_append_iff.mp split
    obtain ⟨middle, behind, rfl, -, starts, unstarted⟩ := List.filter_eq_cons_iff.mp isLast
    rw [← List.append_assoc] at place
    apply Chosen.started place starts
    intro child member
    exact Bool.eq_false_iff.mpr (List.filter_eq_nil_iff.mp unstarted child member)

/-! ## Where a range ends -/

section Scan

variable {id : String}

theorem isEnd_iff {node : Node} :
    (node.hasTag Tag.rangeEnd && identifier? node == some id) = true ↔ IsEnd id node := by
  rw [Bool.and_eq_true, beq_iff_eq, IsEnd]

theorem hasEndOf_iff {node : Node} : hasEndOf id node = true ↔ HoldsEnd id node := by
  simp only [hasEndOf, List.any_eq_true, isEnd_iff, HoldsEnd]

/-- A sibling that the range goes past is taken into it if it is an element. -/
theorem Reaches.pass {sibling : Node} (passed : Passed id sibling) {siblings found : List Node} {bounded : Bool}
    (reaches : Reaches id siblings found bounded) :
    Reaches id (sibling :: siblings) ([sibling].filter isElement ++ found) bounded := by
  have both {front : List Node} (all : ∀ other ∈ front, Passed id other) :
      ∀ other ∈ sibling :: front, Passed id other := List.forall_mem_cons.mpr ⟨passed, all⟩
  cases reaches with
  | marker all ends =>
    rw [← List.filter_append]
    exact Reaches.marker (both all) ends
  | holder all other element holds =>
    rw [← List.append_assoc, ← List.filter_append]
    exact Reaches.holder (both all) other element holds
  | unended all =>
    rw [← List.filter_append]
    exact Reaches.unended (both all)

theorem scanRange_reaches (siblings : List Node) :
    Reaches id siblings (scanRange id siblings).1 (scanRange id siblings).2 := by
  induction siblings with
  | nil => exact Reaches.unended (by simp)
  | cons sibling rest hypothesis =>
    rw [scanRange]
    split
    next ends => exact @Reaches.marker id [] rest sibling (by simp) (isEnd_iff.mp ends)
    next other =>
      rw [isEnd_iff] at other
      split
      next element =>
        split
        next holds => exact @Reaches.holder id [] rest sibling (by simp) other element (hasEndOf_iff.mp holds)
        next free =>
          have passed : Passed id sibling := ⟨other, fun _ holds => free (hasEndOf_iff.mpr holds)⟩
          simpa [element] using hypothesis.pass passed
      next plain =>
        have passed : Passed id sibling := ⟨other, fun element => absurd element plain⟩
        simpa [plain] using hypothesis.pass passed

/-- What a range covers is the elements up to some place, so nothing is left out in between. -/
theorem Reaches.contiguous {siblings found : List Node} {bounded : Bool} (reaches : Reaches id siblings found bounded) :
    found <+: siblings.filter isElement := by
  cases reaches with
  | marker passed ends =>
    rw [List.filter_append]
    exact List.prefix_append _ _
  | @holder front rest stop passed other element holds =>
    rw [List.filter_append, List.filter_cons_of_pos element, List.append_cons _ stop (rest.filter isElement)]
    exact List.prefix_append _ _
  | unended passed => exact List.prefix_refl _

/-- Siblings that the range goes past stand in front of each one that ends it. -/
theorem passed_front {front rest first back : List Node} {stop : Node} (ends : ¬ Passed id stop)
    (passed : ∀ sibling ∈ first, Passed id sibling) (split : first ++ back = front ++ stop :: rest) :
    ∃ between, front = first ++ between ∧ back = between ++ stop :: rest := by
  rcases List.append_eq_append_iff.mp split with ⟨between, same, tail⟩ | ⟨between, same, tail⟩
  · exact ⟨between, same, tail⟩
  · cases between with
    | nil => exact ⟨[], by simpa using same.symm, by simpa using tail.symm⟩
    | cons other between =>
      obtain ⟨rfl, -⟩ := List.cons_eq_cons.mp tail
      exact absurd (passed stop (by simp [same])) ends

/-- A range covers nothing behind a sibling that ends it. -/
theorem Reaches.stops {siblings found : List Node} {bounded : Bool} (reaches : Reaches id siblings found bounded)
    {front rest : List Node} {stop : Node} (split : siblings = front ++ stop :: rest) (ends : ¬ Passed id stop) :
    found ⊆ front ++ [stop] := by
  cases reaches with
  | marker passed =>
    obtain ⟨between, rfl, -⟩ := passed_front ends passed split
    intro element member
    simp [List.mem_of_mem_filter member]
  | holder passed =>
    obtain ⟨between, rfl, tail⟩ := passed_front ends passed split
    intro element member
    rcases List.mem_append.mp member with early | last
    · simp [List.mem_of_mem_filter early]
    · cases List.mem_singleton.mp last
      cases between <;> simp_all
  | unended passed => exact absurd (passed stop (by simp [split])) ends

end Scan

/-! ## The range of a comment in a document -/

section Ranges

variable {forest : Forest} {paragraph : Node}

theorem following_split {front behind : List Node} {node : Node} (fresh : node.key ∉ front.map key) :
    following node.key (front ++ node :: behind) = behind := by
  have passes : ∀ other ∈ front, (other.key != node.key) = true := by
    intro other member
    exact bne_iff_ne.mpr fun same => fresh (same ▸ List.mem_map_of_mem member)
  simp [following, List.dropWhile_append_of_pos passes]

/-- The siblings that a range is looked for among are the ones behind its paragraph. -/
theorem following_behind (wellFormed : forest.WellFormed) (present : paragraph ∈ forest.nodes) :
    Behind forest paragraph
      (((forest.parent? paragraph.key).map fun parent => following paragraph.key parent.children).getD []) := by
  cases isParent : forest.parent? paragraph.key with
  | none => exact Behind.root isParent
  | some parent =>
    obtain ⟨place, held⟩ := Forest.mem_of_parent? isParent
    obtain ⟨child, direct, same⟩ := List.mem_map.mp held
    obtain rfl : child = paragraph := wellFormed.eq_of_key_eq (child_mem_allBelow place direct) present same
    obtain ⟨front, behind, split⟩ := List.append_of_mem direct
    have apart := children_nodup wellFormed.unique place
    rw [split, List.map_append, List.map_cons, List.nodup_middle, List.nodup_cons] at apart
    have fresh : child.key ∉ front.map key := fun member => apart.1 (List.mem_append_left _ member)
    simp only [Option.map_some, Option.getD_some]
    rw [split, following_split fresh]
    exact Behind.child isParent split

theorem rangeFrom_id (siblings : Option (List Node)) (given : Option String) :
    (rangeFrom paragraph siblings given).id = given.or (lastStarted paragraph) := by
  have named (id : String) : (rangeFrom paragraph siblings (some id)).id = some id := by
    unfold rangeFrom
    dsimp only
    split
    next => rfl
    next => cases siblings <;> rfl
  cases given with
  | some id => exact named id
  | none =>
    cases last : lastStarted paragraph with
    | none => simp [rangeFrom, last]
    | some id =>
      have same : rangeFrom paragraph siblings none = rangeFrom paragraph siblings (some id) := by
        simp only [rangeFrom, last]
      rw [same, named id, Option.none_or]

theorem rangeFrom_covers (siblings : Option (List Node)) (given : Option String) :
    Covers paragraph (siblings.getD []) (rangeFrom paragraph siblings given) := by
  unfold rangeFrom
  dsimp only
  split
  next => exact Covers.unnamed
  next id named =>
    split
    next holds => exact Covers.within (hasEndOf_iff.mp holds)
    next free =>
      have open_ : ¬ HoldsEnd id paragraph := fun holds => free (hasEndOf_iff.mpr holds)
      cases siblings with
      | none => exact Covers.beyond open_ (Reaches.unended (by simp))
      | some siblings => exact Covers.beyond open_ (scanRange_reaches siblings)

theorem commentRange_found (wellFormed : forest.WellFormed) (present : paragraph ∈ forest.nodes)
    (given : Option String) :
    commentRange forest paragraph.key given = rangeFrom paragraph
      ((forest.parent? paragraph.key).map fun parent => following paragraph.key parent.children) given := by
  rw [commentRange, wellFormed.find?_key present]

theorem Covers.inside {siblings : List Node} {range : CommentRange} (covers : Covers paragraph siblings range) :
    ∀ element ∈ range.elements, element = paragraph ∨ element ∈ siblings := by
  intro element member
  cases covers with
  | unnamed => exact Or.inl (List.mem_singleton.mp member)
  | within holds => exact Or.inl (List.mem_singleton.mp member)
  | beyond open_ reaches =>
    rcases List.mem_cons.mp member with first | later
    · exact Or.inl first
    · exact Or.inr (List.mem_of_mem_filter (reaches.contiguous.subset later))

/-- Nothing behind a sibling that ends the range is covered. -/
theorem Covers.ends {siblings : List Node} {range : CommentRange} (covers : Covers paragraph siblings range)
    (apart : (paragraph :: siblings).Nodup) {id : String} (named : range.id = some id) {front rest : List Node}
    {stop : Node} (split : siblings = front ++ stop :: rest) (ends : ¬ Passed id stop) :
    ∀ element ∈ rest, element ∉ range.elements := by
  intro element behind covered
  have later : element ∈ siblings := by simp [split, behind]
  have other : element ≠ paragraph := by
    rintro rfl
    exact (List.nodup_cons.mp apart).1 later
  have once : element ∉ front ++ [stop] := by
    have siblingsApart := (List.nodup_cons.mp apart).2
    rw [split, List.append_cons] at siblingsApart
    exact fun early => List.disjoint_of_nodup_append siblingsApart early behind
  cases covers with
  | unnamed => cases named
  | within holds => exact other (List.mem_singleton.mp covered)
  | beyond open_ reaches =>
    obtain rfl := Option.some.inj named
    rcases List.mem_cons.mp covered with first | found
    · exact other first
    · exact once (reaches.stops split ends found)

theorem Behind.apart (wellFormed : forest.WellFormed) {siblings : List Node}
    (behind : Behind forest paragraph siblings) : (paragraph :: siblings).Nodup := by
  cases behind with
  | root => exact List.nodup_singleton paragraph
  | @child parent front siblings isParent place =>
    have apart := (children_nodup wellFormed.unique (Forest.mem_of_parent? isParent).1).of_map
    rw [place] at apart
    exact (List.nodup_append.mp apart).2.1

/-- The range of a comment that starts in a paragraph is the paragraph and the elements behind it up to where the
comment ends; nothing outside of the container of the paragraph and nothing behind the end belongs to it. -/
theorem commentRange_covers (wellFormed : forest.WellFormed) (present : paragraph ∈ forest.nodes)
    (given : Option String) :
    ∃ siblings, Behind forest paragraph siblings ∧
      Chosen paragraph given (commentRange forest paragraph.key given).id ∧
      Covers paragraph siblings (commentRange forest paragraph.key given) ∧
      (∀ element ∈ (commentRange forest paragraph.key given).elements,
        element = paragraph ∨ element ∈ siblings) ∧
      ∀ id, (commentRange forest paragraph.key given).id = some id →
        ∀ front stop rest, siblings = front ++ stop :: rest →
          IsEnd id stop ∨ stop.isElement = true ∧ HoldsEnd id stop →
          ∀ element ∈ rest, element ∉ (commentRange forest paragraph.key given).elements := by
  rw [commentRange_found wellFormed present]
  have behind := following_behind wellFormed present
  have covers : Covers paragraph _ (rangeFrom paragraph _ given) := rangeFrom_covers
    ((forest.parent? paragraph.key).map fun parent => following paragraph.key parent.children) given
  refine ⟨_, behind, ?_, covers, covers.inside, ?_⟩
  · rw [rangeFrom_id]
    cases given with
    | some id => exact Chosen.given id
    | none => exact lastStarted_chosen paragraph
  · intro id named front stop rest split ends
    refine covers.ends (behind.apart wellFormed) named split fun passed => ?_
    rcases ends with marker | ⟨element, holds⟩
    · exact passed.1 marker
    · exact passed.2 element holds

/-- A paragraph with two start markers, a processing instruction, the end of the other comment, a paragraph that
holds the end of the last one, and one more paragraph. -/
def overrun : Forest :=
  let marker (number : Nat) (tag : Tag) (id : String) : Node :=
    .mk number (.element tag [(Tag.identifier, id)]) "" [] ""
  let part (number : Nat) (children : List Node) : Node := .mk number (.element Tag.paragraph []) "" children ""
  ⟨[.mk 1 (.element Tag.body []) "" [part 2 [marker 3 Tag.rangeStart "0", marker 4 Tag.rangeStart "1"],
    .mk 5 (.instruction "mark" "") "" [] "", marker 6 Tag.rangeEnd "0", part 7 [marker 8 Tag.rangeEnd "1"],
    part 9 []] ""], 10⟩

/-- The range of the last comment goes past the end of the other one, to the paragraph that holds its own end. -/
theorem commentRange_covers_overrun :
    ∃ paragraph, overrun.WellFormed ∧ paragraph ∈ overrun.nodes ∧
      (commentRange overrun paragraph.key none).elements.map key = [2, 6, 7] ∧
      ∃ siblings, Behind overrun paragraph siblings ∧
        Covers paragraph siblings (commentRange overrun paragraph.key none) := by
  have wellFormed : overrun.WellFormed := ⟨by decide, by decide⟩
  have present : overrun.nodes[1] ∈ overrun.nodes := List.getElem_mem _
  obtain ⟨siblings, behind, -, covers, -⟩ := commentRange_covers wellFormed present none
  exact ⟨_, wellFormed, present, by decide, siblings, behind, covers⟩

end Ranges

end Imprint.Document
