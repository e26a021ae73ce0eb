import Imprint.Document.Range
import Imprint.Proofs.Forest
/-! # The comments that a paragraph meets

A visit of a paragraph looks up one comment for each of its runs, and then one for the paragraph.  A
comment is met at most as often as it has start markers: a marker belongs to a run or to the paragraph. -/
set_option autoImplicit false
namespace Imprint.Document
open Xml Node

/-- The comments that are looked up for the runs of a paragraph, and then for the paragraph. -/
def meetings (paragraph : Node) : List (Option String) :=
  (runs paragraph).map (fun run => commentAround paragraph.children run.key) ++
    [commentOfParagraph paragraph]

/-- Whether a node marks the start of a comment's range. -/
def isStartOf (id : String) (node : Node) : Bool :=
  node.hasTag Tag.rangeStart && identifier? node == some id

/-- The comments around the runs among some siblings that stand behind another one. -/
def around : Option Node → List Node → List (Option String)
  | _, [] => []
  | previous, node :: rest =>
      (if isRun node then [wrappedBy previous rest.head?] else []) ++ around (some node) rest

/-! ## Neighbours -/

theorem before?_none {number : Nat} {nodes : List Node} :
    ∀ first : Node, number ∉ nodes.map key → Node.before? number (first :: nodes) = none := by
  induction nodes with
  | nil => exact fun _ _ => rfl
  | cons second nodes hypothesis =>
    intro first absent
    rw [List.map_cons, List.mem_cons, not_or] at absent
    rw [Node.before?, if_neg fun same => absent.1 same.symm]
    exact hypothesis second absent.2

theorem before?_at {node : Node} {rest : List Node} : ∀ front : List Node,
    ((front ++ node :: rest).map key).Nodup →
    Node.before? node.key (front ++ node :: rest) = front.getLast?
  | [], unique => before?_none node (List.nodup_cons.mp unique).1
  | [first], _ => by simp [Node.before?]
  | first :: second :: front, unique => by
    have uniqueRest := (List.nodup_cons.mp unique).2
    have different : second.key ≠ node.key := by
      intro same
      refine (List.nodup_cons.mp uniqueRest).1 ?_
      simp [same]
    show Node.before? node.key (first :: second :: (front ++ node :: rest)) = _
    rw [Node.before?, if_neg different]
    exact before?_at (second :: front) uniqueRest

theorem after?_at {node : Node} {rest : List Node} : ∀ front : List Node,
    ((front ++ node :: rest).map key).Nodup →
    Node.after? node.key (front ++ node :: rest) = rest.head?
  | [], _ => by
    cases rest with
    | nil => rfl
    | cons next rest => simp [Node.after?]
  | first :: front, unique => by
    have different : first.key ≠ node.key := by
      intro same
      refine (List.nodup_cons.mp unique).1 ?_
      simp [same]
    have hypothesis := after?_at front (List.nodup_cons.mp unique).2
    cases front with
    | nil =>
      show Node.after? node.key (first :: node :: rest) = _
      rw [Node.after?, if_neg different]
      exact hypothesis
    | cons second front =>
      show Node.after? node.key (first :: second :: (front ++ node :: rest)) = _
      rw [Node.after?, if_neg different]
      exact hypothesis

theorem commentsAround_eq {children : List Node} (unique : (children.map key).Nodup)
    (rest : List Node) : ∀ front : List Node, front ++ rest = children →
    (rest.filter isRun).map (fun run => commentAround children run.key) =
      around front.getLast? rest := by
  induction rest with
  | nil => intro front _; rfl
  | cons node rest hypothesis =>
    intro front all
    have others := hypothesis (front ++ [node]) (by rw [← all]; simp)
    rw [List.getLast?_concat] at others
    rw [around, ← others]
    subst all
    have here : commentAround (front ++ node :: rest) node.key = wrappedBy front.getLast? rest.head? := by
      rw [commentAround, before?_at front unique, after?_at front unique]
    by_cases isRun : isRun node = true
    · simp [isRun, here]
    · simp [isRun]

/-! ## Counting -/

theorem wrappedBy_eq_some {previous following : Option Node} {id : String} :
    wrappedBy previous following = some id ↔ ∃ start stop, previous = some start ∧
      following = some stop ∧ isStartOf id start = true ∧ stop.hasTag Tag.rangeEnd = true ∧
      identifier? stop = some id := by
  cases previous with
  | none => simp [wrappedBy]
  | some start =>
    cases following with
    | none => simp [wrappedBy]
    | some stop =>
      simp only [wrappedBy, isStartOf, Bool.and_eq_true, beq_iff_eq, Option.some.injEq]
      constructor
      · intro wrapped
        split at wrapped
        · rename_i tags
          split at wrapped
          · rename_i own found
            split at wrapped
            · rename_i same
              obtain rfl := Option.some.inj wrapped
              exact ⟨start, stop, rfl, rfl, ⟨tags.1, found⟩, tags.2, same⟩
            · cases wrapped
          · cases wrapped
        · cases wrapped
      · rintro ⟨_, _, rfl, rfl, ⟨isStart, own⟩, isStop, same⟩
        simp [isStart, isStop, own, same]

/-- How often a marker in front of some siblings is met by a run. -/
def wraps (id : String) : Option Node → List Node → Nat
  | some marker, behind => if isStartOf id marker && startsAtRun marker behind then 1 else 0
  | none, _ => 0

theorem wraps_eq_zero {id : String} {node : Node} (other : isStartOf id node = false)
    (behind : List Node) : wraps id (some node) behind = 0 := by
  simp [wraps, other]

/-- Every meeting has a start marker of its own. -/
theorem around_count (id : String) (nodes : List Node) : ∀ previous : Option Node,
    (around previous nodes).count (some id) + (if anchoredComment nodes = some id then 1 else 0) ≤
      nodes.countP (isStartOf id) + wraps id previous nodes := by
  induction nodes with
  | nil => intro previous; simp [around, anchoredComment]
  | cons node rest hypothesis =>
    intro previous
    have counted := hypothesis (some node)
    rw [around, List.count_append, List.countP_cons]
    by_cases isRun : isRun node = true
    · -- A run is no marker; it is met if the marker in front of it is for it alone.
      have noMarker : node.hasTag Tag.rangeStart = false := by
        simp only [Document.isRun, Node.hasTag, beq_iff_eq] at isRun
        simp only [Node.hasTag, isRun]
        decide
      have noStart : isStartOf id node = false := by simp [isStartOf, noMarker]
      have anchored : anchoredComment (node :: rest) = anchoredComment rest := by
        simp [anchoredComment, noMarker]
      have met : [wrappedBy previous rest.head?].count (some id) ≤ wraps id previous (node :: rest) := by
        by_cases wrapped : wrappedBy previous rest.head? = some id
        · obtain ⟨start, stop, rfl, following, isStart, isStop, same⟩ := wrappedBy_eq_some.mp wrapped
          have own : identifier? start = some id := by
            simp only [isStartOf, Bool.and_eq_true, beq_iff_eq] at isStart
            exact isStart.2
          have startsHere : startsAtRun start (node :: rest) = true := by
            simp only [Document.isRun] at isRun
            simp [startsAtRun, isRun, wrapped, own]
          refine Nat.le_trans List.count_le_length ?_
          simp [wraps, isStart, startsHere]
        · rw [List.count_eq_zero.mpr (by simpa using Ne.symm wrapped)]
          exact Nat.zero_le _
      rw [wraps_eq_zero noStart] at counted
      rw [if_pos isRun, anchored, noStart]
      simp only [Bool.false_eq_true, ↓reduceIte]
      omega
    · rw [if_neg isRun]
      by_cases isStart : isStartOf id node = true
      · simp only [isStartOf, Bool.and_eq_true, beq_iff_eq] at isStart
        by_cases startsHere : startsAtRun node rest = true
        · have anchored : anchoredComment (node :: rest) = anchoredComment rest := by
            simp [anchoredComment, startsHere]
          have once : wraps id (some node) rest = 1 := by
            simp [wraps, isStartOf, isStart, startsHere]
          rw [once] at counted
          rw [anchored]
          simp only [isStartOf, isStart, List.count_nil, beq_self_eq_true, Bool.and_self, ↓reduceIte]
          omega
        · have anchored : anchoredComment (node :: rest) = some id := by
            simp [anchoredComment, startsHere, isStart]
          have never : wraps id (some node) rest = 0 := by
            simp [wraps, startsHere]
          rw [never] at counted
          rw [anchored]
          simp only [isStartOf, isStart, List.count_nil, beq_self_eq_true, Bool.and_self, ↓reduceIte]
          omega
      · have noStart : isStartOf id node = false := by simpa using isStart
        have anchored : anchoredComment (node :: rest) = some id → anchoredComment rest = some id := by
          intro found
          rw [anchoredComment] at found
          split at found
          · rename_i marker
            simp only [Bool.and_eq_true] at marker
            simp [isStartOf, marker.1, found] at noStart
          · exact found
        rw [wraps_eq_zero noStart] at counted
        rw [noStart]
        simp only [List.count_nil, Bool.false_eq_true, ↓reduceIte]
        by_cases found : anchoredComment (node :: rest) = some id
        · rw [if_pos found]
          rw [if_pos (anchored found)] at counted
          omega
        · rw [if_neg found]
          omega

/-- A paragraph meets a comment at most as often as there are start markers of it among its children. -/
theorem meetings_count (id : String) {paragraph : Node}
    (unique : (paragraph.children.map key).Nodup) :
    (meetings paragraph).count (some id) ≤ paragraph.children.countP (isStartOf id) := by
  have counted := around_count id paragraph.children none
  have runs : (runs paragraph).map (fun run => commentAround paragraph.children run.key) =
      around none paragraph.children :=
    commentsAround_eq unique paragraph.children [] rfl
  rw [meetings, runs, List.count_append, List.count_singleton]
  simp only [wraps, Nat.add_zero] at counted
  simp only [commentOfParagraph, beq_iff_eq]
  exact counted

/-! ## What can be read off an outline -/

theorem identifier?_of_head {first second : Node} (same : first.head = second.head) :
    identifier? first = identifier? second := by
  have label : first.label = second.label := congrArg Head.label same
  simp only [identifier?, Node.attribute?, label]

theorem before?_heads (number : Nat) : ∀ {first second : List Node},
    first.map head = second.map head →
    (Node.before? number first).map head = (Node.before? number second).map head
  | [], second, same => by
    rw [List.map_eq_nil_iff.mp same.symm]
  | [one], second, same => by
    obtain ⟨other, rest, rfl, -, nothing⟩ := List.map_eq_cons_iff.mp same.symm
    rw [List.map_eq_nil_iff.mp nothing]
    rfl
  | one :: next :: rest, second, same => by
    obtain ⟨other, others, rfl, sameOne, sameRest⟩ := List.map_eq_cons_iff.mp same.symm
    obtain ⟨otherNext, others, rfl, sameNext, _⟩ := List.map_eq_cons_iff.mp sameRest
    have sameKey : otherNext.key = next.key := congrArg Head.key sameNext
    rw [Node.before?, Node.before?, sameKey]
    split
    · rw [Option.map_some, Option.map_some, sameOne]
    · exact before?_heads number sameRest.symm

theorem after?_heads (number : Nat) : ∀ {first second : List Node},
    first.map head = second.map head →
    (Node.after? number first).map head = (Node.after? number second).map head
  | [], second, same => by
    rw [List.map_eq_nil_iff.mp same.symm]
  | [one], second, same => by
    obtain ⟨other, rest, rfl, -, nothing⟩ := List.map_eq_cons_iff.mp same.symm
    rw [List.map_eq_nil_iff.mp nothing]
    rfl
  | one :: next :: rest, second, same => by
    obtain ⟨other, others, rfl, sameOne, sameRest⟩ := List.map_eq_cons_iff.mp same.symm
    obtain ⟨otherNext, others, rfl, sameNext, _⟩ := List.map_eq_cons_iff.mp sameRest
    have sameKey : other.key = one.key := congrArg Head.key sameOne
    rw [Node.after?, Node.after?, sameKey]
    split
    · rw [Option.map_some, Option.map_some, sameNext]
    · exact after?_heads number sameRest.symm

theorem wrappedBy_heads {previous following otherPrevious otherFollowing : Option Node}
    (samePrevious : previous.map head = otherPrevious.map head)
    (sameFollowing : following.map head = otherFollowing.map head) :
    wrappedBy previous following = wrappedBy otherPrevious otherFollowing := by
  cases previous with
  | none =>
    obtain rfl := Option.map_eq_none_iff.mp samePrevious.symm
    rfl
  | some start =>
    obtain ⟨otherStart, rfl, sameStart⟩ := Option.map_eq_some_iff.mp samePrevious.symm
    cases following with
    | none =>
      obtain rfl := Option.map_eq_none_iff.mp sameFollowing.symm
      rfl
    | some stop =>
      obtain ⟨otherStop, rfl, sameStop⟩ := Option.map_eq_some_iff.mp sameFollowing.symm
      simp only [wrappedBy, hasTag_of_head sameStart, hasTag_of_head sameStop,
        identifier?_of_head sameStart, identifier?_of_head sameStop]

theorem commentAround_heads {first second : List Node} (same : first.map head = second.map head)
    (run : Nat) : commentAround first run = commentAround second run :=
  wrappedBy_heads (before?_heads run same) (after?_heads run same)

theorem anchoredComment_heads : ∀ {first second : List Node},
    first.map head = second.map head → anchoredComment first = anchoredComment second
  | [], second, same => by
    rw [List.map_eq_nil_iff.mp same.symm]
  | one :: rest, second, same => by
    obtain ⟨other, others, rfl, sameOne, sameRest⟩ := List.map_eq_cons_iff.mp same.symm
    have starts : startsAtRun one rest = startsAtRun other others := by
      cases rest with
      | nil =>
        rw [List.map_eq_nil_iff.mp sameRest]
        rfl
      | cons run rest =>
        obtain ⟨otherRun, others, rfl, sameRun, sameRest⟩ := List.map_eq_cons_iff.mp sameRest
        have sameHeads : rest.head?.map head = others.head?.map head := by
          rw [← List.head?_map, ← List.head?_map, sameRest]
        have wrapped : wrappedBy (some one) rest.head? = wrappedBy (some other) others.head? :=
          wrappedBy_heads (congrArg some sameOne.symm) sameHeads
        simp only [startsAtRun, wrapped, hasTag_of_head sameRun, identifier?_of_head sameOne]
    rw [anchoredComment, anchoredComment, starts, hasTag_of_head sameOne, identifier?_of_head sameOne,
      anchoredComment_heads sameRest.symm]

theorem runKeys_heads {first second : List Node} (same : first.map head = second.map head) :
    (first.filter isRun).map key = (second.filter isRun).map key := by
  have read (nodes : List Node) : (nodes.filter isRun).map key =
      ((nodes.map head).filter fun head => isRun (.mk head.key head.label "" [] "")).map Head.key := by
    rw [List.filter_map, List.map_map]
    rfl
  rw [read, read, same]

/-- What a paragraph meets does not depend on what is below its children. -/
theorem meetings_outline {first second : Node} (same : first.outline = second.outline) :
    meetings first = meetings second := by
  have heads : first.children.map head = second.children.map head := congrArg Prod.snd same
  have lookups (node : Node) : (runs node).map (fun run => commentAround node.children run.key) =
      ((runs node).map key).map (commentAround node.children) := by
    rw [List.map_map]
    rfl
  have sameRuns : (runs first).map key = (runs second).map key := runKeys_heads heads
  rw [meetings, meetings, lookups, lookups, sameRuns, commentOfParagraph, commentOfParagraph,
    anchoredComment_heads heads]
  rw [funext fun run => commentAround_heads heads run]

/-! ## All paragraphs of a template -/

/-- The trees of some roots. -/
def sections (forest : Forest) (roots : List Nat) : List Node :=
  roots.filterMap forest.find?

theorem paragraphsBelow_eq (forest : Forest) (roots : List Nat) :
    paragraphsBelow forest roots =
      ((allBelow (sections forest roots)).filter (Node.hasTag Tag.paragraph)).map key := by
  induction roots with
  | nil => rfl
  | cons root rest hypothesis =>
    rw [paragraphsBelow, List.flatMap_cons, sections, List.filterMap_cons]
    rw [paragraphsBelow, sections] at hypothesis
    cases found : forest.find? root with
    | none => exact hypothesis
    | some tree =>
      dsimp only
      rw [hypothesis, ← List.singleton_append, allBelow_append, allBelow_singleton, List.filter_append,
        List.map_append]
      rfl

theorem sections_subset (forest : Forest) (roots : List Nat) :
    allBelow (sections forest roots) ⊆ forest.nodes := by
  intro node member
  induction roots with
  | nil => simp [sections] at member
  | cons root rest hypothesis =>
    rw [sections, List.filterMap_cons] at member
    cases found : forest.find? root with
    | none =>
      rw [found] at member
      exact hypothesis member
    | some tree =>
      rw [found] at member
      rw [allBelow_cons] at member
      have inForest := (Forest.mem_of_find? found).1
      rcases List.mem_cons.mp member with rfl | member
      · exact inForest
      · rcases List.mem_append.mp member with below | beside
        · exact allBelow_trans inForest below
        · exact hypothesis beside

/-- All paragraphs together meet a comment at most as often as it has start markers. -/
theorem all_meetings_count (id : String) {nodes : List Node}
    (unique : ∀ node ∈ allBelow nodes, (node.children.map key).Nodup) :
    (((allBelow nodes).filter (Node.hasTag Tag.paragraph)).flatMap meetings).count (some id) ≤
      (allBelow nodes).countP (isStartOf id) := by
  have each (some : List Node) (unique : ∀ node ∈ some, (node.children.map key).Nodup) :
      ((some.filter (Node.hasTag Tag.paragraph)).flatMap meetings).count (.some id) ≤
        (some.flatMap children).countP (isStartOf id) := by
    induction some with
    | nil => simp
    | cons node rest hypothesis =>
      have others := hypothesis fun other member => unique other (List.mem_cons_of_mem _ member)
      rw [List.flatMap_cons, List.countP_append, List.filter_cons]
      split
      · rw [List.flatMap_cons, List.count_append]
        exact Nat.add_le_add (meetings_count id (unique node List.mem_cons_self)) others
      · exact Nat.le_trans others (Nat.le_add_left _ _)
  refine Nat.le_trans (each _ unique) ?_
  rw [(nodes_perm nodes).countP_eq (isStartOf id), List.countP_append]
  exact Nat.le_add_left _ _

end Imprint.Document
