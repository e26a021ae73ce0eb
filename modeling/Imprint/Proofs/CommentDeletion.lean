import Imprint.Proofs.SparingSteps
/-! # What deleting comments takes out

A comment that was used up is deleted with its markers and references.  A run goes with a reference if it holds
nothing else, paragraphs, rows and tables in it aside.  All other nodes are spared. -/
set_option autoImplicit false
namespace Imprint
open Xml Document Node

/-- Whether a node is a paragraph, a row or a table; in a paragraph these are not text of its own. -/
def isNested (node : Node) : Bool :=
  node.hasTag Tag.paragraph || node.hasTag Tag.row || node.hasTag Tag.table

theorem tag_unique {node : Node} {first second : Tag} (isFirst : node.hasTag first = true)
    (isSecond : node.hasTag second = true) : first = second := by
  simp only [Node.hasTag, beq_iff_eq] at isFirst isSecond
  exact Option.some.inj (isFirst.symm.trans isSecond)

/-- What deleting comments with certain identifiers may take out of a document: some nodes apart, markers and
references, and runs that hold a reference and nothing that would be left behind. -/
inductive Trace (start : Forest) (apart : Nat → Prop) (used : String → Prop) : Nat → Prop where
  | apart {number : Nat} (outside : apart number) : Trace start apart used number
  | marker {node : Node} {tag : Tag} {id : String} (member : node ∈ start.nodes)
      (kind : tag ∈ [Tag.rangeStart, Tag.rangeEnd, Tag.reference]) (isUsed : used id)
      (isTrace : isTraceOf id tag node = true) : Trace start apart used node.key
  | run {node reference : Node} {id : String} (member : node ∈ start.nodes) (isARun : isRun node = true)
      (direct : reference ∈ node.children) (isUsed : used id)
      (isTrace : isTraceOf id Tag.reference reference = true)
      (others : ∀ child ∈ node.children, child.hasTag Tag.runProperties = false →
        child.hasTag Tag.reference = false → isNested child = false → Trace start apart used child.key) :
      Trace start apart used node.key

section Deleting

variable {start before forest : Forest} {paragraphs removed apart : Nat → Prop} {used : String → Prop} {id : String}

/-- Traces of the sections are not among the nodes apart. -/
theorem Trace.inside {nodes : List Node} (within : allBelow nodes ⊆ start.nodes) (wellFormed : start.WellFormed)
    (outside : ∀ number ∈ keysOf nodes, ¬ apart number) {number : Nat} (trace : Trace start apart used number)
    (member : number ∈ keysOf nodes) : Trace start (fun _ => False) used number := by
  induction trace with
  | apart isApart => exact absurd isApart (outside _ member)
  | marker inStart kind isUsed isTrace => exact .marker inStart kind isUsed isTrace
  | @run node reference id inStart isARun direct isUsed isTrace _ hypothesis =>
    refine .run inStart isARun direct isUsed isTrace fun child among noProperties noReference notNested => ?_
    obtain ⟨other, place, same⟩ := List.mem_map.mp member
    obtain rfl : other = node := wellFormed.eq_of_key_eq (within place) inStart same
    exact hypothesis child among noProperties noReference notNested
      (List.mem_map.mpr ⟨child, child_mem_allBelow place among, rfl⟩)

/-- While comments are deleted, all nodes are spared but the texts of certain paragraphs and those that may be
removed, among which are the traces of comments. -/
structure Erasing (start : Forest) (paragraphs removed apart : Nat → Prop) (used : String → Prop)
    (before forest : Forest) : Prop where
  opened : start.WellFormed
  traces : ∀ number, Trace start apart used number → removed number
  others : ∀ node ∈ start.nodes, removed node.key → isNested node = true ∨ Trace start apart used node.key
  sparing : Forest.Sparing start.fresh (start.TextOf paragraphs) removed start forest
  step : Forest.Sparing start.fresh (start.TextOf paragraphs) removed before forest

namespace Erasing

theorem detach (erasing : Erasing start paragraphs removed apart used before forest) {number : Nat}
    (may : number < start.fresh → ∀ parent ∈ forest.nodes, number ∈ parent.children.map key →
      ¬ start.TextOf paragraphs parent.key → Trace start apart used number) :
    Erasing start paragraphs removed apart used before (forest.detach number) where
  opened := erasing.opened
  traces := erasing.traces
  others := erasing.others
  sparing := erasing.sparing.trans (erasing.sparing.wellFormed.detach_sparing fun small parent inForest held _ free =>
    erasing.traces number (may small parent inForest held free))
  step := erasing.step.trans (erasing.sparing.wellFormed.detach_sparing fun small parent inForest held _ free =>
    erasing.traces number (may small parent inForest held free))

/-- A trace in a section that was there in the beginning was one. -/
theorem tracesOf_origin (erasing : Erasing start paragraphs removed apart used before forest) {root number : Nat} {tag : Tag}
    (member : number ∈ tracesOf forest root id tag) (small : number < start.fresh) :
    ∃ node ∈ start.nodes, node.key = number ∧ isTraceOf id tag node = true := by
  obtain ⟨tree, found, node, place, rfl, isTrace⟩ := mem_tracesOf.mp member
  have inForest : node ∈ forest.nodes := by
    refine below_subset (Forest.mem_of_find? found).1 ?_
    rwa [allBelow_singleton]
  obtain ⟨old, inStart, head, -⟩ := erasing.sparing.origin inForest small
  exact ⟨old, inStart, (congrArg Head.key head).symm, (isTraceOf_head head).symm.trans isTrace⟩

theorem detachAll (numbers : List Nat) (isTrace : ∀ number ∈ numbers, number < start.fresh → Trace start apart used number) :
    ∀ {forest : Forest}, Erasing start paragraphs removed apart used before forest →
      Erasing start paragraphs removed apart used before (numbers.foldl Forest.detach forest) := by
  induction numbers with
  | nil => exact fun erasing => erasing
  | cons number rest hypothesis =>
    intro forest erasing
    refine hypothesis (fun other member => isTrace other (List.mem_cons_of_mem _ member)) (erasing.detach ?_)
    exact fun small _ _ _ _ => isTrace number List.mem_cons_self small

/-- A run that only holds references, one of them to a comment that was used up, is a trace. -/
theorem run_trace (erasing : Erasing start paragraphs removed apart used before forest) (isUsed : used id) {reference : Nat}
    (isReference : reference < start.fresh → ∃ node ∈ start.nodes, node.key = reference ∧ isTraceOf id Tag.reference node = true)
    {run parent : Node} (located : forest.parent? reference = some run) (only : holdsOnlyReferences run = true)
    (small : run.key < start.fresh) (inForest : parent ∈ forest.nodes) (held : run.key ∈ parent.children.map key)
    (free : ¬ start.TextOf paragraphs parent.key) : Trace start apart used run.key := by
  obtain ⟨opened, -, others, sparing, -⟩ := erasing
  obtain ⟨place, isChild⟩ := Forest.mem_of_parent? located
  obtain ⟨child, direct, rfl⟩ := List.mem_map.mp isChild
  obtain ⟨node, inStart, head, spared⟩ := sparing.origin place small
  have sameKey : run.key = node.key := congrArg Head.key head
  simp only [holdsOnlyReferences, Bool.and_eq_true, List.all_eq_true, Bool.or_eq_true] at only
  have isARun : isRun node = true := (hasTag_of_head head _).symm.trans only.1
  -- If the text of the run had been rewritten, so had the text of the paragraph around it.
  have untouched : ¬ start.TextOf paragraphs node.key := by
    rintro ⟨owner, alsoInStart, isParagraph, may, same | ⟨other, inOwner, -, same⟩⟩
    · rw [opened.eq_of_key_eq inStart alsoInStart same, isRun_paragraph isParagraph] at isARun
      cases isARun
    · obtain ⟨last, isLast, lastHolds⟩ := List.mem_map.mp held
      obtain ⟨holder, inStartToo, sameHolder, holds⟩ := sparing.children parent inForest last isLast (lastHolds ▸ small)
      have isOwner : owner = holder := parent_unique opened.unique alsoInStart inStartToo
        (List.mem_map.mpr ⟨other, inOwner, same⟩) (by rwa [lastHolds, sameKey] at holds)
      exact free ⟨owner, alsoInStart, isParagraph, may, .inl (isOwner ▸ sameHolder.symm)⟩
  have spared := spared untouched
  have nothingNew : child.key < start.fresh := by
    by_contra large
    rcases spared.new child direct (Nat.not_lt.mp large) with isParagraph | ⟨other, inNode, same⟩
    · rcases only.2 child direct with isProperties | isReference
      · exact absurd (tag_unique isParagraph isProperties) (by decide)
      · exact absurd (tag_unique isParagraph isReference) (by decide)
    · have old := opened.key_lt (child_mem_allBelow inStart inNode)
      exact large (Nat.lt_of_le_of_lt (Nat.le_of_eq (congrArg Head.key same).symm) old)
  obtain ⟨origin, inStartToo, sameReference, isTrace⟩ := isReference nothingNew
  have inNode : origin ∈ node.children := by
    obtain ⟨holder, isHolder, sameHolder, holds⟩ := sparing.children run place child direct nothingNew
    obtain rfl : holder = node := opened.eq_of_key_eq isHolder inStart (sameHolder.trans sameKey)
    obtain ⟨other, inHolder, same⟩ := List.mem_map.mp holds
    rwa [opened.eq_of_key_eq inStartToo (child_mem_allBelow inStart inHolder) (sameReference.trans same.symm)]
  rw [sameKey]
  refine .run inStart isARun inNode isUsed isTrace fun other among noProperties noReference notNested => ?_
  have old := opened.key_lt (child_mem_allBelow inStart among)
  by_cases remains : other.key ∈ run.children.map key
  · obtain ⟨now, isNow, same⟩ := List.mem_map.mp remains
    obtain ⟨last, inStartNow, sameHead, -⟩ := sparing.origin (child_mem_allBelow place isNow) (same ▸ old)
    obtain rfl : last = other := opened.eq_of_key_eq inStartNow (child_mem_allBelow inStart among)
      ((congrArg Head.key sameHead).symm.trans same)
    rcases only.2 now isNow with isProperties | isReference
    · rw [hasTag_of_head sameHead, noProperties] at isProperties
      cases isProperties
    · rw [hasTag_of_head sameHead, noReference] at isReference
      cases isReference
  · refine (others other (child_mem_allBelow inStart among) ?_).resolve_left (by simp [notNested])
    exact spared.missing _ (List.mem_map.mpr ⟨other, among, rfl⟩) old remains

theorem eraseReference (erasing : Erasing start paragraphs removed apart used before forest) (isUsed : used id) {reference : Nat}
    (isReference : reference < start.fresh → ∃ node ∈ start.nodes, node.key = reference ∧ isTraceOf id Tag.reference node = true) :
    Erasing start paragraphs removed apart used before (Document.eraseReference forest reference) := by
  unfold Document.eraseReference
  split
  · exact erasing
  · rename_i run located
    cases only : holdsOnlyReferences run with
    | true =>
      exact erasing.detach fun small parent inForest held free =>
        erasing.run_trace isUsed isReference located only small inForest held free
    | false =>
      refine erasing.detach fun small _ _ _ _ => ?_
      obtain ⟨node, inStart, rfl, isTrace⟩ := isReference small
      exact .marker inStart (by simp) isUsed isTrace

theorem eraseReferences (isUsed : used id) (references : List Nat)
    (isReference : ∀ reference ∈ references, reference < start.fresh →
      ∃ node ∈ start.nodes, node.key = reference ∧ isTraceOf id Tag.reference node = true) :
    ∀ {forest : Forest}, Erasing start paragraphs removed apart used before forest →
      Erasing start paragraphs removed apart used before (references.foldl Document.eraseReference forest) := by
  induction references with
  | nil => exact fun erasing => erasing
  | cons reference rest hypothesis =>
    intro forest erasing
    exact hypothesis (fun other member => isReference other (List.mem_cons_of_mem _ member))
      (erasing.eraseReference isUsed (isReference reference List.mem_cons_self))

theorem eraseTraces (erasing : Erasing start paragraphs removed apart used before forest) (isUsed : used id) (root : Nat) :
    Erasing start paragraphs removed apart used before (Document.eraseTraces id forest root) := by
  obtain ⟨first, second, isFirst, isSecond, whole⟩ := eraseTraces_stages id forest root
  have markers {forest : Forest} (erasing : Erasing start paragraphs removed apart used before forest) {tag : Tag}
      (kind : tag ∈ [Tag.rangeStart, Tag.rangeEnd, Tag.reference]) :
      Erasing start paragraphs removed apart used before ((tracesOf forest root id tag).foldl Forest.detach forest) :=
    detachAll _ (fun number member small => by
      obtain ⟨node, inStart, rfl, isTrace⟩ := erasing.tracesOf_origin member small
      exact .marker inStart kind isUsed isTrace) erasing
  have toFirst : Erasing start paragraphs removed apart used before first := isFirst ▸ markers erasing (by simp)
  have toSecond : Erasing start paragraphs removed apart used before second := isSecond ▸ markers toFirst (by simp)
  rw [whole]
  exact eraseReferences isUsed _ (fun number member small => toSecond.tracesOf_origin member small) toSecond

theorem eraseAllTraces (isUsed : used id) (roots : List Nat) : ∀ {forest : Forest},
    Erasing start paragraphs removed apart used before forest →
      Erasing start paragraphs removed apart used before (roots.foldl (Document.eraseTraces id) forest) := by
  induction roots with
  | nil => exact fun erasing => erasing
  | cons root rest hypothesis => exact fun erasing => hypothesis (erasing.eraseTraces isUsed root)

/-- Deleting a comment takes out nothing but its traces, and its element, which lies apart. -/
theorem eraseComment (erasing : Erasing start paragraphs removed apart used before forest) (template : Template)
    {comment : Comment} (isUsed : used comment.id)
    (isApart : ∀ element, comment.element = some element → element < start.fresh → apart element) :
    Erasing start paragraphs removed apart used before (Imprint.eraseComment template forest comment) := by
  have erased := eraseAllTraces isUsed template.roots erasing
  unfold Imprint.eraseComment
  dsimp only
  cases isElement : comment.element with
  | none => exact erased
  | some element => exact erased.detach fun small _ _ _ _ => .apart (isApart element isElement small)

end Erasing

end Deleting

end Imprint
