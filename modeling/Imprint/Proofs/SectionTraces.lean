import Imprint.Proofs.CommentDeletion
import Imprint.Proofs.PrunedForests
/-! # What deleting a comment takes out of the sections

Deleting a comment leaves every section as it was without the markers and references of the comment and without the
runs that only held references.  Such a run goes even if it holds a reference to another comment. -/
set_option autoImplicit false
namespace Imprint
open Xml Document Node Forest

namespace Document

/-- What deleting a comment may take out of a document: its element, its markers and references, and runs that hold
a reference to it and nothing that is left behind but properties and references. -/
inductive Expunged (start : Forest) (comment : Comment) : Nat → Prop where
  | element {number : Nat} (isElement : comment.element = some number) : Expunged start comment number
  | trace {node : Node} {tag : Tag} (member : node ∈ start.nodes)
      (kind : tag ∈ [Tag.rangeStart, Tag.rangeEnd, Tag.reference])
      (isTrace : isTraceOf comment.id tag node = true) : Expunged start comment node.key
  | run {node reference : Node} (member : node ∈ start.nodes) (isARun : isRun node = true)
      (direct : reference ∈ node.children) (isTrace : isTraceOf comment.id Tag.reference reference = true)
      (others : ∀ child ∈ node.children, child.hasTag Tag.runProperties = false →
        child.hasTag Tag.reference = false → Expunged start comment child.key) : Expunged start comment node.key

/-- A key of a marker of a comment, or of a reference to it. -/
def HasTrace (start : Forest) (comment : Comment) (tag : Tag) (number : Nat) : Prop :=
  ∃ node ∈ start.nodes, node.key = number ∧ isTraceOf comment.id tag node = true

section Expunging

variable {start forest : Forest} {comment : Comment} {gone : List Nat} {number root : Nat} {tag : Tag}

/-- While the traces of a comment are erased, only what belongs to it has been taken out.  No reference has been taken
out alone of a run that holds nothing else. -/
structure Expunging (start : Forest) (comment : Comment) (gone : List Nat) (forest : Forest) : Prop where
  opened : start.WellFormed
  stripped : Stripped gone start forest
  only : ∀ number ∈ gone, Expunged start comment number
  alone : ∀ run ∈ start.nodes, holdsOnlyReferences run = true → ∀ reference ∈ run.children,
    isTraceOf comment.id Tag.reference reference = true → reference.key ∈ gone → run.key ∈ gone

namespace Expunging

theorem refl (comment : Comment) (wellFormed : start.WellFormed) : Expunging start comment [] start where
  opened := wellFormed
  stripped := .refl wellFormed
  only _ impossible := absurd impossible List.not_mem_nil
  alone _ _ _ _ _ _ impossible := absurd impossible List.not_mem_nil

/-- Taking out a node that belongs to a comment; a reference may only be taken out alone if its run holds more. -/
theorem detach (expunging : Expunging start comment gone forest) (expunged : Expunged start comment number)
    (alone : ∀ run ∈ start.nodes, holdsOnlyReferences run = true → ∀ reference ∈ run.children,
      isTraceOf comment.id Tag.reference reference = true → reference.key ≠ number) :
    Expunging start comment (gone ++ [number]) (forest.detach number) where
  opened := expunging.opened
  stripped := expunging.stripped.trans (.detach expunging.stripped.wellFormed number)
  only other member := by
    rcases List.mem_append.mp member with before | here
    · exact expunging.only other before
    · exact List.mem_singleton.mp here ▸ expunged
  alone run inStart only reference direct isTrace member := by
    rcases List.mem_append.mp member with before | here
    · exact List.mem_append_left _ (expunging.alone run inStart only reference direct isTrace before)
    · exact absurd (List.mem_singleton.mp here) (alone run inStart only reference direct isTrace)

/-- A node with another tag is no reference. -/
theorem other_tag (wellFormed : start.WellFormed) {node : Node} (inStart : node ∈ start.nodes)
    (isTag : node.hasTag tag = true) (other : tag ≠ Tag.reference) : ∀ run ∈ start.nodes,
    holdsOnlyReferences run = true → ∀ reference ∈ run.children,
      isTraceOf comment.id Tag.reference reference = true → reference.key ≠ node.key := by
  intro run alsoInStart _ reference direct isTrace same
  obtain rfl := wellFormed.eq_of_key_eq (child_mem_allBelow alsoInStart direct) inStart same
  rw [isTraceOf, Bool.and_eq_true] at isTrace
  exact other (tag_unique isTag isTrace.1)

/-- Steps that each take out some more can be made one after the other. -/
theorem inTurn {erase : Forest → Nat → Forest} {may : Nat → Prop}
    (step : ∀ {gone : List Nat} {forest : Forest} {number : Nat}, Expunging start comment gone forest → may number →
      ∃ more, Expunging start comment (gone ++ more) (erase forest number)) (numbers : List Nat) :
    ∀ {gone : List Nat} {forest : Forest}, Expunging start comment gone forest → (∀ number ∈ numbers, may number) →
      ∃ more, Expunging start comment (gone ++ more) (numbers.foldl erase forest) := by
  induction numbers with
  | nil => exact fun expunging _ => ⟨[], by rwa [List.append_nil]⟩
  | cons number rest hypothesis =>
    intro gone forest expunging allowed
    obtain ⟨first, made⟩ := step expunging (allowed number List.mem_cons_self)
    obtain ⟨more, others⟩ := hypothesis made fun later member => allowed later (List.mem_cons_of_mem _ member)
    exact ⟨first ++ more, by rwa [← List.append_assoc]⟩

/-- Traces are those of the beginning. -/
theorem tracesOf_origin (expunging : Expunging start comment gone forest)
    (member : number ∈ tracesOf forest root comment.id tag) : HasTrace start comment tag number := by
  obtain ⟨tree, found, node, place, rfl, isTrace⟩ := mem_tracesOf.mp member
  have inForest : node ∈ forest.nodes := by
    refine below_subset (mem_of_find? found).1 ?_
    rwa [allBelow_singleton]
  obtain ⟨origin, inStart, rfl⟩ := expunging.stripped.origin inForest
  exact ⟨origin, inStart, (key_pruned origin).symm, (isTraceOf_head (head_pruned origin)).symm.trans isTrace⟩

theorem detachMarker (kind : tag ∈ [Tag.rangeStart, Tag.rangeEnd]) (expunging : Expunging start comment gone forest)
    (hasTrace : HasTrace start comment tag number) :
    ∃ more, Expunging start comment (gone ++ more) (forest.detach number) := by
  obtain ⟨node, inStart, rfl, isTrace⟩ := hasTrace
  have isTag : node.hasTag tag = true := (Bool.and_eq_true_iff.mp isTrace).1
  have other : tag ≠ Tag.reference := by
    rintro rfl
    exact absurd kind (by decide)
  exact ⟨[node.key], expunging.detach (.trace inStart (List.mem_append_left [Tag.reference] kind) isTrace)
    (other_tag expunging.opened inStart isTag other)⟩

/-- A run that by now only holds references goes with a reference to the comment. -/
theorem run_expunged (expunging : Expunging start comment gone forest) {run reference : Node}
    (inStart : run ∈ start.nodes) (direct : reference ∈ run.children)
    (isTrace : isTraceOf comment.id Tag.reference reference = true)
    (only : holdsOnlyReferences (run.pruned gone) = true) : Expunged start comment run.key := by
  simp only [holdsOnlyReferences, Bool.and_eq_true, List.all_eq_true, Bool.or_eq_true] at only
  refine .run inStart ((hasTag_pruned run _).symm.trans only.1) direct isTrace ?_
  intro child among noProperties noReference
  by_contra stays
  have tags := only.2 _
    (mem_children_pruned.mpr ⟨child, among, fun isGone => stays (expunging.only _ isGone), rfl⟩)
  rw [hasTag_pruned, hasTag_pruned, noProperties, noReference] at tags
  simp at tags

/-- A reference is taken out, or the run goes that it is in. -/
theorem eraseReference (expunging : Expunging start comment gone forest)
    (hasTrace : HasTrace start comment Tag.reference number) :
    ∃ more, Expunging start comment (gone ++ more) (Document.eraseReference forest number) := by
  obtain ⟨reference, inStart, rfl, isTrace⟩ := hasTrace
  have located := expunging.stripped.parent? expunging.opened reference.key
  unfold Document.eraseReference
  split
  · exact ⟨[], by rwa [List.append_nil]⟩
  · rename_i now isNow
    rw [isNow] at located
    split at located
    · cases located
    · obtain ⟨run, isRun, rfl⟩ := Option.map_eq_some_iff.mp located.symm
      obtain ⟨runInStart, held⟩ := mem_of_parent? isRun
      obtain ⟨child, direct, same⟩ := List.mem_map.mp held
      obtain rfl := expunging.opened.eq_of_key_eq (child_mem_allBelow runInStart direct) inStart same
      cases only : holdsOnlyReferences (run.pruned gone) with
      | true =>
        have expunged := expunging.run_expunged runInStart direct isTrace only
        have isTag : run.hasTag Tag.run = true := by
          rw [holdsOnlyReferences, Bool.and_eq_true] at only
          exact (hasTag_pruned run _).symm.trans only.1
        rw [if_pos rfl, key_pruned]
        exact ⟨[run.key], expunging.detach expunged (other_tag expunging.opened runInStart isTag (by decide))⟩
      | false =>
        refine ⟨[child.key], expunging.detach (.trace inStart (by simp) isTrace) ?_⟩
        intro other alsoInStart onlyOther reference among _ same
        obtain rfl := parent_unique expunging.opened.unique alsoInStart runInStart
          (List.mem_map.mpr ⟨reference, among, same⟩) held
        have origins : ∀ last ∈ (other.pruned gone).children, ∃ origin ∈ other.children, origin.head = last.head := by
          intro last isLast
          obtain ⟨origin, isOrigin, -, rfl⟩ := mem_children_pruned.mp isLast
          exact ⟨origin, isOrigin, (head_pruned origin).symm⟩
        have still := holdsOnlyReferences_thinned (head_pruned other).symm origins onlyOther
        rw [only] at still
        cases still

theorem eraseTraces (expunging : Expunging start comment gone forest) (root : Nat) :
    ∃ more, Expunging start comment (gone ++ more) (Document.eraseTraces comment.id forest root) := by
  obtain ⟨first, second, isFirst, isSecond, whole⟩ := eraseTraces_stages comment.id forest root
  obtain ⟨starts, toFirst⟩ := inTurn (detachMarker (by simp : Tag.rangeStart ∈ [Tag.rangeStart, Tag.rangeEnd]))
    (tracesOf forest root comment.id Tag.rangeStart) expunging fun _ member => expunging.tracesOf_origin member
  rw [← isFirst] at toFirst
  obtain ⟨ends, toSecond⟩ := inTurn (detachMarker (by simp : Tag.rangeEnd ∈ [Tag.rangeStart, Tag.rangeEnd]))
    (tracesOf first root comment.id Tag.rangeEnd) toFirst fun _ member => toFirst.tracesOf_origin member
  rw [← isSecond] at toSecond
  obtain ⟨references, toThird⟩ := inTurn eraseReference
    (tracesOf second root comment.id Tag.reference) toSecond fun _ member => toSecond.tracesOf_origin member
  rw [← whole] at toThird
  exact ⟨starts ++ ends ++ references, by rwa [← List.append_assoc, ← List.append_assoc]⟩

theorem eraseAllTraces (expunging : Expunging start comment gone forest) (roots : List Nat) :
    ∃ more, Expunging start comment (gone ++ more) (roots.foldl (Document.eraseTraces comment.id) forest) :=
  inTurn (fun {_ _ root} expunging _ => expunging.eraseTraces root) roots expunging fun _ _ => trivial

end Expunging

/-- What lies below a node has a parent, which is this node or lies below it as well. -/
theorem exists_parent_below (wellFormed : forest.WellFormed) {tree node : Node} (inForest : tree ∈ forest.nodes)
    (below : node ∈ allBelow tree.children) : ∃ parent, forest.parent? node.key = some parent ∧
      (parent = tree ∨ parent ∈ allBelow tree.children) := by
  have inside {other : Node} (place : other ∈ allBelow tree.children) : other ∈ forest.nodes :=
    allBelow_trans inForest place
  rcases exists_parent below with direct | ⟨parent, place, direct⟩
  · exact ⟨tree, wellFormed.parent?_iff.mpr ⟨inForest, List.mem_map.mpr ⟨node, direct, rfl⟩⟩, .inl rfl⟩
  · exact ⟨parent, wellFormed.parent?_iff.mpr ⟨inside place, List.mem_map.mpr ⟨node, direct, rfl⟩⟩, .inr place⟩

/-- Where the traces of a comment have been erased, none is left below a root that is no run. -/
theorem Cleared.none_below (cleared : Cleared comment.id forest root) (wellFormed : forest.WellFormed) {tree node : Node}
    (found : forest.find? root = some tree) (noRun : isRun tree = false) (below : node ∈ allBelow tree.children)
    (kind : tag ∈ [Tag.rangeStart, Tag.rangeEnd, Tag.reference]) : isTraceOf comment.id tag node = false := by
  rw [← Bool.not_eq_true]
  intro isTrace
  have inForest := (mem_of_find? found).1
  have place : node ∈ tree.selfAndBelow := by
    rw [selfAndBelow_eq]
    exact List.mem_cons_of_mem _ below
  obtain ⟨parent, located, above⟩ := exists_parent_below wellFormed inForest below
  rcases cleared tag kind node.key (mem_tracesOf.mpr ⟨tree, found, node, place, rfl, isTrace⟩) with
    apart | ⟨-, run, isParent, only, apart⟩
  · rw [located] at apart
    cases apart
  · obtain rfl := Option.some.inj (located.symm.trans isParent)
    rcases above with rfl | inside
    · rw [holdsOnlyReferences, Bool.and_eq_true] at only
      exact absurd only.1 (by rw [← isRun, noRun]; simp)
    · obtain ⟨outer, impossible, -⟩ := exists_parent_below wellFormed inForest inside
      rw [apart] at impossible
      cases impossible

/-- A run that held nothing but properties and references, one of them to the comment, is not left either. -/
theorem Expunging.run_gone (expunging : Expunging start comment gone forest) (cleared : Cleared comment.id forest root)
    {tree run reference : Node} (found : start.find? root = some tree) (noRun : isRun tree = false)
    (below : run ∈ allBelow tree.children) (only : holdsOnlyReferences run = true) (direct : reference ∈ run.children)
    (isTrace : isTraceOf comment.id Tag.reference reference = true) :
    run.key ∉ keysOf (tree.pruned gone).children := by
  intro left
  obtain ⟨opened, stripped, -, alone⟩ := expunging
  have inStart : run ∈ start.nodes := allBelow_trans (mem_of_find? found).1 below
  have foundAfter := stripped.find?_some opened found
  have inForest := (mem_of_find? foundAfter).1
  obtain ⟨now, isBelow, same⟩ := List.mem_map.mp left
  obtain rfl : now = run.pruned gone := stripped.wellFormed.eq_of_key_eq (allBelow_trans inForest isBelow)
    (stripped.pruned_mem inStart) (same.trans (key_pruned run).symm)
  obtain ⟨parent, located, -⟩ := exists_parent_below stripped.wellFormed inForest isBelow
  have stays : reference.key ∉ gone := by
    intro isGone
    rw [key_pruned, stripped.parent? opened, if_pos (alone run inStart only reference direct isTrace isGone)] at located
    cases located
  have remains := mem_children_pruned.mpr ⟨reference, direct, stays, rfl⟩
  have none := cleared.none_below stripped.wellFormed foundAfter ((hasTag_pruned tree _).trans noRun)
    (child_mem_allBelow isBelow remains) (by simp : Tag.reference ∈ [Tag.rangeStart, Tag.rangeEnd, Tag.reference])
  rw [isTraceOf_head (head_pruned reference), isTrace] at none
  cases none

end Expunging

/-- After a comment has been deleted, every section is as it was without some nodes that belonged to the comment.
Below its root no marker of the comment is left, no reference to it, and no run that held nothing but properties and
references, one of them to this comment. -/
theorem CommentStore.delete_expunges (store : CommentStore) {forest : Forest} (wellFormed : forest.WellFormed)
    (template : Template) (comment : Comment) :
    ∃ gone, (∀ number ∈ gone, Expunged forest comment number) ∧
      ∀ root ∈ template.roots, ∀ tree, forest.find? root = some tree → isRun tree = false →
        (store.delete forest template comment).2.find? root = some (tree.pruned gone) ∧
        (∀ node ∈ allBelow (tree.pruned gone).children, ∀ tag ∈ [Tag.rangeStart, Tag.rangeEnd, Tag.reference],
          isTraceOf comment.id tag node = false) ∧
        ∀ run ∈ allBelow tree.children, holdsOnlyReferences run = true →
          (∃ reference ∈ run.children, isTraceOf comment.id Tag.reference reference = true) →
          run.key ∉ keysOf (tree.pruned gone).children := by
  obtain ⟨traces, expunging⟩ := (Expunging.refl comment wellFormed).eraseAllTraces template.roots
  rw [List.nil_append] at expunging
  obtain ⟨-, clearedTraces⟩ := eraseAllTraces_clears comment.id template.roots wellFormed
  obtain ⟨-, cleared⟩ := eraseComment_clears template wellFormed comment
  obtain ⟨deletes, -⟩ := delete_erases template store wellFormed comment
  have stripped : Stripped (traces ++ comment.element.toList) forest (eraseComment template forest comment) := by
    unfold eraseComment
    dsimp only
    cases comment.element with
    | none => exact expunging.stripped.trans (.refl expunging.stripped.wellFormed)
    | some element => exact expunging.stripped.trans (.detach expunging.stripped.wellFormed element)
  refine ⟨traces ++ comment.element.toList, fun number member => ?_, fun root isRoot tree found noRun => ?_⟩
  · rcases List.mem_append.mp member with isTrace | isElement
    · exact expunging.only number isTrace
    · exact .element (Option.mem_toList.mp isElement)
  · have foundAfter := stripped.find?_some wellFormed found
    refine ⟨deletes ▸ foundAfter, fun node below tag kind => ?_, ?_⟩
    · exact (cleared root isRoot).none_below stripped.wellFormed foundAfter
        ((hasTag_pruned tree _).trans noRun) below kind
    · rintro run below only ⟨reference, direct, isTrace⟩ left
      rw [← pruned_pruned, children_pruned] at left
      exact expunging.run_gone (clearedTraces root isRoot) found noRun below only direct isTrace
        (expandAll_keys _ _ left).1

/-- A run that refers to two comments goes with the first one, and the reference to the other one with it. -/
example :
    let reference (id : String) := Node.mk 0 (.element Tag.reference [(Tag.identifier, id)]) "" [] ""
    let body := Node.ofTag Tag.body [Node.ofTag Tag.run [reference "0", reference "1"]]
    let (template, forest) := Package.openIn ⟨body, [], [], none, false⟩ .empty
    let after := (CommentStore.delete ⟨[], none, false⟩ forest template ⟨"0", "", none⟩).2
    tracesOf forest template.body "1" Tag.reference = [4] ∧ tracesOf after template.body "1" Tag.reference = [] := by
  decide +kernel

end Document

end Imprint
