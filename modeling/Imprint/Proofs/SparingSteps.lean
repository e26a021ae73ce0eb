import Imprint.Proofs.SparedNodes
/-! # What the steps of a run spare

Directives ask for paragraphs, and for rows and tables around them, and are called for the paragraph that a
directive is evaluated for.  So what a call rewrites or has removed is accounted for by that paragraph, and
everything else is spared. -/
set_option autoImplicit false
namespace Imprint
open Imprint.Action Xml Document Node

/-! ## Calls -/

/-- The paragraph that a directive is evaluated for. -/
def Event.bound? : Event → Option Nat
  | .directive anchor .. => anchor.paragraph
  | _ => none

/-- The paragraphs that directives were called for.  The events come last one first.  A call is made for the
paragraph whose directive is evaluated next, that is, whose evaluation it is a part of; if none is evaluated
any more, handlers are still bound to the last paragraph. -/
def calledFor (next : Option Nat) : List Event → List Nat
  | [] => []
  | event :: earlier =>
      (if event.isCall then (next.or (earlier.findSome? Event.bound?)).toList else []) ++
        calledFor (event.bound?.or next) earlier

/-- Every call belongs to a directive whose evaluation has come to its end. -/
def Attributed (events : List Event) : Prop :=
  ∀ next, calledFor next events = calledFor none events

section CalledFor

variable {events calls : List Event} {event : Event} {paragraph : Nat}

theorem Attributed.nil : Attributed [] := fun _ => rfl

/-- What happens after all directives have been evaluated. -/
theorem calledFor_unbound (unbound : event.bound? = none) (events : List Event) :
    calledFor none (event :: events) =
      (if event.isCall then (events.findSome? Event.bound?).toList else []) ++ calledFor none events := by
  rw [calledFor, unbound]
  rfl

theorem calledFor_bound (isBound : event.bound? = some paragraph) (next : Option Nat) (events : List Event) :
    calledFor next (event :: events) = calledFor (some paragraph) events := by
  cases event with
  | directive => rw [calledFor, isBound]; rfl
  | _ => cases isBound

theorem Attributed.bound (isBound : event.bound? = some paragraph) : Attributed (event :: events) := fun next => by
  rw [calledFor_bound isBound, calledFor_bound isBound]

/-- The calls of a directive come on top of earlier ones. -/
theorem mem_calledFor_calls (unbound : ∀ call ∈ calls, call.bound? = none) (attributed : Attributed events)
    {other : Nat} : other ∈ calledFor (some paragraph) (calls ++ events) ↔
      (other = paragraph ∧ ∃ call ∈ calls, call.isCall = true) ∨ other ∈ calledFor none events := by
  induction calls with
  | nil => simp [attributed (some paragraph)]
  | cons call rest hypothesis =>
    have others := hypothesis fun other member => unbound other (List.mem_cons_of_mem _ member)
    rw [List.cons_append, calledFor, unbound call List.mem_cons_self, Option.none_or, List.mem_append, others]
    cases isCall : call.isCall with
    | true =>
      simp only [if_pos, Option.some_or, Option.toList_some, List.mem_cons, isCall,
        exists_eq_or_imp, true_or, and_true]
      tauto
    | false => simp [isCall]

/-- Directives are only called for paragraphs that one is evaluated for. -/
theorem mem_calledFor {next : Option Nat} (called : paragraph ∈ calledFor next events) :
    next = some paragraph ∨ ∃ event ∈ events, event.bound? = some paragraph := by
  induction events generalizing next with
  | nil => cases called
  | cons event earlier hypothesis =>
    rw [calledFor, List.mem_append] at called
    rcases called with here | before
    · split at here
      · rw [Option.mem_toList, Option.or_eq_some_iff] at here
        rcases here with isNext | ⟨-, isBound⟩
        · exact .inl isNext
        · obtain ⟨other, member, same⟩ := List.exists_of_findSome?_eq_some isBound
          exact .inr ⟨other, List.mem_cons_of_mem _ member, same⟩
      · cases here
    · rcases hypothesis before with isNext | ⟨other, member, same⟩
      · rcases Option.or_eq_some_iff.mp isNext with isBound | ⟨-, isNext⟩
        · exact .inr ⟨event, List.mem_cons_self, isBound⟩
        · exact .inl isNext
      · exact .inr ⟨other, List.mem_cons_of_mem _ member, same⟩

end CalledFor

/-! ## What handlers are asked for -/

/-- What a handler has been asked for fits a document: repeated paragraphs are paragraphs, and those that are
to be removed are some for which it was called, or rows, or tables. -/
def Duty.Fits (forest : Forest) (called : Nat → Prop) : Duty → Prop
  | .repeatParagraphs pending => ∀ repetition ∈ pending, ∀ template ∈ repetition.templates,
      forest.Tagged Tag.paragraph template
  | .display paragraphs rows tables => (∀ paragraph ∈ paragraphs, called paragraph ∧ forest.Tagged Tag.paragraph paragraph) ∧
      (∀ row ∈ rows, forest.Tagged Tag.row row) ∧ ∀ table ∈ tables, forest.Tagged Tag.table table
  | .replaceWord => True
  | .record _ => False

theorem Duty.Fits.mono {before after : Forest} {called more : Nat → Prop} {duty : Duty}
    (tags : ∀ tag number, before.Tagged tag number → after.Tagged tag number)
    (calls : ∀ number, called number → more number) (fits : duty.Fits before called) : duty.Fits after more := by
  cases duty with
  | repeatParagraphs pending =>
    exact fun repetition member template among => tags _ _ (fits repetition member template among)
  | display paragraphs rows tables =>
    obtain ⟨ofParagraphs, ofRows, ofTables⟩ := fits
    exact ⟨fun paragraph member => ⟨calls _ (ofParagraphs paragraph member).1, tags _ _ (ofParagraphs paragraph member).2⟩,
      fun row member => tags _ _ (ofRows row member), fun table member => tags _ _ (ofTables table member)⟩
  | replaceWord => trivial
  | record => exact fits

theorem enclosing_tagged {forest : Forest} {tag : Tag} {number found : Nat}
    (around : enclosing forest tag number = some found) : forest.Tagged tag found := by
  obtain ⟨ancestor, isAncestor, rfl⟩ := Option.map_eq_some_iff.mp around
  exact ⟨ancestor, (Forest.mem_ancestors (List.mem_of_find?_eq_some isAncestor)).1, rfl, List.find?_some isAncestor⟩

theorem commentRange_tagged {forest : Forest} {paragraph : Nat} {id : Option String} :
    ∀ template ∈ (commentRange forest paragraph id).paragraphs.map key, forest.Tagged Tag.paragraph template := by
  intro template member
  obtain ⟨element, inRange, rfl⟩ := List.mem_map.mp member
  obtain ⟨among, isParagraph⟩ := List.mem_filter.mp inRange
  refine ⟨element, ?_, rfl, isParagraph⟩
  obtain ⟨node, found, rfl | ⟨parent, isParent, direct⟩⟩ := mem_commentRange among
  · exact (Forest.mem_of_find? found).1
  · exact child_mem_allBelow (Forest.mem_of_parent? isParent).1 direct

theorem Asks.fits {forest : Forest} {anchor : Anchor} {before after : Duty} {called : Nat → Prop}
    (asks : Asks forest anchor before after)
    (bound : ∀ paragraph, anchor.paragraph = some paragraph → called paragraph ∧ forest.Tagged Tag.paragraph paragraph)
    (fits : before.Fits forest called) : after.Fits forest called := by
  cases asks with
  | repetition pending items isBound =>
    intro repetition member template among
    rcases mem_setPending member with rfl | old
    · exact commentRange_tagged template among
    · exact fits repetition old template among
  | paragraph paragraphs rows tables isBound =>
    refine ⟨fun paragraph member => ?_, fits.2⟩
    rcases mem_addOnce.mp member with rfl | old
    · exact bound _ isBound
    · exact fits.1 paragraph old
  | row paragraphs rows tables isBound around =>
    refine ⟨fits.1, fun row member => ?_, fits.2.2⟩
    rcases mem_addOnce.mp member with rfl | old
    · exact enclosing_tagged around
    · exact fits.2.1 row old
  | table paragraphs rows tables isBound around =>
    refine ⟨fits.1, fits.2.1, fun table member => ?_⟩
    rcases mem_addOnce.mp member with rfl | old
    · exact enclosing_tagged around
    · exact fits.2.2 table old
  | record recorder isBound => exact fits.elim

/-! ## What is accounted for -/

namespace Xml.Forest

/-- A run of a paragraph, or a new one. -/
def RunOf (forest : Forest) (paragraph run : Nat) : Prop :=
  forest.fresh ≤ run ∨ ∃ node ∈ forest.nodes, node.key = paragraph ∧
    ∃ child ∈ node.children, isRun child = true ∧ child.key = run

/-- Certain paragraphs, and their runs. -/
def TextOf (forest : Forest) (paragraphs : Nat → Prop) (number : Nat) : Prop :=
  ∃ node ∈ forest.nodes, node.hasTag Tag.paragraph = true ∧ paragraphs node.key ∧
    (number = node.key ∨ ∃ child ∈ node.children, isRun child = true ∧ child.key = number)

theorem TextOf.mono {forest : Forest} {paragraphs more : Nat → Prop} {number : Nat}
    (implies : ∀ paragraph, paragraphs paragraph → more paragraph) (textOf : forest.TextOf paragraphs number) :
    forest.TextOf more number := by
  obtain ⟨node, member, isParagraph, here, place⟩ := textOf
  exact ⟨node, member, isParagraph, implies _ here, place⟩

end Xml.Forest

/-- A world in which certain paragraphs may have been rewritten, and certain nodes removed, since a document
was opened.  All handlers are bound to the same paragraph, and have only been asked for what fits; the copies
that repetitions have made are new paragraphs. -/
structure Tended (start : Forest) (rewritten removed called : Nat → Prop) (bound : Option Nat) (world : World) :
    Prop where
  opened : start.WellFormed
  sparing : Forest.Sparing start.fresh (start.TextOf rewritten) removed start world.forest
  duties : ∀ handler ∈ world.handlers, handler.duty.Fits world.forest called
  anchors : ∀ handler ∈ world.handlers, handler.anchor.paragraph = bound
  runs : ∀ handler ∈ world.handlers, ∀ run, handler.anchor.run = some run →
    ∃ paragraph, bound = some paragraph ∧ start.RunOf paragraph run
  paragraph : ∀ paragraph, bound = some paragraph → world.forest.Tagged Tag.paragraph paragraph
  repeated : ∀ pending new, .repeated pending new ∈ world.events →
    (∀ template ∈ pending.templates, world.forest.Tagged Tag.paragraph template) ∧
      ∀ copy ∈ new, start.fresh ≤ copy ∧ world.forest.Tagged Tag.paragraph copy

namespace Tended

variable {start : Forest} {rewritten removed called more others calls : Nat → Prop} {bound : Option Nat} {world after : World}

theorem mono (rewrites : ∀ number, rewritten number → more number)
    (removes : ∀ number < start.fresh, removed number → others number) (isCalled : ∀ number, called number → calls number)
    (tended : Tended start rewritten removed called bound world) : Tended start more others calls bound world where
  opened := tended.opened
  sparing := tended.sparing.mono (fun _ _ => Forest.TextOf.mono rewrites) removes
  duties handler member := (tended.duties handler member).mono (fun _ _ => id) isCalled
  anchors := tended.anchors
  runs := tended.runs
  paragraph := tended.paragraph
  repeated := tended.repeated

/-- Steps that change the forest at most, and are only followed by events that are no repetitions. -/
theorem step (tended : Tended start rewritten removed called bound world)
    (sparing : Forest.Sparing start.fresh (start.TextOf rewritten) removed world.forest after.forest)
    (handlers : after.handlers = world.handlers)
    (events : ∀ pending new, .repeated pending new ∈ after.events → .repeated pending new ∈ world.events) :
    Tended start rewritten removed called bound after where
  opened := tended.opened
  sparing := tended.sparing.trans sparing
  duties handler member := (tended.duties handler (handlers ▸ member)).mono (fun _ _ => sparing.tagged) fun _ => id
  anchors := handlers ▸ tended.anchors
  runs := handlers ▸ tended.runs
  paragraph paragraph isBound := sparing.tagged (tended.paragraph paragraph isBound)
  repeated pending new noted := by
    obtain ⟨templates, copies⟩ := tended.repeated pending new (events pending new noted)
    exact ⟨fun template member => sparing.tagged (templates template member),
      fun copy member => ⟨(copies copy member).1, sparing.tagged (copies copy member).2⟩⟩

/-- Steps that leave the forest alone as well. -/
theorem same (tended : Tended start rewritten removed called bound world) (forest : after.forest = world.forest)
    (handlers : after.handlers = world.handlers)
    (events : ∀ pending new, .repeated pending new ∈ after.events → .repeated pending new ∈ world.events) :
    Tended start rewritten removed called bound after :=
  tended.step (by rw [forest]; exact .refl tended.sparing.wellFormed) handlers events

theorem asked (tended : Tended start rewritten removed called bound world)
    (isCalled : ∀ paragraph, bound = some paragraph → called paragraph) {index : Nat} {handler : Handler} {duty : Duty}
    (present : world.handlers[index]? = some handler) (asks : Asks world.forest handler.anchor handler.duty duty) :
    Tended start rewritten removed called bound
      { world with handlers := world.handlers.modify index fun other => { other with duty } } := by
  have place := List.mem_of_getElem? present
  have either {other : Handler} (member : other ∈ world.handlers.modify index fun other => { other with duty }) :
      other ∈ world.handlers ∨ other = { handler with duty } := by
    refine (mem_modify member).imp_right ?_
    rintro ⟨old, found, rfl⟩
    rw [Option.some.inj (found.symm.trans present)]
  refine { tended with duties := ?_, anchors := ?_, runs := ?_ }
  · intro other member
    rcases either member with old | rfl
    · exact tended.duties other old
    · refine asks.fits (fun paragraph isBound => ?_) (tended.duties handler place)
      rw [tended.anchors handler place] at isBound
      exact ⟨isCalled paragraph isBound, tended.paragraph paragraph isBound⟩
  · intro other member
    rcases either member with old | rfl
    · exact tended.anchors other old
    · exact tended.anchors handler place
  · intro other member
    rcases either member with old | rfl
    · exact tended.runs other old
    · exact tended.runs handler place

/-- A paragraph that comes from the beginning is one there. -/
theorem origin (tended : Tended start rewritten removed called bound world) {node : Node} (inStart : node ∈ start.nodes)
    (isTagged : world.forest.Tagged Tag.paragraph node.key) : node.hasTag Tag.paragraph = true := by
  obtain ⟨other, inForest, same, isParagraph⟩ :=
    tended.sparing.tagged_origin isTagged (tended.opened.key_lt inStart)
  rwa [← tended.opened.eq_of_key_eq inForest inStart same]

/-- Editing a run of the paragraph that all handlers are bound to. -/
theorem edit_run (tended : Tended start rewritten removed called bound world)
    (isRewritten : ∀ paragraph, bound = some paragraph → rewritten paragraph) {handler : Handler}
    (member : handler ∈ world.handlers) {run : Nat} (isRun : handler.anchor.run = some run) {change : Node → Node}
    (head : ∀ node, (change node).head = node.head)
    (revised : ∀ node, Revised (· = run) node.children (change node).children) :
    Tended start rewritten removed called bound { world with forest := world.forest.edit run change } := by
  cases found : world.forest.find? run with
  | none =>
    rw [Engine.edit_missing found]
    exact tended
  | some node =>
    obtain ⟨paragraph, isBound, place⟩ := tended.runs handler member run isRun
    refine tended.step ((tended.sparing.wellFormed.edit_edited found (head node) (revised node) rfl).sparing
      tended.sparing.fresh ?_) rfl fun _ _ => id
    rintro number small rfl
    rcases place with new | ⟨owner, inStart, rfl, ownRun⟩
    · omega
    · exact ⟨owner, inStart, tended.origin inStart (tended.paragraph owner.key isBound),
        isRewritten owner.key isBound, .inr ownRun⟩

/-- Runs stay in their paragraphs. -/
theorem runOf (tended : Tended start rewritten removed called bound world) {node child : Node}
    (inForest : node ∈ world.forest.nodes) (direct : child ∈ node.children) (run : isRun child = true) :
    start.RunOf node.key child.key := by
  by_cases small : child.key < start.fresh
  · obtain ⟨owner, inStart, same, held⟩ := tended.sparing.children node inForest child direct small
    obtain ⟨other, inOwner, sameChild⟩ := List.mem_map.mp held
    obtain ⟨origin, alsoInStart, head, -⟩ := tended.sparing.origin (child_mem_allBelow inForest direct) small
    obtain rfl : origin = other := tended.opened.eq_of_key_eq alsoInStart (child_mem_allBelow inStart inOwner)
      ((congrArg Head.key head).symm.trans sameChild.symm)
    exact .inr ⟨owner, inStart, same, origin, inOwner, (hasTag_of_head head _).symm.trans run, sameChild⟩
  · exact .inl (Nat.not_lt.mp small)

/-- Editing a paragraph that may be rewritten, or that is new. -/
theorem edit_paragraph (tended : Tended start rewritten removed called bound world) {paragraph : Nat} {node changed : Node}
    (may : start.fresh ≤ paragraph ∨ (rewritten paragraph ∧ world.forest.Tagged Tag.paragraph paragraph))
    (found : world.forest.find? paragraph = some node)
    (revised : ∀ touched, Replacer.MayCut touched node → Replacer.Changed touched node changed) :
    Tended start rewritten removed called bound
      { world with forest := world.forest.edit paragraph fun _ => changed } := by
  obtain ⟨inForest, rfl⟩ := tended.sparing.wellFormed.find?_iff.mp found
  have outcome := revised
    (fun number => number = node.key ∨ ∃ child ∈ node.children, isRun child = true ∧ child.key = number)
    fun child direct run => .inr ⟨child, direct, run, rfl⟩
  refine tended.step ((tended.sparing.wellFormed.edit_edited found outcome.head outcome.revised (.inl rfl)).sparing
    tended.sparing.fresh fun number small touches => ?_) rfl fun _ _ => id
  -- What is touched comes from the beginning, so the paragraph does as well.
  have known : ∃ owner ∈ start.nodes, owner.key = node.key ∧ (number = owner.key ∨
      ∃ child ∈ owner.children, isRun child = true ∧ child.key = number) := by
    rcases touches with rfl | ⟨child, direct, run, rfl⟩
    · obtain ⟨owner, inStart, head, -⟩ := tended.sparing.origin inForest small
      exact ⟨owner, inStart, (congrArg Head.key head).symm, .inl (congrArg Head.key head)⟩
    · rcases tended.runOf inForest direct run with new | ⟨owner, inStart, same, ownRun⟩
      · omega
      · exact ⟨owner, inStart, same, .inr ownRun⟩
  obtain ⟨owner, inStart, same, place⟩ := known
  have old := tended.opened.key_lt inStart
  obtain ⟨isRewritten, isTagged⟩ := may.resolve_left (by omega)
  exact ⟨owner, inStart, tended.origin inStart (same ▸ isTagged), same ▸ isRewritten, place⟩

end Tended
end Imprint
