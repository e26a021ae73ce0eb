import Imprint.Proofs.DirectiveEvaluation
import Imprint.Proofs.OpenedPackages
import Imprint.Proofs.ParagraphComments
import Mathlib.Data.List.Induction
import Mathlib.Logic.Relation

/-! # Going through a document

A walk evaluates the directives of one paragraph after the other.  All it edits are the paragraphs of the
sections and their runs: a directive writes to the run it is bound to, and a directive inside of a text
is cut out of it.  The invariant holds after every step, whether the walk goes on or not. -/
set_option autoImplicit false
namespace Imprint
open Imprint.Action Xml Document Node

namespace Document

theorem eraseDups_known {numbers : List Nat} {number : Nat} (known : number ∈ numbers) :
    (numbers ++ [number]).eraseDups = numbers.eraseDups := by
  have removed : [number].removeAll numbers = [] := by simpa [List.removeAll] using known
  rw [List.eraseDups_append, removed, List.eraseDups_nil, List.append_nil]

theorem eraseDups_new {numbers : List Nat} {number : Nat} (new : number ∉ numbers) :
    (numbers ++ [number]).eraseDups = numbers.eraseDups ++ [number] := by
  have kept : [number].removeAll numbers = [number] := by simpa [List.removeAll] using new
  rw [List.eraseDups_append, kept, List.eraseDups_cons, List.filter_nil, List.eraseDups_nil]

theorem nodup_eraseDups (numbers : List Nat) : numbers.eraseDups.Nodup := by
  induction numbers using List.reverseRecOn with
  | nil => exact List.nodup_nil
  | append_singleton rest number hypothesis =>
    by_cases known : number ∈ rest
    · rw [eraseDups_known known]
      exact hypothesis
    · rw [eraseDups_new known, List.nodup_append]
      refine ⟨hypothesis, List.nodup_singleton _, ?_⟩
      rintro other among _ last rfl
      exact known (List.mem_singleton.mp last ▸ List.mem_eraseDups.mp among)

/-- Sections are trees apart. -/
theorem sections_nodup {template : Template} {forest : Forest} (opened : Opened template forest) :
    (keysOf (sections forest template.roots)).Nodup := by
  have trees (roots : List Nat) (unique : roots.Nodup) (among : ∀ root ∈ roots, root ∈ template.roots) :
      (keysOf (sections forest roots)).Nodup := by
    induction roots with
    | nil => exact List.nodup_nil
    | cons root rest hypothesis =>
      obtain ⟨different, uniqueRest⟩ := List.nodup_cons.mp unique
      obtain ⟨tree, outermost, found⟩ := opened.find? (among root List.mem_cons_self)
      have others := hypothesis uniqueRest fun other member => among other (List.mem_cons_of_mem _ member)
      have split : sections forest (root :: rest) = [tree] ++ sections forest rest := by
        rw [sections, List.filterMap_cons, found]
        rfl
      rw [split, keysOf_append, List.nodup_append]
      refine ⟨?_, others, ?_⟩
      · obtain ⟨before, after, trees⟩ := List.append_of_mem outermost
        have unique : (keysOf forest.trees).Nodup := opened.wellFormed.unique
        rw [trees, keysOf_append, ← List.singleton_append, keysOf_append] at unique
        exact (List.nodup_append.mp (List.nodup_append.mp unique).2.1).1
      · rintro number inTree _ inOthers rfl
        obtain ⟨other, isSection, inside⟩ := mem_keysOf.mp inOthers
        obtain ⟨otherRoot, isRoot, foundOther⟩ := List.mem_filterMap.mp isSection
        obtain ⟨otherTree, otherOutermost, isFound⟩ := opened.find? (among otherRoot (List.mem_cons_of_mem _ isRoot))
        rw [foundOther] at isFound
        obtain rfl := Option.some.inj isFound
        have same := opened.wellFormed.tree_unique outermost otherOutermost inTree inside
        have sameRoot : root = otherRoot := by
          rw [← (Forest.mem_of_find? found).2, ← (Forest.mem_of_find? foundOther).2, same]
        exact different (sameRoot ▸ isRoot)
  exact trees template.roots (nodup_eraseDups _) fun _ member => member

/-- A longer forest has the same sections. -/
theorem sections_extend {template : Template} {before after : Forest} (opened : Opened template before)
    (longer : Forest.Extends before after) : sections after template.roots = sections before template.roots := by
  refine List.filterMap_congr fun root isRoot => ?_
  obtain ⟨tree, outermost, found⟩ := opened.find? isRoot
  obtain ⟨-, rfl⟩ := Forest.mem_of_find? found
  rw [found, longer.wellFormed.find?_key (mem_allBelow_of_mem (longer.kept tree outermost))]

/-- Every paragraph of the sections comes up once. -/
theorem paragraphs_nodup {template : Template} {forest : Forest} (opened : Opened template forest) :
    (paragraphsBelow forest template.roots).Nodup := by
  rw [paragraphsBelow_eq]
  exact (List.filter_sublist.map key).nodup (sections_nodup opened)

end Document

/-- Since some events nothing has happened but events that pass a test. -/
def Since (test : Event → Bool) (start events : List Event) : Prop :=
  ∃ during, events = during ++ start ∧ ∀ event ∈ during, test event = true

namespace Since

variable {test : Event → Bool} {first second third : List Event}

theorem refl (events : List Event) : Since test events events :=
  ⟨[], rfl, fun _ member => absurd member List.not_mem_nil⟩

theorem noted {event : Event} (passes : test event = true) (events : List Event) :
    Since test events (event :: events) := by
  refine ⟨[event], rfl, fun other member => ?_⟩
  rw [List.mem_singleton.mp member]
  exact passes

theorem trans (before : Since test first second) (after : Since test second third) :
    Since test first third := by
  obtain ⟨during, rfl, passes⟩ := before
  obtain ⟨later, rfl, passesToo⟩ := after
  refine ⟨later ++ during, (List.append_assoc _ _ _).symm, fun event member => ?_⟩
  rcases List.mem_append.mp member with member | member
  · exact passesToo event member
  · exact passes event member

end Since

/-- The keys that an edit of some paragraphs may touch: those of the paragraphs, of their runs and of what
is new. -/
def Within (start : Forest) (paragraphs : List Nat) (number : Nat) : Prop :=
  start.fresh ≤ number ∨ ∃ paragraph ∈ start.nodes, paragraph.key ∈ paragraphs ∧
    (number = paragraph.key ∨ ∃ run ∈ paragraph.children, isRun run = true ∧ run.key = number)

theorem Within.mono {start : Forest} {some more : List Nat} (among : some ⊆ more) {number : Nat}
    (within : Within start some number) : Within start more number :=
  within.imp_right fun ⟨paragraph, member, here, place⟩ => ⟨paragraph, member, among here, place⟩

section Within

variable {start before : Forest} {done : List Nat}

theorem run_within (edited : Forest.Edited (Within start done) start before) {node child : Node}
    (inForest : node ∈ before.nodes) (here : node.key ∈ done) (direct : child ∈ node.children)
    (run : isRun child = true) : Within start done child.key := by
  by_cases small : child.key < start.fresh
  · obtain ⟨origin, inStart, same, held⟩ := edited.children node inForest child direct small
    obtain ⟨other, inOrigin, sameChild⟩ := List.mem_map.mp held
    obtain ⟨last, place, sameHead, -⟩ := edited.found other (child_mem_allBelow inStart inOrigin)
    obtain rfl : last = child := edited.wellFormed.eq_of_key_eq place (child_mem_allBelow inForest direct)
      ((congrArg Head.key sameHead).trans sameChild)
    have isRun : isRun other = true := by
      rw [← run]
      exact (hasTag_of_head sameHead Tag.run).symm
    exact .inr ⟨origin, inStart, same ▸ here, .inr ⟨other, inOrigin, isRun, sameChild⟩⟩
  · exact .inl (Nat.not_lt.mp small)

/-- Editing a paragraph with its runs. -/
theorem edit_within {paragraph : Nat} (here : paragraph ∈ done)
    (edited : Forest.Edited (Within start done) start before) {node changed : Node}
    (found : before.find? paragraph = some node)
    (revised : ∀ touched, Replacer.MayCut touched node → Replacer.Changed touched node changed) :
    Forest.Edited (Within start done) start (before.edit paragraph fun _ => changed) := by
  obtain ⟨member, rfl⟩ := edited.wellFormed.find?_iff.mp found
  have may : Within start done node.key := by
    by_cases small : node.key < start.fresh
    · obtain ⟨origin, inStart, same⟩ :=
        Forest.mem_keys.mp (edited.old _ (Forest.key_mem_keys member) small)
      exact .inr ⟨origin, inStart, same ▸ here, .inl same.symm⟩
    · exact .inl (Nat.not_lt.mp small)
  have outcome := revised (Within start done) fun child direct run =>
    run_within edited member here direct run
  exact edited.trans (edited.wellFormed.edit_edited found outcome.head outcome.revised may)

theorem isRun_paragraph {node : Node} (isParagraph : node.hasTag Tag.paragraph = true) : isRun node = false := by
  simp only [Node.hasTag, beq_iff_eq] at isParagraph
  simp only [isRun, Node.hasTag, isParagraph]
  decide

/-- A paragraph and its runs are left alone until it is their turn. -/
theorem not_within (wellFormed : start.WellFormed) {paragraph : Node} (member : paragraph ∈ start.nodes)
    (isParagraph : paragraph.hasTag Tag.paragraph = true) (later : paragraph.key ∉ done)
    (paragraphs : ∀ node ∈ start.nodes, node.key ∈ done → node.hasTag Tag.paragraph = true) :
    ¬ Within start done paragraph.key ∧
      ∀ run ∈ paragraph.children, isRun run = true → ¬ Within start done run.key := by
  constructor
  · rintro (new | ⟨other, inStart, here, same | ⟨run, direct, isARun, same⟩⟩)
    · have old := wellFormed.key_lt member
      omega
    · exact later (same ▸ here)
    · obtain rfl := wellFormed.eq_of_key_eq (child_mem_allBelow inStart direct) member same
      rw [isRun_paragraph isParagraph] at isARun
      cases isARun
  · rintro run direct isARun (new | ⟨other, inStart, here, same | ⟨otherRun, inOther, -, same⟩⟩)
    · have old := wellFormed.key_lt (child_mem_allBelow member direct)
      omega
    · obtain rfl := wellFormed.eq_of_key_eq (child_mem_allBelow member direct) inStart same
      rw [isRun_paragraph (paragraphs run inStart here)] at isARun
      cases isARun
    · obtain rfl := wellFormed.eq_of_key_eq (child_mem_allBelow inStart inOther)
        (child_mem_allBelow member direct) same
      have parent := parent_unique wellFormed.unique inStart member (List.mem_map.mpr ⟨_, inOther, rfl⟩)
        (List.mem_map.mpr ⟨_, direct, rfl⟩)
      exact later (parent ▸ here)

end Within

/-! ## What a walk keeps -/

namespace Engine

variable {dispatcher : Dispatcher} {builder : ProxyBuilder}

theorem mem_runsOf {forest : Forest} {paragraph run : Nat} (member : run ∈ runsOf forest paragraph) :
    ∃ node, forest.find? paragraph = some node ∧ ∃ child ∈ node.children, isRun child = true ∧ child.key = run := by
  unfold runsOf at member
  split at member
  · rename_i node found
    obtain ⟨child, isChild, same⟩ := List.mem_map.mp member
    obtain ⟨direct, isARun⟩ := List.mem_filter.mp isChild
    exact ⟨node, found, child, direct, isARun, same⟩
  · cases member

/-- Uses up a comment. -/
def consume (comment : Comment) : Engine Unit :=
  changeSession fun session => { session with
    comments := session.comments.map (·.remove comment.id)
    consumed := session.consumed ++ [comment] }

/-- A condition that a walk keeps.  It is kept by every evaluation of a directive that is bound to keys
which may be edited, and to a known comment if to any, and by edits of paragraphs with such keys, whose runs
may be edited as well.  All comments that are pending are known. -/
structure WalkFrame (dispatcher : Dispatcher) (builder : ProxyBuilder) (may : Nat → Prop)
    (known : Comment → Prop) (condition : Machine World → Prop) : Prop where
  free : StoreFree condition
  evaluates : ∀ expression anchor, (∀ number ∈ anchor.keys, may number) →
    (∀ comment, anchor.comment = some comment → known comment ∧ expression = comment.text) →
    Keeps condition (evaluateDirective dispatcher builder expression anchor)
  pending : ∀ machine, condition machine → ∀ comments, machine.outer.session.comments = some comments →
    ∀ comment ∈ comments.pending, known comment
  consumes : ∀ comment, Keeps condition (consume comment)
  edits : ∀ paragraph, may paragraph → EditsAt paragraph condition
  runs : ∀ machine, condition machine → ∀ paragraph, may paragraph →
    ∀ run ∈ runsOf machine.outer.forest paragraph, may run

namespace WalkFrame

variable {may : Nat → Prop} {known : Comment → Prop} {condition : Machine World → Prop}
  (frame : WalkFrame dispatcher builder may known condition) {paragraph : Nat} (mayParagraph : may paragraph)
include frame mayParagraph

omit mayParagraph in
theorem pendingComment_gives (id : Option String) :
    Gives condition (fun found => ∀ comment ∈ found, known comment) (pendingComment id) := by
  intro machine holds
  unfold pendingComment
  rw [runOn_bind, runOn_world]
  dsimp only
  split
  · rename_i id comments held
    refine ⟨holds, ?_⟩
    rintro _ ⟨⟩ comment found
    exact frame.pending machine holds comments held comment (List.mem_of_find?_eq_some found)
  · refine ⟨holds, ?_⟩
    rintro _ ⟨⟩ comment impossible
    cases impossible

theorem runComment_keeps {run : Option Nat} (mayRun : ∀ number, run = some number → may number)
    (id : Option String) : Keeps condition (runComment dispatcher builder paragraph run id) := by
  refine (Gives.bind (frame.pendingComment_gives id) fun found isKnown => Keeps.gives ?_).keeps
  cases found with
  | none => exact .pure _
  | some comment =>
    refine Keeps.bind (frame.evaluates _ _ (fun number member => ?_) fun other isOther => ?_) fun succeeded => ?_
    · rcases List.mem_append.mp member with isParagraph | isRun
      · rw [List.mem_singleton.mp isParagraph]
        exact mayParagraph
      · exact mayRun number (Option.mem_toList.mp isRun)
    · obtain rfl := Option.some.inj isOther
      exact ⟨isKnown comment rfl, rfl⟩
    · cases succeeded with
      | true =>
        rw [if_pos rfl]
        exact frame.consumes comment
      | false => exact .pure _

theorem runToken_keeps (token : List Char) :
    Keeps condition (runToken dispatcher builder paragraph token) := by
  refine Keeps.bind (frame.evaluates _ _ (fun number member => ?_) fun _ impossible => ?_) fun succeeded => ?_
  · rw [List.mem_singleton.mp member]
    exact mayParagraph
  · cases impossible
  · cases succeeded with
    | true => exact replace_keeps frame.free (frame.edits paragraph mayParagraph) dispatcher.replacer token .null
    | false => exact .pure _

theorem visitParagraph_keeps : Keeps condition (visitParagraph dispatcher builder paragraph) := by
  refine Keeps.bind (fun _ holds => holds) fun forest => Keeps.bind ?_ fun _ => ?_
  · exact frame.runComment_keeps mayParagraph (fun _ impossible => by cases impossible) _
  · refine Keeps.bind (fun _ holds => holds) fun node => Keeps.bind (.lift frame.free _) fun tokens => ?_
    exact .forM fun token _ => frame.runToken_keeps mayParagraph token

theorem visitRun_keeps {run : Nat} (mayRun : may run) :
    Keeps condition (visitRun dispatcher builder run paragraph) := by
  refine Keeps.bind (fun _ holds => holds) fun forest => frame.runComment_keeps mayParagraph ?_ _
  rintro number ⟨⟩
  exact mayRun

omit mayParagraph in
theorem visitParagraphs_keeps (paragraphs : List Nat) (allowed : ∀ paragraph ∈ paragraphs, may paragraph) :
    Keeps condition (visitParagraphs forest (visitParagraph dispatcher builder)
      (visitRun dispatcher builder) paragraphs) := by
  induction paragraphs with
  | nil => exact .pure _
  | cons paragraph rest hypothesis =>
    intro machine holds
    have own := allowed paragraph List.mem_cons_self
    have runs := frame.runs machine holds paragraph own
    unfold visitParagraphs
    rw [runOn_bind, runOn_forest]
    refine Keeps.bind (.forM fun run member => frame.visitRun_keeps own (runs run member))
      (fun _ => Keeps.bind (frame.visitParagraph_keeps own) fun _ => ?_) machine holds
    exact hypothesis fun other member => allowed other (List.mem_cons_of_mem _ member)

end WalkFrame

end Engine

/-! ## What a walk edits -/

/-- Whether an event belongs to the evaluation of directives. -/
def Event.ofWalk : Event → Bool
  | .directive .. => true
  | .called .. => true
  | _ => false

/-- Whether a key belongs to a paragraph or a run of a section, or to a node that is new. -/
def World.Inline (world : World) (number : Nat) : Prop :=
  world.forest.fresh ≤ number ∨
    ∃ node ∈ allBelow (sections world.forest world.template.roots), node.key = number ∧
      (node.hasTag Tag.paragraph = true ∨ isRun node = true)

/-- One edit of a paragraph or a run: it keeps its own properties, and what it holds is only changed in
runs, or taken out, or new. -/
inductive InlineEdit (start : World) (before : Forest) : Forest → Prop where
  | edit {number : Nat} {node : Node} {change : Node → Node} (inline : start.Inline number)
      (found : before.find? number = some node) (head : (change node).head = node.head)
      (revised : Revised start.Inline node.children (change node).children) :
      InlineEdit start before (before.edit number change)

/-- What a walk keeps: only paragraphs and runs of the sections have been edited, the same interfaces
have handlers, and no more has happened than that directives were evaluated. -/
structure Walking (start : World) (machine : Machine World) : Prop where
  edits : Relation.ReflTransGen (InlineEdit start) start.forest machine.outer.forest
  edited : Forest.Edited start.Inline start.forest machine.outer.forest
  template : machine.outer.template = start.template
  interfaces : machine.outer.handlers.map Handler.interface = start.handlers.map Handler.interface
  events : Since Event.ofWalk start.events machine.outer.events

/-- What the evaluation of a directive keeps once all handlers are bound: besides, a run that a handler
is bound to may be edited. -/
structure Evaluating (start : World) (machine : Machine World) : Prop extends Walking start machine where
  runs : ∀ handler ∈ machine.outer.handlers, ∀ run, handler.anchor.run = some run → start.Inline run

theorem mem_modify {α : Type} {items : List α} {index : Nat} {update : α → α} {item : α}
    (member : item ∈ items.modify index update) :
    item ∈ items ∨ ∃ old, items[index]? = some old ∧ item = update old := by
  obtain ⟨place, found⟩ := List.mem_iff_getElem?.mp member
  rw [List.getElem?_modify] at found
  obtain ⟨old, present, rfl⟩ := Option.map_eq_some_iff.mp found
  split
  · rename_i here
    subst here
    exact .inr ⟨old, present, rfl⟩
  · exact .inl (List.mem_of_getElem? present)

theorem map_modify {α β : Type} (view : α → β) (update : α → α) (same : ∀ item, view (update item) = view item)
    (items : List α) (index : Nat) : (items.modify index update).map view = items.map view := by
  refine List.ext_getElem? fun place => ?_
  rw [List.getElem?_map, List.getElem?_map, List.getElem?_modify]
  cases items[place]? with
  | none => rfl
  | some item =>
    simp only [Option.map_some]
    split
    · exact congrArg some (same item)
    · rfl

section Walking

variable {start : World} {machine : Machine World}

theorem Walking.refl (wellFormed : machine.outer.forest.WellFormed) :
    Walking machine.outer machine where
  edits := .refl
  edited := .refl wellFormed
  template := rfl
  interfaces := rfl
  events := .refl _

/-- A run of a paragraph that may be edited may be edited too: it is a new one, or it has been one of the
paragraph's from the beginning. -/
theorem Walking.run_inline (opened : start.forest.WellFormed) (walking : Walking start machine)
    {node child : Node} (inForest : node ∈ machine.outer.forest.nodes) (inline : start.Inline node.key)
    (direct : child ∈ node.children) (run : isRun child = true) : start.Inline child.key := by
  have edited := walking.edited
  by_cases small : child.key < start.forest.fresh
  · obtain ⟨origin, inStart, sameKey, held⟩ := edited.children node inForest child direct small
    obtain ⟨other, inOrigin, sameChild⟩ := List.mem_map.mp held
    obtain ⟨found, place, head, -⟩ := edited.found other (child_mem_allBelow inStart inOrigin)
    have isChild : found = child := by
      refine edited.wellFormed.eq_of_key_eq place (child_mem_allBelow inForest direct) ?_
      exact (congrArg Head.key head).trans sameChild
    subst isChild
    have isRun : isRun other = true := by rw [← run]; exact (hasTag_of_head head Tag.run).symm
    rcases inline with new | ⟨paragraph, inSection, same, -⟩
    · have old := opened.key_lt inStart
      omega
    · obtain rfl : paragraph = origin := opened.eq_of_key_eq
        (sections_subset _ _ inSection) inStart (same.trans sameKey.symm)
      exact .inr ⟨other, child_mem_allBelow inSection inOrigin, sameChild, .inr isRun⟩
  · exact .inl (Nat.not_lt.mp small)

/-- Steps that leave the forest and the template alone, and neither take handlers away nor add any. -/
theorem Walking.step {after : Machine World} (walking : Walking start machine)
    (forest : after.outer.forest = machine.outer.forest)
    (template : after.outer.template = machine.outer.template)
    (interfaces : after.outer.handlers.map Handler.interface =
      machine.outer.handlers.map Handler.interface)
    (events : Since Event.ofWalk machine.outer.events after.outer.events) : Walking start after where
  edits := forest ▸ walking.edits
  edited := forest ▸ walking.edited
  template := template.trans walking.template
  interfaces := interfaces.trans walking.interfaces
  events := walking.events.trans events

theorem Walking.edit (walking : Walking start machine) {number : Nat} {change : Node → Node} {node : Node}
    (found : machine.outer.forest.find? number = some node) (head : (change node).head = node.head)
    (revised : Revised start.Inline node.children (change node).children) (inline : start.Inline number) :
    Walking start { machine with
      outer := { machine.outer with forest := machine.outer.forest.edit number change } } where
  edits := walking.edits.tail (.edit inline found head revised)
  edited := walking.edited.trans (walking.edited.wellFormed.edit_edited found head revised inline)
  template := walking.template
  interfaces := walking.interfaces
  events := walking.events

end Walking

namespace Engine

variable {start : World}

theorem evaluating_proof (index : Nat) : StepProof index (Evaluating start) where
  free _ _ holds := ⟨⟨holds.edits, holds.edited, holds.template, holds.interfaces, holds.events⟩, holds.runs⟩
  step machine after holds step := by
    have writes {handler : Handler} {run : Nat} (present : machine.outer.handlers[index]? = some handler)
        (bound : handler.anchor.run = some run) (change : Node → Node)
        (head : ∀ node, (change node).head = node.head)
        (revised : ∀ node, Revised start.Inline node.children (change node).children) :
        Walking start { machine with
          outer := { machine.outer with forest := machine.outer.forest.edit run change } } := by
      cases found : machine.outer.forest.find? run with
      | none =>
        rw [edit_missing found]
        exact holds.toWalking
      | some node =>
        exact holds.toWalking.edit found (head node) (revised node) (holds.runs handler (List.mem_of_getElem? present) run bound)
    cases step with
    | @asked handler duty present asks =>
      have interfaces := map_modify Handler.interface (fun other : Handler => { other with duty })
        (fun _ => rfl) machine.outer.handlers index
      refine ⟨holds.toWalking.step rfl rfl interfaces (.refl _), fun handler member run bound => ?_⟩
      rcases mem_modify member with old | ⟨old, found, rfl⟩
      · exact holds.runs handler old run bound
      · exact holds.runs old (List.mem_of_getElem? found) run bound
    | written present duty bound letters =>
      exact ⟨writes present bound (fun node => setRunText node letters) (fun _ => rfl)
        fun node => revised_setRunText node (.refl _) letters, holds.runs⟩
    | blanked present duty bound =>
      exact ⟨writes present bound withoutText (fun _ => rfl) fun node => revised_withoutText node,
        holds.runs⟩
    | told entry => exact ⟨holds.toWalking.step rfl rfl rfl (.refl _), holds.runs⟩

theorem evaluating_note {event : Event} (ofWalk : event.ofWalk = true) :
    Keeps (Evaluating start) (note event) := fun _ holds =>
  ⟨holds.toWalking.step rfl rfl rfl (.noted ofWalk _), holds.runs⟩

theorem evaluating_frame : Frame (Evaluating start) where
  free := (evaluating_proof 0).free
  called index := (evaluating_proof index).callDirective_keeps fun _ => evaluating_note rfl
  reports machine after holds reports :=
    ⟨holds.toWalking.step reports.forest reports.template (by rw [reports.handlers])
      (reports.events ▸ .refl _), reports.handlers ▸ holds.runs⟩

variable {dispatcher : Dispatcher} {builder : ProxyBuilder} {machine : Machine World}

/-- The evaluation of a directive that is bound to a run which may be edited. -/
theorem evaluateDirective_evaluating (expression : String) {anchor : Anchor}
    (inline : ∀ run, anchor.run = some run → start.Inline run) (walking : Walking start machine) :
    Evaluating start
      (runOn (evaluateDirective dispatcher builder expression anchor) machine).2 := by
  refine evaluating_frame.evaluateDirective_keeps dispatcher builder
    (fun _ _ => evaluating_note rfl) ⟨walking.step rfl rfl ?_ (.refl _), ?_⟩
  · simp [World.bound]
  · intro handler member run bound
    obtain ⟨old, -, rfl⟩ := List.mem_map.mp member
    exact inline run bound

theorem evaluateDirective_walking (expression : String) {anchor : Anchor}
    (inline : ∀ run, anchor.run = some run → start.Inline run) :
    Keeps (Walking start) (evaluateDirective dispatcher builder expression anchor) :=
  fun _ walking => (evaluateDirective_evaluating expression inline walking).toWalking

theorem walking_frame (opened : start.forest.WellFormed) :
    WalkFrame dispatcher builder start.Inline (fun _ => True) (Walking start) where
  free _ _ holds := ⟨holds.edits, holds.edited, holds.template, holds.interfaces, holds.events⟩
  evaluates expression anchor allowed _ := evaluateDirective_walking expression fun run isRun =>
    allowed run (by simp [Anchor.keys, isRun])
  pending _ _ _ _ _ _ := trivial
  consumes _ _ walking := walking.step rfl rfl rfl (.refl _)
  edits paragraph inline machine node changed walking found revised := by
    obtain ⟨inForest, rfl⟩ := walking.edited.wellFormed.find?_iff.mp found
    have changed := revised start.Inline fun child direct run =>
      walking.run_inline opened inForest inline direct run
    exact walking.edit found changed.head changed.revised inline
  runs machine walking paragraph inline run member := by
    obtain ⟨node, found, child, direct, isARun, rfl⟩ := mem_runsOf member
    obtain ⟨inForest, rfl⟩ := walking.edited.wellFormed.find?_iff.mp found
    exact walking.run_inline opened inForest inline direct isARun

/-- A walk through an opened document only edits paragraphs and runs. -/
theorem evaluateDirectives_walking (opened : machine.outer.forest.WellFormed) :
    Walking machine.outer (runOn (evaluateDirectives dispatcher builder) machine).2 := by
  have inline : ∀ paragraph ∈ paragraphsBelow machine.outer.forest machine.outer.template.roots,
      machine.outer.Inline paragraph := by
    intro paragraph member
    rw [paragraphsBelow_eq] at member
    obtain ⟨node, isParagraph, rfl⟩ := List.mem_map.mp member
    obtain ⟨inSection, tag⟩ := List.mem_filter.mp isParagraph
    exact .inr ⟨node, inSection, rfl, .inl tag⟩
  exact (walking_frame opened).visitParagraphs_keeps _ inline machine (.refl opened)

end Engine
end Imprint
