import Imprint.Proofs.ConsumedComments
import Imprint.Proofs.EventAccounting
import Imprint.Proofs.SparedNodes
import Mathlib.Data.List.Infix

/-! # What a walk visits

A walk settles at its start which paragraphs it visits: those of the trees that a package holds, in their order.
When it comes to a paragraph it settles which runs it visits before: the direct runs at this moment.  Whatever is
done in between changes neither, as long as paragraphs stay paragraphs.

A walk could as well look at each child of a paragraph when the turn comes to it, and visit it if it is a run then.
This is the same walk, as long as no node gets another tag in between. -/
set_option autoImplicit false
namespace Imprint
open Imprint.Action Xml Document Node Forest

/-! ## Paragraphs of a package -/

namespace Document

theorem withTag_copied (tag : Tag) (node : Node) : node.copied.withTag tag = (node.withTag tag).map copied := by
  rw [withTag, withTag, selfAndBelow_copied, List.filter_map]
  exact congrArg _ (List.filter_congr fun other _ => hasTag_copied tag other)

namespace Package

/-- The tree that a part brings along.  A part that stands for an earlier one brings none. -/
def treeOf? : Part → Option Node
  | .tree root => some root
  | _ => none

/-- The trees of all sections of a package: headers, body, footers. -/
def sectionTrees (package : Package) : List Node :=
  package.headers.filterMap treeOf? ++ package.body :: package.footers.filterMap treeOf?

theorem treeOf_key {forest : Forest} (wellFormed : forest.WellFormed) {node : Node} (member : node ∈ forest.nodes) :
    treeOf forest node.key = node.copied := by
  rw [treeOf, wellFormed.find?_key member]
  rfl

theorem treeOf_extend {before after : Forest} (wellFormed : before.WellFormed) (longer : Extends before after)
    {root : Nat} (isRoot : before.IsRoot root) : treeOf after root = treeOf before root := by
  obtain ⟨tree, outermost, rfl⟩ := isRoot
  rw [treeOf_key wellFormed (mem_allBelow_of_mem outermost),
    treeOf_key longer.wellFormed (mem_allBelow_of_mem (longer.kept tree outermost))]

theorem map_treeOf_extend {before after : Forest} (wellFormed : before.WellFormed) (longer : Extends before after)
    {roots : List Nat} (areRoots : ∀ root ∈ roots, before.IsRoot root) :
    roots.map (treeOf after) = roots.map (treeOf before) :=
  List.map_congr_left fun root member => treeOf_extend wellFormed longer (areRoots root member)

/-- What opening parts adds to the roots that are there already: one new root for each tree of the parts, in order.
A part that is shared with an earlier one adds nothing. -/
structure Adds (parts : List Part) (before : Forest) (roots : List Nat) (after : Forest) (all more : List Nat) :
    Prop where
  extended : Extends before after
  roots : all.eraseDups = roots.eraseDups ++ more
  new : ∀ root ∈ more, before.fresh ≤ root ∧ after.IsRoot root
  trees : more.map (treeOf after) = (parts.filterMap treeOf?).map copied

/-- A part that is no new tree adds nothing. -/
theorem Adds.known {part : Part} {rest : List Part} {before after : Forest} {roots all more : List Nat}
    {opened : Section} (adds : Adds rest before (roots ++ [opened].filterMap Section.root?) after all more)
    (noTree : treeOf? part = none) (known : ∀ root, opened = .tree root → root ∈ roots) :
    Adds (part :: rest) before roots after all more where
  extended := adds.extended
  roots := by
    rw [adds.roots]
    cases opened with
    | tree root => exact congrArg (· ++ more) (eraseDups_known (known root rfl))
    | raw => rw [List.filterMap_cons_none rfl, List.filterMap_nil, List.append_nil]
    | external => rw [List.filterMap_cons_none rfl, List.filterMap_nil, List.append_nil]
  new := adds.new
  trees := by
    rw [List.filterMap_cons_none noTree]
    exact adds.trees

/-- A tree is added behind the roots that are there already. -/
theorem Adds.tree {tree copy : Node} {rest : List Part} {before middle after : Forest} {roots all more : List Nat}
    (planted : Planted tree before copy middle) (positive : 0 < before.fresh)
    (old : ∀ root ∈ roots, root < before.fresh) (adds : Adds rest middle (roots ++ [copy.key]) after all more) :
    Adds (.tree tree :: rest) before roots after all (copy.key :: more) where
  extended := (planted.extends positive).trans adds.extended
  roots := by
    have new : copy.key ∉ roots := fun member => by
      have small := old copy.key member
      have large := planted.key_fresh
      omega
    rw [adds.roots, eraseDups_new new, List.append_assoc, List.singleton_append]
  new := by
    intro root member
    rcases List.mem_cons.mp member with rfl | later
    · exact ⟨planted.key_fresh, planted.isRoot.extend adds.extended⟩
    · exact ⟨Nat.le_trans planted.advance (adds.new root later).1, (adds.new root later).2⟩
  trees := by
    rw [List.map_cons, adds.trees, treeOf_extend planted.wellFormed adds.extended planted.isRoot,
      treeOf_key planted.wellFormed planted.copy_mem, planted.copied]
    rfl

/-- Opening parts behind some roots, among them those of the headers. -/
theorem openParts_adds (headers : List Section) (front : List Nat)
    (inFront : ∀ root, Section.tree root ∈ headers → root ∈ front) (parts : List Part) :
    ∀ (opened : List Section) (forest : Forest), forest.WellFormed → 0 < forest.fresh →
      (∀ root ∈ front ++ opened.filterMap Section.root?, forest.IsRoot root) →
      ∃ more, Adds parts forest (front ++ opened.filterMap Section.root?) (openParts headers opened parts forest).2
        (front ++ (openParts headers opened parts forest).1.filterMap Section.root?) more := by
  induction parts with
  | nil =>
    intro opened forest wellFormed positive _
    exact ⟨[], ⟨wellFormed, positive, fun _ member => member⟩, (List.append_nil _).symm,
      fun _ member => absurd member List.not_mem_nil, rfl⟩
  | cons part rest hypothesis =>
    intro opened forest wellFormed positive areRoots
    have split (other : Section) : front ++ (opened ++ [other]).filterMap Section.root? =
        front ++ opened.filterMap Section.root? ++ [other].filterMap Section.root? := by
      rw [List.filterMap_append, List.append_assoc]
    have more (other : Section) (noTree : treeOf? part = none)
        (known : ∀ root, other = .tree root → root ∈ front ++ opened.filterMap Section.root?) :
        ∃ more, Adds (part :: rest) forest (front ++ opened.filterMap Section.root?)
          (openParts headers (opened ++ [other]) rest forest).2
          (front ++ (openParts headers (opened ++ [other]) rest forest).1.filterMap Section.root?) more := by
      obtain ⟨more, adds⟩ := hypothesis (opened ++ [other]) forest wellFormed positive fun root member => by
        rw [split, List.mem_append, mem_filterMap_root?, List.mem_singleton] at member
        rcases member with old | same
        · exact areRoots root old
        · exact areRoots root (known root same.symm)
      rw [split] at adds
      exact ⟨more, adds.known noTree known⟩
    cases part with
    | tree tree =>
      obtain ⟨copy, after, plants, planted⟩ := wellFormed.plant positive tree
      have longer := planted.extends positive
      obtain ⟨more, adds⟩ := hypothesis (opened ++ [.tree copy.key]) after longer.wellFormed longer.positive
        fun root member => by
          rw [split, List.mem_append, mem_filterMap_root?, List.mem_singleton] at member
          rcases member with old | same
          · exact (areRoots root old).extend longer
          · cases same
            exact planted.isRoot
      rw [split] at adds
      simp only [openParts, plants]
      exact ⟨copy.key :: more, adds.tree planted positive fun root old => (areRoots root old).lt_fresh wellFormed⟩
    | raw => exact more .raw rfl fun root impossible => by cases impossible
    | external => exact more .external rfl fun root impossible => by cases impossible
    | shared inHeaders position =>
      refine more _ rfl fun root isTree => ?_
      split at isTree
      · exact List.mem_append_left _ (inFront root (mem_of_getElem?_getD isTree))
      · exact List.mem_append_right _ (mem_filterMap_root?.mpr (mem_of_getElem?_getD isTree))

/-- The roots of an opened package are those of its trees, in their order. -/
theorem openIn_roots (package : Package) : (package.openIn .empty).1.roots.map (treeOf (package.openIn .empty).2) =
    package.sectionTrees.map copied := by
  obtain ⟨body, first, plants, planted⟩ := empty_wellFormed.plant (by decide) package.body
  have bodyOpened := planted.extends (by decide)
  obtain ⟨headers, second, opensHeaders⟩ : ∃ headers second,
      openParts [] [] package.headers first = (headers, second) := ⟨_, _, rfl⟩
  obtain ⟨ofHeaders, headersOpened⟩ := openParts_adds [] [] (fun _ member => absurd member List.not_mem_nil)
    package.headers [] first bodyOpened.wellFormed bodyOpened.positive fun _ member => absurd member List.not_mem_nil
  rw [opensHeaders] at headersOpened
  have headerRoots : (headers.filterMap Section.root?).eraseDups = ofHeaders := headersOpened.roots
  have bodyApart : body.key ∉ headers.filterMap Section.root? := by
    intro member
    have small := planted.isRoot.lt_fresh planted.wellFormed
    have large := (headersOpened.new body.key (headerRoots ▸ List.mem_eraseDups.mpr member)).1
    omega
  obtain ⟨footers, third, opensFooters⟩ : ∃ footers third,
      openParts headers [] package.footers second = (footers, third) := ⟨_, _, rfl⟩
  obtain ⟨ofFooters, footersOpened⟩ := openParts_adds headers (headers.filterMap Section.root? ++ [body.key])
    (fun root member => List.mem_append_left _ (mem_filterMap_root?.mpr member)) package.footers [] second
    headersOpened.extended.wellFormed headersOpened.extended.positive fun root member => by
      rw [List.filterMap_nil, List.append_nil, List.mem_append, List.mem_singleton] at member
      rcases member with ofHeader | rfl
      · exact (headersOpened.new root (headerRoots ▸ List.mem_eraseDups.mpr ofHeader)).2
      · exact planted.isRoot.extend headersOpened.extended
  rw [opensFooters] at footersOpened
  have all (comments : CommentsPart) :
      Template.roots ⟨body.key, headers, footers, comments⟩ = ofHeaders ++ body.key :: ofFooters := by
    rw [Template.roots, List.append_cons, footersOpened.roots, List.filterMap_nil, List.append_nil,
      eraseDups_new bodyApart, headerRoots, List.append_assoc, List.singleton_append]
  have trees (comments : CommentsPart) (last : Forest) (longer : Extends third last) :
      (Template.roots ⟨body.key, headers, footers, comments⟩).map (treeOf last) =
        package.sectionTrees.map copied := by
    have afterHeaders := footersOpened.extended.trans longer
    rw [all, List.map_append, List.map_cons, sectionTrees, List.map_append, List.map_cons,
      map_treeOf_extend headersOpened.extended.wellFormed afterHeaders
        fun root member => (headersOpened.new root member).2,
      treeOf_extend planted.wellFormed (headersOpened.extended.trans afterHeaders) planted.isRoot,
      map_treeOf_extend footersOpened.extended.wellFormed longer
        fun root member => (footersOpened.new root member).2,
      headersOpened.trees, footersOpened.trees, treeOf_key planted.wellFormed planted.copy_mem, planted.copied]
  have same : Extends third third :=
    ⟨footersOpened.extended.wellFormed, footersOpened.extended.positive, fun _ member => member⟩
  simp only [openIn, plants, opensHeaders, opensFooters]
  cases package.comments with
  | none => exact trees .none third same
  | some tree =>
    cases package.commentsApart with
    | true => exact trees (.stored tree) third same
    | false =>
      obtain ⟨root, last, plantsComments, plantedComments⟩ := same.wellFormed.plant same.positive tree
      simp only [plantsComments, Bool.false_eq_true, ↓reduceIte]
      exact trees (.live root.key) last (plantedComments.extends same.positive)

/-- The paragraphs at or below the roots of a document are those of its trees, in their order. -/
theorem map_paragraphsBelow {template : Template} {forest : Forest} (opened : Opened template forest) :
    (paragraphsBelow forest template.roots).map (treeOf forest) =
      (template.roots.map (treeOf forest)).flatMap (withTag Tag.paragraph) := by
  rw [paragraphsBelow, List.map_flatMap, List.flatMap_map]
  refine List.flatMap_congr fun root member => ?_
  obtain ⟨tree, outermost, found⟩ := opened.find? member
  obtain ⟨-, rfl⟩ := Forest.mem_of_find? found
  rw [found, treeOf_key opened.wellFormed (mem_allBelow_of_mem outermost), withTag_copied, List.map_map]
  refine List.map_congr_left fun node inside => treeOf_key opened.wellFormed ?_
  exact selfAndBelow_subset outermost (List.mem_filter.mp inside).1

theorem openIn_paragraphs (package : Package) :
    (paragraphsBelow (package.openIn .empty).2 (package.openIn .empty).1.roots).map
        (treeOf (package.openIn .empty).2) =
      (package.sectionTrees.flatMap (withTag Tag.paragraph)).map copied := by
  rw [map_paragraphsBelow package.openIn_opened, openIn_roots, List.flatMap_map, List.map_flatMap]
  exact List.flatMap_congr fun tree _ => withTag_copied Tag.paragraph tree

end Package

/-! ## A walk and its record -/

/-- What a walk visits. -/
inductive Visit where
  | run (number paragraph : Nat)
  | paragraph (number : Nat)
deriving DecidableEq, Repr

/-- The paragraph that is visited, unless it is one of its runs. -/
def Visit.paragraph? : Visit → Option Nat
  | .run _ _ => none
  | .paragraph number => some number

/-- A visit and the forest that it meets. -/
structure Sighting where
  visit : Visit
  forest : Forest

/-- The visits that a paragraph calls for: its direct runs in order, then the paragraph itself. -/
def visitsOf (paragraph : Node) : List Visit :=
  (runs paragraph).map (fun run => Visit.run run.key paragraph.key) ++ [.paragraph paragraph.key]

/-- The record of a walk through some paragraphs, which ends in some way.  Whenever it comes to a paragraph, this is
a paragraph of the forest that is met, and what is reported are the visits that the paragraph calls for at this
moment: all of them, unless the walk breaks off in between. -/
inductive Reported : List Nat → Except Fault Unit → List Sighting → Prop where
  | all : Reported [] (.ok ()) []
  | passed {node : Node} {first : Sighting} {others record : List Sighting} {rest : List Nat}
      {outcome : Except Fault Unit} (found : first.forest.find? node.key = some node)
      (isParagraph : node.hasTag Tag.paragraph = true)
      (whole : (first :: others).map Sighting.visit = visitsOf node) (later : Reported rest outcome record) :
      Reported (node.key :: rest) outcome (first :: others ++ record)
  | stopped {node : Node} {first : Sighting} {others : List Sighting} {rest : List Nat} {fault : Fault}
      (found : first.forest.find? node.key = some node) (isParagraph : node.hasTag Tag.paragraph = true)
      (begun : (first :: others).map Sighting.visit <+: visitsOf node) :
      Reported (node.key :: rest) (.error fault) (first :: others)

/-- A walk that comes to its end has visited all paragraphs, each once and in their order. -/
theorem Reported.paragraphs {paragraphs : List Nat} {outcome : Except Fault Unit} {record : List Sighting}
    (reported : Reported paragraphs outcome record) (done : outcome = .ok ()) :
    (record.map Sighting.visit).filterMap Visit.paragraph? = paragraphs := by
  induction reported with
  | all => rfl
  | @passed node first others record rest outcome _ _ whole _ hypothesis =>
    have own : (visitsOf node).filterMap Visit.paragraph? = [node.key] := by
      rw [visitsOf, List.filterMap_append, List.filterMap_map]
      exact congrArg (· ++ [node.key]) (List.filterMap_eq_nil_iff.mpr fun _ _ => rfl)
    rw [List.map_append, List.filterMap_append, whole, own, hypothesis done]
    rfl
  | stopped => cases done

/-- One forest comes out of another, and what has been a paragraph still is one. -/
structure ParagraphsStay (before after : Forest) : Prop where
  wellFormed : after.WellFormed
  paragraphs : ∀ number, before.Tagged Tag.paragraph number → after.Tagged Tag.paragraph number

theorem ParagraphsStay.of_sparing {bound : Nat} {rewritten removed : Nat → Prop} {before after : Forest}
    (sparing : Sparing bound rewritten removed before after) : ParagraphsStay before after where
  wellFormed := sparing.wellFormed
  paragraphs _ isParagraph := sparing.tagged isParagraph

section Walk

variable {ς : Type} (shown : ς → Forest) (onParagraph : Nat → ExceptT Fault (StateM ς) Unit)
  (onRun : Nat → Nat → ExceptT Fault (StateM ς) Unit)

/-- The forest that a state shows. -/
def look : ExceptT Fault (StateM ς) Forest := return shown (← get)

/-- A walk on any kind of state that shows a forest. -/
def walk (roots : List Nat) : ExceptT Fault (StateM ς) Unit := visit (look shown) onParagraph onRun roots

/-- A step that first writes down what it visits. -/
def watched (visited : Visit) (step : ExceptT Fault (StateM ς) Unit) :
    ExceptT Fault (StateM (ς × List Sighting)) Unit :=
  ExceptT.mk fun (state, seen) =>
    let (outcome, after) := runOn step state
    (outcome, after, seen ++ [⟨visited, shown state⟩])

/-- The same walk, which writes down what it visits. -/
def watchedWalk (roots : List Nat) : ExceptT Fault (StateM (ς × List Sighting)) Unit :=
  walk (fun state => shown state.1) (fun paragraph => watched shown (.paragraph paragraph) (onParagraph paragraph))
    (fun run paragraph => watched shown (.run run paragraph) (onRun run paragraph)) roots

/-- A step that may change what paragraphs hold in any way. -/
def KeepsParagraphs (step : ExceptT Fault (StateM ς) Unit) : Prop :=
  ∀ state, (shown state).WellFormed → ParagraphsStay (shown state) (shown (runOn step state).2)

/-- The visits of a paragraph with the steps that they take. -/
def tasks (forest : Forest) (paragraph : Nat) : List (Visit × ExceptT Fault (StateM ς) Unit) :=
  (runsOf forest paragraph).map (fun run => (.run run paragraph, onRun run paragraph)) ++
    [(.paragraph paragraph, onParagraph paragraph)]

variable {shown onParagraph onRun}

theorem runOn_walk (roots : List Nat) (state : ς) : runOn (walk shown onParagraph onRun roots) state =
    runOn (visitParagraphs (look shown) onParagraph onRun (paragraphsBelow (shown state) roots)) state :=
  rfl

theorem runOn_visitParagraphs (paragraph : Nat) (rest : List Nat) (state : ς) :
    runOn (visitParagraphs (look shown) onParagraph onRun (paragraph :: rest)) state =
      runOn ((tasks onParagraph onRun (shown state) paragraph).forM Prod.snd >>= fun _ =>
        visitParagraphs (look shown) onParagraph onRun rest) state := by
  have first : runOn (look shown) state = (.ok (shown state), state) := rfl
  rw [visitParagraphs, runOn_bind, first]
  simp only [tasks, List.forM_eq_forM, List.forM_append, List.forM_map, List.forM_cons, List.forM_nil, bind_assoc,
    pure_bind]

theorem forM_keepsParagraphs {steps : List (Visit × ExceptT Fault (StateM ς) Unit)}
    (keep : ∀ task ∈ steps, KeepsParagraphs shown task.2) : KeepsParagraphs shown (steps.forM Prod.snd) := by
  induction steps with
  | nil => exact fun state wellFormed => ⟨wellFormed, fun _ isParagraph => isParagraph⟩
  | cons task rest hypothesis =>
    intro state wellFormed
    have remains := keep task List.mem_cons_self state wellFormed
    rw [List.forM, runOn_bind]
    cases reached : runOn task.2 state with
    | mk outcome middle =>
      rw [reached] at remains
      cases outcome with
      | error fault => exact remains
      | ok _ =>
        have others := hypothesis (fun other member => keep other (List.mem_cons_of_mem _ member)) middle
          remains.wellFormed
        exact ⟨others.wellFormed, fun number isParagraph =>
          others.paragraphs number (remains.paragraphs number isParagraph)⟩

theorem forall_mem_tasks (property : ExceptT Fault (StateM ς) Unit → Prop)
    (paragraphs : ∀ paragraph, property (onParagraph paragraph))
    (runs : ∀ run paragraph, property (onRun run paragraph)) (forest : Forest) (paragraph : Nat) :
    ∀ task ∈ tasks onParagraph onRun forest paragraph, property task.2 := by
  intro task member
  rcases List.mem_append.mp member with isRun | isLast
  · obtain ⟨run, -, rfl⟩ := List.mem_map.mp isRun
    exact runs run paragraph
  · rw [List.mem_singleton.mp isLast]
    exact paragraphs paragraph

/-- The visits of a paragraph that is there are those that it calls for. -/
theorem tasks_visits {forest : Forest} {node : Node} (found : forest.find? node.key = some node) :
    (tasks onParagraph onRun forest node.key).map Prod.fst = visitsOf node := by
  rw [tasks, runsOf, found, visitsOf, List.map_append, List.map_map, List.map_map]
  rfl

/-- What is written down of some visits that are made from a state: a beginning of them, all of them if no step
faults, and the first one right away. -/
structure Noted (visits : List Visit) (forest : Forest) (outcome : Except Fault Unit) (record : List Sighting) :
    Prop where
  begun : record.map Sighting.visit <+: visits
  whole : outcome = .ok () → record.map Sighting.visit = visits
  first : record.head?.map Sighting.forest = visits.head?.map fun _ => forest

theorem watched_tasks (steps : List (Visit × ExceptT Fault (StateM ς) Unit)) :
    ∀ (state : ς) (seen : List Sighting), ∃ record,
      runOn ((steps.map fun task => (task.1, watched shown task.1 task.2)).forM Prod.snd) (state, seen) =
        ((runOn (steps.forM Prod.snd) state).1, (runOn (steps.forM Prod.snd) state).2, seen ++ record) ∧
      Noted (steps.map Prod.fst) (shown state) (runOn (steps.forM Prod.snd) state).1 record := by
  induction steps with
  | nil =>
    intro state seen
    exact ⟨[], by rw [List.append_nil]; rfl, List.prefix_refl _, fun _ => rfl, rfl⟩
  | cons task rest hypothesis =>
    intro state seen
    have here : runOn (watched shown task.1 task.2) (state, seen) =
        ((runOn task.2 state).1, (runOn task.2 state).2, seen ++ [⟨task.1, shown state⟩]) := rfl
    rw [List.map_cons, List.forM, List.forM, runOn_bind, runOn_bind, here]
    cases reached : runOn task.2 state with
    | mk outcome middle =>
      cases outcome with
      | error fault =>
        refine ⟨[⟨task.1, shown state⟩], rfl, ?_, nofun, rfl⟩
        exact List.prefix_append [task.1] _
      | ok _ =>
        obtain ⟨record, run, noted⟩ := hypothesis middle (seen ++ [⟨task.1, shown state⟩])
        refine ⟨⟨task.1, shown state⟩ :: record, ?_, ?_, fun done => ?_, rfl⟩
        · dsimp only
          rw [run, List.append_assoc, List.singleton_append]
        · exact (List.prefix_cons_inj task.1).mpr noted.begun
        · exact congrArg (task.1 :: ·) (noted.whole done)

/-- A record of visits that begin with one is a first sighting and others. -/
theorem Noted.cons {visits : List Visit} {forest : Forest} {outcome : Except Fault Unit} {record : List Sighting}
    (noted : Noted visits forest outcome record) (some_ : visits ≠ []) :
    ∃ first others, record = first :: others ∧ first.forest = forest := by
  obtain ⟨visit, rest, rfl⟩ := List.exists_cons_of_ne_nil some_
  cases record with
  | nil => cases noted.first
  | cons first others => exact ⟨first, others, rfl, Option.some.inj noted.first⟩

/-- A walk through paragraphs goes as it does without a record. -/
theorem watched_visitParagraphs (harmless : ∀ paragraph, KeepsParagraphs shown (onParagraph paragraph))
    (harmlessRun : ∀ run paragraph, KeepsParagraphs shown (onRun run paragraph)) (paragraphs : List Nat) :
    ∀ (state : ς) (seen : List Sighting), (shown state).WellFormed →
      (∀ paragraph ∈ paragraphs, (shown state).Tagged Tag.paragraph paragraph) →
      ∃ record, runOn (visitParagraphs (look fun state => shown state.1)
          (fun paragraph => watched shown (.paragraph paragraph) (onParagraph paragraph))
          (fun run paragraph => watched shown (.run run paragraph) (onRun run paragraph)) paragraphs) (state, seen) =
        ((runOn (visitParagraphs (look shown) onParagraph onRun paragraphs) state).1,
          (runOn (visitParagraphs (look shown) onParagraph onRun paragraphs) state).2, seen ++ record) ∧
        Reported paragraphs (runOn (visitParagraphs (look shown) onParagraph onRun paragraphs) state).1 record := by
  induction paragraphs with
  | nil =>
    intro state seen _ _
    exact ⟨[], by rw [List.append_nil]; rfl, .all⟩
  | cons paragraph rest hypothesis =>
    intro state seen wellFormed areParagraphs
    obtain ⟨node, inForest, rfl, isParagraph⟩ := areParagraphs paragraph List.mem_cons_self
    have found := wellFormed.find?_key inForest
    have remains := forM_keepsParagraphs (forall_mem_tasks _ harmless harmlessRun (shown state) node.key) state
      wellFormed
    obtain ⟨made, run, noted⟩ : ∃ record, _ ∧ Noted _ (shown state) _ record :=
      watched_tasks (tasks onParagraph onRun (shown state) node.key) state seen
    rw [tasks_visits found] at noted
    obtain ⟨first, others, rfl, meets⟩ := noted.cons (by simp [visitsOf])
    rw [← meets] at found
    have same : tasks (fun paragraph => watched shown (.paragraph paragraph) (onParagraph paragraph))
        (fun run paragraph => watched shown (.run run paragraph) (onRun run paragraph)) (shown state) node.key =
        (tasks onParagraph onRun (shown state) node.key).map fun task => (task.1, watched shown task.1 task.2) := by
      rw [tasks, tasks, List.map_append, List.map_map]
      rfl
    rw [runOn_visitParagraphs, runOn_visitParagraphs, runOn_bind, runOn_bind, same, run]
    cases reached : runOn ((tasks onParagraph onRun (shown state) node.key).forM Prod.snd) state with
    | mk outcome middle =>
      rw [reached] at noted remains
      cases outcome with
      | error fault => exact ⟨first :: others, rfl, .stopped found isParagraph noted.begun⟩
      | ok _ =>
        obtain ⟨record, runRest, reported⟩ := hypothesis middle (seen ++ first :: others) remains.wellFormed
          fun other member => remains.paragraphs other (areParagraphs other (List.mem_cons_of_mem _ member))
        refine ⟨first :: others ++ record, ?_, .passed found isParagraph (noted.whole rfl) reported⟩
        dsimp only
        rw [runRest, List.append_assoc]

theorem forM_ends {steps : List (Visit × ExceptT Fault (StateM ς) Unit)}
    (each : ∀ task ∈ steps, ∀ state, (runOn task.2 state).1 = .ok ()) :
    ∀ state, (runOn (steps.forM Prod.snd) state).1 = .ok () := by
  induction steps with
  | nil => exact fun _ => rfl
  | cons task rest hypothesis =>
    intro state
    have here : runOn task.2 state = (.ok (), (runOn task.2 state).2) :=
      Prod.ext (each task List.mem_cons_self state) rfl
    rw [List.forM, runOn_bind, here]
    exact hypothesis (fun other member => each other (List.mem_cons_of_mem _ member)) _

/-- A walk of which no step faults comes to its end. -/
theorem visitParagraphs_ends (goesOn : ∀ paragraph state, (runOn (onParagraph paragraph) state).1 = .ok ())
    (goesOnRun : ∀ run paragraph state, (runOn (onRun run paragraph) state).1 = .ok ()) (paragraphs : List Nat) :
    ∀ state, (runOn (visitParagraphs (look shown) onParagraph onRun paragraphs) state).1 = .ok () := by
  induction paragraphs with
  | nil => exact fun _ => rfl
  | cons paragraph rest hypothesis =>
    intro state
    have each := forall_mem_tasks (fun step => ∀ state, (runOn step state).1 = .ok ()) goesOn goesOnRun (shown state)
      paragraph
    have here : runOn ((tasks onParagraph onRun (shown state) paragraph).forM Prod.snd) state =
        (.ok (), (runOn ((tasks onParagraph onRun (shown state) paragraph).forM Prod.snd) state).2) :=
      Prod.ext (forM_ends each state) rfl
    rw [runOn_visitParagraphs, runOn_bind, here]
    exact hypothesis _

variable (shown onParagraph onRun) in
/-- A walk through a package visits the paragraphs that its trees hold when it starts, each once, in the order of
headers, body and footers and of the document within a tree.  Before each paragraph it visits the runs that are the
direct ones when it comes to the paragraph. -/
theorem walk_reports (package : Package) (harmless : ∀ paragraph, KeepsParagraphs shown (onParagraph paragraph))
    (harmlessRun : ∀ run paragraph, KeepsParagraphs shown (onRun run paragraph)) {start : ς}
    (opened : shown start = (package.openIn .empty).2) :
    let roots := (package.openIn .empty).1.roots
    let paragraphs := paragraphsBelow (shown start) roots
    let plain := runOn (walk shown onParagraph onRun roots) start
    paragraphs.Nodup ∧
      paragraphs.map (Package.treeOf (shown start)) =
        (package.sectionTrees.flatMap (withTag Tag.paragraph)).map copied ∧
      (∃ record, runOn (watchedWalk shown onParagraph onRun roots) (start, []) = (plain.1, plain.2, record) ∧
        Reported paragraphs plain.1 record ∧
        (plain.1 = .ok () → (record.map Sighting.visit).filterMap Visit.paragraph? = paragraphs)) ∧
      ((∀ paragraph state, (runOn (onParagraph paragraph) state).1 = .ok ()) →
        (∀ run paragraph state, (runOn (onRun run paragraph) state).1 = .ok ()) → plain.1 = .ok ()) := by
  have isOpened : Opened (package.openIn .empty).1 (shown start) := opened ▸ package.openIn_opened
  intro roots paragraphs plain
  have plainly : plain = runOn (visitParagraphs (look shown) onParagraph onRun paragraphs) start :=
    runOn_walk roots start
  rw [plainly, watchedWalk, runOn_walk]
  refine ⟨paragraphs_nodup isOpened, ?_, ?_, fun goesOn goesOnRun => ?_⟩
  · rw [show paragraphs = paragraphsBelow (shown start) roots from rfl, opened]
    exact package.openIn_paragraphs
  · obtain ⟨record, run, reported⟩ := watched_visitParagraphs harmless harmlessRun _ start [] isOpened.wellFormed
      (tagged_paragraphsBelow _ _)
    exact ⟨record, run, reported, reported.paragraphs⟩
  · exact visitParagraphs_ends goesOn goesOnRun _ start

/-! ## Children at their turn -/

/-- One forest comes out of another in which every node is still there, with its tag and its attributes. -/
structure HeadsStay (before after : Forest) : Prop where
  wellFormed : after.WellFormed
  heads : ∀ node ∈ before.nodes, ∃ found ∈ after.nodes, found.head = node.head

/-- Whether the node with a key is a run. -/
def isRunAt (forest : Forest) (number : Nat) : Bool :=
  (forest.find? number).any isRun

theorem isRunAt_of_head {forest : Forest} (wellFormed : forest.WellFormed) {child : Node}
    (stays : ∃ found ∈ forest.nodes, found.head = child.head) : isRunAt forest child.key = isRun child := by
  obtain ⟨found, member, head⟩ := stays
  have sameKey : found.key = child.key := congrArg Head.key head
  rw [isRunAt, ← sameKey, wellFormed.find?_key member]
  exact isRun_of_head head

/-- The children of what is found under a key, if there is anything. -/
theorem exists_children (forest : Forest) (paragraph : Nat) : ∃ children : List Node,
    (forest.find? paragraph).elim [] (fun node => node.children.map key) = children.map key ∧
      runsOf forest paragraph = (children.filter isRun).map key ∧
      ∀ child ∈ children, ∃ found ∈ forest.nodes, found.head = child.head := by
  unfold runsOf
  cases found : forest.find? paragraph with
  | none => exact ⟨[], rfl, rfl, fun _ impossible => absurd impossible List.not_mem_nil⟩
  | some node =>
    obtain ⟨inForest, -⟩ := Forest.mem_of_find? found
    exact ⟨node.children, rfl, rfl, fun child direct => ⟨child, child_mem_allBelow inForest direct, rfl⟩⟩

variable (shown onParagraph onRun) in
/-- A walk through paragraphs that looks at every child when the turn comes to it, and visits it if it is a run then. -/
def visitAtTurn : List Nat → ExceptT Fault (StateM ς) Unit
  | [] => return ()
  | paragraph :: rest => do
      let content := ((← look shown).find? paragraph).elim [] fun node => node.children.map key
      content.forM fun child => do
        if isRunAt (← look shown) child then onRun child paragraph
      onParagraph paragraph
      visitAtTurn rest

section Turns

variable {valid : ς → Prop} (wellFormed : ∀ state, valid state → (shown state).WellFormed)
  (harmlessRun : ∀ run paragraph state, valid state →
    valid (runOn (onRun run paragraph) state).2 ∧ HeadsStay (shown state) (shown (runOn (onRun run paragraph) state).2))
include wellFormed harmlessRun

/-- Children that keep their tags are runs at their turn if they have been runs before. -/
theorem forM_isRunAt (paragraph : Nat) (children : List Node) : ∀ state, valid state →
    (∀ child ∈ children, ∃ found ∈ (shown state).nodes, found.head = child.head) →
      valid (runOn (((children.filter isRun).map key).forM fun run => onRun run paragraph) state).2 ∧
      runOn ((children.map key).forM fun child => do
          if isRunAt (← look shown) child then onRun child paragraph) state =
        runOn (((children.filter isRun).map key).forM fun run => onRun run paragraph) state := by
  induction children with
  | nil => exact fun state holds _ => ⟨holds, rfl⟩
  | cons child rest hypothesis =>
    intro state holds stay
    have looks : runOn (look shown) state = (.ok (shown state), state) := rfl
    -- The child is still there with its tag, so it is a run now exactly if it was one on arrival.
    have same := isRunAt_of_head (wellFormed state holds) (stay child List.mem_cons_self)
    have others (other : Node) (member : other ∈ rest) := stay other (List.mem_cons_of_mem _ member)
    rw [List.map_cons, List.forM, runOn_bind, runOn_bind, looks]
    dsimp only
    rw [same]
    cases direct : isRun child with
    | false =>
      rw [if_neg Bool.false_ne_true, List.filter_cons_of_neg (by rw [direct]; exact Bool.false_ne_true)]
      exact hypothesis state holds others
    | true =>
      obtain ⟨remains, heads⟩ := harmlessRun child.key paragraph state holds
      rw [if_pos rfl, List.filter_cons_of_pos direct, List.map_cons, List.forM, runOn_bind]
      cases reached : runOn (onRun child.key paragraph) state with
      | mk outcome middle =>
        rw [reached] at remains heads
        cases outcome with
        | error fault => exact ⟨remains, rfl⟩
        | ok _ =>
          refine hypothesis middle remains fun other member => ?_
          obtain ⟨found, inForest, head⟩ := others other member
          obtain ⟨last, inLast, lastHead⟩ := heads.heads found inForest
          exact ⟨last, inLast, lastHead.trans head⟩

/-- A walk that looks at every child at its turn is the same, if no visit gives a node another tag. -/
theorem visitAtTurn_same (harmless : ∀ paragraph state, valid state → valid (runOn (onParagraph paragraph) state).2)
    (paragraphs : List Nat) : ∀ state, valid state →
      runOn (visitAtTurn shown onParagraph onRun paragraphs) state =
        runOn (visitParagraphs (look shown) onParagraph onRun paragraphs) state := by
  induction paragraphs with
  | nil => exact fun _ _ => rfl
  | cons paragraph rest hypothesis =>
    intro state holds
    have looks : runOn (look shown) state = (.ok (shown state), state) := rfl
    obtain ⟨children, isContent, areRuns, stay⟩ := exists_children (shown state) paragraph
    obtain ⟨remains, same⟩ := forM_isRunAt wellFormed harmlessRun paragraph children state holds stay
    rw [visitAtTurn, visitParagraphs, runOn_bind, runOn_bind, looks]
    dsimp only
    rw [isContent, areRuns]
    refine bind_same same fun _ middle reached => bind_same rfl fun _ after visited => ?_
    rw [same] at reached
    rw [reached] at remains
    have later := harmless paragraph middle remains
    rw [visited] at later
    exact hypothesis after later

end Turns

end Walk

/-- A package with a text box in a run, a header that is named three times, and parts without trees. -/
def crowded : Package where
  body := Node.ofTag Tag.body [Node.ofTag Tag.paragraph [createRun "a".toList none,
    Node.ofTag Tag.run [Node.ofTag Tag.paragraph [createRun "b".toList none]]]]
  headers := [.tree (Node.ofTag Tag.body [createParagraph ["c".toList]]), .raw, .external, .shared true 0]
  footers := [.shared true 0, .tree (createParagraph ["d".toList, "e".toList])]
  comments := none
  commentsApart := false

/-- Takes a run out of its paragraph when it is visited. -/
def takeOut (run _paragraph : Nat) : ExceptT Fault (StateM Forest) Unit := modify fun forest => forest.detach run

theorem takeOut_keepsParagraphs (run paragraph : Nat) : KeepsParagraphs id (takeOut run paragraph) := by
  intro forest wellFormed
  have sparing : Sparing 0 (fun _ => True) (fun _ => True) forest (forest.detach run) :=
    wellFormed.detach_sparing fun small => absurd small (Nat.not_lt_zero run)
  exact .of_sparing sparing

/-- The text box is visited although the run that holds it has been taken out. -/
theorem walk_reports_crowded :
    let start := (crowded.openIn .empty).2
    let roots := (crowded.openIn .empty).1.roots
    (paragraphsBelow start roots).Nodup ∧ (paragraphsBelow start roots).length = 4 ∧
      ∃ record, (runOn (watchedWalk id (fun _ => pure ()) takeOut roots) (start, [])).2.2 = record ∧
        Reported (paragraphsBelow start roots) (.ok ()) record := by
  obtain ⟨unique, trees, ⟨record, run, reported, -⟩, ends⟩ := walk_reports id (fun _ => pure ()) takeOut crowded
    (fun _ _ wellFormed => ⟨wellFormed, fun _ isParagraph => isParagraph⟩) takeOut_keepsParagraphs rfl
  rw [ends (fun _ _ => rfl) fun _ _ _ => rfl] at reported
  have four : (crowded.sectionTrees.flatMap (withTag Tag.paragraph)).length = 4 := rfl
  have lengths := congrArg List.length trees
  rw [List.length_map, List.length_map, four] at lengths
  exact ⟨unique, lengths, record, by rw [run], reported⟩

end Document

namespace Engine

variable {dispatcher : Dispatcher} {builder : ProxyBuilder}

/-- Evaluating directives keeps all nodes. -/
theorem retained_walkFrame (forest : Forest) :
    WalkFrame dispatcher builder (fun _ => True) (fun _ => True) (Retained forest) where
  free := (retained_frame forest).free
  evaluates _ _ _ _ _ retained := (retained_frame forest).toFrame.evaluateDirective_keeps dispatcher
    builder (fun _ _ _ retained => ⟨retained.positive, retained.sparing⟩) ⟨retained.positive, retained.sparing⟩
  pending _ _ _ _ _ _ := trivial
  consumes _ _ retained := ⟨retained.positive, retained.sparing⟩
  edits paragraph _ := (retained_frame forest).edits paragraph (Nat.zero_le _)
  runs _ _ _ _ _ _ := trivial

/-- The forest of a machine is sound, and has keys left. -/
def Sound (machine : Machine World) : Prop :=
  machine.outer.forest.WellFormed ∧ 0 < machine.outer.forest.fresh

/-- Directives give no node another tag, so it does not matter when the runs of a paragraph are settled. -/
theorem visitAtTurn_directives {machine : Machine World} (sound : Sound machine) (paragraphs : List Nat) :
    runOn (visitAtTurn (fun machine : Machine World => machine.outer.forest) (visitParagraph dispatcher builder)
        (visitRun dispatcher builder) paragraphs) machine =
      runOn (visitParagraphs forest (visitParagraph dispatcher builder) (visitRun dispatcher builder) paragraphs)
        machine := by
  have runs (run paragraph : Nat) (state : Machine World) (sound : Sound state) :
      Sound (runOn (visitRun dispatcher builder run paragraph) state).2 ∧ HeadsStay state.outer.forest
        (runOn (visitRun dispatcher builder run paragraph) state).2.outer.forest := by
    have retained : Retained state.outer.forest (runOn (visitRun dispatcher builder run paragraph) state).2 :=
      (retained_walkFrame _).visitRun_keeps trivial trivial state (.refl sound.1 sound.2)
    refine ⟨⟨retained.sparing.wellFormed, retained.positive⟩, retained.sparing.wellFormed, fun node member => ?_⟩
    obtain ⟨found, inForest, head, -⟩ := retained.sparing.found node member
    exact ⟨found, inForest, head⟩
  have visits (paragraph : Nat) (state : Machine World) (sound : Sound state) :
      Sound (runOn (visitParagraph dispatcher builder paragraph) state).2 := by
    have retained : Retained state.outer.forest (runOn (visitParagraph dispatcher builder paragraph) state).2 :=
      (retained_walkFrame _).visitParagraph_keeps trivial state (.refl sound.1 sound.2)
    exact ⟨retained.sparing.wellFormed, retained.positive⟩
  exact visitAtTurn_same (fun _ (sound : Sound _) => sound.1) runs visits paragraphs machine sound

end Engine

/-- The directives of a document are evaluated on such a walk. -/
theorem Engine.runOn_evaluateDirectives (dispatcher : Dispatcher) (builder : ProxyBuilder) (machine : Machine World) :
    runOn (evaluateDirectives dispatcher builder) machine =
      runOn (Document.walk (fun machine : Machine World => machine.outer.forest) (visitParagraph dispatcher builder)
        (visitRun dispatcher builder) machine.outer.template.roots) machine :=
  rfl

end Imprint
