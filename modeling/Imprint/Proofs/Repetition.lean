import Imprint.Proofs.ResolvedCopies
/-! # Repetitions

What a repetition leaves of a document: in the place of its templates there are their copies, item by
item, and everything else is as it was.  Several repetitions do not get in each other's way as long as
their templates are apart. -/
set_option autoImplicit false
namespace Imprint
open Imprint.Action Xml Document

/-! ## Placing the copies -/

/-- What a repetition that has made some paragraphs places for a child of a node: the paragraphs in front of the anchor,
and no template. -/
def PendingRepeat.place (repetition : PendingRepeat) (new : List Nat) (number : Nat) : List Nat :=
  (if number = repetition.anchor then new ++ [repetition.anchor] else [number]).flatMap fun other =>
    if other ∈ repetition.templates then [] else [other]

section Place

variable {repetition : PendingRepeat} {new : List Nat} {number : Nat}

theorem PendingRepeat.mem_place_of_new (isNew : number ∈ new) (other : number ∉ repetition.templates) :
    number ∈ repetition.place new repetition.anchor := by
  rw [PendingRepeat.place, if_pos rfl]
  refine List.mem_flatMap.mpr ⟨number, List.mem_append_left _ isNew, ?_⟩
  rw [if_neg other]
  exact List.mem_singleton_self number

theorem PendingRepeat.mem_place_of_old (other : number ∉ repetition.templates) : number ∈ repetition.place new number := by
  refine List.mem_flatMap.mpr ⟨number, ?_, ?_⟩
  · split
    · rename_i same
      rw [same]
      exact List.mem_append_right _ (List.mem_singleton_self _)
    · exact List.mem_singleton_self number
  · rw [if_neg other]
    exact List.mem_singleton_self number

theorem PendingRepeat.place_elsewhere (elsewhere : number ≠ repetition.anchor) :
    repetition.place new number = if number ∈ repetition.templates then [] else [number] := by
  rw [PendingRepeat.place, if_neg elsewhere, List.flatMap_singleton]

/-- The anchor is a template itself, so the copies are all that is left in its place. -/
theorem PendingRepeat.place_anchor (anchored : repetition.anchor ∈ repetition.templates)
    (apart : ∀ copy ∈ new, copy ∉ repetition.templates) : repetition.place new repetition.anchor = new := by
  rw [PendingRepeat.place, if_pos rfl, List.flatMap_append, List.flatMap_singleton, if_pos anchored, List.append_nil]
  exact Forest.Grown.flatMap_eq_self fun copy member => if_neg (apart copy member)

/-- Trees that have been added are put in front of the anchor, and the templates are taken out. -/
theorem Xml.Forest.placed {forest : Forest} (wellFormed : forest.WellFormed) {trees : List Node}
    (outermost : ∀ tree ∈ trees, tree ∈ forest.trees) (unique : (trees.map Node.key).Nodup)
    (outside : repetition.anchor ∉ Node.keysOf trees)
    (located : (forest.parent? repetition.anchor).isSome = true) :
    Forest.Grown (repetition.place (trees.map Node.key)) forest
      (repetition.templates.foldl Forest.detach ((trees.map Node.key).foldl
        (fun forest root => forest.moveBefore root repetition.anchor) forest)) := by
  have moved := Forest.moveAllBefore_grown trees wellFormed outermost unique outside located
  exact moved.trans (Forest.detachAll_grown repetition.templates moved.wellFormed)

end Place

namespace Engine

variable {settings : RepeatSettings} {handler : Handler} {sources : Nat → Node}

/-- How the trees come about that take the place of the templates of a repetition. -/
inductive RepetitionOutcome (settings : RepeatSettings) (handler : Handler) (sources : Nat → Node)
    (scope : Expression.Scope) (pending : PendingRepeat) :
    Store → List Node → Store → Prop where
  | items {items : List Value} {before after : Store} {trees : List Node}
      (given : pending.items = some items)
      (copies : ItemCopies settings handler sources scope pending.templates before items trees after) :
      RepetitionOutcome settings handler sources scope pending before trees after
  | none {store : Store} (missing : pending.items = none)
      (unset : settings.replaceNull = false ∨ settings.nullDefault = .null) :
      RepetitionOutcome settings handler sources scope pending store [] store
  | default {run : Node} {trees : List Node} {before after : Store} (missing : pending.items = none)
      (wanted : settings.replaceNull = true) (given : settings.nullDefault ≠ .null)
      (written : runOn (runOfPieces settings.nullDefault (markProperties (sources pending.anchor)))
        before = (.ok run, after))
      (same : trees.map Node.copied = [(Node.ofTag Tag.paragraph [run]).copied]) :
      RepetitionOutcome settings handler sources scope pending before trees after

/-- How a run ends because a repetition fails. -/
inductive RepetitionFailure (settings : RepeatSettings) (handler : Handler) (sources : Nat → Node)
    (pending : PendingRepeat) (fault : Fault) (final : Machine World) : Prop where
  | item {items : List Value} {item : Value} (given : pending.items = some items)
      (member : item ∈ items)
      (failure : ItemFailure settings handler sources pending.templates item fault final)
  | default {store : Store} (missing : pending.items = none)
      (wanted : settings.replaceNull = true) (given : settings.nullDefault ≠ .null)
      (refused : runOn (runOfPieces settings.nullDefault (markProperties (sources pending.anchor)))
        store = (.error fault, final.store))

/-- What stands for missing items is nothing, or one paragraph. -/
theorem runOn_paragraphsForNull (settings : RepeatSettings) (anchor : Node) (store : Store) :
    (settings.replaceNull = false ∨ settings.nullDefault = .null) ∧
        runOn (settings.paragraphsForNull anchor) store = (.ok [], store) ∨
      settings.replaceNull = true ∧ settings.nullDefault ≠ .null ∧
        runOn (settings.paragraphsForNull anchor) store =
          match runOn (runOfPieces settings.nullDefault (markProperties anchor)) store with
          | (.ok run, after) => (.ok [Node.ofTag Tag.paragraph [run]], after)
          | (.error fault, after) => (.error fault, after) := by
  unfold RepeatSettings.paragraphsForNull
  split
  · rename_i off
    exact .inl ⟨.inl off, rfl⟩
  · rename_i unset
    exact .inl ⟨.inr unset, rfl⟩
  · rename_i on given
    refine .inr ⟨on, fun unset => given unset, ?_⟩
    rw [runOn_bind]
    cases runOn (runOfPieces settings.nullDefault (markProperties anchor)) store with
    | mk outcome after => cases outcome <;> rfl

theorem plants_spec (paragraphs : List Node) : ∀ {machine : Machine World},
    machine.outer.forest.WellFormed → 0 < machine.outer.forest.fresh →
    ∃ trees last, runOn (paragraphs.mapM plantTree) machine =
        (.ok (trees.map Node.key), { machine with outer := { machine.outer with forest := last } }) ∧
      Forest.Grafted machine.outer.forest trees last ∧
      trees.map Node.copied = paragraphs.map Node.copied := by
  induction paragraphs with
  | nil => exact fun wellFormed _ => ⟨[], _, rfl, .refl wellFormed, rfl⟩
  | cons paragraph rest hypothesis =>
    intro machine wellFormed positive
    obtain ⟨copy, forest, plants, planted⟩ := wellFormed.plant positive paragraph
    obtain ⟨changed, sameKey, found, grafted⟩ := planted.grafted wellFormed (.refl planted.wellFormed)
    obtain rfl : copy = changed := by
      have other := planted.wellFormed.find?_key planted.copy_mem
      rw [found] at other
      exact (Option.some.inj other).symm
    obtain ⟨trees, last, run, graftedRest, copied⟩ := @hypothesis
      { machine with outer := { machine.outer with forest } } planted.wellFormed
      (Nat.lt_of_lt_of_le positive planted.advance)
    refine ⟨copy :: trees, last, ?_, grafted.append graftedRest, ?_⟩
    · rw [List.mapM_cons, runOn_bind, runOn_plantTree plants]
      dsimp only
      rw [runOn_bind, run]
      rfl
    · rw [List.map_cons, List.map_cons, copied, planted.copied]

/-- What takes the place of the templates of a repetition is grafted onto the forest. -/
theorem repetitionOf_spec {machine : Machine World} (wellFormed : machine.outer.forest.WellFormed)
    {pending : PendingRepeat}
    (foundAnchor : machine.outer.forest.find? pending.anchor = some (sources pending.anchor))
    (found : ∀ template ∈ pending.templates,
      machine.outer.forest.find? template = some (sources template))
    (uncalled : ¬ Called machine.outer.events
      (runOn (repetitionOf settings handler pending) machine).2) :
    Calm machine (runOn (repetitionOf settings handler pending) machine).2 ∧
      Grafts machine
        (fun trees after => RepetitionOutcome settings handler sources machine.outer.additional pending
          machine.store trees after)
        (RepetitionFailure settings handler sources pending)
        (runOn (repetitionOf settings handler pending) machine) := by
  unfold repetitionOf at uncalled ⊢
  have positive : 0 < machine.outer.forest.fresh := Nat.lt_of_le_of_lt (Nat.zero_le _)
    (wellFormed.key_lt (wellFormed.find?_iff.mp foundAnchor).1)
  cases given : pending.items with
  | none =>
    rw [given] at uncalled
    dsimp only at uncalled ⊢
    rw [runOn_bind, runOn_node foundAnchor] at uncalled ⊢
    dsimp only at uncalled ⊢
    rw [runOn_bind, runOn_lift] at uncalled ⊢
    rcases runOn_paragraphsForNull settings (sources pending.anchor) machine.store with
      ⟨unset, made⟩ | ⟨wanted, present, made⟩
    · rw [made]
      exact ⟨⟨⟨[], rfl⟩, rfl, rfl⟩, [], rfl, .refl wellFormed, .none given unset⟩
    · cases written : runOn (runOfPieces settings.nullDefault
          (markProperties (sources pending.anchor))) machine.store with
      | mk outcome store =>
        rw [written] at made
        cases outcome with
        | error fault =>
          rw [made]
          exact ⟨⟨⟨[], rfl⟩, rfl, rfl⟩, .default given wanted present written⟩
        | ok run =>
          obtain ⟨trees, forest, planted, grafted, copied⟩ :=
            @plants_spec [Node.ofTag Tag.paragraph [run]] { machine with store } wellFormed positive
          rw [made]
          dsimp only
          rw [planted]
          exact ⟨⟨⟨[], rfl⟩, rfl, rfl⟩, trees, rfl, grafted,
            .default given wanted present written copied⟩
  | some items =>
    rw [given] at uncalled
    dsimp only at uncalled ⊢
    rw [runOn_bind] at uncalled ⊢
    have copied := @items_spec settings handler sources pending.templates items machine wellFormed found
    cases reached : runOn (items.mapM (copiesForItem settings handler pending.templates)) machine with
    | mk outcome final =>
      rw [reached] at copied uncalled
      cases outcome with
      | error fault =>
        obtain ⟨calm, item, member, failure⟩ := copied uncalled
        exact ⟨calm, .item given member failure⟩
      | ok keys =>
        obtain ⟨calm, trees, areCopies, grafted, resolved⟩ := copied uncalled
        exact ⟨calm, trees, areCopies, grafted, .items given resolved⟩

/-! ## Carrying out a repetition -/

theorem runOn_commitRepeat {machine : Machine World} {pending : PendingRepeat}
    (located : (machine.outer.forest.parent? pending.anchor).isSome = true) :
    match runOn (repetitionOf settings handler pending) machine with
    | (.ok new, middle) => ∃ diagnostics,
        runOn (commitRepeat settings handler pending) machine =
          (.ok (), { middle with outer := { middle.outer.noting (.repeated pending new) with
            forest := pending.templates.foldl Forest.detach
              (new.foldl (fun forest root => forest.moveBefore root pending.anchor)
                middle.outer.forest)
            diagnostics } })
    | (.error fault, middle) =>
        runOn (commitRepeat settings handler pending) machine = (.error fault, middle) := by
  have attached : (machine.outer.forest.parent? pending.anchor).isNone = false := by
    cases found : machine.outer.forest.parent? pending.anchor with
    | none => rw [found] at located; cases located
    | some parent => rfl
  cases reached : runOn (repetitionOf settings handler pending) machine with
  | mk outcome middle =>
    unfold commitRepeat
    rw [runOn_bind, runOn_forest]
    dsimp only
    rw [attached]
    cases outcome with
    | error fault =>
      show runOn (repetitionOf settings handler pending >>= _) machine = _
      rw [runOn_bind, reached]
    | ok new =>
      have verbose (machine : Machine World) : runOn (isVerbose handler) machine =
          (.ok (handler.inSession && machine.outer.session.verbose), machine) := rfl
      dsimp only
      rw [if_neg (by decide), runOn_bind, reached]
      dsimp only
      rw [runOn_bind, runOn_note]
      dsimp only
      rw [runOn_bind, runOn_forM_changeForest]
      dsimp only
      rw [runOn_bind, runOn_forM_changeForest]
      dsimp only
      rw [runOn_bind, verbose]
      dsimp only
      split
      · exact ⟨_, rfl⟩
      · exact ⟨_, rfl⟩

/-- An anchor without a container is refused, and nothing is made for it. -/
theorem commitRepeat_apart {machine : Machine World} {pending : PendingRepeat}
    (apart : machine.outer.forest.parent? pending.anchor = none) (settings : RepeatSettings)
    (handler : Handler) :
    runOn (commitRepeat settings handler pending) machine = (.error anchorRemoved, machine) := by
  unfold commitRepeat
  rw [runOn_bind, runOn_forest]
  dsimp only
  rw [apart]
  rfl

/-! ## Several repetitions -/

/-- All templates of some repetitions. -/
def templatesOf (pending : List PendingRepeat) : List Nat :=
  pending.flatMap (·.templates)

/-- Repetitions that do not get in each other's way: every anchor is one of its templates and stands in
a container, no paragraph is a template twice, and none is inside of another one. -/
structure Apart (forest : Forest) (sources : Nat → Node) (pending : List PendingRepeat) : Prop where
  anchored : ∀ repetition ∈ pending, repetition.anchor ∈ repetition.templates
  located : ∀ repetition ∈ pending, (forest.parent? repetition.anchor).isSome = true
  found : ∀ template ∈ templatesOf pending, forest.find? template = some (sources template)
  distinct : (templatesOf pending).Nodup
  outside : ∀ template ∈ templatesOf pending, ∀ other ∈ templatesOf pending,
    other ∉ Node.keysOf (sources template).children

theorem templates_perm {first second : List PendingRepeat} (permuted : second.Perm first) :
    (templatesOf second).Perm (templatesOf first) :=
  permuted.flatMap_right _

theorem Apart.perm {forest : Forest} {first second : List PendingRepeat}
    (apart : Apart forest sources first) (permuted : second.Perm first) :
    Apart forest sources second where
  anchored repetition member := apart.anchored repetition (permuted.mem_iff.mp member)
  located repetition member := apart.located repetition (permuted.mem_iff.mp member)
  found template member := apart.found template ((templates_perm permuted).mem_iff.mp member)
  distinct := (templates_perm permuted).nodup_iff.mpr apart.distinct
  outside template member other inOther :=
    apart.outside template ((templates_perm permuted).mem_iff.mp member) other
      ((templates_perm permuted).mem_iff.mp inOther)

/-- How the trees of some repetitions come about, one repetition after the other. -/
inductive Repetitions (settings : RepeatSettings) (handler : Handler) (sources : Nat → Node)
    (scope : Expression.Scope) (copies : Nat → List Node) : Store → List PendingRepeat → Store → Prop where
  | nil {store : Store} : Repetitions settings handler sources scope copies store [] store
  | cons {repetition : PendingRepeat} {rest : List PendingRepeat} {before middle after : Store}
      (first : RepetitionOutcome settings handler sources scope repetition before
        (copies repetition.anchor) middle)
      (others : Repetitions settings handler sources scope copies middle rest after) :
      Repetitions settings handler sources scope copies before (repetition :: rest) after

section Order

variable {scope : Expression.Scope} {copies others : Nat → List Node} {before middle after : Store}

theorem Repetitions.congr {done : List PendingRepeat}
    (made : Repetitions settings handler sources scope copies before done after)
    (same : ∀ repetition ∈ done, copies repetition.anchor = others repetition.anchor) :
    Repetitions settings handler sources scope others before done after := by
  induction made with
  | nil => exact .nil
  | cons first rest hypothesis =>
    refine .cons ?_ (hypothesis fun repetition member => same repetition (List.mem_cons_of_mem _ member))
    rw [← same _ List.mem_cons_self]
    exact first

theorem Repetitions.next {done : List PendingRepeat} {next : PendingRepeat}
    (made : Repetitions settings handler sources scope copies before done middle)
    (last : RepetitionOutcome settings handler sources scope next middle (copies next.anchor) after) :
    Repetitions settings handler sources scope copies before (done ++ [next]) after := by
  induction made with
  | nil => exact .cons last .nil
  | cons first rest hypothesis => exact .cons first (hypothesis last)

end Order

/-- How far some repetitions have been carried out: those that are done have left their copies, and those
that are not have left everything as it was. -/
structure Progress (settings : RepeatSettings) (handler : Handler) (sources : Nat → Node)
    (start : Machine World) (done : List PendingRepeat) (copies : Nat → List Node)
    (machine : Machine World) : Prop where
  calm : Calm start machine
  grown : Forest.Grown (Forest.placeOf copies (templatesOf done)) start.outer.forest
    machine.outer.forest
  made : Repetitions settings handler sources start.outer.additional copies start.store done machine.store
  others : ∀ number, (∀ repetition ∈ done, repetition.anchor ≠ number) → copies number = []
  present : ∀ number, ∀ copy ∈ copies number, copy ∈ machine.outer.forest.nodes
  fresh : ∀ number, ∀ other ∈ Node.keysOf (copies number), start.outer.forest.fresh ≤ other

theorem templates_subset {pending : List PendingRepeat} {repetition : PendingRepeat}
    (member : repetition ∈ pending) {template : Nat} (inside : template ∈ repetition.templates) :
    template ∈ templatesOf pending :=
  List.mem_flatMap.mpr ⟨repetition, member, inside⟩

section Steps

variable {start machine : Machine World} {done rest : List PendingRepeat} {next : PendingRepeat}
  {copies : Nat → List Node}

theorem Apart.not_done (apart : Apart start.outer.forest sources (done ++ next :: rest)) {template : Nat}
    (inside : template ∈ next.templates) : template ∉ templatesOf done := by
  intro member
  have distinct := apart.distinct
  unfold templatesOf at distinct member
  rw [List.flatMap_append, List.nodup_append, List.flatMap_cons] at distinct
  exact distinct.2.2 template member template (List.mem_append_left _ inside) rfl

theorem Apart.anchor_not_done (apart : Apart start.outer.forest sources (done ++ next :: rest)) :
    ∀ repetition ∈ done, repetition.anchor ≠ next.anchor := by
  intro repetition member same
  have anchored := apart.anchored next (by simp)
  refine apart.not_done anchored ?_
  rw [← same]
  exact templates_subset member (apart.anchored repetition (by simp [member]))

/-- A repetition whose turn comes finds its templates as they were in the beginning. -/
theorem Progress.found (progress : Progress settings handler sources start done copies machine)
    (wellFormed : start.outer.forest.WellFormed)
    (apart : Apart start.outer.forest sources (done ++ next :: rest)) {template : Nat}
    (inside : template ∈ next.templates) :
    machine.outer.forest.find? template = some (sources template) := by
  have isTemplate : template ∈ templatesOf (done ++ next :: rest) := templates_subset (by simp) inside
  obtain ⟨member, sameKey⟩ := wellFormed.find?_iff.mp (apart.found template isTemplate)
  refine progress.grown.wellFormed.find?_iff.mpr ⟨progress.grown.mem_nodes member ?_, sameKey⟩
  intro number below
  have notTemplate (repetition : PendingRepeat) (isDone : repetition ∈ done) {other : Nat}
      (inOther : other ∈ repetition.templates) : other ≠ number := by
    rintro rfl
    exact apart.outside template isTemplate other
      (templates_subset (by simp [isDone]) inOther) below
  have noCopies : copies number = [] := progress.others number fun repetition isDone =>
    notTemplate repetition isDone (apart.anchored repetition (by simp [isDone]))
  have stays : number ∉ templatesOf done := fun member => by
    obtain ⟨repetition, isDone, inOther⟩ := List.mem_flatMap.mp member
    exact notTemplate repetition isDone inOther rfl
  simp [Forest.placeOf, noCopies, stays]

theorem Progress.located (progress : Progress settings handler sources start done copies machine)
    (apart : Apart start.outer.forest sources (done ++ next :: rest)) :
    (machine.outer.forest.parent? next.anchor).isSome = true := by
  refine progress.grown.parent?_isSome (apart.located next (by simp)) ?_
  have stays := apart.not_done (apart.anchored next (by simp))
  simp [Forest.placeOf, stays]

theorem Apart.old (apart : Apart start.outer.forest sources (done ++ next :: rest))
    (wellFormed : start.outer.forest.WellFormed) {template : Nat} (inside : template ∈ next.templates) :
    template < start.outer.forest.fresh := by
  obtain ⟨member, sameKey⟩ := wellFormed.find?_iff.mp
    (apart.found template (templates_subset (by simp) inside))
  rw [← sameKey]
  exact wellFormed.key_lt member

/-- A repetition leaves what is newer than all of the repetitions. -/
theorem Apart.place_new (apart : Apart start.outer.forest sources (done ++ next :: rest))
    (wellFormed : start.outer.forest.WellFormed) {new : List Nat} {number : Nat}
    (isNew : start.outer.forest.fresh ≤ number) : next.place new number = [number] := by
  have noTemplate : number ∉ next.templates := fun inside =>
    absurd (apart.old wellFormed inside) (Nat.not_lt.mpr isNew)
  have notAnchor : number ≠ next.anchor := by
    rintro rfl
    exact noTemplate (apart.anchored next (by simp))
  rw [PendingRepeat.place_elsewhere notAnchor, if_neg noTemplate]

/-- What the repetitions that are done have placed, and then the next one, is what all of them place. -/
theorem Apart.placeOf_next (apart : Apart start.outer.forest sources (done ++ next :: rest)) {trees : List Node}
    (noCopies : copies next.anchor = [])
    (others : ∀ number, ∀ copy ∈ (copies number).map Node.key, next.place (trees.map Node.key) copy = [copy])
    (own : ∀ copy ∈ trees.map Node.key, copy ∉ next.templates) (number : Nat) :
    (Forest.placeOf copies (templatesOf done) number).flatMap (next.place (trees.map Node.key)) =
      Forest.placeOf (fun number => if number = next.anchor then trees else copies number)
        (templatesOf (done ++ [next])) number := by
  have anchored := apart.anchored next (by simp)
  have templates : templatesOf (done ++ [next]) = templatesOf done ++ next.templates := by
    simp [templatesOf]
  unfold Forest.placeOf
  rw [templates, List.flatMap_append, Forest.Grown.flatMap_eq_self (others number)]
  by_cases here : number = next.anchor
  · subst here
    simp [noCopies, apart.not_done anchored, anchored, PendingRepeat.place_anchor anchored own]
  · by_cases isDone : number ∈ templatesOf done
    · simp [here, isDone]
    · by_cases isNext : number ∈ next.templates
      · simp [here, isDone, isNext, PendingRepeat.place_elsewhere here]
      · simp [here, isDone, isNext, PendingRepeat.place_elsewhere here]

/-- Copies that have been made are put in front of their anchor, and their templates taken out. -/
theorem Progress.grafted {middle : Machine World} {trees : List Node}
    (progress : Progress settings handler sources start done copies machine)
    (wellFormed : start.outer.forest.WellFormed)
    (apart : Apart start.outer.forest sources (done ++ next :: rest))
    (calm : Calm machine middle)
    (grafted : Forest.Grafted machine.outer.forest trees middle.outer.forest)
    (outcome : RepetitionOutcome settings handler sources machine.outer.additional next machine.store
      trees middle.store) (diagnostics : List String) :
    Progress settings handler sources start (done ++ [next])
      (fun number => if number = next.anchor then trees else copies number)
      { middle with outer := { middle.outer.noting (.repeated next (trees.map Node.key)) with
        forest := next.templates.foldl Forest.detach
          ((trees.map Node.key).foldl (fun forest root => forest.moveBefore root next.anchor)
            middle.outer.forest)
        diagnostics } } := by
  have newTrees : ∀ number ∈ Node.keysOf trees, start.outer.forest.fresh ≤ number :=
    fun number member => Nat.le_trans progress.grown.fresh (grafted.fresh number member)
  have anchorOutside : next.anchor ∉ Node.keysOf trees := fun inside =>
    absurd (newTrees _ inside) (Nat.not_le.mpr (apart.old wellFormed (apart.anchored next (by simp))))
  have placed := Forest.placed grafted.grown.wellFormed grafted.added grafted.unique anchorOutside
    (grafted.grown.parent?_isSome (progress.located apart) (by simp))
  -- A tree of which all is new is passed over by the placing.
  have stays {node : Node} (member : node ∈ middle.outer.forest.nodes)
      (new : ∀ number ∈ Node.keysOf [node], start.outer.forest.fresh ≤ number) :
      node ∈ (next.templates.foldl Forest.detach ((trees.map Node.key).foldl
        (fun forest root => forest.moveBefore root next.anchor) middle.outer.forest)).nodes := by
    refine placed.mem_nodes member fun number below => apart.place_new wellFormed (new number ?_)
    rw [Node.keysOf_cons]
    exact List.mem_cons_of_mem _ (List.mem_append_left _ below)
  have keysNew {nodes : List Node}
      (new : ∀ number ∈ Node.keysOf nodes, start.outer.forest.fresh ≤ number) :
      ∀ number ∈ nodes.map Node.key, start.outer.forest.fresh ≤ number := by
    intro number member
    obtain ⟨node, inside, rfl⟩ := List.mem_map.mp member
    exact new _ (List.mem_map.mpr ⟨node, Node.mem_allBelow_of_mem inside, rfl⟩)
  have notAnchor := apart.anchor_not_done
  refine ⟨progress.calm.trans ⟨?_, calm.handlers, calm.additional⟩, ?_, ?_,
    fun number absent => ?_, fun number copy member => ?_, fun number other member => ?_⟩
  · obtain ⟨new, since⟩ := calm.since
    exact ⟨.repeated next (trees.map Node.key) :: new,
      congrArg (Event.repeated next (trees.map Node.key) :: ·) since⟩
  · refine ((progress.grown.trans grafted.grown).trans placed).congr fun number _ => ?_
    rw [Forest.Grown.flatMap_singleton]
    exact apart.placeOf_next (progress.others _ notAnchor)
      (fun number copy member => apart.place_new wellFormed (keysNew (progress.fresh number) copy member))
      (fun copy member isTemplate => absurd (apart.old wellFormed isTemplate)
        (Nat.not_lt.mpr (keysNew newTrees copy member))) number
  · refine Repetitions.next (progress.made.congr fun repetition member => ?_) ?_
    · rw [if_neg (notAnchor repetition member)]
    · rw [if_pos rfl, ← progress.calm.additional]
      exact outcome
  · rw [if_neg fun same => absent next (by simp) same.symm]
    exact progress.others number fun repetition member => absent repetition (by simp [member])
  · split at member
    · exact stays (Node.mem_allBelow_of_mem (grafted.added copy member)) fun other inside =>
        newTrees other (Node.keysOf_subset member inside)
    · exact stays (grafted.grown.mem_nodes (progress.present number copy member) fun _ _ => rfl)
        fun other inside => progress.fresh number other (Node.keysOf_subset member inside)
  · split at member
    · exact newTrees other member
    · exact progress.fresh number other member

/-- What carrying out one repetition adds. -/
theorem Progress.step (progress : Progress settings handler sources start done copies machine)
    (wellFormed : start.outer.forest.WellFormed)
    (apart : Apart start.outer.forest sources (done ++ next :: rest))
    (uncalled : ¬ Called start.outer.events (runOn (commitRepeat settings handler next) machine).2) :
    match runOn (commitRepeat settings handler next) machine with
    | (.ok _, final) => ∃ trees, Progress settings handler sources start (done ++ [next])
        (fun number => if number = next.anchor then trees else copies number) final
    | (.error fault, final) => RepetitionFailure settings handler sources next fault final := by
  have anchored := apart.anchored next (by simp)
  have located := progress.located apart
  have run := @runOn_commitRepeat settings handler machine next located
  have spec := @repetitionOf_spec settings handler sources machine progress.grown.wellFormed next
    (progress.found wellFormed apart anchored) fun template inside => progress.found wellFormed apart inside
  cases reached : runOn (repetitionOf settings handler next) machine with
  | mk outcome middle =>
    rw [reached] at run spec
    cases outcome with
    | error fault =>
      dsimp only at run
      rw [run] at uncalled ⊢
      exact (spec fun called => uncalled (progress.calm.called called)).2
    | ok keys =>
      obtain ⟨diagnostics, run⟩ := run
      rw [run] at uncalled ⊢
      have quiet : ¬ Called machine.outer.events middle := fun called =>
        uncalled ((progress.calm.called called).later [_] rfl)
      obtain ⟨calm, trees, rfl, grafted, outcome⟩ := spec quiet
      exact ⟨trees, progress.grafted wellFormed apart calm grafted outcome diagnostics⟩

end Steps

/-! ## The whole commit -/

/-- Whether a handler is registered that has been asked for some repetitions. -/
def AskedFor (handler : Handler) (pending : List PendingRepeat) (handlers : List Handler) : Prop :=
  ∃ registered, handlers.find? (fun other => other.interface.name == handler.interface.name) =
    some registered ∧ registered.duty = .repeatParagraphs pending

theorem runOn_pendingRepeats {machine : Machine World} {pending : List PendingRepeat}
    (asked : AskedFor handler pending machine.outer.handlers) :
    runOn (pendingRepeats handler.interface) machine = (.ok pending, machine) := by
  obtain ⟨registered, found, duty⟩ := asked
  unfold pendingRepeats
  rw [runOn_bind, runOn_world]
  dsimp only
  rw [found]
  cases registered with
  | mk interface anchor inSession own =>
    obtain rfl : own = .repeatParagraphs pending := duty
    rfl

/-- That there are more or fewer repetitions than there were is noticed in the next turn. -/
theorem runOn_commitPosition_changed {machine : Machine World} {pending : List PendingRepeat}
    (asked : AskedFor handler pending machine.outer.handlers) {size : Nat} (changed : pending.length ≠ size)
    (position : Nat) :
    runOn (commitPosition settings handler size position) machine = (.error pendingChanged, machine) := by
  unfold commitPosition
  rw [runOn_bind, runOn_pendingRepeats asked]
  dsimp only
  rw [if_pos changed]
  rfl

theorem runOn_commitPosition {machine : Machine World} {pending : List PendingRepeat}
    (asked : AskedFor handler pending machine.outer.handlers) (position : Nat) :
    runOn (commitPosition settings handler pending.length position) machine =
      match pending[position]? with
      | some repetition => runOn (commitRepeat settings handler repetition) machine
      | none => (.ok (), machine) := by
  unfold commitPosition
  rw [runOn_bind, runOn_pendingRepeats asked]
  dsimp only
  rw [if_neg (fun different => different rfl)]
  cases pending[position]? with
  | none => rfl
  | some repetition => rfl

/-! ### Turns -/

/-- The first turns of a commit of repetitions. -/
def commitTurns (settings : RepeatSettings) (handler : Handler) (size count : Nat) : Engine Unit :=
  (List.range count).forM (commitPosition settings handler size)

section Turns

variable {size : Nat} {machine middle after : Machine World}

theorem commitTurns_succ (count : Nat) : commitTurns settings handler size (count + 1) =
    commitTurns settings handler size count >>= fun _ => commitPosition settings handler size count := by
  simp only [commitTurns, List.forM_eq_forM, List.range_succ, List.forM_append, List.forM_cons, List.forM_nil,
    bind_pure_unit]

theorem commitHandler_turns {pending : List PendingRepeat} (duty : handler.duty = .repeatParagraphs pending) :
    commitHandler settings handler = commitTurns settings handler pending.length (pending.length + 1) := by
  unfold commitHandler
  rw [duty]
  rfl

/-- A commit gets past some turns, or one of them ends it. -/
theorem commitTurns_either (settings : RepeatSettings) (handler : Handler) (size : Nat) (machine : Machine World)
    (count : Nat) :
    (∃ after, runOn (commitTurns settings handler size count) machine = (.ok (), after)) ∨
      ∃ turn < count, ∃ middle fault, runOn (commitTurns settings handler size turn) machine = (.ok (), middle) ∧
        (runOn (commitPosition settings handler size turn) middle).1 = .error fault := by
  induction count with
  | zero => exact .inl ⟨machine, rfl⟩
  | succ count hypothesis =>
    rcases hypothesis with ⟨middle, runs⟩ | ⟨turn, early, failure⟩
    · cases outcome : runOn (commitPosition settings handler size count) middle with
      | mk result after =>
        cases result with
        | ok _ =>
          refine .inl ⟨after, ?_⟩
          rw [commitTurns_succ, runOn_bind, runs]
          exact outcome
        | error fault => exact .inr ⟨count, Nat.lt_succ_self count, middle, fault, runs, by rw [outcome]⟩
    · exact .inr ⟨turn, Nat.lt_succ_of_lt early, failure⟩

/-- A turn that fails ends a commit that comes to it. -/
theorem commitTurns_fails {turn count : Nat} {fault : Fault} (early : turn < count)
    (runs : runOn (commitTurns settings handler size turn) machine = (.ok (), middle))
    (fails : runOn (commitPosition settings handler size turn) middle = (.error fault, after)) :
    runOn (commitTurns settings handler size count) machine = (.error fault, after) := by
  induction count with
  | zero => cases early
  | succ count hypothesis =>
    rw [commitTurns_succ, runOn_bind]
    rcases Nat.lt_succ_iff_lt_or_eq.mp early with earlier | rfl
    · rw [hypothesis earlier]
    · rw [runs]
      exact fails

end Turns

section Commit

variable {start : Machine World} {pending : List PendingRepeat}

/-- All repetitions are carried out, one after the other, or one of them fails. -/
theorem commitPositions_spec (wellFormed : start.outer.forest.WellFormed)
    (apart : Apart start.outer.forest sources pending)
    (asked : AskedFor handler pending start.outer.handlers) (rest : List PendingRepeat) :
    ∀ {done : List PendingRepeat} {copies : Nat → List Node} {machine : Machine World},
      done ++ rest = pending → Progress settings handler sources start done copies machine →
      ¬ Called start.outer.events (runOn ((List.range' done.length (rest.length + 1)).forM
        (commitPosition settings handler pending.length)) machine).2 →
      match runOn ((List.range' done.length (rest.length + 1)).forM
        (commitPosition settings handler pending.length)) machine with
      | (.ok _, final) => ∃ copies, Progress settings handler sources start pending copies final
      | (.error fault, final) => ∃ repetition ∈ pending,
          RepetitionFailure settings handler sources repetition fault final := by
  induction rest with
  | nil =>
    intro done copies machine all progress uncalled
    rw [List.append_nil] at all
    subst all
    have asked : AskedFor handler done machine.outer.handlers := progress.calm.handlers ▸ asked
    have ends : runOn ((List.range' done.length ([] : List PendingRepeat).length.succ).forM
        (commitPosition settings handler done.length)) machine = (.ok (), machine) := by
      show runOn (commitPosition settings handler done.length done.length >>= fun _ => pure ()) _ = _
      rw [runOn_bind, runOn_commitPosition asked, List.getElem?_eq_none (Nat.le_refl _)]
      rfl
    rw [ends]
    exact ⟨copies, progress⟩
  | cons next rest hypothesis =>
    intro done copies machine all progress uncalled
    have askedNow : AskedFor handler pending machine.outer.handlers := progress.calm.handlers ▸ asked
    have here : pending[done.length]? = some next := by
      rw [← all]
      simp
    have unfolded : runOn ((List.range' done.length ((next :: rest).length + 1)).forM
        (commitPosition settings handler pending.length)) machine =
        runOn (commitPosition settings handler pending.length done.length >>= fun _ =>
          (List.range' (done.length + 1) (rest.length + 1)).forM
            (commitPosition settings handler pending.length)) machine := rfl
    rw [unfolded, runOn_bind, runOn_commitPosition askedNow, here] at uncalled ⊢
    dsimp only at uncalled ⊢
    have remembers : Keeps (Called start.outer.events)
        ((List.range' (done.length + 1) (rest.length + 1)).forM
          (commitPosition settings handler pending.length)) :=
      .forM fun position _ => called_commitFrame.commitPosition_keeps settings trivial _ position
    have step := progress.step wellFormed (all ▸ apart : Apart _ _ (done ++ next :: rest))
    cases reached : runOn (commitRepeat settings handler next) machine with
    | mk outcome middle =>
      rw [reached] at step uncalled
      cases outcome with
      | error fault => exact ⟨next, by rw [← all]; simp, step uncalled⟩
      | ok value =>
        have calm : ¬ Called start.outer.events middle := fun called =>
          uncalled (remembers middle called)
        obtain ⟨trees, progress⟩ := step calm
        have others := hypothesis (by rw [← all]; simp) progress
        rw [List.length_append] at others
        exact others uncalled

/-- A forest in which some repetitions have been carried out: every tree has the copies of a repetition in
front of its anchor, which is gone like all other templates. -/
structure Expanded (settings : RepeatSettings) (handler : Handler) (sources : Nat → Node)
    (pending : List PendingRepeat) (start : Machine World) (copies : Nat → List Node)
    (final : Machine World) : Prop where
  wellFormed : final.outer.forest.WellFormed
  made : Repetitions settings handler sources start.outer.additional copies start.store pending
    final.store
  others : ∀ number, (∀ repetition ∈ pending, repetition.anchor ≠ number) → copies number = []
  trees : ∀ number node, start.outer.forest.find? number = some node →
    final.outer.forest.find? number = some (Forest.expand copies (templatesOf pending) node)

theorem Progress.expanded {copies : Nat → List Node} {machine : Machine World}
    (progress : Progress settings handler sources start pending copies machine)
    (wellFormed : start.outer.forest.WellFormed) :
    Expanded settings handler sources pending start copies machine where
  wellFormed := progress.grown.wellFormed
  made := progress.made
  others := progress.others
  trees number node found := by
    obtain ⟨member, sameKey⟩ := wellFormed.find?_iff.mp found
    have expanded := progress.grown.expand_mem member fun child _ => progress.present child.key
    refine progress.grown.wellFormed.find?_iff.mpr ⟨expanded, ?_⟩
    rw [← sameKey]
    exact congrArg Head.key (Forest.head_expand node)

/-- What committing some repetitions ends with: a fault that one of them has a reason for, or a forest in
which all of them have been carried out. -/
def CommitOutcome (settings : RepeatSettings) (handler : Handler) (sources : Nat → Node)
    (pending : List PendingRepeat) (start : Machine World) : Except Fault Unit × Machine World → Prop
  | (.ok _, final) => ∃ copies, Expanded settings handler sources pending start copies final
  | (.error fault, final) => ∃ repetition ∈ pending,
      RepetitionFailure settings handler sources repetition fault final

theorem commitHandler_outcome (wellFormed : start.outer.forest.WellFormed)
    (apart : Apart start.outer.forest sources pending)
    (duty : handler.duty = .repeatParagraphs pending)
    (asked : AskedFor handler pending start.outer.handlers)
    (uncalled : ¬ Called start.outer.events (runOn (commitHandler settings handler) start).2) :
    CommitOutcome settings handler sources pending start
      (runOn (commitHandler settings handler) start) := by
  have begun : Progress settings handler sources start [] (fun _ => []) start := {
    calm := .refl start
    grown := (Forest.Grown.refl wellFormed).congr fun _ _ => rfl
    made := .nil
    others := fun _ _ => rfl
    present := fun _ _ member => absurd member List.not_mem_nil
    fresh := fun _ _ member => absurd member List.not_mem_nil }
  have whole : commitHandler settings handler = (List.range' 0 (pending.length + 1)).forM
      (commitPosition settings handler pending.length) := by
    unfold commitHandler commitRepeats
    rw [duty]
    dsimp only
    rw [List.range_eq_range']
  rw [whole] at uncalled ⊢
  have done := commitPositions_spec wellFormed apart asked pending (List.nil_append _) begun uncalled
  unfold CommitOutcome
  dsimp only [List.length_nil] at done
  split
  · rename_i final reached
    rw [reached] at done
    obtain ⟨copies, progress⟩ := done
    exact ⟨copies, progress.expanded wellFormed⟩
  · rename_i fault final reached
    rw [reached] at done
    exact done

end Commit

section Refusals

variable {machine middle : Machine World} {pending current : List PendingRepeat} {turn : Nat}

/-- One more repetition that is asked for while others are carried out ends the commit at its next turn. -/
theorem commitHandler_changed (duty : handler.duty = .repeatParagraphs pending) (early : turn ≤ pending.length)
    (runs : runOn (commitTurns settings handler pending.length turn) machine = (.ok (), middle))
    (asked : AskedFor handler current middle.outer.handlers) (changed : current.length ≠ pending.length) :
    runOn (commitHandler settings handler) machine = (.error pendingChanged, middle) := by
  rw [commitHandler_turns duty]
  exact commitTurns_fails (Nat.lt_succ_of_le early) runs (runOn_commitPosition_changed asked changed turn)

/-- An anchor that is the root of a tree when its turn comes is refused, and nothing is made for it. -/
theorem commitHandler_unanchored {repetition : PendingRepeat} (duty : handler.duty = .repeatParagraphs pending)
    (runs : runOn (commitTurns settings handler pending.length turn) machine = (.ok (), middle))
    (asked : AskedFor handler current middle.outer.handlers) (same : current.length = pending.length)
    (there : current[turn]? = some repetition)
    (root : middle.outer.forest.parent? repetition.anchor = none) :
    runOn (commitHandler settings handler) machine = (.error anchorRemoved, middle) := by
  have bound : turn < pending.length := same ▸ (List.getElem?_eq_some_iff.mp there).1
  have refused : runOn (commitPosition settings handler pending.length turn) middle =
      (.error anchorRemoved, middle) := by
    rw [← same, runOn_commitPosition asked, there]
    exact commitRepeat_apart root settings handler
  rw [commitHandler_turns duty]
  exact commitTurns_fails (Nat.lt_succ_of_lt bound) runs refused

end Refusals

section Orders

variable {left right : Machine World} {one other : Handler} {first second : List PendingRepeat}

/-- The order of repetitions does not matter for what they leave, apart from keys, if their copies do not
depend on it. -/
theorem Expanded.order {leftEnd rightEnd : Machine World} {copies others : Nat → List Node}
    (expanded : Expanded settings one sources first left copies leftEnd)
    (reordered : Expanded settings other sources second right others rightEnd)
    (sameForest : right.outer.forest = left.outer.forest) (permuted : second.Perm first)
    (same : ∀ repetition ∈ first,
      (copies repetition.anchor).map Node.copied = (others repetition.anchor).map Node.copied)
    {number : Nat} {node : Node} (found : left.outer.forest.find? number = some node) :
    (leftEnd.outer.forest.find? number).map Node.copied =
      (rightEnd.outer.forest.find? number).map Node.copied := by
  rw [expanded.trees number node found, reordered.trees number node (sameForest ▸ found)]
  refine congrArg some (Forest.copied_expand (fun number => ?_) (fun number => ?_) node)
  · by_cases anchored : ∃ repetition ∈ first, repetition.anchor = number
    · obtain ⟨repetition, member, rfl⟩ := anchored
      exact same repetition member
    · have none : ∀ repetition ∈ first, repetition.anchor ≠ number := fun repetition member here =>
        anchored ⟨repetition, member, here⟩
      rw [expanded.others number none, reordered.others number fun repetition member =>
        none repetition (permuted.mem_iff.mp member)]
  · simp only [templatesOf, List.mem_flatMap, permuted.mem_iff]

/-- Committing repetitions whose templates are apart leaves, in the place of the templates, the copies for
each item, or ends where a copy cannot be made.  In whatever order they have been asked for, the document
is the same as long as the copies are. -/
theorem commitHandler_repeats (wellFormed : left.outer.forest.WellFormed)
    (sameForest : right.outer.forest = left.outer.forest) (permuted : second.Perm first)
    (apart : Apart left.outer.forest sources first)
    (duty : one.duty = .repeatParagraphs first) (dutyOther : other.duty = .repeatParagraphs second)
    (asked : AskedFor one first left.outer.handlers)
    (askedOther : AskedFor other second right.outer.handlers)
    (uncalled : ¬ Called left.outer.events (runOn (commitHandler settings one) left).2)
    (uncalledOther : ¬ Called right.outer.events (runOn (commitHandler settings other) right).2) :
    let run := runOn (commitHandler settings one) left
    let reordered := runOn (commitHandler settings other) right
    CommitOutcome settings one sources first left run ∧
      CommitOutcome settings other sources second right reordered ∧
      ∀ copies others, Expanded settings one sources first left copies run.2 →
        Expanded settings other sources second right others reordered.2 →
        (∀ repetition ∈ first, (copies repetition.anchor).map Node.copied =
          (others repetition.anchor).map Node.copied) →
        ∀ number node, left.outer.forest.find? number = some node →
          (run.2.outer.forest.find? number).map Node.copied =
            (reordered.2.outer.forest.find? number).map Node.copied := by
  intro run reordered
  have apartOther : Apart right.outer.forest sources second := by
    rw [sameForest]
    exact apart.perm permuted
  have wellFormedOther : right.outer.forest.WellFormed := by
    rw [sameForest]
    exact wellFormed
  refine ⟨commitHandler_outcome wellFormed apart duty asked uncalled,
    commitHandler_outcome wellFormedOther apartOther dutyOther askedOther uncalledOther, ?_⟩
  intro copies others expanded expandedOther same number node found
  exact expanded.order expandedOther sameForest permuted same found

/-! ### Two paragraphs -/

/-- A handler that some repetitions have been asked for. -/
def asked (pending : List PendingRepeat) : Handler :=
  { Handler.repetition with duty := .repeatParagraphs pending, anchor := ⟨some 5, none, none⟩ }

/-- A state in which some repetitions have been asked for. -/
def askedIn (body : Node) (store : Store) (pending : List PendingRepeat) : Machine World :=
  ⟨store, World.ofPackage ⟨body, [], [], none, false⟩ [asked pending] []⟩

theorem askedIn_forest (body : Node) (store : Store) (pending : List PendingRepeat) :
    (askedIn body store pending).outer.forest =
      (Package.openIn ⟨body, [], [], none, false⟩ .empty).2 := rfl

theorem askedIn_asked (body : Node) (store : Store) (pending : List PendingRepeat) :
    AskedFor (asked pending) pending (askedIn body store pending).outer.handlers :=
  ⟨asked pending, rfl, rfl⟩

/-- Two paragraphs that each take a number off the list `x`, and one that asks for another repetition. -/
def popping : Node :=
  Node.ofTag Tag.body (["a$\x7bx.pop()\x7d", "b$\x7bx.pop()\x7d", "c$\x7bf([])\x7d"].map fun letters =>
    createParagraph [letters.toList])

/-- Items that have a list in common. -/
def sharing : Store :=
  ⟨#[.list [.int 1, .int 2], .dict [(.text "x", .list 0),
    (.text "f", .function (.directive 0 "repeat_paragraph"))]], 0⟩

/-- The repetition of one paragraph for one item. -/
def once (anchor : Nat) : PendingRepeat := ⟨anchor, some [.dict 1], [anchor]⟩

def inOrder : List PendingRepeat := [once 2, once 5]

def reversed : List PendingRepeat := [once 5, once 2]

/-- What carrying out some repetitions gives. -/
def carriedOut (body : Node) (pending : List PendingRepeat) : Except Fault Unit × Machine World :=
  runOn (commitHandler (.ofReplacer .standard) (asked pending)) (askedIn body sharing pending)

/-- The texts of the paragraphs in the tree with a key. -/
def textsIn (machine : Machine World) (key : Nat) : List String :=
  match machine.outer.forest.find? key with
  | some node => node.children.map fun paragraph => String.ofList (paragraphText paragraph)
  | none => []

/-- A paragraph of them. -/
def poppingAt (key : Nat) : Node :=
  ((askedIn popping sharing inOrder).outer.forest.find? key).getD popping

theorem popping_apart :
    Apart (askedIn popping sharing inOrder).outer.forest poppingAt inOrder where
  anchored := by decide +kernel
  located := by decide +kernel
  found := by
    have present : ∀ template ∈ templatesOf inOrder,
        ((askedIn popping sharing inOrder).outer.forest.find? template).isSome = true := by
      decide +kernel
    intro template member
    obtain ⟨node, found⟩ := Option.isSome_iff_exists.mp (present template member)
    unfold poppingAt
    rw [found]
    rfl
  distinct := by decide +kernel
  outside := by decide +kernel

theorem commitHandler_repeats_popping :
    CommitOutcome (.ofReplacer .standard) (asked inOrder) poppingAt inOrder
        (askedIn popping sharing inOrder) (carriedOut popping inOrder) ∧
      CommitOutcome (.ofReplacer .standard) (asked reversed) poppingAt reversed
        (askedIn popping sharing reversed) (carriedOut popping reversed) ∧
      ∀ copies others,
        Expanded (.ofReplacer .standard) (asked inOrder) poppingAt inOrder
          (askedIn popping sharing inOrder) copies (carriedOut popping inOrder).2 →
        Expanded (.ofReplacer .standard) (asked reversed) poppingAt reversed
          (askedIn popping sharing reversed) others (carriedOut popping reversed).2 →
        (∀ repetition ∈ inOrder, (copies repetition.anchor).map Node.copied =
          (others repetition.anchor).map Node.copied) →
        ∀ number node, (askedIn popping sharing inOrder).outer.forest.find? number = some node →
          ((carriedOut popping inOrder).2.outer.forest.find? number).map Node.copied =
            ((carriedOut popping reversed).2.outer.forest.find? number).map Node.copied := by
  have wellFormed : (askedIn popping sharing inOrder).outer.forest.WellFormed :=
    ⟨by decide +kernel, by decide +kernel⟩
  have sameForest : (askedIn popping sharing reversed).outer.forest =
      (askedIn popping sharing inOrder).outer.forest :=
    (askedIn_forest popping sharing reversed).trans (askedIn_forest popping sharing inOrder).symm
  have uncalled : ¬ Called (askedIn popping sharing inOrder).outer.events
      (carriedOut popping inOrder).2 := not_called (by decide +kernel)
  have uncalledOther : ¬ Called (askedIn popping sharing reversed).outer.events
      (carriedOut popping reversed).2 := not_called (by decide +kernel)
  unfold carriedOut at uncalled uncalledOther ⊢
  exact commitHandler_repeats wellFormed sameForest (.swap _ _ _) popping_apart rfl rfl
    (askedIn_asked popping sharing inOrder) (askedIn_asked popping sharing reversed) uncalled
    uncalledOther

/-- The copies may depend on the order of the repetitions; a copy that asks for one more repetition ends
the commit, and so does an anchor without a container. -/
theorem commitHandler_repeats_exceptions :
    (reversed.Perm inOrder ∧
      Apart (askedIn popping sharing inOrder).outer.forest poppingAt inOrder ∧
      (carriedOut popping inOrder).1 = .ok () ∧ (carriedOut popping reversed).1 = .ok () ∧
      textsIn (carriedOut popping inOrder).2 1 = ["a2", "b1", "c$\x7bf([])\x7d"] ∧
      textsIn (carriedOut popping reversed).2 1 = ["a1", "b2", "c$\x7bf([])\x7d"]) ∧
    (carriedOut popping [once 8]).1 = .error pendingChanged ∧
    (carriedOut (createParagraph ["a".toList]) [once 1]).1 = .error anchorRemoved := by
  refine ⟨⟨.swap _ _ _, popping_apart, ?_, ?_, ?_, ?_⟩, ?_, ?_⟩
  all_goals decide +kernel

end Orders

end Engine
end Imprint
