import Imprint.Proofs.CommitFrame
import Imprint.Proofs.ForestGrowth
/-! # Copies that are resolved on their own

A copy has keys of its own.  Resolving it touches nothing that was in the forest before, unless one of
its values calls a directive. -/
set_option autoImplicit false
namespace Imprint
open Imprint.Action Xml Document

/-- Whether a directive was called. -/
def Event.isCall : Event → Bool
  | .called .. => true
  | _ => false

namespace Engine

/-- Since some events a directive has been called. -/
def Called (start : List Event) (machine : Machine World) : Prop :=
  ∃ new index method, machine.outer.events = new ++ start ∧ Event.called index method ∈ new

/-- Since some events no more has happened to a forest than an edit of what may be touched, or else a
directive has been called. -/
structure Untouched (touched : Nat → Prop) (start : List Event) (forest : Forest) (before : World)
    (machine : Machine World) : Prop where
  since : ∃ new, machine.outer.events = new ++ start
  edited : ¬ Called start machine → Forest.Edited touched forest machine.outer.forest
  handlers : ¬ Called start machine → machine.outer.handlers = before.handlers
  additional : ¬ Called start machine → machine.outer.additional = before.additional

variable {touched : Nat → Prop} {start : List Event} {forest : Forest} {before : World}

theorem not_called {machine : Machine World}
    (none : machine.outer.events.any Event.isCall = false) : ¬ Called start machine := by
  rintro ⟨new, index, method, since, member⟩
  rw [List.any_eq_false] at none
  refine none (.called index method) ?_ rfl
  rw [since]
  exact List.mem_append_left _ member

theorem called_proof (index : Nat) : StepProof index (Called start) where
  free _ _ called := called
  step _ _ called step := by cases step <;> exact called

theorem Called.later {machine after : Machine World} (called : Called start machine)
    (more : List Event) (later : after.outer.events = more ++ machine.outer.events) :
    Called start after := by
  obtain ⟨new, index, method, since, member⟩ := called
  exact ⟨more ++ new, index, method, by rw [later, since, List.append_assoc],
    List.mem_append_right _ member⟩

/-- A call is never forgotten. -/
theorem callDirective_called (index : Nat) (method : String) (arguments : Arguments)
    {machine : Machine World} (since : ∃ new, machine.outer.events = new ++ start) :
    Called start (runOn (callDirective index method arguments) machine).2 := by
  obtain ⟨new, since⟩ := since
  refine (called_proof index).callDirective_after method arguments ?_
  exact ⟨.called index method :: new, index, method,
    congrArg (Event.called index method :: ·) since, List.mem_cons_self⟩

theorem Called.since {machine : Machine World} (called : Called start machine) :
    ∃ new, machine.outer.events = new ++ start := by
  obtain ⟨new, _, _, since, _⟩ := called
  exact ⟨new, since⟩

theorem Untouched.of_called {machine : Machine World} (called : Called start machine) :
    Untouched touched start forest before machine :=
  ⟨called.since, fun uncalled => absurd called uncalled, fun uncalled => absurd called uncalled,
    fun uncalled => absurd called uncalled⟩

/-- Steps that leave the forest and the handlers alone, and may note something. -/
theorem Untouched.step {machine after : Machine World}
    (untouched : Untouched touched start forest before machine) (more : List Event)
    (later : after.outer.events = more ++ machine.outer.events)
    (sameForest : after.outer.forest = machine.outer.forest)
    (sameHandlers : after.outer.handlers = machine.outer.handlers)
    (sameAdditional : after.outer.additional = machine.outer.additional) :
    Untouched touched start forest before after where
  since := by
    obtain ⟨new, since⟩ := untouched.since
    exact ⟨more ++ new, by rw [later, since, List.append_assoc]⟩
  edited uncalled := sameForest ▸ untouched.edited fun called => uncalled (called.later more later)
  handlers uncalled := sameHandlers.trans
    (untouched.handlers fun called => uncalled (called.later more later))
  additional uncalled := sameAdditional.trans
    (untouched.additional fun called => uncalled (called.later more later))

theorem untouched_frame : Frame (Untouched touched start forest before) where
  free _ _ untouched :=
    ⟨untouched.since, untouched.edited, untouched.handlers, untouched.additional⟩
  called index method arguments _ untouched :=
    .of_called (callDirective_called index method arguments untouched.since)
  reports _ _ untouched reports :=
    untouched.step [] reports.events reports.forest reports.handlers reports.additional

/-- A paragraph may be edited if everything below it may be touched. -/
theorem untouched_edits {paragraph : Nat} (bound : Nat) (may : ∀ number, bound ≤ number → touched number)
    (fresh : bound ≤ forest.fresh)
    (own : ∀ node ∈ forest.nodes, node.key = paragraph → ∀ child ∈ node.children, touched child.key)
    (mayParagraph : touched paragraph) :
    EditsAt paragraph (Untouched touched start forest before) := by
  intro machine node changed untouched found revised
  refine ⟨untouched.since, fun uncalled => ?_, untouched.handlers, untouched.additional⟩
  have edited := untouched.edited uncalled
  have changed := revised touched fun child direct _ => ?_
  · exact edited.trans (edited.wellFormed.edit_edited found changed.head changed.revised mayParagraph)
  · obtain ⟨member, same⟩ := edited.wellFormed.find?_iff.mp found
    by_cases small : child.key < forest.fresh
    · obtain ⟨origin, inForest, sameKey, held⟩ := edited.children node member child direct small
      obtain ⟨other, inOrigin, sameChild⟩ := List.mem_map.mp held
      rw [← sameChild]
      exact own origin inForest (sameKey.trans same) other inOrigin
    · exact may _ (by omega)

/-- Resolving a planted copy leaves everything else in the forest alone. -/
theorem resolveCopy_untouched {source copy : Node} {bare : Forest}
    (planted : Forest.Planted source bare copy forest) (replacer : Replacer) (context : Context)
    (handler : Handler) :
    Keeps (Untouched (bare.fresh ≤ ·) start forest before)
      (inSessionOf handler replacer.verbose
        (resolveParagraph replacer (fun _ => return context) copy.key)) := by
  have sessionFree (update : Session → Session) :
      Keeps (Untouched (bare.fresh ≤ ·) start forest before) (changeSession update) :=
    fun _ untouched => untouched.step [] rfl rfl rfl rfl
  refine inSessionOf_keeps sessionFree handler _ ?_
  refine untouched_frame.resolveParagraph_keeps ?_ replacer (.pure _) (fun _ _ _ untouched => ?_)
    (sessionFree _)
  · refine untouched_edits bare.fresh (fun _ => id) planted.advance
      (fun node member same child direct => ?_) planted.key_fresh
    obtain rfl : node = copy := planted.wellFormed.eq_of_key_eq member planted.copy_mem same
    refine (planted.fresh child.key ?_).1
    rw [Node.keysOf_cons]
    exact List.mem_cons_of_mem _ (List.mem_append_left _
      (List.mem_map.mpr ⟨child, Node.mem_allBelow_of_mem direct, rfl⟩))
  · exact untouched.step [_] rfl rfl rfl rfl

/-! ## What a copy becomes -/

/-- What a copy of a template becomes when it is resolved in a context, on given values. -/
inductive CopyOf (settings : RepeatSettings) (handler : Handler) (source : Node) (context : Context) :
    Expression.Scope → Store → Node → Store → Prop where
  | resolved {copy tree : Node} {start final : Machine World} (same : copy.copied = source.copied)
      (planted : start.outer.forest.find? copy.key = some copy)
      (run : runOn (inSessionOf handler settings.replacer.verbose
        (resolveParagraph settings.replacer (fun _ => return context) copy.key)) start = (.ok (), final))
      (found : final.outer.forest.find? copy.key = some tree) :
      CopyOf settings handler source context start.outer.additional start.store tree final.store

/-- How a run ends because a copy of a template cannot be resolved in a context. -/
inductive CopyFailure (settings : RepeatSettings) (handler : Handler) (source : Node)
    (context : Context) (fault : Fault) : Machine World → Prop where
  | failed {copy : Node} {start final : Machine World} (same : copy.copied = source.copied)
      (planted : start.outer.forest.find? copy.key = some copy)
      (run : runOn (inSessionOf handler settings.replacer.verbose
        (resolveParagraph settings.replacer (fun _ => return context) copy.key)) start =
          (.error fault, final)) :
      CopyFailure settings handler source context fault final

/-- What a run leaves alone in which no directive is called. -/
structure Calm (before after : Machine World) : Prop where
  since : ∃ new, after.outer.events = new ++ before.outer.events
  handlers : after.outer.handlers = before.outer.handlers
  additional : after.outer.additional = before.outer.additional

theorem Calm.refl (machine : Machine World) : Calm machine machine := ⟨⟨[], rfl⟩, rfl, rfl⟩

theorem Calm.trans {before middle after : Machine World} (first : Calm before middle)
    (second : Calm middle after) : Calm before after where
  since := by
    obtain ⟨new, since⟩ := first.since
    obtain ⟨more, later⟩ := second.since
    exact ⟨more ++ new, by rw [later, since, List.append_assoc]⟩
  handlers := second.handlers.trans first.handlers
  additional := second.additional.trans first.additional

theorem Calm.called {before middle after : Machine World} (calm : Calm before middle)
    (called : Called middle.outer.events after) : Called before.outer.events after := by
  obtain ⟨new, since⟩ := calm.since
  obtain ⟨more, index, method, later, member⟩ := called
  exact ⟨more ++ new, index, method, by rw [later, since, List.append_assoc],
    List.mem_append_left _ member⟩

theorem called_frame : Frame (Called start) where
  free _ _ called := called
  called index method arguments _ called := callDirective_called index method arguments called.since
  reports _ _ called reports := called.later [] reports.events

/-- A condition that what is only reported keeps holds unless a directive is called. -/
theorem called_or_frame {condition : Machine World → Prop} (free : StoreFree condition)
    (since : ∀ machine, condition machine → ∃ new, machine.outer.events = new ++ start)
    (reports : ∀ (machine : Machine World) (after : World), condition machine → Reports machine.outer after →
      condition { machine with outer := after }) :
    Frame fun machine => Called start machine ∨ condition machine where
  free machine store := Or.imp id (free machine store)
  called index method arguments machine holds :=
    .inl (callDirective_called index method arguments (holds.elim Called.since (since machine)))
  reports machine after holds reported :=
    holds.imp (fun called => called.later [] reported.events) fun kept => reports machine after kept reported

/-- Nothing that a handler does when it commits takes a call back. -/
theorem called_commitFrame : CommitFrame 0 (fun _ => True) (fun _ => True) (Called start) where
  toFrame := called_frame
  fresh _ _ := Nat.zero_le _
  asked _ _ _ _ := ⟨fun _ => trivial, fun _ _ => trivial⟩
  planted _ := Keeps.bind (fun _ called => called) fun _ => Keeps.bind (fun _ called => called)
    fun _ => .pure _
  edits _ _ _ _ _ called _ _ := called
  moved _ _ _ _ _ called := called
  detached _ _ _ called := called
  emptied _ _ _ called := called
  raised _ _ _ called := called
  marked _ _ called := called
  thrownAway verbose _ := inThrowawaySession_keeps (fun _ _ called => called) verbose
  valued _ _ _ _ called := called.later [_] rfl
  repeated _ _ _ _ _ _ _ _ _ called := called.later [_] rfl
  told _ _ called := called

theorem runOn_plantTree {machine : Machine World} {tree copy : Node} {after : Forest}
    (planted : machine.outer.forest.plant tree = (copy.key, after)) :
    runOn (plantTree tree) machine =
      (.ok copy.key, { machine with outer := { machine.outer with forest := after } }) := by
  unfold plantTree
  rw [runOn_bind, runOn_forest]
  dsimp only
  rw [planted]
  rfl

theorem runOn_plantCopy {machine : Machine World} {source : Nat} {node copy : Node} {after : Forest}
    (found : machine.outer.forest.find? source = some node)
    (planted : machine.outer.forest.plant node = (copy.key, after)) :
    runOn (plantCopy source) machine =
      (.ok copy.key, { machine with outer := { machine.outer with forest := after } }) := by
  unfold plantCopy
  rw [runOn_bind, runOn_node found]
  exact runOn_plantTree planted

/-- A copy of a template is grafted onto the forest, resolved in its context, or resolving it fails. -/
theorem copyForItem_spec (settings : RepeatSettings) (handler : Handler) (context : Context)
    {machine : Machine World} (wellFormed : machine.outer.forest.WellFormed) {template : Nat}
    {source : Node} (found : machine.outer.forest.find? template = some source)
    (uncalled : ¬ Called machine.outer.events
      (runOn (copyForItem settings handler context template) machine).2) :
    Calm machine (runOn (copyForItem settings handler context template) machine).2 ∧
      match runOn (copyForItem settings handler context template) machine with
      | (.ok key, final) => ∃ tree, tree.key = key ∧
          Forest.Grafted machine.outer.forest [tree] final.outer.forest ∧
          CopyOf settings handler source context machine.outer.additional machine.store tree final.store
      | (.error fault, final) => CopyFailure settings handler source context fault final := by
  have member := (wellFormed.find?_iff.mp found).1
  have positive : 0 < machine.outer.forest.fresh :=
    Nat.lt_of_le_of_lt (Nat.zero_le _) (wellFormed.key_lt member)
  obtain ⟨copy, forest, plants, planted⟩ := wellFormed.plant positive source
  have copyFound : forest.find? copy.key = some copy := planted.wellFormed.find?_key planted.copy_mem
  have start : Untouched (machine.outer.forest.fresh ≤ ·) machine.outer.events forest machine.outer
      { machine with outer := { machine.outer with forest } } :=
    ⟨⟨[], rfl⟩, fun _ => .refl planted.wellFormed, fun _ => rfl, fun _ => rfl⟩
  have kept := resolveCopy_untouched planted settings.replacer context handler _ start
  unfold copyForItem at uncalled ⊢
  rw [runOn_bind, runOn_plantCopy found plants] at uncalled ⊢
  dsimp only at uncalled ⊢
  rw [runOn_bind] at uncalled ⊢
  cases reached : runOn (inSessionOf handler settings.replacer.verbose
      (resolveParagraph settings.replacer (fun _ => return context) copy.key))
      { machine with outer := { machine.outer with forest } } with
  | mk outcome final =>
    rw [reached] at kept uncalled
    cases outcome with
    | error fault =>
      exact ⟨⟨kept.since, kept.handlers uncalled, kept.additional uncalled⟩,
        .failed planted.copied copyFound reached⟩
    | ok value =>
      refine ⟨⟨kept.since, kept.handlers uncalled, kept.additional uncalled⟩, ?_⟩
      obtain ⟨tree, sameKey, treeFound, grafted⟩ :=
        planted.grafted wellFormed (kept.edited uncalled)
      have resolved := CopyOf.resolved planted.copied copyFound reached treeFound
      exact ⟨tree, sameKey, grafted, resolved⟩

/-- What a run leaves that grafts trees: some of a kind, or a fault for a reason. -/
def Grafts (machine : Machine World) (what : List Node → Store → Prop)
    (why : Fault → Machine World → Prop) : Except Fault (List Nat) × Machine World → Prop
  | (.ok keys, final) => ∃ trees, trees.map Node.key = keys ∧
      Forest.Grafted machine.outer.forest trees final.outer.forest ∧ what trees final.store
  | (.error fault, final) => why fault final

/-- How the copies of some templates come about in a context, one after the other. -/
inductive Copies (settings : RepeatSettings) (handler : Handler) (sources : Nat → Node)
    (scope : Expression.Scope) (context : Context) : Store → List Nat → List Node → Store → Prop where
  | nil {store : Store} : Copies settings handler sources scope context store [] [] store
  | cons {template : Nat} {templates : List Nat} {tree : Node} {trees : List Node}
      {before middle after : Store}
      (first : CopyOf settings handler (sources template) context scope before tree middle)
      (rest : Copies settings handler sources scope context middle templates trees after) :
      Copies settings handler sources scope context before (template :: templates) (tree :: trees) after

/-- How the copies of some templates come about for some items, each of which has a context of its
own. -/
inductive ItemCopies (settings : RepeatSettings) (handler : Handler) (sources : Nat → Node)
    (scope : Expression.Scope) (templates : List Nat) : Store → List Value → List Node → Store → Prop where
  | nil {store : Store} : ItemCopies settings handler sources scope templates store [] [] store
  | cons {item : Value} {items : List Value} {context : Proxy} {trees others : List Node}
      {before built middle after : Store}
      (build : runOn (settings.functions.copy item).build before = (.ok context, built))
      (copies : Copies settings handler sources scope (.proxy context) built templates trees middle)
      (rest : ItemCopies settings handler sources scope templates middle items others after) :
      ItemCopies settings handler sources scope templates before (item :: items) (trees ++ others) after

/-- How a run ends because there is no copy for an item. -/
inductive ItemFailure (settings : RepeatSettings) (handler : Handler) (sources : Nat → Node)
    (templates : List Nat) (item : Value) (fault : Fault) (final : Machine World) : Prop where
  | context {store : Store}
      (build : runOn (settings.functions.copy item).build store = (.error fault, final.store))
  | copy {template : Nat} (member : template ∈ templates) {context : Proxy} {store built : Store}
      (build : runOn (settings.functions.copy item).build store = (.ok context, built))
      (failed : CopyFailure settings handler (sources template) (.proxy context) fault final)

section Copies

variable {settings : RepeatSettings} {handler : Handler} {sources : Nat → Node}

/-- A template is copied and resolved for each of some templates. -/
theorem copies_spec {context : Context} (templates : List Nat) : ∀ {machine : Machine World},
    machine.outer.forest.WellFormed →
    (∀ template ∈ templates, machine.outer.forest.find? template = some (sources template)) →
    ¬ Called machine.outer.events
      (runOn (templates.mapM (copyForItem settings handler context)) machine).2 →
    Calm machine (runOn (templates.mapM (copyForItem settings handler context)) machine).2 ∧
      Grafts machine
        (Copies settings handler sources machine.outer.additional context machine.store templates)
        (fun fault final => ∃ template ∈ templates,
          CopyFailure settings handler (sources template) context fault final)
        (runOn (templates.mapM (copyForItem settings handler context)) machine) := by
  induction templates with
  | nil =>
    intro machine wellFormed _ _
    exact ⟨.refl machine, [], rfl, .refl wellFormed, .nil⟩
  | cons template rest hypothesis =>
    intro machine wellFormed found uncalled
    rw [List.mapM_cons] at uncalled ⊢
    rw [runOn_bind] at uncalled ⊢
    have first := copyForItem_spec settings handler context wellFormed
      (found template List.mem_cons_self)
    cases reached : runOn (copyForItem settings handler context template) machine with
    | mk outcome middle =>
      rw [reached] at first uncalled
      cases outcome with
      | error fault =>
        obtain ⟨calm, failed⟩ := first uncalled
        exact ⟨calm, template, List.mem_cons_self, failed⟩
      | ok copy =>
        dsimp only at uncalled ⊢
        rw [runOn_bind] at uncalled ⊢
        have remembers : Keeps (Called machine.outer.events)
            (rest.mapM (copyForItem settings handler context)) :=
          .mapM fun template _ =>
            (called_commitFrame.copyForItem_gives settings handler context template).keeps
        have remembered := remembers middle
        cases others : runOn (rest.mapM (copyForItem settings handler context)) middle with
        | mk outcome final =>
          have last : ¬ Called machine.outer.events final := by
            rw [others] at uncalled
            cases outcome <;> exact uncalled
          rw [others] at remembered
          obtain ⟨calm, tree, isCopy, grafted, resolved⟩ := first fun called =>
            last (remembered called)
          have next := hypothesis grafted.grown.wellFormed (fun other member =>
            grafted.find? wellFormed (found other (List.mem_cons_of_mem _ member)))
            (by rw [others]; exact fun called => last (calm.called called))
          rw [others, calm.additional] at next
          obtain ⟨calmRest, outcomes⟩ := next
          cases outcome with
          | error fault =>
            obtain ⟨other, member, failed⟩ := outcomes
            exact ⟨calm.trans calmRest, other, List.mem_cons_of_mem _ member, failed⟩
          | ok copies =>
            obtain ⟨trees, areCopies, graftedRest, resolvedRest⟩ := outcomes
            refine ⟨calm.trans calmRest, tree :: trees, ?_, grafted.append graftedRest,
              .cons resolved resolvedRest⟩
            rw [List.map_cons, isCopy, areCopies]

theorem copiesForItem_spec {machine : Machine World} (wellFormed : machine.outer.forest.WellFormed)
    {templates : List Nat}
    (found : ∀ template ∈ templates, machine.outer.forest.find? template = some (sources template))
    (item : Value) (uncalled : ¬ Called machine.outer.events
      (runOn (copiesForItem settings handler templates item) machine).2) :
    Calm machine (runOn (copiesForItem settings handler templates item) machine).2 ∧
      Grafts machine
        (fun trees after => ∃ context built,
          runOn (settings.functions.copy item).build machine.store = (.ok context, built) ∧
          Copies settings handler sources machine.outer.additional (.proxy context) built templates
            trees after)
        (ItemFailure settings handler sources templates item)
        (runOn (copiesForItem settings handler templates item) machine) := by
  unfold copiesForItem at uncalled ⊢
  rw [runOn_bind, runOn_lift] at uncalled ⊢
  cases built : runOn (settings.functions.copy item).build machine.store with
  | mk outcome store =>
    rw [built] at uncalled
    cases outcome with
    | error fault => exact ⟨⟨⟨[], rfl⟩, rfl, rfl⟩, .context built⟩
    | ok context =>
      obtain ⟨calm, outcomes⟩ := @copies_spec settings handler sources (.proxy context) templates
        { machine with store } wellFormed found uncalled
      refine ⟨⟨calm.since, calm.handlers, calm.additional⟩, ?_⟩
      dsimp only at outcomes ⊢
      cases copied : runOn (templates.mapM (copyForItem settings handler (.proxy context)))
          { machine with store } with
      | mk outcome final =>
        rw [copied] at outcomes
        cases outcome with
        | error fault =>
          obtain ⟨template, member, failed⟩ := outcomes
          exact .copy member built failed
        | ok copies =>
          obtain ⟨trees, areCopies, grafted, resolved⟩ := outcomes
          exact ⟨trees, areCopies, grafted, context, store, rfl, resolved⟩

/-- Templates are copied for each of some items, in the order of the items and then of the templates. -/
theorem items_spec {templates : List Nat} (items : List Value) : ∀ {machine : Machine World},
    machine.outer.forest.WellFormed →
    (∀ template ∈ templates, machine.outer.forest.find? template = some (sources template)) →
    ¬ Called machine.outer.events
      (runOn (items.mapM (copiesForItem settings handler templates)) machine).2 →
    Calm machine (runOn (items.mapM (copiesForItem settings handler templates)) machine).2 ∧
      match runOn (items.mapM (copiesForItem settings handler templates)) machine with
      | (.ok keys, final) => ∃ trees, trees.map Node.key = keys.flatten ∧
          Forest.Grafted machine.outer.forest trees final.outer.forest ∧
          ItemCopies settings handler sources machine.outer.additional templates machine.store items
            trees final.store
      | (.error fault, final) => ∃ item ∈ items,
          ItemFailure settings handler sources templates item fault final := by
  induction items with
  | nil =>
    intro machine wellFormed _ _
    exact ⟨.refl machine, [], rfl, .refl wellFormed, .nil⟩
  | cons item rest hypothesis =>
    intro machine wellFormed found uncalled
    rw [List.mapM_cons] at uncalled ⊢
    rw [runOn_bind] at uncalled ⊢
    have first := @copiesForItem_spec settings handler sources machine wellFormed templates found item
    cases reached : runOn (copiesForItem settings handler templates item) machine with
    | mk outcome middle =>
      rw [reached] at first uncalled
      cases outcome with
      | error fault =>
        obtain ⟨calm, failure⟩ := first uncalled
        exact ⟨calm, item, List.mem_cons_self, failure⟩
      | ok copies =>
        dsimp only at uncalled ⊢
        rw [runOn_bind] at uncalled ⊢
        have remembers : Keeps (Called machine.outer.events)
            (rest.mapM (copiesForItem settings handler templates)) :=
          .mapM fun item _ =>
            (called_commitFrame.copiesForItem_gives settings handler templates item).keeps
        have remembered := remembers middle
        cases others : runOn (rest.mapM (copiesForItem settings handler templates)) middle with
        | mk outcome final =>
          have last : ¬ Called machine.outer.events final := by
            rw [others] at uncalled
            cases outcome <;> exact uncalled
          rw [others] at remembered
          obtain ⟨calm, trees, areCopies, grafted, context, built, build, resolved⟩ :=
            first fun called => last (remembered called)
          have next := hypothesis grafted.grown.wellFormed
            (fun template member => grafted.find? wellFormed (found template member))
            (by rw [others]; exact fun called => last (calm.called called))
          rw [others, calm.additional] at next
          obtain ⟨calmRest, outcomes⟩ := next
          cases outcome with
          | error fault =>
            obtain ⟨other, member, failed⟩ := outcomes
            exact ⟨calm.trans calmRest, other, List.mem_cons_of_mem _ member, failed⟩
          | ok others =>
            obtain ⟨treesRest, areCopiesRest, graftedRest, resolvedRest⟩ := outcomes
            refine ⟨calm.trans calmRest, trees ++ treesRest, ?_, grafted.append graftedRest,
              .cons build resolved resolvedRest⟩
            rw [List.map_append, List.flatten_cons, areCopies, areCopiesRest]

end Copies

end Engine
end Imprint
