import Imprint.Proofs.CommitFrame
import Imprint.Proofs.UnreachableTrees
import Imprint.Proofs.Walk
import Mathlib.Data.List.Induction

/-! # The phases of a run

First the document is gone through, then every handler commits once, in the order of registration, and
then the comments are deleted that were used up.  Only the first phase evaluates directives, and it
leaves the structure of the document alone. -/
set_option autoImplicit false
namespace Imprint
open Imprint.Action Xml Document Node

/-! ## Registration -/

/-- The handlers after some registrations. -/
def registered (registrations : List Handler) : List Handler :=
  registrations.foldl (fun handlers handler => registerHandler handler handlers) []

section Registration

variable (handler : Handler) (handlers registrations : List Handler)

theorem registered_concat :
    registered (registrations ++ [handler]) = registerHandler handler (registered registrations) := by
  simp [registered]

theorem registerHandler_names :
    (registerHandler handler handlers).map (·.interface.name) =
      if handler.interface.name ∈ handlers.map (·.interface.name)
        then handlers.map (·.interface.name)
        else handlers.map (·.interface.name) ++ [handler.interface.name] := by
  induction handlers with
  | nil => simp [registerHandler]
  | cons other rest hypothesis =>
    rw [registerHandler]
    split
    · rename_i same
      simp [same]
    · rename_i different
      rw [List.map_cons, hypothesis, List.map_cons]
      have absent : handler.interface.name ≠ other.interface.name := Ne.symm different
      by_cases later : handler.interface.name ∈ rest.map (·.interface.name)
      · rw [if_pos later, if_pos (List.mem_cons_of_mem _ later)]
      · have missing : handler.interface.name ∉
            other.interface.name :: rest.map (·.interface.name) := by
          rw [List.mem_cons, not_or]
          exact ⟨absent, later⟩
        rw [if_neg later, if_neg missing, List.cons_append]

theorem registerHandler_find? (name : String) :
    (registerHandler handler handlers).find? (·.interface.name == name) =
      (handler :: handlers).find? (·.interface.name == name) := by
  induction handlers with
  | nil => rfl
  | cons other rest hypothesis =>
    rw [registerHandler]
    by_cases here : other.interface.name = handler.interface.name
    · rw [if_pos here, List.find?_cons, List.find?_cons, List.find?_cons, here]
      cases handler.interface.name == name with
      | true => rfl
      | false => rfl
    · rw [if_neg here, List.find?_cons, hypothesis, List.find?_cons, List.find?_cons, List.find?_cons]
      cases found : other.interface.name == name with
      | true =>
        have different : (handler.interface.name == name) = false :=
          beq_false_of_ne fun same => here ((eq_of_beq found).trans same.symm)
        rw [different]
      | false => rfl

theorem mem_registerHandler {other : Handler} (member : other ∈ registerHandler handler handlers) :
    other = handler ∨ other ∈ handlers := by
  induction handlers with
  | nil => exact .inl (List.mem_singleton.mp member)
  | cons first rest hypothesis =>
    rw [registerHandler] at member
    split at member
    · exact (List.mem_cons.mp member).imp_right (List.mem_cons_of_mem _)
    · rcases List.mem_cons.mp member with rfl | member
      · exact .inr List.mem_cons_self
      · exact (hypothesis member).imp_right (List.mem_cons_of_mem _)

theorem mem_registered {registrations : List Handler} {other : Handler}
    (member : other ∈ registered registrations) : other ∈ registrations := by
  induction registrations using List.reverseRecOn with
  | nil => cases member
  | append_singleton rest handler hypothesis =>
    rw [registered_concat] at member
    rcases mem_registerHandler handler _ member with rfl | member
    · exact List.mem_append_right _ (List.mem_singleton_self _)
    · exact List.mem_append_left _ (hypothesis member)

/-- Every interface keeps the place of its first registration. -/
theorem registered_names :
    (registered registrations).map (·.interface.name) =
      (registrations.map (·.interface.name)).eraseDups := by
  induction registrations using List.reverseRecOn with
  | nil => rfl
  | append_singleton rest handler hypothesis =>
    rw [registered_concat, registerHandler_names, hypothesis, List.map_append, List.map_singleton,
      List.eraseDups_append]
    by_cases known : handler.interface.name ∈ rest.map (·.interface.name)
    · have present := List.mem_eraseDups.mpr known
      have removed : [handler.interface.name].removeAll (rest.map (·.interface.name)) = [] := by
        simpa [List.removeAll] using known
      rw [if_pos present, removed, List.eraseDups_nil, List.append_nil]
    · have absent : handler.interface.name ∉ (rest.map (·.interface.name)).eraseDups := fun member =>
        known (List.mem_eraseDups.mp member)
      have kept : [handler.interface.name].removeAll (rest.map (·.interface.name)) =
          [handler.interface.name] := by
        simpa [List.removeAll] using known
      rw [if_neg absent, kept]
      rfl

/-- Every interface has the handler of its last registration. -/
theorem registered_find? (name : String) :
    (registered registrations).find? (·.interface.name == name) =
      registrations.reverse.find? (·.interface.name == name) := by
  induction registrations using List.reverseRecOn with
  | nil => rfl
  | append_singleton rest handler hypothesis =>
    rw [registered_concat, registerHandler_find?, List.reverse_append, List.reverse_singleton,
      List.singleton_append, List.find?_cons, List.find?_cons, hypothesis]

end Registration

/-! ## Commits -/

/-- Whether an event belongs to what a handler does when it commits. -/
def Event.ofCommit : Event → Bool
  | .value .. => true
  | .called .. => true
  | .repeated .. => true
  | _ => false

/-- The handler that was let carry out what it was asked for. -/
def Event.committed? : Event → Option Nat
  | .committed handler => some handler
  | _ => none

/-- Whether an event belongs to the commits. -/
def Event.ofCommits (event : Event) : Bool :=
  event.ofCommit || event.committed?.isSome

/-- The handlers that were committed among some events, first one first. -/
def commits (events : List Event) : List Nat :=
  (events.filterMap Event.committed?).reverse

theorem commits_append (later earlier : List Event) :
    commits (later ++ earlier) = commits earlier ++ commits later := by
  rw [commits, List.filterMap_append, List.reverse_append]
  rfl

theorem commits_ofCommit {events : List Event} (ofCommit : ∀ event ∈ events, event.ofCommit = true) :
    commits events = [] := by
  rw [commits, List.reverse_eq_nil_iff, List.filterMap_eq_nil_iff]
  intro event member
  have passes := ofCommit event member
  cases event <;> first | rfl | cases passes

/-- What one commit keeps: the same interfaces have handlers, and no other handler is committed. -/
structure Carrying (start : World) (machine : Machine World) : Prop where
  interfaces : machine.outer.handlers.map Handler.interface = start.handlers.map Handler.interface
  events : Since Event.ofCommit start.events machine.outer.events

/-- Steps that neither take handlers away nor add any. -/
theorem Carrying.step {start : World} {machine after : Machine World} (carrying : Carrying start machine)
    (interfaces : after.outer.handlers.map Handler.interface =
      machine.outer.handlers.map Handler.interface)
    (events : Since Event.ofCommit machine.outer.events after.outer.events) : Carrying start after where
  interfaces := interfaces.trans carrying.interfaces
  events := carrying.events.trans events

namespace Engine

variable {start : World}

theorem carrying_note {event : Event} (ofCommit : event.ofCommit = true) :
    Keeps (Carrying start) (note event) :=
  fun _ carrying => carrying.step rfl (.noted ofCommit _)

theorem carrying_proof (index : Nat) : StepProof index (Carrying start) where
  free _ _ carrying := ⟨carrying.interfaces, carrying.events⟩
  step machine after carrying step := by
    cases step with
    | @asked handler duty present asks =>
      have interfaces := map_modify Handler.interface (fun other : Handler => { other with duty })
        (fun _ => rfl) machine.outer.handlers index
      exact carrying.step interfaces (.refl _)
    | written present duty bound letters => exact carrying.step rfl (.refl _)
    | blanked present duty bound => exact carrying.step rfl (.refl _)
    | told entry => exact carrying.step rfl (.refl _)

theorem carrying_frame : CommitFrame 0 (fun _ => True) (fun _ => True) (Carrying start) where
  free := (carrying_proof 0).free
  called index := (carrying_proof index).callDirective_keeps fun _ => carrying_note rfl
  reports machine after carrying reports :=
    carrying.step (by rw [reports.handlers]) (reports.events ▸ .refl _)
  fresh _ _ := Nat.zero_le _
  asked _ _ _ _ := ⟨fun _ => trivial, fun _ _ => trivial⟩
  planted _ := Keeps.bind (fun _ carrying => carrying) fun _ =>
    Keeps.bind (fun _ carrying => carrying.step rfl (.refl _)) fun _ => .pure _
  edits _ _ _ _ _ carrying _ _ := carrying.step rfl (.refl _)
  moved _ _ _ _ _ carrying := carrying.step rfl (.refl _)
  detached _ _ _ carrying := carrying.step rfl (.refl _)
  emptied _ _ _ carrying := carrying.step rfl (.refl _)
  raised _ _ _ carrying := carrying.step rfl (.refl _)
  marked _ _ carrying := carrying.step rfl (.refl _)
  thrownAway verbose _ :=
    inThrowawaySession_keeps (fun _ _ carrying => carrying.step rfl (.refl _)) verbose
  valued _ _ _ := carrying_note rfl
  repeated _ _ _ _ _ _ after _ _ carrying := carrying_note rfl after carrying
  told _ _ carrying := carrying.step rfl (.refl _)

variable (dispatcher : Dispatcher)

/-- What committing some handlers adds to the events: all of them have been committed in their order, or
those up to one that failed. -/
structure Commits (places : List Nat) (before : World) (run : Except Fault Unit × Machine World) :
    Prop where
  interfaces : run.2.outer.handlers.map Handler.interface = before.handlers.map Handler.interface
  events : ∃ during, run.2.outer.events = during ++ before.events ∧
    (∀ event ∈ during, event.ofCommits = true) ∧
    (run.1 = .ok () → commits during = places) ∧
    ∀ fault, run.1 = .error fault → ∃ count, count < places.length ∧
      commits during = places.take (count + 1)

theorem commitAt_commits {machine : Machine World} {index : Nat}
    (known : index < machine.outer.handlers.length) :
    Commits [index] machine.outer (runOn (commitAt dispatcher index) machine) := by
  have found : machine.outer.handlers[index]? = some (machine.outer.handlers[index]) :=
    List.getElem?_eq_getElem known
  have carries (diagnostics : List String) :
      Carrying { machine.outer.noting (.committed index) with diagnostics }
        (runOn (note (.committed index) >>= fun _ =>
          commitHandler dispatcher.settings machine.outer.handlers[index])
          { machine with outer := { machine.outer with diagnostics } }).2 := by
    rw [runOn_bind, runOn_note]
    exact carrying_frame.commitHandler_keeps _ (fun _ => trivial) (fun _ _ => trivial) _ ⟨rfl, .refl _⟩
  obtain ⟨diagnostics, reached⟩ : ∃ diagnostics, runOn (commitAt dispatcher index) machine =
      runOn (note (.committed index) >>= fun _ =>
        commitHandler dispatcher.settings machine.outer.handlers[index])
        { machine with outer := { machine.outer with diagnostics } } := by
    unfold commitAt
    rw [runOn_bind, runOn_world]
    dsimp only
    rw [found]
    dsimp only
    cases dispatcher.verbose with
    | true =>
      rw [if_pos rfl, runOn_bind, runOn_say]
      exact ⟨_, rfl⟩
    | false => exact ⟨machine.outer.diagnostics, rfl⟩
  have carrying := carries diagnostics
  rw [← reached] at carrying
  obtain ⟨during, since, ofCommit⟩ := carrying.events
  have own : commits (during ++ [.committed index]) = [index] := by
    rw [commits_append, commits_ofCommit ofCommit]
    rfl
  refine ⟨?_, during ++ [.committed index], ?_, fun event member => ?_, fun _ => own, fun fault _ =>
    ⟨0, Nat.one_pos, own⟩⟩
  · exact carrying.interfaces
  · rw [since, List.append_assoc]
    rfl
  · rcases List.mem_append.mp member with member | member
    · rw [Event.ofCommits, ofCommit event member, Bool.true_or]
    · rw [List.mem_singleton.mp member]
      rfl

theorem forM_commitAt_commits (places : List Nat) : ∀ {machine : Machine World},
    (∀ place ∈ places, place < machine.outer.handlers.length) →
    Commits places machine.outer (runOn (places.forM (commitAt dispatcher)) machine) := by
  induction places with
  | nil =>
    intro machine _
    refine ⟨rfl, [], rfl, fun _ member => absurd member List.not_mem_nil, fun _ => rfl, ?_⟩
    rintro fault ⟨⟩
  | cons place rest hypothesis =>
    intro machine known
    obtain ⟨interfaces, during, since, ofCommits, all, some⟩ :=
      commitAt_commits dispatcher (known place List.mem_cons_self)
    show Commits _ _ (runOn (commitAt dispatcher place >>= fun _ =>
      rest.forM (commitAt dispatcher)) machine)
    rw [runOn_bind]
    cases reached : runOn (commitAt dispatcher place) machine with
    | mk outcome middle =>
      rw [reached] at interfaces since all some
      cases outcome with
      | error fault =>
        obtain ⟨count, bound, committed⟩ := some fault rfl
        obtain rfl : count = 0 := by simpa using bound
        refine ⟨interfaces, during, since, ofCommits, ?_, fun other _ => ⟨0, by simp, committed⟩⟩
        rintro ⟨⟩
      | ok value =>
        dsimp only at interfaces since ⊢
        have lengths := congrArg List.length interfaces
        rw [List.length_map, List.length_map] at lengths
        obtain ⟨interfacesRest, duringRest, sinceRest, ofCommitsRest, allRest, someRest⟩ :=
          @hypothesis middle fun other member =>
            lengths ▸ known other (List.mem_cons_of_mem _ member)
        have first := all rfl
        refine ⟨interfacesRest.trans interfaces, duringRest ++ during, ?_, fun event member => ?_,
          fun accepted => ?_, fun fault refused => ?_⟩
        · rw [sinceRest, since, List.append_assoc]
        · rcases List.mem_append.mp member with member | member
          · exact ofCommitsRest event member
          · exact ofCommits event member
        · rw [commits_append, first, allRest accepted]
          rfl
        · obtain ⟨count, bound, committed⟩ := someRest fault refused
          refine ⟨count + 1, Nat.succ_lt_succ bound, ?_⟩
          rw [commits_append, first, committed]
          rfl

/-! ## The end of a run -/

/-- The first phase: the comments are read and all directives evaluated. -/
def walkThrough (dispatcher : Dispatcher) (builder : ProxyBuilder) : Engine Unit := do
  loadComments
  joinSession
  evaluateDirectives dispatcher builder

/-- The other phases: the handlers commit, and the comments that were used up are deleted. -/
def carryOut (dispatcher : Dispatcher) : Engine Unit := do
  commitHandlers dispatcher
  (← world).session.consumed.forM deleteComment
  saveComments

/-- Once the comments have been read, the directives are evaluated by handlers that take part in the session. -/
theorem runOn_walkThrough (builder : ProxyBuilder) {machine loaded : Machine World}
    (loads : runOn loadComments machine = (.ok (), loaded)) :
    runOn (walkThrough dispatcher builder) machine =
      runOn (evaluateDirectives dispatcher builder) { loaded with outer := loaded.outer.joined } := by
  unfold walkThrough
  rw [runOn_bind, loads]
  dsimp only
  rw [runOn_bind, runOn_joinSession]

theorem runDirectives_eq (builder : ProxyBuilder) :
    runDirectives dispatcher builder = walkThrough dispatcher builder >>= fun _ =>
      carryOut dispatcher := by
  simp only [runDirectives, walkThrough, carryOut, bind_assoc]

theorem runOn_forM_deleteComment (comments : List Comment) : ∀ machine : Machine World,
    ∃ after, runOn (comments.forM deleteComment) machine = (.ok (), after) ∧
      after.outer.events = (comments.map fun comment => Event.deleted comment.id).reverse ++
        machine.outer.events := by
  induction comments with
  | nil => exact fun machine => ⟨machine, rfl, rfl⟩
  | cons comment rest hypothesis =>
    intro machine
    obtain ⟨middle, deleted, events⟩ : ∃ middle, runOn (deleteComment comment) machine =
        (.ok (), middle) ∧ middle.outer.events = .deleted comment.id :: machine.outer.events := by
      unfold deleteComment
      rw [runOn_bind, runOn_note]
      dsimp only
      rw [runOn_bind, runOn_world]
      dsimp only
      cases comments : machine.outer.session.comments with
      | none =>
        rw [World.noting_session, comments]
        exact ⟨_, rfl, rfl⟩
      | some store =>
        rw [World.noting_session, comments]
        exact ⟨_, rfl, rfl⟩
    obtain ⟨after, run, later⟩ := hypothesis middle
    refine ⟨after, ?_, ?_⟩
    · show runOn (deleteComment comment >>= fun _ => rest.forM deleteComment) machine = _
      rw [runOn_bind, deleted]
      exact run
    · rw [later, events]
      simp

theorem runOn_saveComments (machine : Machine World) :
    ∃ after, runOn saveComments machine = (.ok (), after) ∧
      after.outer.events = machine.outer.events := by
  cases held : machine.outer.session.comments with
  | none => exact ⟨_, runOn_saveComments_none held, rfl⟩
  | some store => exact ⟨_, runOn_saveComments_some held, rfl⟩

/-- How a run goes on after its first phase: all handlers commit in their order and then the comments are
deleted that were used up, or a commit fails and no comment is deleted. -/
def CarriedOut (handlers : Nat) (walked : List Event) (run : Except Fault Unit × Machine World) : Prop :=
  ∃ deleting committing, run.2.outer.events = deleting ++ committing ++ walked ∧
    (∀ event ∈ committing, event.ofCommits = true) ∧
    (run.1 = .ok () → commits committing = List.range handlers ∧
      ∃ comments : List Comment, deleting = (comments.map fun comment => .deleted comment.id).reverse) ∧
    ∀ fault, run.1 = .error fault → deleting = [] ∧
      ∃ count, count < handlers ∧ commits committing = List.range (count + 1)

theorem carryOut_carriedOut (machine : Machine World) :
    CarriedOut machine.outer.handlers.length machine.outer.events
      (runOn (carryOut dispatcher) machine) := by
  have committed := forM_commitAt_commits dispatcher (List.range machine.outer.handlers.length)
    (fun place member => List.mem_range.mp member)
  have whole : commitHandlers dispatcher = world >>= fun world =>
      (List.range world.handlers.length).forM (commitAt dispatcher) := rfl
  obtain ⟨-, during, since, ofCommits, all, some⟩ := committed
  unfold carryOut
  rw [runOn_bind, whole, runOn_bind, runOn_world]
  dsimp only
  cases reached : runOn ((List.range machine.outer.handlers.length).forM (commitAt dispatcher))
      machine with
  | mk outcome middle =>
    rw [reached] at since all some
    cases outcome with
    | error fault =>
      refine ⟨[], during, by simpa using since, ofCommits, ?_, fun other _ => ⟨rfl, ?_⟩⟩
      · rintro ⟨⟩
      · obtain ⟨count, bound, committed⟩ := some fault rfl
        rw [List.length_range] at bound
        refine ⟨count, bound, ?_⟩
        rw [committed, List.take_range, Nat.min_eq_left bound]
    | ok value =>
      obtain ⟨deleted, deletes, later⟩ := runOn_forM_deleteComment middle.outer.session.consumed middle
      obtain ⟨saved, saves, last⟩ := runOn_saveComments deleted
      dsimp only
      rw [runOn_bind, runOn_world]
      dsimp only
      rw [runOn_bind, deletes]
      dsimp only
      rw [saves]
      refine ⟨_, during, ?_, ofCommits, fun _ => ⟨all rfl, middle.outer.session.consumed, rfl⟩, ?_⟩
      · rw [last, later, since, List.append_assoc]
      · rintro fault ⟨⟩

end Engine

/-! ## The structure of a document -/

/-- A document has the structure of another one: the template is the same, and so is a live tree of
comments.  Every node is there with its own properties, and with the same children unless it is a
paragraph or a run. -/
structure SameStructure (before after : World) : Prop where
  template : after.template = before.template
  comments : ∀ root, before.template.comments = .live root →
    after.forest.find? root = before.forest.find? root
  nodes : ∀ number node, before.forest.find? number = some node →
    ∃ found, after.forest.find? number = some found ∧ found.head = node.head ∧
      (node.hasTag Tag.paragraph = false → isRun node = false →
        found.children.map head = node.children.map head)

theorem sections_tree {template : Template} {forest : Forest} (opened : Opened template forest)
    {number : Nat} (member : number ∈ keysOf (sections forest template.roots)) :
    ∃ tree ∈ forest.trees, tree.key ∈ template.roots ∧ number ∈ keysOf [tree] := by
  obtain ⟨tree, isSection, inside⟩ := mem_keysOf.mp member
  obtain ⟨root, isRoot, found⟩ := List.mem_filterMap.mp isSection
  obtain ⟨outermost, place, same⟩ := opened.find? isRoot
  rw [found] at same
  obtain rfl := Option.some.inj same
  exact ⟨tree, place, (Forest.mem_of_find? found).2 ▸ isRoot, inside⟩

theorem Walking.sameStructure {start : World} {machine : Machine World} (walking : Walking start machine)
    (opened : Opened start.template start.forest) : SameStructure start machine.outer where
  template := walking.template
  comments root live := by
    obtain ⟨⟨tree, outermost, rfl⟩, apart⟩ := opened.comments root live
    have kept : tree ∈ machine.outer.forest.trees := by
      refine walking.edited.trees tree outermost fun number inside inline => ?_
      rcases inline with new | ⟨node, inSection, rfl, -⟩
      · obtain ⟨node, place, rfl⟩ := List.mem_map.mp inside
        rw [allBelow_singleton] at place
        have old := opened.wellFormed.key_lt (selfAndBelow_subset outermost place)
        omega
      · obtain ⟨other, isTree, isRoot, shared⟩ :=
          sections_tree opened (List.mem_map.mpr ⟨node, inSection, rfl⟩)
        rw [opened.wellFormed.tree_unique outermost isTree inside shared] at apart
        exact apart isRoot
    rw [walking.edited.wellFormed.find?_key (mem_allBelow_of_mem kept),
      opened.wellFormed.find?_key (mem_allBelow_of_mem outermost)]
  nodes number node found := by
    obtain ⟨member, rfl⟩ := opened.wellFormed.find?_iff.mp found
    obtain ⟨last, place, head, outline⟩ := walking.edited.found node member
    have same : last.key = node.key := congrArg Head.key head
    refine ⟨last, walking.edited.wellFormed.find?_iff.mpr ⟨place, same⟩, head,
      fun noParagraph noRun => congrArg Prod.snd (outline ?_)⟩
    rintro (new | ⟨other, inSection, sameKey, paragraph | run⟩)
    · have old := opened.wellFormed.key_lt member
      omega
    · rw [opened.wellFormed.eq_of_key_eq (sections_subset _ _ inSection) member sameKey,
        noParagraph] at paragraph
      cases paragraph
    · rw [opened.wellFormed.eq_of_key_eq (sections_subset _ _ inSection) member sameKey, noRun] at run
      cases run

theorem SameStructure.refl (world : World) : SameStructure world world :=
  ⟨rfl, fun _ _ => rfl, fun _ node found => ⟨node, found, rfl, fun _ _ => rfl⟩⟩

theorem SameStructure.of_loaded {before loaded after : World}
    (opened : Opened before.template before.forest) (isLoaded : Engine.Loaded before loaded)
    (same : SameStructure loaded after) : SameStructure before after where
  template := same.template.trans isLoaded.template
  comments root live := by
    obtain ⟨⟨tree, outermost, rfl⟩, -⟩ := opened.comments root live
    have kept := isLoaded.extended.kept tree outermost
    rw [same.comments tree.key (isLoaded.template ▸ live),
      isLoaded.extended.wellFormed.find?_key (mem_allBelow_of_mem kept),
      opened.wellFormed.find?_key (mem_allBelow_of_mem outermost)]
  nodes number node found := by
    obtain ⟨member, rfl⟩ := opened.wellFormed.find?_iff.mp found
    obtain ⟨middle, place, head, outline⟩ := (isLoaded.edited fun _ => False).found node member
    have sameKey : middle.key = node.key := congrArg Head.key head
    obtain ⟨last, lastFound, lastHead, children⟩ := same.nodes node.key middle
      (isLoaded.extended.wellFormed.find?_iff.mpr ⟨place, sameKey⟩)
    refine ⟨last, lastFound, lastHead.trans head, fun noParagraph noRun => ?_⟩
    rw [children ((hasTag_of_head head _).trans noParagraph) ((hasTag_of_head head _).trans noRun)]
    exact congrArg Prod.snd (outline fun impossible => impossible)

theorem InlineEdit.of_joined {start : World} {before after : Forest} (edit : InlineEdit start.joined before after) :
    InlineEdit start before after := by
  cases edit with
  | edit inline found head revised => exact .edit inline found head revised

/-! ## The whole run -/

namespace Engine

/-- What a run of the directives goes through.  The first phase keeps the structure of the document: all
it does after the comments have been read are edits of paragraphs and runs.  If it ends in a fault, so
does the run, and if it does not, the handlers commit. -/
structure InPhases (before : Machine World) (loaded : World)
    (walk run : Except Fault Unit × Machine World) : Prop where
  reading : SameStructure before.outer loaded
  edits : Relation.ReflTransGen (InlineEdit loaded) loaded.forest walk.2.outer.forest
  structured : SameStructure before.outer walk.2.outer
  interfaces : walk.2.outer.handlers.map Handler.interface =
    before.outer.handlers.map Handler.interface
  walked : Since Event.ofWalk before.outer.events walk.2.outer.events
  ended : ∀ fault, walk.1 = .error fault → run = (.error fault, walk.2)
  carriedOut : walk.1 = .ok () →
    CarriedOut before.outer.handlers.length walk.2.outer.events run

theorem runDirectives_inPhases (dispatcher : Dispatcher) (builder : ProxyBuilder) {machine : Machine World}
    (opened : Opened machine.outer.template machine.outer.forest) :
    InPhases machine (runOn loadComments machine).2.outer (runOn (walkThrough dispatcher builder) machine)
      (runOn (runDirectives dispatcher builder) machine) := by
  obtain ⟨loaded, loads, isLoaded⟩ := runOn_loadComments opened
  have openedJoined : Opened loaded.joined.template loaded.joined.forest := by
    show Opened loaded.template loaded.forest
    rw [isLoaded.template]
    exact opened.extend isLoaded.extended
  have walking := @evaluateDirectives_walking dispatcher builder ⟨machine.store, loaded.joined⟩
    openedJoined.wellFormed
  rw [← runOn_walkThrough dispatcher builder loads] at walking
  have interfaces := walking.interfaces.trans loaded.joined_interfaces
  have lengths := congrArg List.length interfaces
  rw [List.length_map, List.length_map, isLoaded.handlers] at lengths
  have structured : SameStructure loaded (runOn (walkThrough dispatcher builder) machine).2.outer := by
    have same := walking.sameStructure openedJoined
    exact ⟨same.template, same.comments, same.nodes⟩
  have reads : (runOn loadComments machine).2.outer = loaded := by rw [loads]
  rw [reads]
  refine ⟨.of_loaded opened isLoaded (.refl loaded), ?_, structured.of_loaded opened isLoaded, ?_, ?_, ?_, ?_⟩
  · exact Relation.ReflTransGen.mono (fun _ _ => InlineEdit.of_joined) _ _ walking.edits
  · rw [interfaces, isLoaded.handlers]
  · rw [← isLoaded.events]
    exact walking.events
  · intro fault refused
    rw [runDirectives_eq, runOn_bind]
    cases reached : runOn (walkThrough dispatcher builder) machine with
    | mk outcome last =>
      rw [reached] at refused
      obtain rfl : outcome = .error fault := refused
      rfl
  · intro accepted
    have goesOn : runOn (runDirectives dispatcher builder) machine =
        runOn (carryOut dispatcher) (runOn (walkThrough dispatcher builder) machine).2 := by
      rw [runDirectives_eq, runOn_bind]
      cases reached : runOn (walkThrough dispatcher builder) machine with
      | mk outcome last =>
        rw [reached] at accepted
        obtain rfl : outcome = .ok () := accepted
        rfl
    rw [goesOn, ← lengths]
    exact carryOut_carriedOut dispatcher _

/-- Directives are only evaluated before the first handler commits, and leave the structure of the
document alone; every registered interface commits once, with its last handler and in the place of its
first; and comments are only deleted after the last commit.  A fault ends the run where it is. -/
theorem runDirectives_phases (package : Package) (registrations : List Handler)
    (additional : Expression.Scope) (session : Session) (preloaded : Bool) (store : Store)
    (dispatcher : Dispatcher) (builder : ProxyBuilder) :
    let machine := (runOn (if preloaded then loadComments else pure ()) ⟨store, { World.ofPackage package
      (registered registrations) additional with session }⟩).2
    InPhases machine (runOn loadComments machine).2.outer (runOn (walkThrough dispatcher builder) machine)
        (runOn (runDirectives dispatcher builder) machine) ∧
      machine.outer.handlers = registered registrations ∧
      (registered registrations).map (·.interface.name) =
        (registrations.map (·.interface.name)).eraseDups ∧
      ∀ name, (registered registrations).find? (·.interface.name == name) =
        registrations.reverse.find? (·.interface.name == name) := by
  intro machine
  have openedStart := World.ofPackage_opened package (registered registrations) additional
  have prepared : Opened machine.outer.template machine.outer.forest ∧
      machine.outer.handlers = registered registrations := by
    cases preloaded with
    | false => exact ⟨openedStart, rfl⟩
    | true =>
      obtain ⟨loaded, loads, isLoaded⟩ := @runOn_loadComments ⟨store, { World.ofPackage package
        (registered registrations) additional with session }⟩ openedStart
      have reads : machine = ⟨store, loaded⟩ := congrArg Prod.snd loads
      rw [reads]
      refine ⟨?_, isLoaded.handlers⟩
      rw [isLoaded.template]
      exact openedStart.extend isLoaded.extended
  exact ⟨runDirectives_inPhases dispatcher builder prepared.1, prepared.2,
    registered_names registrations, registered_find? registrations⟩

end Engine
end Imprint
