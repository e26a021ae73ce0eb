import Imprint.Proofs.DetachedNodes
import Imprint.Proofs.Repetition
/-! # Refused commits

A handler that is to edit a node which has been taken out of its parent raises a fault, and the node is
not edited.  What has been taken out stays out for the rest of the commits, so they cannot succeed. -/
set_option autoImplicit false
namespace Imprint.Engine
open Imprint.Action Xml Document Node

variable {machine : Machine World}

/-! ## One turn -/

section Turn

theorem removeParagraph_apart {paragraph : Nat}
    (apart : machine.outer.forest.parent? paragraph = none) :
    ∃ message, runOn (removeParagraph paragraph) machine = (.error (.detached message), machine) := by
  unfold removeParagraph
  rw [runOn_bind, runOn_forest]
  dsimp only
  rw [apart]
  exact ⟨_, rfl⟩

theorem removeElement_apart {element : Nat} (apart : machine.outer.forest.parent? element = none) :
    ∃ message, runOn (removeElement element) machine = (.error (.detached message), machine) := by
  unfold removeElement
  rw [runOn_bind, runOn_forest]
  dsimp only
  rw [apart]
  exact ⟨_, rfl⟩

end Turn

/-! ## Handlers -/

section Handlers

variable {handler : Handler} {target : Nat} (settings : RepeatSettings)

theorem handler_found {handlers : List Handler} (unique : (handlers.map (·.interface.name)).Nodup)
    (member : handler ∈ handlers) :
    handlers.find? (fun other => other.interface.name == handler.interface.name) = some handler := by
  induction handlers with
  | nil => cases member
  | cons first rest hypothesis =>
    rw [List.map_cons, List.nodup_cons] at unique
    rcases List.mem_cons.mp member with rfl | later
    · rw [List.find?_cons, beq_self_eq_true]
    · have different : (first.interface.name == handler.interface.name) = false := by
        refine beq_false_of_ne fun same => unique.1 ?_
        rw [same]
        exact List.mem_map.mpr ⟨handler, later, rfl⟩
      rw [List.find?_cons, different]
      exact hypothesis unique.2 later

/-- What a handler has been asked for by now: at the anchors from before, and then at others. -/
theorem askedFor_now {place : Nat} {pending : List PendingRepeat} {after : Machine World}
    (pursuing : Pursuing machine.outer after) (unique : (machine.outer.handlers.map (·.interface.name)).Nodup)
    (present : machine.outer.handlers[place]? = some handler) (duty : handler.duty = .repeatParagraphs pending) :
    ∃ now current, after.outer.handlers[place]? = some now ∧ now.duty = .repeatParagraphs current ∧
      pending.map PendingRepeat.anchor <+: current.map PendingRepeat.anchor ∧
      AskedFor handler current after.outer.handlers := by
  obtain ⟨now, found, sameInterface, grows⟩ := pursuing.duties place handler present
  have isFound := handler_found (pursuing.names ▸ unique) (List.mem_of_getElem? found)
  rw [sameInterface] at isFound
  rw [duty] at grows
  obtain ⟨current, currentDuty, anchors⟩ := grows.anchors
  exact ⟨now, current, found, currentDuty, anchors, now, isFound, currentDuty⟩

/-- A position keeps its anchor when more is asked for. -/
theorem same_anchor {pending current : List PendingRepeat} {position : Nat} {repetition : PendingRepeat}
    (anchors : pending.map PendingRepeat.anchor <+: current.map PendingRepeat.anchor)
    (there : pending[position]? = some repetition) :
    ∃ next, current[position]? = some next ∧ next.anchor = repetition.anchor := by
  have sameAnchor : (current.map PendingRepeat.anchor)[position]? = some repetition.anchor := by
    obtain ⟨rest, whole⟩ := anchors
    have known : (pending.map PendingRepeat.anchor)[position]? = some repetition.anchor := by
      rw [List.getElem?_map, there]
      rfl
    rw [← whole, List.getElem?_append_left (List.getElem?_eq_some_iff.mp known).1, known]
  rw [List.getElem?_map] at sameAnchor
  exact Option.map_eq_some_iff.mp sameAnchor

/-- The position of a repetition holds a repetition at the same anchor as long as no other one is added,
and that there is another one ends the commit as well. -/
theorem commitPosition_fails {place position : Nat} {pending : List PendingRepeat} {repetition : PendingRepeat}
    (unique : (machine.outer.handlers.map (·.interface.name)).Nodup)
    (present : machine.outer.handlers[place]? = some handler)
    (duty : handler.duty = .repeatParagraphs pending) (there : pending[position]? = some repetition)
    (old : repetition.anchor < machine.outer.forest.fresh)
    (apart : machine.outer.forest.parent? repetition.anchor = none) :
    Fails (Pursuing machine.outer) (commitPosition settings handler pending.length position) := by
  intro after pursuing
  obtain ⟨now, current, -, -, anchors, asked⟩ := askedFor_now pursuing unique present duty
  by_cases grown : current.length = pending.length
  · obtain ⟨next, isNext, isAnchor⟩ := same_anchor anchors there
    have nextApart : after.outer.forest.parent? next.anchor = none :=
      isAnchor ▸ pursuing.attached.apart old apart
    rw [← grown, runOn_commitPosition asked, isNext]
    dsimp only
    rw [commitRepeat_apart nextApart settings handler]
    exact ⟨_, rfl⟩
  · rw [runOn_commitPosition_changed asked grown]
    exact ⟨_, rfl⟩

/-- A handler that is to edit a node without a parent does not get to its end. -/
theorem commitHandler_fails {place : Nat} (wellFormed : machine.outer.forest.WellFormed)
    (positive : 0 < machine.outer.forest.fresh)
    (unique : (machine.outer.handlers.map (·.interface.name)).Nodup)
    (present : machine.outer.handlers[place]? = some handler) (targeted : target ∈ handler.duty.targets)
    (old : target < machine.outer.forest.fresh) (apart : machine.outer.forest.parent? target = none) :
    ∃ fault, (runOn (commitHandler settings handler) machine).1 = .error fault := by
  have frame := pursuing_frame positive
  have fails : Fails (Pursuing machine.outer) (commitHandler settings handler) := by
    unfold commitHandler
    cases duty : handler.duty with
    | repeatParagraphs pending =>
      rw [duty] at targeted
      obtain ⟨repetition, member, rfl⟩ := List.mem_map.mp targeted
      obtain ⟨position, there⟩ := List.mem_iff_getElem?.mp member
      have bound : position < pending.length := (List.getElem?_eq_some_iff.mp there).1
      refine Fails.forM (fun other _ => frame.commitPosition_keeps settings trivial _ other)
        (List.mem_range.mpr (Nat.lt_succ_of_lt bound)) ?_
      exact commitPosition_fails settings unique present duty there old apart
    | display paragraphs rows tables =>
      have isApart {after : Machine World} (pursuing : Pursuing machine.outer after) :
          after.outer.forest.parent? target = none := pursuing.attached.apart old apart
      rw [duty, Duty.targets, List.mem_append] at targeted
      rcases targeted with inParagraphs | inOthers
      · refine Fails.bind (Fails.forM (fun _ _ => frame.removeParagraph_keeps trivial) inParagraphs ?_)
        intro after pursuing
        obtain ⟨message, refused⟩ := removeParagraph_apart (isApart pursuing)
        exact ⟨_, congrArg Prod.fst refused⟩
      · refine Fails.after (.forM fun _ _ => frame.removeParagraph_keeps trivial) fun _ => Fails.bind ?_
        refine Fails.forM (fun _ _ => frame.removeElement_keeps trivial) inOthers ?_
        intro after pursuing
        obtain ⟨message, refused⟩ := removeElement_apart (isApart pursuing)
        exact ⟨_, congrArg Prod.fst refused⟩
    | replaceWord =>
      rw [duty] at targeted
      cases targeted
    | record recorder =>
      rw [duty] at targeted
      cases targeted
  exact fails machine (.refl wellFormed)

end Handlers

/-! ## What is taken out -/

section Removals

/-- A repetition that has been carried out was anchored in a container; its paragraphs have been made and put in
front of the anchor, and its templates have been taken out. -/
theorem commitRepeat_ok {settings : RepeatSettings} {handler : Handler} {pending : PendingRepeat}
    {after : Machine World} (accepted : runOn (commitRepeat settings handler pending) machine = (.ok (), after)) :
    (machine.outer.forest.parent? pending.anchor).isSome = true ∧ ∃ new middle diagnostics,
      runOn (repetitionOf settings handler pending) machine = (.ok new, middle) ∧
        after = { middle with outer := { middle.outer.noting (.repeated pending new) with
          forest := pending.templates.foldl Forest.detach
            (new.foldl (fun forest root => forest.moveBefore root pending.anchor) middle.outer.forest)
          diagnostics } } := by
  have located : (machine.outer.forest.parent? pending.anchor).isSome = true := by
    cases apart : machine.outer.forest.parent? pending.anchor with
    | some parent => rfl
    | none =>
      rw [commitRepeat_apart apart] at accepted
      cases accepted
  have run := @runOn_commitRepeat settings handler machine pending located
  refine ⟨located, ?_⟩
  cases made : runOn (repetitionOf settings handler pending) machine with
  | mk outcome middle =>
    rw [made] at run
    cases outcome with
    | error fault =>
      dsimp only at run
      rw [run] at accepted
      cases accepted
    | ok new =>
      obtain ⟨diagnostics, run⟩ := run
      rw [run] at accepted
      cases accepted
      exact ⟨new, middle, diagnostics, rfl, rfl⟩

/-- The templates of a repetition that has been carried out have been taken out. -/
theorem commitRepeat_takes (wellFormed : machine.outer.forest.WellFormed)
    (positive : 0 < machine.outer.forest.fresh) (settings : RepeatSettings) (handler : Handler)
    {pending : PendingRepeat} {after : Machine World}
    (accepted : runOn (commitRepeat settings handler pending) machine = (.ok (), after)) {template : Nat}
    (member : template ∈ pending.templates) : after.outer.forest.parent? template = none := by
  obtain ⟨-, new, middle, diagnostics, made, rfl⟩ := commitRepeat_ok accepted
  have given := (pursuing_frame positive).repetitionOf_gives settings handler pending machine (.refl wellFormed)
  rw [made] at given
  have moved := Forest.moveAllBefore_loosened new given.1.attached.wellFormed (given.2 new rfl) pending.anchor
  exact Forest.detachAll_apart moved.wellFormed member

theorem removeElement_takes (wellFormed : machine.outer.forest.WellFormed) {element : Nat}
    {after : Machine World} (accepted : runOn (removeElement element) machine = (.ok (), after)) :
    after.outer.forest.parent? element = none := by
  obtain ⟨forest, read, isForest, accepted⟩ := bind_ok accepted
  cases isForest
  split at accepted
  · obtain ⟨_, _, -, impossible⟩ := bind_ok accepted
    cases impossible
  · cases accepted
    exact Forest.detachAll_apart wellFormed (List.mem_singleton_self element)

end Removals

/-! ## All commits -/

/-- How commits treat nodes without a parent.  Whatever has been taken out stays without one, and when its
turn comes an anchor or a target without a parent is refused, with nothing edited. -/
structure RefusesDetached (dispatcher : Dispatcher) (places : List Nat) (machine : Machine World) : Prop where
  anchor : ∀ handler pending, machine.outer.forest.parent? pending.anchor = none →
    runOn (commitRepeat dispatcher.settings handler pending) machine = (.error anchorRemoved, machine)
  paragraph : ∀ target, machine.outer.forest.parent? target = none →
    ∃ message, runOn (removeParagraph target) machine = (.error (.detached message), machine)
  element : ∀ target, machine.outer.forest.parent? target = none →
    ∃ message, runOn (removeElement target) machine = (.error (.detached message), machine)
  repeated : ∀ handler pending after,
    runOn (commitRepeat dispatcher.settings handler pending) machine = (.ok (), after) →
    ∀ template ∈ pending.templates, after.outer.forest.parent? template = none
  removed : ∀ target after, runOn (removeElement target) machine = (.ok (), after) →
    after.outer.forest.parent? target = none
  away : ∀ number < machine.outer.forest.fresh, machine.outer.forest.parent? number = none →
    (runOn (places.forM (commitAt dispatcher)) machine).2.outer.forest.parent? number = none
  refused : ∀ place ∈ places, ∀ handler, machine.outer.handlers[place]? = some handler →
    ∀ target ∈ handler.duty.targets, target < machine.outer.forest.fresh →
    machine.outer.forest.parent? target = none →
    ∃ fault, (runOn (places.forM (commitAt dispatcher)) machine).1 = .error fault

theorem commitAt_fails (dispatcher : Dispatcher) {place target : Nat} {handler : Handler}
    (positive : 0 < machine.outer.forest.fresh)
    (unique : (machine.outer.handlers.map (·.interface.name)).Nodup)
    (present : machine.outer.handlers[place]? = some handler) (targeted : target ∈ handler.duty.targets)
    (old : target < machine.outer.forest.fresh) (apart : machine.outer.forest.parent? target = none) :
    Fails (Pursuing machine.outer) (commitAt dispatcher place) := by
  intro after pursuing
  obtain ⟨now, found, -, grows⟩ := pursuing.duties place handler present
  have fails (diagnostics : List String) : ∃ fault,
      (runOn (commitHandler dispatcher.settings now) { after with
        outer := { after.outer.noting (.committed place) with diagnostics } }).1 = .error fault :=
    @commitHandler_fails { after with
        outer := { after.outer.noting (.committed place) with diagnostics } } now target
      dispatcher.settings place pursuing.attached.wellFormed
      (Nat.lt_of_lt_of_le positive pursuing.attached.fresh) (pursuing.names ▸ unique) found
      (grows.targets targeted) (Nat.lt_of_lt_of_le old pursuing.attached.fresh)
      (pursuing.attached.apart old apart)
  unfold commitAt
  rw [runOn_bind, runOn_world]
  dsimp only
  rw [found]
  cases dispatcher.verbose with
  | true => exact fails _
  | false => exact fails after.outer.diagnostics

/-- No commit edits an anchor or a target that has been taken out of its parent. -/
theorem commits_refuse_detached (dispatcher : Dispatcher) (places : List Nat)
    (wellFormed : machine.outer.forest.WellFormed) (positive : 0 < machine.outer.forest.fresh)
    (unique : (machine.outer.handlers.map (·.interface.name)).Nodup) :
    RefusesDetached dispatcher places machine where
  anchor handler pending apart := commitRepeat_apart apart dispatcher.settings handler
  paragraph _ apart := removeParagraph_apart apart
  element _ apart := removeElement_apart apart
  repeated handler _ _ accepted _ member :=
    commitRepeat_takes wellFormed positive dispatcher.settings handler accepted member
  removed _ _ accepted := removeElement_takes wellFormed accepted
  away number old apart := by
    have kept := Keeps.forM (fun place (_ : place ∈ places) => (pursuing_frame positive).commitAt_keeps
      dispatcher (fun _ _ pursuing => pursuing.step pursuing.attached rfl rfl) place) machine (.refl wellFormed)
    exact kept.attached.apart old apart
  refused place member handler present target targeted old apart := by
    refine Fails.forM (fun other _ => (pursuing_frame positive).commitAt_keeps dispatcher
      (fun _ _ pursuing => pursuing.step pursuing.attached rfl rfl) other) member ?_ machine (.refl wellFormed)
    exact commitAt_fails dispatcher positive unique present targeted old apart

/-- Two paragraphs.  The first one is to be repeated, and both are to be removed. -/
def repeatedAndRemoved : Machine World :=
  ⟨sharing, World.ofPackage ⟨Node.ofTag Tag.body [createParagraph ["a".toList], createParagraph ["b".toList]],
    [], [], none, false⟩ [asked [⟨2, some [.dict 1], [2]⟩],
      { Handler.condition with duty := .display [2, 5] [] [] }] []⟩

theorem commits_refuse_detached_template :
    RefusesDetached plain [1] (runOn (commitAt plain 0) repeatedAndRemoved).2 ∧
      (runOn (commitAt plain 0) repeatedAndRemoved).1 = .ok () ∧
      ∃ fault, (runOn ([1].forM (commitAt plain))
        (runOn (commitAt plain 0) repeatedAndRemoved).2).1 = .error fault := by
  have refuses : RefusesDetached plain [1] (runOn (commitAt plain 0) repeatedAndRemoved).2 :=
    commits_refuse_detached plain [1] ⟨by decide +kernel, by decide +kernel⟩ (by decide +kernel)
      (by decide +kernel)
  refine ⟨refuses, by decide +kernel, ?_⟩
  refine refuses.refused 1 (by decide) { Handler.condition with duty := .display [2, 5] [] [] } ?_ 2
    (by decide) (by decide +kernel) (by decide +kernel)
  rfl

end Imprint.Engine
