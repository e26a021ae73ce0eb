import Imprint.Proofs.EvaluatedTexts
import Imprint.Proofs.Independence
/-! # A stamper can be used again

Whatever happens while a template is stamped, no handler is added, taken away or turned into another one,
and at the end all of them forget what they were asked for.  Expressions are set up and compiled once and stay so,
which nothing depends on.  So a stamper whose handlers had nothing to forget is as good as new afterwards. -/
set_option autoImplicit false
namespace Imprint
open Imprint.Action Xml Document Engine

/-! ## What a stamper is built with -/

/-- The handlers are the ones a stamper was built with, apart from what they were asked for and are bound
to, and so are the names that every expression can use; what has been compiled was kept in order; the template has
certain sections. -/
structure Built (handlers : List Handler) (additional : Expression.Scope) (roots : List Nat) (world : World) : Prop where
  handlers : world.handlers.map forgetful = handlers
  additional : world.additional = additional
  prepared : Prepared world.configured world.compiled
  roots : world.template.roots = roots

/-- What a handler is asked for is forgotten. -/
theorem Asks.forgotten {forest : Forest} {anchor : Anchor} {before after : Duty} (asks : Asks forest anchor before after)
    (handler : Handler) : forgetful { handler with duty := after } = forgetful { handler with duty := before } := by
  cases asks <;> rfl

/-- A change at one place does not show in a view that does not see it there. -/
theorem map_modify_at {α β : Type} {view : α → β} {update : α → α} {items : List α} {index : Nat} {item : α}
    (present : items[index]? = some item) (same : view (update item) = view item) :
    (items.modify index update).map view = items.map view := by
  refine List.ext_getElem? fun place => ?_
  rw [List.getElem?_map, List.getElem?_map, List.getElem?_modify]
  cases there : items[place]? with
  | none => rfl
  | some other =>
    simp only [Option.map_some]
    split
    · rename_i here
      subst here
      obtain rfl := Option.some.inj (there.symm.trans present)
      exact congrArg some same
    · rfl

/-- Saving the comments leaves the sections where they are. -/
theorem Document.CommentStore.save_roots (store : CommentStore) (forest : Xml.Forest) (template : Template) :
    (store.save forest template).2.roots = template.roots := by
  unfold CommentStore.save
  split
  · rfl
  · split
    · split
      · rfl
      · rfl
    · rfl

namespace Engine

variable {handlers : List Handler} {additional : Expression.Scope} {roots : List Nat} {dispatcher : Dispatcher} {builder : ProxyBuilder}

theorem built_note (event : Event) : Keeps (fun machine => Built handlers additional roots machine.outer) (note event) :=
  fun _ built => ⟨built.handlers, built.additional, built.prepared, built.roots⟩

theorem built_proof (index : Nat) : StepProof index fun machine => Built handlers additional roots machine.outer where
  free _ _ built := built
  step machine after built step := by
    cases step with
    | @asked handler duty present asks =>
      exact ⟨(map_modify_at present (asks.forgotten handler)).trans built.handlers, built.additional, built.prepared, built.roots⟩
    | written => exact ⟨built.handlers, built.additional, built.prepared, built.roots⟩
    | blanked => exact ⟨built.handlers, built.additional, built.prepared, built.roots⟩
    | told => exact ⟨built.handlers, built.additional, built.prepared, built.roots⟩

theorem built_frame : CommitFrame 0 (fun _ => True) (fun _ => True) fun machine =>
    Built handlers additional roots machine.outer where
  free _ _ built := built
  called index := (built_proof index).callDirective_keeps fun _ => built_note _
  reports _ _ built reports := ⟨reports.handlers ▸ built.handlers, reports.additional.trans built.additional,
    reports.prepared built.prepared, (congrArg Template.roots reports.template).trans built.roots⟩
  fresh _ _ := Nat.zero_le _
  asked _ _ _ _ := ⟨fun _ => trivial, fun _ _ => trivial⟩
  planted _ _ built := ⟨built.handlers, built.additional, built.prepared, built.roots⟩
  edits _ _ _ _ _ built _ _ := ⟨built.handlers, built.additional, built.prepared, built.roots⟩
  moved _ _ _ _ _ built := ⟨built.handlers, built.additional, built.prepared, built.roots⟩
  detached _ _ _ built := ⟨built.handlers, built.additional, built.prepared, built.roots⟩
  emptied _ _ _ built := ⟨built.handlers, built.additional, built.prepared, built.roots⟩
  raised _ _ _ built := ⟨built.handlers, built.additional, built.prepared, built.roots⟩
  marked _ _ built := ⟨built.handlers, built.additional, built.prepared, built.roots⟩
  thrownAway verbose _ := inThrowawaySession_keeps (fun _ _ built => ⟨built.handlers, built.additional, built.prepared, built.roots⟩) verbose
  valued _ _ _ := built_note _
  repeated _ _ _ _ _ _ _ _ _ built := ⟨built.handlers, built.additional, built.prepared, built.roots⟩
  told _ _ built := ⟨built.handlers, built.additional, built.prepared, built.roots⟩

theorem built_walkFrame : WalkFrame dispatcher builder (fun _ => True) (fun _ => True) fun machine =>
    Built handlers additional roots machine.outer where
  free _ _ built := built
  evaluates expression anchor _ _ machine built := by
    refine built_frame.toFrame.evaluateDirective_keeps dispatcher builder (fun _ _ => built_note _)
      ⟨?_, built.additional, built.prepared, built.roots⟩
    rw [← built.handlers]
    exact List.map_map
  pending _ _ _ _ _ _ := trivial
  consumes _ _ built := ⟨built.handlers, built.additional, built.prepared, built.roots⟩
  edits _ _ _ _ _ built _ _ := ⟨built.handlers, built.additional, built.prepared, built.roots⟩
  runs _ _ _ _ _ _ := trivial

theorem loadComments_built : Keeps (fun machine => Built handlers additional roots machine.outer) loadComments := by
  refine Keeps.bind (fun _ built => built) fun world => ?_
  split
  · exact fun _ built => ⟨built.handlers, built.additional, built.prepared, built.roots⟩
  · exact .pure _

theorem walkThrough_built : Keeps (fun machine => Built handlers additional roots machine.outer)
    (walkThrough dispatcher builder) := by
  have joins : Keeps (fun machine => Built handlers additional roots machine.outer) joinSession := by
    refine fun machine built => ⟨?_, built.additional, built.prepared, built.roots⟩
    rw [← built.handlers]
    refine List.map_map.trans (List.map_congr_left fun handler _ => ?_)
    show forgetful handler.joined = forgetful handler
    unfold Handler.joined
    split <;> rfl
  have walks : Keeps (fun machine => Built handlers additional roots machine.outer)
      (evaluateDirectives dispatcher builder) :=
    Keeps.bind (fun _ built => built) fun _ => Keeps.bind (fun _ built => built) fun _ =>
      built_walkFrame.visitParagraphs_keeps _ fun _ _ => trivial
  exact Keeps.bind loadComments_built fun _ => Keeps.bind joins fun _ => walks

theorem runDirectives_built : Keeps (fun machine => Built handlers additional roots machine.outer)
    (runDirectives dispatcher builder) := by
  have commits : Keeps (fun machine => Built handlers additional roots machine.outer) (commitHandlers dispatcher) :=
    Keeps.bind (fun _ built => built) fun _ => .forM fun place _ =>
      built_frame.commitAt_keeps dispatcher (fun _ => built_note _) place
  have deletes (comment : Comment) : Keeps (fun machine => Built handlers additional roots machine.outer)
      (deleteComment comment) := by
    refine Keeps.bind (built_note _) fun _ => Keeps.bind (fun _ built => built) fun world => ?_
    split
    · exact .pure _
    · exact fun _ built => ⟨built.handlers, built.additional, built.prepared, built.roots⟩
  have saves : Keeps (fun machine => Built handlers additional roots machine.outer) saveComments := by
    intro machine built
    unfold saveComments
    rw [runOn_bind, runOn_world]
    dsimp only
    split
    · exact built
    · rename_i store held
      exact ⟨built.handlers, built.additional, built.prepared, (store.save_roots _ _).trans built.roots⟩
  rw [runDirectives_eq]
  exact Keeps.bind walkThrough_built fun _ => Keeps.bind commits fun _ => Keeps.bind (fun _ built => built) fun _ =>
    Keeps.bind (.forM fun comment _ => deletes comment) fun _ => saves

theorem resolveDocument_built (replacer : Replacer) {source : Nat → Engine Context}
    (sources : ∀ number, Keeps (fun machine => Built handlers additional roots machine.outer) (source number)) :
    Keeps (fun machine => Built handlers additional roots machine.outer) (resolveDocument replacer source) := by
  refine resolveDocument_keeps fun paragraph => Keeps.bind (fun _ built => built) fun world => ?_
  split
  · exact built_frame.resolveParagraph_keeps (fun _ _ _ built _ _ => ⟨built.handlers, built.additional, built.prepared, built.roots⟩)
      replacer (sources _) (fun _ _ => built_note _) (built_frame.marked _)
  · exact .pure _

theorem fill_built (stamper : Stamper) (data : Value) :
    Keeps (fun machine => Built handlers additional roots machine.outer) (fill stamper data) :=
  Keeps.bind runDirectives_built fun _ => resolveDocument_built _ fun _ =>
    Keeps.bind (.lift (fun _ _ built => built) _) fun _ => .pure _

/-! ## Forgetting -/

theorem forgetful_forgetful (handler : Handler) : forgetful (forgetful handler) = forgetful handler := by
  obtain ⟨interface, anchor, inSession, duty⟩ := handler
  cases duty <;> rfl

/-- Changing items at some places, perhaps more than once, changes those at these places. -/
theorem foldl_modify_getElem? {α : Type} {update : α → α} (again : ∀ item, update (update item) = update item)
    (places : List Nat) : ∀ (items : List α) (place : Nat),
    (places.foldl (fun items place => items.modify place update) items)[place]? =
      items[place]?.map (if place ∈ places then update else id) := by
  induction places with
  | nil =>
    intro items place
    simp
  | cons first rest hypothesis =>
    intro items place
    rw [List.foldl_cons, hypothesis, List.getElem?_modify]
    cases items[place]? with
    | none => rfl
    | some item =>
      by_cases here : first = place
      · subst here
        by_cases more : first ∈ rest
        · simp [more, again]
        · simp [more]
      · by_cases more : place ∈ rest
        · simp [here, more]
        · simp [here, more, Ne.symm here]

/-- Resetting the handler at a place makes it forgetful. -/
theorem runOn_resetHandler (index : Nat) (machine : Machine World) :
    ∃ journal, runOn (resetHandler index) machine = (.ok (), { machine with outer := { machine.outer with
      handlers := machine.outer.handlers.modify index forgetful, journal } }) := by
  unfold resetHandler
  rw [runOn_bind, runOn_world]
  dsimp only
  cases present : machine.outer.handlers[index]? with
  | none =>
    have missing := List.getElem?_eq_none_iff.mp present
    refine ⟨machine.outer.journal, ?_⟩
    rw [List.modify_eq_self missing]
    rfl
  | some handler =>
    dsimp only
    split
    · exact ⟨_, rfl⟩
    · exact ⟨_, rfl⟩

theorem runOn_forM_resetHandler (places : List Nat) : ∀ machine : Machine World,
    ∃ journal, runOn (places.forM resetHandler) machine = (.ok (), { machine with outer := { machine.outer with
      handlers := places.foldl (fun handlers place => handlers.modify place forgetful) machine.outer.handlers
      journal } }) := by
  induction places with
  | nil => exact fun machine => ⟨machine.outer.journal, rfl⟩
  | cons place rest hypothesis =>
    intro machine
    obtain ⟨journal, resets⟩ := runOn_resetHandler place machine
    obtain ⟨last, resetsRest⟩ := hypothesis { machine with outer := { machine.outer with
      handlers := machine.outer.handlers.modify place forgetful, journal } }
    refine ⟨last, ?_⟩
    show runOn (resetHandler place >>= fun _ => rest.forM resetHandler) machine = _
    rw [runOn_bind, resets]
    exact resetsRest

/-- Resetting makes all handlers forgetful, and changes nothing else but what handlers tell. -/
theorem runOn_resetHandlers (machine : Machine World) :
    ∃ journal, runOn resetHandlers machine = (.ok (), { machine with outer := { machine.outer with
      handlers := machine.outer.handlers.map forgetful, journal } }) := by
  obtain ⟨journal, resets⟩ := runOn_forM_resetHandler (List.range machine.outer.handlers.length) machine
  refine ⟨journal, ?_⟩
  have all : (List.range machine.outer.handlers.length).foldl
      (fun handlers place => handlers.modify place forgetful) machine.outer.handlers =
        machine.outer.handlers.map forgetful := by
    refine List.ext_getElem? fun place => ?_
    rw [foldl_modify_getElem? forgetful_forgetful, List.getElem?_map]
    by_cases known : place < machine.outer.handlers.length
    · rw [if_pos (List.mem_range.mpr known)]
    · rw [List.getElem?_eq_none (Nat.not_lt.mp known)]
      rfl
  rw [← all]
  exact resets

theorem stamp_eq_resetting (stamper : Stamper) (data : Value) :
    stamp stamper data = prepare stamper >>= fun _ => resetting (fill stamper data) := stamp_eq stamper data

/-- Resetting the handlers at the end changes nothing about how a run has ended. -/
theorem runOn_resetting {body : Engine Unit} {machine after : Machine World} {outcome : Except Fault Unit}
    (ran : runOn body machine = (outcome, after)) : ∃ journal, runOn (resetting body) machine =
      (outcome, { after with outer := { after.outer with handlers := after.outer.handlers.map forgetful, journal } }) := by
  obtain ⟨journal, resets⟩ := runOn_resetHandlers after
  refine ⟨journal, ?_⟩
  unfold resetting
  rw [runOn_bind, runOn_tryCatch, ran]
  cases outcome with
  | ok value => exact resets
  | error fault =>
    dsimp only
    rw [runOn_bind, resets]
    rfl

theorem resetting_ok {body : Engine Unit} {machine final : Machine World}
    (run : runOn (resetting body) machine = (.ok (), final)) : ∃ after journal, runOn body machine = (.ok (), after) ∧
      final = { after with outer := { after.outer with handlers := after.outer.handlers.map forgetful, journal } } := by
  cases reached : runOn body machine with
  | mk outcome after =>
    obtain ⟨journal, ran⟩ := runOn_resetting reached
    cases run.symm.trans ran
    exact ⟨after, journal, rfl, rfl⟩

theorem prepare_built (stamper : Stamper) : Keeps (fun machine => Built handlers additional roots machine.outer)
    (prepare stamper) := by
  refine Keeps.bind (fun _ built => ⟨built.handlers, built.additional, built.prepared, built.roots⟩) fun _ =>
    Keeps.bind loadComments_built fun _ => ?_
  split
  · exact Keeps.bind (fun _ built => built) fun _ => built_frame.say_keeps _
  · exact .pure _

/-- However stamping ends, the handlers and the names are those that the stamper was built with, what has been
compiled was kept in order, and the template has its sections. -/
theorem stamp_restores (stamper : Stamper) (data : Value) {machine : Machine World}
    (opened : Opened machine.outer.template machine.outer.forest) (built : Built handlers additional roots machine.outer) :
    (runOn (stamp stamper data) machine).2.outer.handlers = handlers ∧
      (runOn (stamp stamper data) machine).2.outer.additional = additional ∧
      Prepared (runOn (stamp stamper data) machine).2.outer.configured
        (runOn (stamp stamper data) machine).2.outer.compiled ∧
      (runOn (stamp stamper data) machine).2.outer.template.roots = roots := by
  have ready := prepare_built stamper machine built
  obtain ⟨read, _, _, prepared, -⟩ := prepare_reads stamper opened
  rw [prepared] at ready
  have filled := fill_built stamper data _ ready
  rw [stamp_eq_resetting, runOn_bind, prepared]
  cases reached : runOn (fill stamper data) { machine with outer := read } with
  | mk outcome middle =>
    rw [reached] at filled
    obtain ⟨journal, ran⟩ := runOn_resetting reached
    dsimp only
    rw [ran]
    exact ⟨filled.handlers, filled.additional, filled.prepared, filled.roots⟩

end Engine

/-! ## Calls of one stamper -/

/-- What a stamper keeps from one call to the next: its handlers, the names that are set up for every expression,
whether that has been done, and the expressions that have been compiled. -/
structure Memory where
  handlers : List Handler
  additional : Expression.Scope
  configured : Bool
  compiled : List Expression.Compiled

/-- A call of a stamper: the package that it opens, the data, and the values as they are then. -/
structure Job where
  package : Package
  data : Value
  store : Store

namespace Memory

/-- A stamper that has not been used yet. -/
def fresh (handlers : List Handler) (additional : Expression.Scope) : Memory :=
  ⟨handlers, additional, false, []⟩

/-- The machine that a call starts on. -/
def start (memory : Memory) (job : Job) : Machine World :=
  ⟨job.store, { World.ofPackage job.package memory.handlers memory.additional with
    configured := memory.configured
    compiled := memory.compiled }⟩

/-- A call of a stamper. -/
def stamped (memory : Memory) (stamper : Stamper) (job : Job) : Except Fault Unit × Machine World :=
  runOn (stamp stamper job.data) (memory.start job)

/-- What a stamper keeps of a call. -/
def after (stamper : Stamper) (memory : Memory) (job : Job) : Memory :=
  let world := (memory.stamped stamper job).2.outer
  ⟨world.handlers, world.additional, world.configured, world.compiled⟩

/-- A stamper that was built with some handlers and names has them still, its handlers have nothing to forget, and
what it has compiled was kept in order. -/
structure Rested (handlers : List Handler) (additional : Expression.Scope) (memory : Memory) : Prop where
  handlers : memory.handlers = handlers
  forgotten : ∀ handler ∈ memory.handlers, forgetful handler = handler
  additional : memory.additional = additional
  prepared : Prepared memory.configured memory.compiled

variable {handlers : List Handler} {additional : Expression.Scope} {memory : Memory}

/-- However a call ends, it leaves a stamper at rest if it was at rest. -/
theorem Rested.after (rested : Rested handlers additional memory) (stamper : Stamper) (job : Job) :
    Rested handlers additional (memory.after stamper job) := by
  have opened : Opened (memory.start job).outer.template (memory.start job).outer.forest :=
    World.ofPackage_opened job.package memory.handlers memory.additional
  have built : Built memory.handlers memory.additional (memory.start job).outer.template.roots
      (memory.start job).outer :=
    ⟨(List.map_congr_left rested.forgotten).trans (List.map_id' _), rfl, rested.prepared, rfl⟩
  obtain ⟨sameHandlers, sameAdditional, prepared, -⟩ := stamp_restores stamper job.data opened built
  have same : (memory.after stamper job).handlers = memory.handlers := sameHandlers
  exact ⟨same.trans rested.handlers, same ▸ rested.forgotten, sameAdditional.trans rested.additional, prepared⟩

end Memory

/-- A stamper where no option is set. -/
def Stamper.plain : Stamper :=
  ⟨.standard, Engine.plain, .ofRoot .null, false⟩

/-- A call for a paragraph with a comment around its only run. -/
def Job.ofComment (directive : String) : Job where
  package := ⟨Node.ofTag Tag.body [Node.ofTag Tag.paragraph [Engine.ofComment Tag.rangeStart [],
      createRun "a".toList none, Engine.ofComment Tag.rangeEnd [],
      Node.ofTag Tag.run [Engine.ofComment Tag.reference []]]], [], [],
    some (Node.ofTag Tag.comments [Engine.ofComment Tag.comment [createParagraph [directive.toList]]]), false⟩
  data := .null
  store := ⟨#[], 0⟩

/-- A call that asks for the removal of the paragraph and fails after that. -/
def Job.failing : Job :=
  .ofComment "[display_paragraph_if(false), 1/0]"

/-- A call that asks for nothing. -/
def Job.idle : Job :=
  .ofComment "display_paragraph_if(true)"

end Imprint
