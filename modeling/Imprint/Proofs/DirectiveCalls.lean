import Imprint.Proofs.EngineSteps
/-! # What a call of a directive can do

A call is noted.  Then it changes what one handler has been asked for, or the text of the run that its
handler is bound to, and nothing else.  Every frame of an evaluation is derived from this. -/
set_option autoImplicit false
namespace Imprint
open Imprint.Action Xml Document

/-- What a handler bound to an anchor can be asked for. -/
inductive Asks (forest : Forest) (anchor : Anchor) : Duty → Duty → Prop where
  | repetition {paragraph : Nat} (pending : List PendingRepeat) (items : Option (List Value))
      (bound : anchor.paragraph = some paragraph) :
      Asks forest anchor (.repeatParagraphs pending) (.repeatParagraphs (setPending
        ⟨paragraph, items, (commentRange forest paragraph
          (anchor.comment.map (·.id))).paragraphs.map Node.key⟩ pending))
  | paragraph {paragraph : Nat} (paragraphs rows tables : List Nat)
      (bound : anchor.paragraph = some paragraph) :
      Asks forest anchor (.display paragraphs rows tables)
        (.display (addOnce paragraph paragraphs) rows tables)
  | row {paragraph row : Nat} (paragraphs rows tables : List Nat)
      (bound : anchor.paragraph = some paragraph)
      (around : enclosing forest Tag.row paragraph = some row) :
      Asks forest anchor (.display paragraphs rows tables)
        (.display paragraphs (addOnce row rows) tables)
  | table {paragraph table : Nat} (paragraphs rows tables : List Nat)
      (bound : anchor.paragraph = some paragraph)
      (around : enclosing forest Tag.table paragraph = some table) :
      Asks forest anchor (.display paragraphs rows tables)
        (.display paragraphs rows (addOnce table tables))
  | record {target : Nat} (recorder : Recorder) (bound : anchor.paragraph = some target) :
      Asks forest anchor (.record recorder)
        (.record { recorder with targets := addOnce target recorder.targets })

/-- One step of a call of a directive of the handler with a place among the handlers. -/
inductive DirectiveStep (index : Nat) (world : World) : World → Prop where
  | asked {handler : Handler} {duty : Duty} (present : world.handlers[index]? = some handler)
      (asks : Asks world.forest handler.anchor handler.duty duty) :
      DirectiveStep index world { world with
        handlers := world.handlers.modify index fun other => { other with duty } }
  | written {handler : Handler} {run : Nat} (present : world.handlers[index]? = some handler)
      (duty : handler.duty = .replaceWord) (bound : handler.anchor.run = some run) (letters : List Char) :
      DirectiveStep index world { world with
        forest := world.forest.edit run fun node => setRunText node letters }
  | blanked {handler : Handler} {run : Nat} (present : world.handlers[index]? = some handler)
      (duty : handler.duty = .replaceWord) (bound : handler.anchor.run = some run) :
      DirectiveStep index world { world with forest := world.forest.edit run withoutText }
  | told (entry : JournalEntry) :
      DirectiveStep index world { world with journal := entry :: world.journal }

theorem modify_congr {α : Type} {items : List α} {index : Nat} {item : α} {first second : α → α}
    (present : items[index]? = some item) (same : first item = second item) :
    items.modify index first = items.modify index second := by
  refine List.ext_getElem? fun place => ?_
  rw [List.getElem?_modify, List.getElem?_modify]
  by_cases here : index = place
  · subst here
    rw [present]
    simp [same]
  · simp [here]

namespace Engine

variable {condition : Machine World → Prop}

/-- A condition that no step of a call changes. -/
structure StepProof (index : Nat) (condition : Machine World → Prop) : Prop where
  free : StoreFree condition
  step : ∀ (machine : Machine World) (after : World), condition machine →
    DirectiveStep index machine.outer after → condition { machine with outer := after }

section Calls

variable {machine : Machine World} {index : Nat}

theorem runOn_callDirective {handler : Handler}
    (present : machine.outer.handlers[index]? = some handler) (method : String)
    (arguments : Arguments) :
    runOn (callDirective index method arguments) machine =
      runOn (performDirective handler index method arguments >>= fun _ => pure Value.null)
        { machine with outer := machine.outer.noting (.called index method) } := by
  unfold callDirective
  rw [runOn_bind, runOn_note]
  dsimp only
  rw [runOn_bind, runOn_world]
  dsimp only
  rw [World.noting_handlers, present]

theorem runOn_callDirective_missing (missing : machine.outer.handlers[index]? = none)
    (method : String) (arguments : Arguments) :
    runOn (callDirective index method arguments) machine =
      (.ok .null, { machine with outer := machine.outer.noting (.called index method) }) := by
  unfold callDirective
  rw [runOn_bind, runOn_note]
  dsimp only
  rw [runOn_bind, runOn_world]
  dsimp only
  rw [World.noting_handlers, missing]
  rfl

end Calls

namespace StepProof

variable {index : Nat} (proof : StepProof index condition)
include proof

theorem asked_keeps {start : Machine World} {handler : Handler} {duty : Duty}
    {update : Handler → Handler} (present : start.outer.handlers[index]? = some handler)
    (asks : Asks start.outer.forest handler.anchor handler.duty duty)
    (updated : update handler = { handler with duty }) (holds : condition start) :
    condition (runOn (changeHandler index update) start).2 := by
  have same : start.outer.handlers.modify index update =
      start.outer.handlers.modify index fun other => { other with duty } :=
    modify_congr present updated
  show condition { start with
    outer := { start.outer with handlers := start.outer.handlers.modify index update } }
  rw [same]
  exact proof.step start _ holds (.asked present asks)

omit proof in
theorem unchanged_keeps {start : Machine World} {handler : Handler}
    {update : Handler → Handler} (present : start.outer.handlers[index]? = some handler)
    (unchanged : update handler = handler) (holds : condition start) :
    condition (runOn (changeHandler index update) start).2 := by
  have same : start.outer.handlers.modify index update = start.outer.handlers := by
    have identity : start.outer.handlers.modify index update =
        start.outer.handlers.modify index id := modify_congr present unchanged
    rw [identity, List.modify_id]
  show condition { start with
    outer := { start.outer with handlers := start.outer.handlers.modify index update } }
  rw [same]
  exact holds

theorem askRepeat_keeps (start : Machine World) {handler : Handler}
    {pending : List PendingRepeat} (present : start.outer.handlers[index]? = some handler)
    (duty : handler.duty = .repeatParagraphs pending) (items : Value) (holds : condition start) :
    condition (runOn (askRepeat index handler.anchor items) start).2 := by
  unfold askRepeat
  cases bound : handler.anchor.paragraph with
  | none => exact holds
  | some paragraph =>
    have asks (forest : Forest) (items : Option (List Value)) :
        Asks forest handler.anchor handler.duty (.repeatParagraphs (setPending
          ⟨paragraph, items, (commentRange forest paragraph
            (handler.anchor.comment.map (·.id))).paragraphs.map Node.key⟩ pending)) := by
      rw [duty]
      exact .repetition pending items bound
    dsimp only
    split
    · rw [runOn_bind, runOn_pure]
      dsimp only
      rw [runOn_bind, runOn_forest]
      exact proof.asked_keeps present (asks _ none) (by simp only [duty]) holds
    · rw [runOn_bind, runOn_lift]
      cases reached : runOn items.items start.store with
      | mk outcome store =>
        have holds' : condition { start with store } := proof.free start store holds
        cases outcome with
        | error fault => exact holds'
        | ok values =>
          dsimp only
          rw [runOn_bind, runOn_pure]
          dsimp only
          rw [runOn_bind, runOn_forest]
          exact proof.asked_keeps present (asks _ (some values)) (by simp only [duty]) holds'

theorem askDisplay_keeps (start : Machine World) {handler : Handler}
    {paragraphs rows tables : List Nat} (present : start.outer.handlers[index]? = some handler)
    (duty : handler.duty = .display paragraphs rows tables) (method : String) (value : Value)
    (holds : condition start) :
    condition (runOn (askDisplay index handler.anchor method value) start).2 := by
  unfold askDisplay
  rw [runOn_bind, runOn_lift]
  cases reached : runOn value.truth start.store with
  | mk outcome store =>
    have holds' : condition { start with store } := proof.free start store holds
    cases outcome with
    | error fault => exact holds'
    | ok truth =>
      cases truth with
      | true => exact holds'
      | false =>
        cases bound : handler.anchor.paragraph with
        | none => exact holds'
        | some paragraph =>
          -- What is asked for depends on the method; a row or a table may not be there.
          by_cases ofParagraph : method = "display_paragraph_if"
          · subst ofParagraph
            have asks : Asks start.outer.forest handler.anchor handler.duty
                (.display (addOnce paragraph paragraphs) rows tables) :=
              duty ▸ .paragraph paragraphs rows tables bound
            exact proof.asked_keeps present asks (by simp only [duty]) holds'
          by_cases ofRow : method = "display_table_row_if"
          · subst ofRow
            cases around : enclosing start.outer.forest Tag.row paragraph with
            | none =>
              refine unchanged_keeps present ?_ holds'
              simp only [duty, around]
              rw [← duty]
            | some row =>
              have asks : Asks start.outer.forest handler.anchor handler.duty
                  (.display paragraphs (addOnce row rows) tables) :=
                duty ▸ .row paragraphs rows tables bound around
              exact proof.asked_keeps present asks (by simp only [duty, around]) holds'
          · cases around : enclosing start.outer.forest Tag.table paragraph with
            | none =>
              refine unchanged_keeps present ?_ holds'
              simp only [duty, around]
              rw [← duty]
            | some table =>
              have asks : Asks start.outer.forest handler.anchor handler.duty
                  (.display paragraphs rows (addOnce table tables)) :=
                duty ▸ .table paragraphs rows tables bound around
              exact proof.asked_keeps present asks (by simp only [duty, around]) holds'

theorem writeRun_keeps (start : Machine World) {handler : Handler} {run : Nat}
    (present : start.outer.handlers[index]? = some handler) (duty : handler.duty = .replaceWord)
    (bound : handler.anchor.run = some run) (letters : List Char) (holds : condition start) :
    condition (runOn (writeRun run letters) start).2 := by
  unfold writeRun
  cases requireWritable letters with
  | ok _ => exact proof.step start _ holds (.written present duty bound letters)
  | error fault => exact proof.step start _ holds (.blanked present duty bound)

theorem replaceWord_keeps (start : Machine World) {handler : Handler}
    (present : start.outer.handlers[index]? = some handler) (duty : handler.duty = .replaceWord) (value : Value) (holds : condition start) :
    condition (runOn (replaceWord handler.anchor value) start).2 := by
  unfold replaceWord
  cases bound : handler.anchor.run with
  | none => cases value <;> exact holds
  | some run =>
    have written : condition
        (runOn ((liftM value.plain : Engine (List Char)) >>= fun letters => writeRun run letters)
          start).2 := by
      rw [runOn_bind, runOn_lift]
      cases reached : runOn value.plain start.store with
      | mk outcome store =>
        have holds' : condition { start with store } := proof.free start store holds
        cases outcome with
        | error fault => exact holds'
        | ok letters => exact proof.writeRun_keeps { start with store } present duty bound letters holds'
    cases value with
    | null => exact holds
    | _ => exact written

theorem recordCall_keeps (start : Machine World) {handler : Handler}
    {recorder : Recorder} (present : start.outer.handlers[index]? = some handler)
    (duty : handler.duty = .record recorder) (method : String) (values : List Value)
    (holds : condition start) :
    condition (runOn (recordCall index handler.anchor recorder method values) start).2 := by
  have told (entry : JournalEntry) : Keeps condition (tell entry) := fun machine holds =>
    proof.step machine _ holds (.told entry)
  have read (key : Nat) : Keeps condition (node key) := fun _ holds => holds
  have readText (key : Nat) : Keeps condition (textOf key) := fun _ holds => holds
  unfold recordCall
  cases bound : handler.anchor.paragraph with
  | none =>
    refine Keeps.bind (.pure _) (fun paragraph => ?_) start holds
    dsimp only
    split
    · exact Keeps.bind (read _) fun _ => Keeps.bind (.pure _) fun _ => told _
    · exact Keeps.bind (.pure _) fun _ => told _
  | some paragraph =>
    have asks : Asks start.outer.forest handler.anchor handler.duty
        (.record { recorder with targets := addOnce paragraph recorder.targets }) :=
      duty ▸ .record recorder bound
    refine Keeps.after (runOn_changeHandler index _ start) ?_ (proof.asked_keeps present asks rfl holds)
    refine Keeps.bind (readText paragraph) fun text => ?_
    dsimp only
    split
    · exact Keeps.bind (read _) fun _ => Keeps.bind (.pure _) fun _ => told _
    · exact Keeps.bind (.pure _) fun _ => told _

theorem performDirective_keeps {handler : Handler} (start : Machine World)
    (present : start.outer.handlers[index]? = some handler) (method : String)
    (arguments : Arguments) (holds : condition start) :
    condition (runOn (performDirective handler index method arguments) start).2 := by
  have withArgument {label parameter : String} {next : Value → Engine Unit}
      (called : ∀ (value : Value) (store : Store), condition { start with store } →
        condition (runOn (next value) { start with store }).2) :
      condition (runOn (soleArgument label parameter arguments >>= next) start).2 := by
    obtain ⟨outcome, store, argued⟩ : ∃ outcome store,
        runOn (soleArgument label parameter arguments) start =
          (outcome, { start with store }) := by
      unfold soleArgument
      dsimp only
      rw [runOn_bind, runOn_lift]
      cases runOn (Signature.bind _ _) start.store with
      | mk outcome store => cases outcome <;> exact ⟨_, store, rfl⟩
    have holds' : condition { start with store } := proof.free start store holds
    rw [runOn_bind, argued]
    cases outcome with
    | error fault => exact holds'
    | ok value => exact called value store holds'
  unfold performDirective
  dsimp only
  cases duty : handler.duty with
  | repeatParagraphs pending =>
    exact withArgument fun value store holds =>
      proof.askRepeat_keeps { start with store } present duty value holds
  | display paragraphs rows tables =>
    exact withArgument fun value store holds =>
      proof.askDisplay_keeps { start with store } present duty method value holds
  | replaceWord =>
    exact withArgument fun value store holds =>
      proof.replaceWord_keeps { start with store } present duty value holds
  | record recorder =>
    dsimp only
    rw [runOn_bind, runOn_lift]
    cases bound : runOn ((⟨"record", [], true, false⟩ : Signature).bind arguments) start.store with
    | mk outcome store =>
      have holds' : condition { start with store } := proof.free start store holds
      cases outcome with
      | error fault => exact holds'
      | ok binding =>
        exact proof.recordCall_keeps { start with store } present duty method binding.rest holds'

/-- What holds once a call has been noted holds after it. -/
theorem callDirective_after (method : String) (arguments : Arguments)
    {start : Machine World} (noted : condition (runOn (note (.called index method)) start).2) :
    condition (runOn (callDirective index method arguments) start).2 := by
  rw [runOn_note] at noted
  cases present : start.outer.handlers[index]? with
  | none =>
    rw [runOn_callDirective_missing present]
    exact noted
  | some handler =>
    have after := proof.performDirective_keeps
      ⟨start.store, start.outer.noting (.called index method)⟩ present method arguments noted
    rw [runOn_callDirective present, runOn_bind]
    cases performed : runOn (performDirective handler index method arguments)
        { start with outer := start.outer.noting (.called index method) } with
    | mk outcome last =>
      rw [performed] at after
      cases outcome <;> exact after

theorem callDirective_keeps (noted : ∀ method, Keeps condition (note (.called index method)))
    (method : String) (arguments : Arguments) :
    Keeps condition (callDirective index method arguments) :=
  fun machine holds => proof.callDirective_after method arguments (noted method machine holds)

end StepProof

end Engine
end Imprint
