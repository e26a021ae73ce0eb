import Imprint.Proofs.CompiledExpressions
import Imprint.Proofs.DirectiveCalls
import Imprint.Proofs.RunContent
/-! # What a part of a run keeps

A condition is kept while a paragraph is resolved, or a directive is evaluated, if it is kept by every
call of a directive, by the notes that are taken, by what is only reported, and by edits of the
paragraph. -/
set_option autoImplicit false
namespace Imprint
open Imprint.Action Xml Document

/-- What a step leaves alone that only reports. -/
structure Reports (before after : World) : Prop where
  forest : after.forest = before.forest
  template : after.template = before.template
  handlers : after.handlers = before.handlers
  additional : after.additional = before.additional
  events : after.events = before.events
  comments : after.session.comments = before.session.comments
  consumed : after.session.consumed = before.session.consumed
  resolved : after.session.resolved = before.session.resolved
  errors : before.session.errors <+: after.session.errors
  prepared : Prepared before.configured before.compiled → Prepared after.configured after.compiled

theorem Reports.refl (world : World) : Reports world world :=
  ⟨rfl, rfl, rfl, rfl, rfl, rfl, rfl, rfl, List.prefix_rfl, id⟩

/-- What is kept of expressions is kept in order. -/
theorem Reports.readied (world : World) (expression : String) : Reports world (world.readied expression) := by
  have prepared (prepared : Prepared world.configured world.compiled) := prepared.readied expression
  rw [World.readied_only]
  exact ⟨rfl, rfl, rfl, rfl, rfl, rfl, rfl, rfl, List.prefix_rfl, prepared⟩

/-- Whether a token is found in a text. -/
def Delimiters.Finds (delimiters : Delimiters) (letters token : List Char) : Prop :=
  ∃ tokens store after, runOn (delimiters.tokens letters) store = (.ok tokens, after) ∧ token ∈ tokens

namespace Engine

/-- An attempt to evaluate a token of a paragraph. -/
def attemptToken (replacer : Replacer) (source : Nat → Engine Context) (paragraph : Nat) (token : List Char) :
    Engine Outcome := do
  let context ← source paragraph
  let expression := String.ofList (replacer.delimiters.strip token)
  attempt replacer.failing context expression (.value paragraph expression)

/-- What is done with a token after the attempt to evaluate it. -/
def settleToken (replacer : Replacer) (paragraph : Nat) (token : List Char) : Outcome → Engine Unit
  | .resolved value => replaceResolved replacer paragraph token value
  | .unresolved expression reason => do
      recordError expression reason "value expression"
      replaceUnresolved replacer paragraph token

theorem replaceToken_eq (replacer : Replacer) (source : Nat → Engine Context) (paragraph : Nat) (token : List Char) :
    replaceToken replacer source paragraph token =
      attemptToken replacer source paragraph token >>= settleToken replacer paragraph token := by
  unfold replaceToken attemptToken
  refine Eq.trans ?_ (bind_assoc _ _ _).symm
  refine bind_congr fun context => bind_congr fun outcome => ?_
  cases outcome <;> rfl

/-- A condition that calls of directives and reports keep. -/
structure Frame (condition : Machine World → Prop) : Prop where
  free : StoreFree condition
  called : ∀ index method arguments, Keeps condition (callDirective index method arguments)
  reports : ∀ (machine : Machine World) (after : World), condition machine →
    Reports machine.outer after → condition { machine with outer := after }

/-- Two frames together. -/
theorem Frame.both {first second : Machine World → Prop} (frame : Frame first) (other : Frame second) :
    Frame fun machine => first machine ∧ second machine where
  free machine store holds := ⟨frame.free machine store holds.1, other.free machine store holds.2⟩
  called index method arguments machine holds :=
    ⟨frame.called index method arguments machine holds.1, other.called index method arguments machine holds.2⟩
  reports machine after holds reports :=
    ⟨frame.reports machine after holds.1 reports, other.reports machine after holds.2 reports⟩

/-- A condition that edits of a paragraph keep which go no further than into its runs. -/
def EditsAt (paragraph : Nat) (condition : Machine World → Prop) : Prop :=
  ∀ (machine : Machine World) (node changed : Node), condition machine →
    machine.outer.forest.find? paragraph = some node →
    (∀ touched, Replacer.MayCut touched node → Replacer.Changed touched node changed) →
    condition { machine with outer := { machine.outer with
      forest := machine.outer.forest.edit paragraph fun _ => changed } }

variable {condition : Machine World → Prop} {paragraph : Nat}

theorem edit_missing {forest : Forest} (missing : forest.find? paragraph = none)
    (change : Node → Node) : forest.edit paragraph change = forest := by
  simp only [Forest.edit, missing]

theorem edit_found {forest : Forest} {node : Node} (found : forest.find? paragraph = some node)
    (change : Node → Node) : forest.edit paragraph change =
      forest.edit paragraph fun _ => change node := by
  simp only [Forest.edit, found]

/-- Putting content into a paragraph keeps what edits of the paragraph keep. -/
theorem replace_keeps (free : StoreFree condition) (edits : EditsAt paragraph condition)
    (replacer : Replacer) (wanted : List Char) (content : Value) :
    Keeps condition (replace replacer paragraph wanted content) := by
  intro machine holds
  cases found : machine.outer.forest.find? paragraph with
  | some node =>
    rw [runOn_replace found]
    cases reached : runOn (replacer.replaceIn node wanted content) machine.store with
    | mk outcome store =>
      have holds' : condition { machine with store } := free machine store holds
      cases outcome with
      | error fault => exact holds'
      | ok changed =>
        exact edits { machine with store } node changed holds' found fun touched may =>
          replacer.replaceIn_changed may wanted content reached
  | none =>
    -- Without the paragraph an empty node is read, and nothing is written.
    unfold replace
    rw [runOn_bind]
    show condition (runOn (liftM _ >>= fun changed => changeForest fun forest =>
      forest.edit paragraph fun _ => changed) machine).2
    rw [runOn_bind, runOn_lift]
    cases reached : runOn _ machine.store with
    | mk outcome store =>
      have holds' : condition { machine with store } := free machine store holds
      cases outcome with
      | error fault => exact holds'
      | ok changed =>
        dsimp only
        rw [runOn_changeForest]
        dsimp only
        rw [edit_missing found]
        exact holds'

namespace Frame

variable (frame : Frame condition)
include frame

theorem say_keeps (message : List Char) : Keeps condition (say message) :=
  fun machine holds => frame.reports machine _ holds ⟨rfl, rfl, rfl, rfl, rfl, rfl, rfl, rfl, List.prefix_rfl, id⟩

theorem recordError_keeps (expression reason action : String) :
    Keeps condition (recordError expression reason action) := by
  unfold recordError
  refine Keeps.bind (fun machine holds => ?_) fun _ =>
    Keeps.bind (fun _ holds => holds) fun world => ?_
  · exact frame.reports machine _ holds ⟨rfl, rfl, rfl, rfl, rfl, rfl, rfl, rfl, List.prefix_append _ _, id⟩
  · cases world.session.verbose with
    | true => exact frame.say_keeps _
    | false => exact .pure _

theorem resolve_keeps (context : Context) (expression : String) :
    Keeps condition (resolve context expression) := by
  intro machine holds
  rw [runOn_resolve]
  exact Expression.resolve_keeps frame.free frame.called (fun _ => .lift frame.free _) context _ expression _
    (frame.reports machine _ holds (.readied machine.outer expression))

/-- An attempt notes at its end whether it succeeded. -/
theorem attempt_notes (failing : Bool) (context : Context) (expression : String)
    (event : Bool → Event) {start : Machine World} (holds : condition start) :
    ∃ (middle : Machine World) (succeeded : Bool), condition middle ∧
      (runOn (attempt failing context expression event) start).2 =
        { middle with outer := middle.outer.noting (event succeeded) } ∧
      ∀ outcome, (runOn (attempt failing context expression event) start).1 = .ok outcome →
        (succeeded = true ↔ ∃ value, outcome = .resolved value) := by
  have kept := frame.resolve_keeps context expression start holds
  unfold attempt
  rw [runOn_tryCatch, runOn_bind]
  cases reached : runOn (resolve context expression) start with
  | mk outcome middle =>
    rw [reached] at kept
    cases outcome with
    | ok value =>
      refine ⟨middle, true, kept, rfl, ?_⟩
      rintro outcome ⟨⟩
      exact ⟨fun _ => ⟨value, rfl⟩, fun _ => rfl⟩
    | error fault =>
      dsimp only
      rw [runOn_bind, runOn_note]
      refine ⟨middle, false, kept, ?_, ?_⟩
      · cases fault with
        | unresolved expression reason => cases failing <;> rfl
        | _ => rfl
      · intro outcome accepted
        cases fault with
        | unresolved expression reason =>
          cases failing
          · cases accepted
            constructor
            · intro impossible
              cases impossible
            · rintro ⟨value, ⟨⟩⟩
          · cases accepted
        | _ => cases accepted

theorem attempt_keeps (failing : Bool) (context : Context) (expression : String)
    {event : Bool → Event} (noted : ∀ succeeded, Keeps condition (note (event succeeded))) :
    Keeps condition (attempt failing context expression event) := by
  intro start holds
  obtain ⟨middle, succeeded, kept, final, -⟩ :=
    frame.attempt_notes failing context expression event holds
  rw [final]
  exact noted succeeded middle kept

theorem attemptToken_keeps (replacer : Replacer) {source : Nat → Engine Context}
    (sources : Keeps condition (source paragraph)) (token : List Char)
    (noted : ∀ succeeded, Keeps condition (note (.value paragraph
      (String.ofList (replacer.delimiters.strip token)) succeeded))) :
    Keeps condition (attemptToken replacer source paragraph token) :=
  Keeps.bind sources fun context => frame.attempt_keeps _ context _ noted

section Edits

variable (edits : EditsAt paragraph condition)
include edits

omit frame in
theorem replaceLineBreaks_keeps (replacer : Replacer) :
    Keeps condition (replaceLineBreaks replacer paragraph) := by
  unfold replaceLineBreaks
  split
  · rename_i wanted
    intro machine holds
    rw [runOn_bind]
    cases found : machine.outer.forest.find? paragraph with
    | some node =>
      rw [runOn_node found]
      dsimp only
      split
      · rename_i broken reached
        rw [runOn_changeForest, edit_found found]
        exact edits machine node broken holds found fun touched may => Replacer.breakLines_changed may reached
      · exact holds
    | none =>
      rw [runOn_node_missing found]
      dsimp only
      split
      · rw [runOn_changeForest, edit_missing found]
        exact holds
      · exact holds
  · exact .pure _
  · exact .throw _

theorem replaceValue_keeps (replacer : Replacer) (token : List Char) (renderer : Renderer)
    (value : Value) : Keeps condition (replaceValue replacer paragraph token renderer value) := by
  refine Keeps.bind (.lift frame.free _) fun content =>
    Keeps.bind (replace_keeps frame.free edits replacer token content) fun _ => ?_
  cases replacer.verbose with
  | true => exact Keeps.bind (.lift frame.free _) fun _ => frame.say_keeps _
  | false => exact .pure _

theorem replaceResolved_keeps (replacer : Replacer) (token : List Char) (value : Value) :
    Keeps condition (replaceResolved replacer paragraph token value) := by
  unfold replaceResolved
  split
  · cases replacer.replaceNull with
    | true => exact frame.replaceValue_keeps edits replacer token _ _
    | false =>
      cases replacer.verbose with
      | true => exact frame.say_keeps _
      | false => exact .pure _
  · exact frame.replaceValue_keeps edits replacer token _ _

theorem replaceUnresolved_keeps (replacer : Replacer) (token : List Char) :
    Keeps condition (replaceUnresolved replacer paragraph token) := by
  unfold replaceUnresolved
  split
  · exact replace_keeps frame.free edits replacer token _
  · split
    · exact replace_keeps frame.free edits replacer token _
    · exact .pure _

theorem settleToken_keeps (replacer : Replacer) (token : List Char) (outcome : Outcome) :
    Keeps condition (settleToken replacer paragraph token outcome) := by
  cases outcome with
  | resolved value => exact frame.replaceResolved_keeps edits replacer token value
  | unresolved expression reason =>
    exact Keeps.bind (frame.recordError_keeps _ _ _) fun _ =>
      frame.replaceUnresolved_keeps edits replacer token

theorem replaceToken_keeps (replacer : Replacer) {source : Nat → Engine Context}
    (sources : Keeps condition (source paragraph)) (token : List Char)
    (noted : ∀ succeeded, Keeps condition (note (.value paragraph
      (String.ofList (replacer.delimiters.strip token)) succeeded))) :
    Keeps condition (replaceToken replacer source paragraph token) := by
  rw [replaceToken_eq]
  exact Keeps.bind (frame.attemptToken_keeps replacer sources token noted)
    (frame.settleToken_keeps edits replacer token)

/-- Only the tokens are evaluated that the paragraph has at the beginning. -/
theorem resolveParagraph_after (replacer : Replacer) {source : Nat → Engine Context}
    (sources : Keeps condition (source paragraph))
    (marked : Keeps condition (changeSession fun session =>
      { session with resolved := addOnce paragraph session.resolved }))
    {machine : Machine World} (holds : condition machine)
    (noted : ∀ found, machine.outer.forest.find? paragraph = some found →
      ∀ token, replacer.delimiters.Finds (paragraphText found) token → ∀ succeeded,
        Keeps condition (note (.value paragraph
          (String.ofList (replacer.delimiters.strip token)) succeeded))) :
    condition (runOn (resolveParagraph replacer source paragraph) machine).2 := by
  have rest (letters : List Char) (noted : ∀ token, replacer.delimiters.Finds letters token →
      ∀ succeeded, Keeps condition (note (.value paragraph
        (String.ofList (replacer.delimiters.strip token)) succeeded))) :
      Keeps condition ((liftM (replacer.delimiters.tokens letters) : Engine (List (List Char))) >>=
        fun tokens => tokens.forM (replaceToken replacer source paragraph) >>= fun _ => do
          if ← replacer.lineBreak.truth then replaceLineBreaks replacer paragraph) := by
    intro middle ready
    rw [runOn_bind, runOn_lift]
    cases scanned : runOn (replacer.delimiters.tokens letters) middle.store with
    | mk outcome store =>
      have ready := frame.free _ store ready
      cases outcome with
      | error fault => exact ready
      | ok tokens =>
        refine Keeps.bind (.forM fun token member => ?_) (fun _ => ?_) _ ready
        · exact frame.replaceToken_keeps edits replacer sources token
            (noted token ⟨_, _, _, scanned, member⟩)
        · refine Keeps.bind (.lift frame.free _) fun truth => ?_
          cases truth with
          | true => exact replaceLineBreaks_keeps edits replacer
          | false => exact .pure _
  have ready := marked machine holds
  obtain ⟨middle, marks, sameForest⟩ : ∃ middle, runOn (changeSession fun session =>
      { session with resolved := addOnce paragraph session.resolved }) machine = (.ok (), middle) ∧
      middle.outer.forest = machine.outer.forest := ⟨_, runOn_changeSession _ machine, rfl⟩
  rw [marks] at ready
  unfold resolveParagraph
  rw [runOn_bind, marks]
  dsimp only
  rw [runOn_bind]
  cases found : middle.outer.forest.find? paragraph with
  | some node =>
    rw [runOn_node found]
    exact rest _ (noted node (sameForest ▸ found)) _ ready
  | none =>
    -- The text of a node that is not there holds no tokens.
    rw [runOn_node_missing found]
    refine rest [] (fun token finds => ?_) _ ready
    obtain ⟨tokens, store, after, scanned, member⟩ := finds
    have nothing : runOn (replacer.delimiters.tokens []) store = (.ok [], store) := rfl
    rw [nothing] at scanned
    cases scanned
    cases member

theorem resolveParagraph_keeps (replacer : Replacer) {source : Nat → Engine Context}
    (sources : Keeps condition (source paragraph))
    (noted : ∀ expression succeeded, Keeps condition (note (.value paragraph expression succeeded)))
    (marked : Keeps condition (changeSession fun session =>
      { session with resolved := addOnce paragraph session.resolved })) :
    Keeps condition (resolveParagraph replacer source paragraph) := fun _ holds =>
  frame.resolveParagraph_after edits replacer sources marked holds fun _ _ _ _ succeeded =>
    noted _ succeeded

end Edits

end Frame

end Engine
end Imprint
