import Imprint.Proofs.DirectiveEffects
import Imprint.Proofs.TokenValues
/-! # Directives in the places of their tokens

A directive inside of a text is bound to no run, so evaluating it does not touch the trees.  Then its token is
removed where it first occurs by then.  That is its own place unless an earlier token has been left that repeats or
quotes it, or two pieces of text have come together that make up the token. -/
set_option autoImplicit false
namespace Imprint
open Imprint.Action Xml Document Node

namespace Engine

variable {dispatcher : Dispatcher} {builder : ProxyBuilder} {start : List Event} {paragraph : Nat}
  {letters token : List Char} {machine final : Machine World}

/-- The evaluation of the directive of a token. -/
def evaluateToken (dispatcher : Dispatcher) (builder : ProxyBuilder) (paragraph : Nat) (token : List Char) :
    Engine Bool :=
  evaluateDirective dispatcher builder (String.ofList (dispatcher.delimiters.strip token)) ⟨some paragraph, none, none⟩

theorem evaluateToken_worded (worded : Worded start paragraph letters machine) (token : List Char) :
    Worded start paragraph letters (runOn (evaluateToken dispatcher builder paragraph token) machine).2 := by
  obtain ⟨during, traces⟩ := evaluateDirective_leaves dispatcher builder
    (String.ofList (dispatcher.delimiters.strip token)) ⟨some paragraph, none, none⟩ machine
  have forest := traces.forest_unbound rfl
  obtain ⟨new, since⟩ := worded.since
  constructor
  · exact ⟨during ++ new, by rw [evaluateToken, traces.events, since, List.append_assoc]⟩
  · rw [evaluateToken, forest]
    exact worded.wellFormed
  · rw [evaluateToken, forest]
    exact worded.shown

/-- What is put in the place of a token after the attempt to evaluate its directive: nothing if that was possible;
otherwise the token stays. -/
def removedText (dispatcher : Dispatcher) (builder : ProxyBuilder) (paragraph : Nat) (token : List Char)
    (machine : Machine World) : Option (List Char) :=
  match (runOn (evaluateToken dispatcher builder paragraph token) machine).1 with
  | .ok true => some []
  | _ => none

/-- The tokens of a paragraph, and which of them are removed when they are gone through. -/
def removedTexts (dispatcher : Dispatcher) (builder : ProxyBuilder) (paragraph : Nat) :
    List (List Char) → Machine World → List (List Char × Option (List Char))
  | [], _ => []
  | token :: rest, machine => (token, removedText dispatcher builder paragraph token machine) ::
      removedTexts dispatcher builder paragraph rest (runOn (runToken dispatcher builder paragraph token) machine).2

theorem removedTexts_tokens (tokens : List (List Char)) : ∀ machine : Machine World,
    (removedTexts dispatcher builder paragraph tokens machine).map Prod.fst = tokens := by
  induction tokens with
  | nil => exact fun _ => rfl
  | cons token rest hypothesis => exact fun machine => congrArg (token :: ·) (hypothesis _)

/-- The tokens of a paragraph, and which of them are removed if its directives are evaluated now. -/
def removedInText (dispatcher : Dispatcher) (builder : ProxyBuilder) (paragraph : Nat) (machine : Machine World) :
    List (List Char × Option (List Char)) :=
  match runOn (dispatcher.delimiters.tokens (paragraphText
      ((machine.outer.forest.find? paragraph).getD (.mk paragraph (.comment "") "" [] "")))) machine.store with
  | (.ok tokens, store) => removedTexts dispatcher builder paragraph tokens { machine with store }
  | (.error _, _) => []

theorem runToken_worded (filled : token ≠ []) (kept : Kept letters) (worded : Worded start paragraph letters machine)
    (run : runOn (runToken dispatcher builder paragraph token) machine = (.ok (), final)) :
    Worded start paragraph ((removedText dispatcher builder paragraph token machine).elim letters
      fun new => Text.replace token new 1 letters) final := by
  have worded : Worded start paragraph letters (runOn (evaluateToken dispatcher builder paragraph token) machine).2 :=
    evaluateToken_worded worded token
  obtain ⟨evaluated, middle, evaluates, run⟩ := bind_ok run
  have evaluates : runOn (evaluateToken dispatcher builder paragraph token) machine = (.ok evaluated, middle) := evaluates
  rw [evaluates] at worded
  rw [removedText, evaluates]
  cases evaluated with
  | false =>
    cases run
    exact worded
  | true =>
    obtain ⟨content, made, replaced⟩ := replace_worded filled kept worded run
    obtain rfl : none = content := Except.ok.inj (congrArg Prod.fst made)
    exact replaced

theorem runTokens_worded (tokens : List (List Char)) (filled : ∀ token ∈ tokens, token ≠ []) :
    ∀ {letters : List Char} {machine final : Machine World}, Kept letters → Worded start paragraph letters machine →
      runOn (tokens.forM (runToken dispatcher builder paragraph)) machine = (.ok (), final) →
      Worded start paragraph (replacedInTurn (removedTexts dispatcher builder paragraph tokens machine) letters) final := by
  induction tokens with
  | nil =>
    intro letters machine final _ worded run
    cases run
    exact worded
  | cons token rest hypothesis =>
    intro letters machine final kept worded run
    obtain ⟨_, middle, evaluates, run⟩ := bind_ok run
    have isFilled := filled token List.mem_cons_self
    have worded := runToken_worded isFilled kept worded evaluates
    rw [removedTexts, evaluates, replacedInTurn]
    apply hypothesis (fun other member => filled other (List.mem_cons_of_mem _ member)) ?_ worded run
    unfold removedText
    split
    · exact kept.replace (fun _ member => absurd member List.not_mem_nil) isFilled
    · exact kept

/-- The directives inside of a paragraph make of its text what comes of removing, one after the other, the tokens
whose directives could be evaluated, each where it first occurs by then.  If no such token is found in front of its
own place, these tokens are missing from the text, the others stay where they are, and so do the gaps. -/
theorem runInline_text (opens : dispatcher.delimiters.opening ≠ .text "") {found : Node}
    (wellFormed : machine.outer.forest.WellFormed) (present : machine.outer.forest.find? paragraph = some found)
    (kept : Kept (paragraphText found))
    (run : runOn (runInline dispatcher builder paragraph) machine = (.ok (), final)) :
    ∃ after, final.outer.forest.find? paragraph = some after ∧
      paragraphText after = replacedInTurn (removedInText dispatcher builder paragraph machine) (paragraphText found) ∧
      ∃ before turns, turns.map Turn.change = removedInText dispatcher builder paragraph machine ∧
        paragraphText found = Turn.woven Turn.token before turns ∧
        (Turn.Undisturbed before turns → paragraphText after = Turn.woven Turn.value before turns) := by
  unfold runInline at run
  rw [runOn_bind, runOn_node present] at run
  dsimp only at run
  rw [runOn_bind, runOn_lift] at run
  cases scans : runOn (dispatcher.delimiters.tokens (paragraphText found)) machine.store with
  | mk outcome store =>
    rw [scans] at run
    cases outcome with
    | error fault => cases run
    | ok tokens =>
      obtain ⟨rfl, -⟩ := Delimiters.tokens_scanned scans
      have changes : removedInText dispatcher builder paragraph machine =
          removedTexts dispatcher builder paragraph tokens machine := by
        rw [removedInText, present, Option.getD_some, scans]
      have worded : Worded machine.outer.events paragraph (paragraphText found) machine :=
        ⟨⟨[], rfl⟩, wellFormed, found, present, rfl⟩
      obtain ⟨-, -, after, isAfter, text⟩ :=
        runTokens_worded tokens (Delimiters.tokens_filled opens scans) kept worded run
      obtain ⟨before, turns, same, woven, whole⟩ :=
        Delimiters.tokens_woven opens scans (removedTexts_tokens tokens machine)
      rw [changes]
      exact ⟨after, isAfter, text, before, turns, same, woven, fun undisturbed => text.trans (whole undisturbed)⟩

end Engine

end Imprint
