import Imprint.Proofs.EvaluatedTexts
import Imprint.Proofs.EventAccounting
/-! # Values that are left in place

Policies may leave the token of a value where it is: if the value is null, or if it cannot be evaluated.  A
paragraph all of whose tokens are left is not edited when its values are replaced. -/
set_option autoImplicit false
namespace Imprint
open Imprint.Action Xml Document Node

/-- Whether the policies leave a token in place after an attempt to evaluate it. -/
def Replacer.leaves (replacer : Replacer) : Engine.Outcome → Bool
  | .resolved .null => !replacer.replaceNull
  | .resolved _ => false
  | .unresolved .. => !replacer.leaveEmpty && !replacer.replaceUnresolved

/-- Whether nothing counts as a placeholder for line breaks. -/
def Replacer.NoBreaks (replacer : Replacer) : Prop :=
  ∀ store, (runOn replacer.lineBreak.truth store).1 = .ok false

namespace Engine

/-- Whether tokens of a paragraph are left in place when they are gone through, as far as that gets. -/
def leavesTokens (replacer : Replacer) (source : Nat → Engine Context) (paragraph : Nat) :
    List (List Char) → Machine World → Bool
  | [], _ => true
  | token :: rest, machine =>
      match runOn (attemptToken replacer source paragraph token) machine with
      | (.ok outcome, _) => replacer.leaves outcome &&
          leavesTokens replacer source paragraph rest (runOn (replaceToken replacer source paragraph token) machine).2
      | (.error _, _) => true

/-- Whether all tokens of a paragraph are left in place if its values are replaced now. -/
def leavesText (replacer : Replacer) (source : Nat → Engine Context) (paragraph : Nat) (machine : Machine World) : Bool :=
  let marked := (runOn (changeSession fun session =>
    { session with resolved := addOnce paragraph session.resolved }) machine).2
  match runOn (replacer.delimiters.tokens (paragraphText
      ((marked.outer.forest.find? paragraph).getD (.mk paragraph (.comment "") "" [] "")))) marked.store with
  | (.ok tokens, store) => leavesTokens replacer source paragraph tokens { marked with store }
  | (.error _, _) => true

/-- Whether all tokens of a paragraph are left in place when the values of some paragraphs are replaced one
after the other. -/
def leavesAmong (replacer : Replacer) (source : Nat → Engine Context) (paragraph : Nat) :
    List Nat → Machine World → Bool
  | [], _ => true
  | visited :: rest, machine =>
      (visited != paragraph || machine.outer.session.resolved.contains paragraph ||
        leavesText replacer source paragraph machine) &&
      leavesAmong replacer source paragraph rest (runOn (resolveOnce replacer source visited) machine).2

/-- Whether all tokens of a paragraph are left in place when the values of a document are replaced. -/
def leavesValues (replacer : Replacer) (source : Nat → Engine Context) (paragraph : Nat) (machine : Machine World) :
    Bool :=
  leavesAmong replacer source paragraph (paragraphsBelow machine.outer.forest machine.outer.template.roots) machine

variable {start : Forest} {valued known : Nat → Prop} {replacer : Replacer} {source : Nat → Engine Context}
  {paragraph : Nat} {machine final : Machine World}

/-- Nothing is put in the place of a token that is left. -/
theorem leaves_attended {outcome : Outcome} (leaves : replacer.leaves outcome = true) (token : List Char) :
    Keeps (Attended start valued known) (settleToken replacer paragraph token outcome) := by
  cases outcome with
  | resolved value =>
    cases value with
    | null =>
      have stays : replacer.replaceNull = false := by simpa [Replacer.leaves] using leaves
      unfold settleToken replaceResolved
      rw [stays]
      cases replacer.verbose with
      | true => exact attended_frame.say_keeps _
      | false => exact .pure _
    | _ => cases leaves
  | unresolved expression reason =>
    obtain ⟨notEmpty, noDefault⟩ : replacer.leaveEmpty = false ∧ replacer.replaceUnresolved = false := by
      simpa [Replacer.leaves] using leaves
    refine Keeps.bind (attended_frame.recordError_keeps _ _ _) fun _ => ?_
    unfold replaceUnresolved
    rw [notEmpty, noDefault]
    exact .pure _

/-- Where the values of a paragraph have been replaced, its tokens have been found and gone through. -/
theorem resolveParagraph_ok (noBreaks : replacer.NoBreaks)
    (run : runOn (resolveParagraph replacer source paragraph) machine = (.ok (), final)) :
    let marked := (runOn (changeSession fun session =>
      { session with resolved := addOnce paragraph session.resolved }) machine).2
    ∃ tokens scanned replaced judged, runOn (replacer.delimiters.tokens (paragraphText
        ((marked.outer.forest.find? paragraph).getD (.mk paragraph (.comment "") "" [] "")))) marked.store =
          (.ok tokens, scanned) ∧
      runOn (tokens.forM (replaceToken replacer source paragraph)) { marked with store := scanned } = (.ok (), replaced) ∧
      final = { replaced with store := judged } := by
  unfold resolveParagraph at run
  obtain ⟨_, marked, marks, run⟩ := bind_ok run
  obtain ⟨found, read, reads, run⟩ := bind_ok run
  obtain ⟨tokens, scanned, scans, run⟩ := bind_ok run
  obtain ⟨_, replaced, replaces, run⟩ := bind_ok run
  obtain ⟨truth, judged, judges, run⟩ := bind_ok run
  cases marks
  cases reads
  rw [runOn_lift] at scans judges
  obtain ⟨isScanned, rfl⟩ := Prod.mk.inj scans
  obtain ⟨isTrue, rfl⟩ := Prod.mk.inj judges
  rw [noBreaks] at isTrue
  cases isTrue
  cases run
  exact ⟨tokens, _, replaced, _, Prod.ext isScanned rfl, replaces, rfl⟩

section Sources

variable (sources : ∀ condition : Machine World → Prop, StoreFree condition → ∀ number, Keeps condition (source number))
include sources

theorem attemptToken_attended (token : List Char) :
    Keeps (Attended start valued known) (attemptToken replacer source paragraph token) :=
  attended_frame.attemptToken_keeps replacer (sources _ attended_frame.free paragraph) token
    fun _ _ attended => attended.noted _ rfl fun _ _ impossible => by cases impossible

theorem leavesTokens_attended (tokens : List (List Char)) : ∀ {machine final : Machine World},
    leavesTokens replacer source paragraph tokens machine = true → Attended start valued known machine →
    runOn (tokens.forM (replaceToken replacer source paragraph)) machine = (.ok (), final) →
    Attended start valued known final := by
  induction tokens with
  | nil =>
    intro machine final _ attended run
    cases run
    exact attended
  | cons token rest hypothesis =>
    intro machine final leaves attended run
    obtain ⟨_, middle, replaces, run⟩ := bind_ok run
    have whole := replaces
    rw [replaceToken_eq] at replaces
    obtain ⟨outcome, after, attempted, replaces⟩ := bind_ok replaces
    rw [leavesTokens, attempted, whole] at leaves
    obtain ⟨here, others⟩ := Bool.and_eq_true_iff.mp leaves
    have kept : Attended start valued known (runOn (attemptToken replacer source paragraph token) machine).2 :=
      attemptToken_attended sources token machine attended
    rw [attempted] at kept
    exact hypothesis others ((leaves_attended here token).leads after kept () middle replaces) run

/-- A paragraph is not edited if all its tokens are left. -/
theorem resolveParagraph_leaves (noBreaks : replacer.NoBreaks) (leaves : leavesText replacer source paragraph machine = true)
    (attended : Attended start valued known machine)
    (run : runOn (resolveParagraph replacer source paragraph) machine = (.ok (), final)) :
    Attended start valued known final := by
  obtain ⟨tokens, scanned, replaced, judged, scans, replaces, rfl⟩ := resolveParagraph_ok noBreaks run
  rw [leavesText, scans] at leaves
  have isReplaced : Attended start valued known replaced :=
    leavesTokens_attended sources tokens leaves (attended.same rfl rfl rfl) replaces
  exact isReplaced

/-- The replacement of values only edits paragraphs in which not all tokens are left. -/
theorem resolveOnce_attended (noBreaks : replacer.NoBreaks) {later : List Nat}
    (isValued : ∀ number, leavesAmong replacer source number (paragraph :: later) machine = false → valued number)
    (attended : Attended start valued known machine)
    (place : start.fresh ≤ paragraph ∨ start.Tagged Tag.paragraph paragraph)
    (run : runOn (resolveOnce replacer source paragraph) machine = (.ok (), final)) :
    Attended start valued known final := by
  unfold resolveOnce at run
  obtain ⟨_, _, reads, run⟩ := bind_ok run
  cases reads
  cases isResolved : machine.outer.session.resolved.contains paragraph with
  | true =>
    rw [isResolved] at run
    cases run
    exact attended
  | false =>
    rw [isResolved] at run
    cases leaves : leavesText replacer source paragraph machine with
    | true => exact resolveParagraph_leaves sources noBreaks leaves attended run
    | false =>
      have here : valued paragraph := isValued paragraph (by
        rw [leavesAmong, isResolved, leaves, bne_self_eq_false, Bool.or_false, Bool.or_false, Bool.false_and])
      have edits : EditsAt paragraph (Attended start valued known) := fun after _ _ attended found revised =>
        Tended.edit_paragraph attended (place.imp_right fun old => ⟨.inl here, attended.sparing.tagged old⟩) found revised
      have resolves := attended_frame.resolveParagraph_keeps edits replacer (sources _ attended_frame.free paragraph)
        (fun _ _ _ attended => attended.noted _ rfl fun _ _ impossible => by cases impossible)
        fun _ attended => attended.same rfl rfl rfl
      exact resolves.leads machine attended () final run

theorem visitParagraphs_attended (noBreaks : replacer.NoBreaks) (later : List Nat) : ∀ {machine final : Machine World},
    (∀ number, leavesAmong replacer source number later machine = false → valued number) →
    Attended start valued known machine →
    (∀ paragraph ∈ later, start.fresh ≤ paragraph ∨ start.Tagged Tag.paragraph paragraph) →
    runOn (visitParagraphs forest (resolveOnce replacer source) (fun _ _ => pure ()) later) machine = (.ok (), final) →
    Attended start valued known final := by
  induction later with
  | nil =>
    intro machine final _ attended _ run
    cases run
    exact attended
  | cons paragraph rest hypothesis =>
    intro machine final isValued attended places run
    obtain ⟨_, _, reads, run⟩ := bind_ok run
    cases reads
    obtain ⟨_, quiet, skips, run⟩ := bind_ok run
    have same : quiet = machine := by
      generalize runsOf machine.outer.forest paragraph = runs at skips
      induction runs with
      | nil =>
        cases skips
        rfl
      | cons first others skipped => exact skipped skips
    rw [same] at run
    obtain ⟨_, middle, resolves, run⟩ := bind_ok run
    refine hypothesis (fun number leaves => isValued number ?_)
      (resolveOnce_attended sources noBreaks isValued attended (places paragraph List.mem_cons_self) resolves)
      (fun other member => places other (List.mem_cons_of_mem _ member)) run
    rw [leavesAmong, resolves, leaves, Bool.and_false]

/-- When the values of a document are replaced, only paragraphs are edited in which not all tokens are left. -/
theorem resolveDocument_attended (noBreaks : replacer.NoBreaks)
    (isValued : ∀ number, leavesValues replacer source number machine = false → valued number)
    (attended : Attended start valued known machine)
    (run : runOn (resolveDocument replacer source) machine = (.ok (), final)) : Attended start valued known final := by
  rw [resolveDocument_eq] at run
  refine visitParagraphs_attended sources noBreaks _ isValued attended (fun paragraph member => ?_) run
  refine (Nat.lt_or_ge paragraph start.fresh).symm.imp_right ?_
  exact attended.sparing.tagged_origin (tagged_paragraphsBelow _ _ paragraph member)

end Sources

end Engine
end Imprint
