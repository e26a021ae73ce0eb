import Imprint.Proofs.Action
/-! # Evaluations side by side

An evaluation reaches outside of the values only by calling directives.  So what ties two machines
together during every such call ties them together during the whole evaluation. -/
set_option autoImplicit false
namespace Imprint.Expression
open Imprint.Action

variable {σ τ : Type} {coupling : Coupling σ τ}

section Calls

variable {left : Nat → String → Arguments → Action σ Value}
  {right : Nat → String → Arguments → Action τ Value}
  (invoked : ∀ handler method arguments,
    coupling.Relates (left handler method arguments) (right handler method arguments))
include invoked

theorem applyDirectly_relates (callee : Callee) (arguments : Arguments) :
    coupling.Relates (applyDirectly left callee arguments) (applyDirectly right callee arguments) := by
  unfold applyDirectly
  split
  case h_9 handler method => exact invoked handler method arguments
  all_goals first
    | exact .lift _
    | exact .pure _

theorem sortKey_relates (key item : Value) :
    coupling.Relates (sortKey left key item) (sortKey right key item) := by
  unfold sortKey
  split
  · exact applyDirectly_relates invoked _ _
  · exact .lift _

theorem applyCallee_relates (callee : Callee) (arguments : Arguments) :
    coupling.Relates (applyCallee left callee arguments) (applyCallee right callee arguments) := by
  unfold applyCallee
  split
  · refine .bind (.lift _) fun (key, reverse) => .bind (.lift _) fun content => .bind (.lift _) fun _ => ?_
    refine .bind (.tryCatch (.bind (.mapM fun item => ?_) fun keyed => .lift _) fun fault => ?_) fun sorted => ?_
    · exact .bind (sortKey_relates invoked key item) fun _ => .pure _
    · exact .bind (.lift _) fun _ => .throw _
    · refine .bind (.lift _) fun added => .bind (.lift _) fun _ => ?_
      split
      · exact .bind (.throw _) fun _ => .pure _
      · exact .pure _
  · exact applyDirectly_relates invoked _ _

theorem callValue_relates (callee : Value) (arguments : Arguments) :
    coupling.Relates (callValue left callee arguments) (callValue right callee arguments) := by
  unfold callValue
  refine .bind (.lift _) fun _ => ?_
  split
  · exact .throw _
  · refine .tryCatch (applyCallee_relates invoked _ _) fun fault => ?_
    split
    · exact .pure _
    · exact .throw _
  · exact .throw _

end Calls

section Terms

/-- Two surroundings have the same names, and their directives go side by side. -/
structure Linked (coupling : Coupling σ τ) (left : Surroundings σ) (right : Surroundings τ) :
    Prop where
  sameScope : left.scope = right.scope
  invoked : ∀ handler method arguments,
    coupling.Relates (left.invoke handler method arguments) (right.invoke handler method arguments)

variable {left : Surroundings σ} {right : Surroundings τ}

mutual

theorem evaluate_relates (linked : Linked coupling left right) : (term : Term) →
    coupling.Relates (evaluate left term) (evaluate right term)
  | .literal value => by
      rw [evaluate, evaluate]
      exact .lift _
  | .name name => by
      rw [evaluate, evaluate, linked.sameScope]
      exact .pure _
  | .tuple parts => by
      rw [evaluate, evaluate]
      exact .bind (evaluateAll_relates linked parts) fun _ => .pure _
  | .list parts => by
      rw [evaluate, evaluate]
      exact .bind (evaluateAll_relates linked parts) fun _ => .lift _
  | .dict entries => by
      rw [evaluate, evaluate]
      exact .bind (evaluateEntries_relates linked entries) fun _ => .lift _
  | .attribute owner name => by
      rw [evaluate, evaluate]
      exact .bind (evaluate_relates linked owner) fun _ => .lift _
  | .item owner key => by
      by_cases sliced : ∃ start stop step, key = .slice start stop step
      case pos =>
        obtain ⟨start, stop, step, rfl⟩ := sliced
        rw [evaluate, evaluate]
        refine .bind (evaluate_relates linked owner) fun _ => ?_
        refine .bind (evaluate_relates linked start) fun _ => ?_
        refine .bind (evaluate_relates linked stop) fun _ => ?_
        exact .bind (evaluate_relates linked step) fun _ => .lift _
      case neg =>
        have plain : ∀ start stop step, key = .slice start stop step → False :=
          fun start stop step same => sliced ⟨start, stop, step, same⟩
        rw [evaluate.eq_8 _ _ _ plain, evaluate.eq_8 _ _ _ plain]
        refine .bind (evaluate_relates linked owner) fun _ => ?_
        exact .bind (evaluate_relates linked key) fun _ => .lift _
  | .slice start stop step => by
      rw [evaluate, evaluate]
      exact .throw _
  | .call callee arguments => by
      rw [evaluate, evaluate]
      refine .bind (evaluate_relates linked callee) fun _ => ?_
      refine .bind (evaluateArguments_relates linked _ arguments _) fun _ => ?_
      exact callValue_relates linked.invoked _ _
  | .filter operand name arguments => by
      rw [evaluate, evaluate]
      refine .bind (evaluate_relates linked operand) fun _ => ?_
      exact .bind (evaluateArguments_relates linked _ arguments _) fun _ => .lift _
  | .test operand name arguments => by
      rw [evaluate, evaluate]
      refine .bind (evaluate_relates linked operand) fun _ => ?_
      refine .bind (evaluateArguments_relates linked _ arguments _) fun _ => ?_
      exact .bind (.lift _) fun _ => .pure _
  | .negation operand => by
      rw [evaluate, evaluate]
      refine .bind (evaluate_relates linked operand) fun _ => ?_
      exact .bind (.lift _) fun _ => .pure _
  | .minus operand => by
      rw [evaluate, evaluate]
      exact .bind (evaluate_relates linked operand) fun _ => .lift _
  | .plus operand => by
      rw [evaluate, evaluate]
      exact .bind (evaluate_relates linked operand) fun _ => .lift _
  | .both first second => by
      rw [evaluate, evaluate]
      refine .bind (evaluate_relates linked first) fun _ => .bind (.lift _) fun holds => ?_
      cases holds with
      | true => exact evaluate_relates linked second
      | false => exact .pure _
  | .either first second => by
      rw [evaluate, evaluate]
      refine .bind (evaluate_relates linked first) fun _ => .bind (.lift _) fun holds => ?_
      cases holds with
      | true => exact .pure _
      | false => exact evaluate_relates linked second
  | .binary operation first second => by
      rw [evaluate, evaluate]
      refine .bind (evaluate_relates linked first) fun _ => ?_
      refine .bind (evaluate_relates linked second) fun _ => ?_
      split
      · exact .lift _
      · exact .lift _
  | .joined parts => by
      rw [evaluate, evaluate]
      exact .bind (evaluateAll_relates linked parts) fun _ => .lift _
  | .comparison first others => by
      rw [evaluate, evaluate]
      exact .bind (evaluate_relates linked first) fun _ => compareFrom_relates linked _ others
  | .conditional condition result otherwise => by
      rw [evaluate, evaluate]
      refine .bind (evaluate_relates linked condition) fun _ => .bind (.lift _) fun holds => ?_
      cases holds with
      | true => exact evaluate_relates linked result
      | false => exact evaluate_relates linked otherwise
  | .noElse line => by
      rw [evaluate, evaluate]
      exact .pure _

theorem evaluateAll_relates (linked : Linked coupling left right) : (terms : List Term) →
    coupling.Relates (evaluateAll left terms) (evaluateAll right terms)
  | [] => by
      rw [evaluateAll, evaluateAll]
      exact .pure _
  | term :: rest => by
      rw [evaluateAll, evaluateAll]
      refine .bind (evaluate_relates linked term) fun _ => ?_
      exact .bind (evaluateAll_relates linked rest) fun _ => .pure _

theorem evaluateEntries_relates (linked : Linked coupling left right) :
    (entries : List (Term × Term)) →
    coupling.Relates (evaluateEntries left entries) (evaluateEntries right entries)
  | [] => by
      rw [evaluateEntries, evaluateEntries]
      exact .pure _
  | (key, value) :: rest => by
      rw [evaluateEntries, evaluateEntries]
      refine .bind (evaluate_relates linked key) fun _ => ?_
      refine .bind (evaluate_relates linked value) fun _ => ?_
      exact .bind (evaluateEntries_relates linked rest) fun _ => .pure _

theorem compareFrom_relates (linked : Linked coupling left right) :
    (value : Value) → (others : List (Relation × Term)) →
    coupling.Relates (compareFrom left value others) (compareFrom right value others)
  | _, [] => by
      rw [compareFrom, compareFrom]
      exact .pure _
  | value, (relation, term) :: rest => by
      rw [compareFrom, compareFrom]
      refine .bind (evaluate_relates linked term) fun other => .bind (.lift _) fun holds => ?_
      cases holds with
      | true => exact compareFrom_relates linked other rest
      | false => exact .pure _

theorem evaluateArguments_relates (linked : Linked coupling left right) (label : String) :
    (arguments : List Argument) → (gathered : Gathered) →
    coupling.Relates (evaluateArguments left label arguments gathered)
      (evaluateArguments right label arguments gathered)
  | [], gathered => by
      rw [evaluateArguments, evaluateArguments]
      exact .pure _
  | .positional term :: rest, gathered => by
      rw [evaluateArguments, evaluateArguments]
      exact .bind (evaluate_relates linked term) fun _ => evaluateArguments_relates linked label rest _
  | .named name term :: rest, gathered => by
      rw [evaluateArguments, evaluateArguments]
      exact .bind (evaluate_relates linked term) fun _ => evaluateArguments_relates linked label rest _
  | .spread term :: rest, gathered => by
      rw [evaluateArguments, evaluateArguments]
      refine .bind (evaluate_relates linked term) fun _ => ?_
      exact .bind (.lift _) fun _ => evaluateArguments_relates linked label rest _
  | .spreadNamed term :: rest, gathered => by
      rw [evaluateArguments, evaluateArguments]
      refine .bind (evaluate_relates linked term) fun _ => ?_
      exact .bind (.lift _) fun _ => evaluateArguments_relates linked label rest _

end

end Terms

/-- Compiling an expression leaves the values alone, and does not depend on them. -/
theorem runOn_compile (letters : List Char) (store : Store) :
    runOn (compile letters) store = (translate letters, store) := by
  unfold compile
  cases translate letters <;> rfl

theorem run_eq (setting : Setting σ) (letters : List Char) :
    run setting letters = (do
      let program ← (compile letters : Heap Program)
      let scope ← lookUp setting.context setting.additional program.names []
      evaluate ⟨scope, setting.invoke⟩ program.term) :=
  rfl

theorem resolve_eq (setting : Setting σ) (expression : String) :
    resolve setting expression = (do
      if isBlankExpression expression then throw (.unresolved expression "empty expression")
      let value ← try run setting (Text.trim expression.toList) catch fault => throw (fault.resolving expression)
      if value.isUndefined then throw (.unresolved expression "expression is undefined")
      return value) :=
  rfl

section Resolving

variable {left : Nat → String → Arguments → Action σ Value} {right : Nat → String → Arguments → Action τ Value}
  {program : List Char → Action σ Program} {other : List Char → Action τ Program}

/-- What an expression resolves to is the same in equal contexts on machines that are tied together
during every directive it calls, and while its program is found. -/
theorem resolve_relates (context : Context) (additional : Scope) (expression : String)
    (invoked : ∀ handler method arguments,
      coupling.Relates (left handler method arguments) (right handler method arguments))
    (programs : ∀ letters, coupling.Relates (program letters) (other letters)) :
    coupling.Relates (resolveBy program ⟨context, additional, left⟩ expression)
      (resolveBy other ⟨context, additional, right⟩ expression) := by
  have evaluated : coupling.Relates (runBy program ⟨context, additional, left⟩ (Text.trim expression.toList))
      (runBy other ⟨context, additional, right⟩ (Text.trim expression.toList)) := by
    refine .bind (programs _) fun program => .bind (.lift _) fun scope => ?_
    have linked : Linked coupling ⟨scope, left⟩ ⟨scope, right⟩ := ⟨rfl, invoked⟩
    exact evaluate_relates linked program.term
  unfold resolveBy
  split
  · exact .bind (.throw _) fun _ => .bind (.tryCatch evaluated fun _ => .throw _) fun value => by
      split
      · exact .bind (.throw _) fun _ => .pure _
      · exact .pure _
  · refine .bind (.tryCatch evaluated fun _ => .throw _) fun value => ?_
    split
    · exact .bind (.throw _) fun _ => .pure _
    · exact .pure _

/-- A condition on machines, of which no second one is asked. -/
def alone (condition : Machine σ → Prop) (free : StoreFree condition) : Coupling σ σ where
  broken := condition
  together _ _ := False
  broken_store := free
  same_store := False.elim
  together_store _ := False.elim

/-- What every directive keeps is kept when an expression is resolved, whatever its program is. -/
theorem resolve_keeps {condition : Machine σ → Prop} (free : StoreFree condition)
    (invoked : ∀ handler method arguments, Keeps condition (left handler method arguments))
    (programs : ∀ letters, Keeps condition (program letters))
    (context : Context) (additional : Scope) (expression : String) :
    Keeps condition (resolveBy program ⟨context, additional, left⟩ expression) := by
  have related : (alone condition free).Relates (resolveBy program ⟨context, additional, left⟩ expression)
      (resolveBy program ⟨context, additional, left⟩ expression) :=
    resolve_relates context additional expression
      (fun handler method arguments => ⟨invoked handler method arguments, fun _ _ apart => apart.elim⟩)
      fun letters => ⟨programs letters, fun _ _ apart => apart.elim⟩
  exact related.stays

/-- How an expression gets to its program does not matter if it gets to the same one. -/
theorem runOn_resolve_same {setting : Setting σ} {expression : String} {other : List Char → Action σ Program}
    {start ready : Machine σ} (written : isBlankExpression expression = false)
    (same : runOn (program (Text.trim expression.toList)) start = runOn (other (Text.trim expression.toList)) ready) :
    runOn (resolveBy program setting expression) start = runOn (resolveBy other setting expression) ready := by
  have ran : runOn (runBy program setting (Text.trim expression.toList)) start =
      runOn (runBy other setting (Text.trim expression.toList)) ready := by
    unfold runBy
    rw [runOn_bind, runOn_bind, same]
  unfold resolveBy
  rw [written, if_neg Bool.false_ne_true, if_neg Bool.false_ne_true]
  dsimp only
  rw [runOn_bind, runOn_bind, runOn_tryCatch, runOn_tryCatch, ran]

end Resolving

end Imprint.Expression
