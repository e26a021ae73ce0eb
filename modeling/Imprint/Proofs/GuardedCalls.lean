import Imprint.Proofs.Evaluation
/-! # Calls that are guarded

An evaluation works its way to one call after the other.  What it does depends on what surrounds it only through
these calls, and each of them is refused if an undefined value is among its arguments: the refusal ends the whole
evaluation, at any depth. -/
set_option autoImplicit false
namespace Imprint

namespace Expression
open Imprint.Action

variable {σ : Type}

/-! ## Reached calls -/

/-- A call that is about to be made: what is called, the arguments, and the machine it is made on. -/
structure CallSite (σ : Type) where
  callee : Value
  arguments : Arguments
  machine : Machine σ

/-- What a call gives and leaves. -/
def CallSite.outcome (surroundings : Surroundings σ) (site : CallSite σ) : Except Fault Value × Machine σ :=
  runOn (callValue surroundings.invoke site.callee site.arguments) site.machine

/-- The part of a term that is evaluated before everything else in it. -/
def Term.first? : Term → Option Term
  | .attribute owner _ | .item owner _ => some owner
  | .call callee _ => some callee
  | .filter operand _ _ | .test operand _ _ => some operand
  | .negation operand | .minus operand | .plus operand => some operand
  | .both left _ | .either left _ | .binary _ left _ => some left
  | .comparison first _ => some first
  | .conditional condition _ _ => some condition
  | _ => none

/-- The parts of a term that are evaluated one after the other, if these are all of it. -/
def Term.parts? : Term → Option (List Term)
  | .tuple parts | .list parts | .joined parts => some parts
  | _ => none

/-- The part of a term that is always evaluated after the first one. -/
def Term.second? : Term → Option Term
  | .item _ (.slice ..) => none
  | .item _ key => some key
  | .binary _ _ right => some right
  | _ => none

/-- The arguments that are evaluated after the first part of a term, and what they are named after. -/
def Term.arguments? : Term → Option (String × List Argument)
  | .call _ arguments => some (callLabel, arguments)
  | .filter _ used arguments => some (filterLabel used, arguments)
  | .test _ used arguments => some (testLabel used, arguments)
  | _ => none

/-- The term of an argument. -/
def Argument.term : Argument → Term
  | .positional term | .named _ term | .spread term | .spreadNamed term => term

/-- Adds the value of an argument to those that have been put together. -/
def Gathered.add (gathered : Gathered) (label : String) (argument : Argument) (value : Value) : Heap Gathered :=
  match argument with
  | .positional _ => return { gathered with positional := gathered.positional ++ [value] }
  | .named name _ => return { gathered with named := gathered.named ++ [(name, value)] }
  | .spread _ => gathered.addSpread value
  | .spreadNamed _ => gathered.addSpreadNamed label value

mutual

/-- The evaluation of a term from a machine gets to a call: it is the call itself, or an evaluated part of the term
gets to it. -/
inductive Reaches (surroundings : Surroundings σ) (site : CallSite σ) : Term → Machine σ → Prop where
  | call {callee arguments machine middle}
      (called : runOn (evaluate surroundings callee) machine = (.ok site.callee, middle))
      (gathered : runOn (evaluateArguments surroundings callLabel arguments ⟨[], []⟩) middle =
        (.ok site.arguments, site.machine)) : Reaches surroundings site (.call callee arguments) machine
  | first {term part machine} (isFirst : term.first? = some part) (inside : Reaches surroundings site part machine) :
      Reaches surroundings site term machine
  | second {term part other machine value middle} (isFirst : term.first? = some part)
      (isSecond : term.second? = some other) (before : runOn (evaluate surroundings part) machine = (.ok value, middle))
      (inside : Reaches surroundings site other middle) : Reaches surroundings site term machine
  | arguments {term part label arguments machine value middle} (isFirst : term.first? = some part)
      (areArguments : term.arguments? = some (label, arguments))
      (before : runOn (evaluate surroundings part) machine = (.ok value, middle))
      (inside : ReachesArguments surroundings site label arguments ⟨[], []⟩ middle) :
      Reaches surroundings site term machine
  | parts {term parts machine} (areParts : term.parts? = some parts)
      (inside : ReachesAll surroundings site parts machine) : Reaches surroundings site term machine
  | slice {owner start stop step machine value middle}
      (before : runOn (evaluate surroundings owner) machine = (.ok value, middle))
      (inside : ReachesAll surroundings site [start, stop, step] middle) :
      Reaches surroundings site (.item owner (.slice start stop step)) machine
  | entries {entries machine} (inside : ReachesEntries surroundings site entries machine) :
      Reaches surroundings site (.dict entries) machine
  | both {left right machine value middle last}
      (before : runOn (evaluate surroundings left) machine = (.ok value, middle))
      (decided : runOn (liftM value.truth : Action σ Bool) middle = (.ok true, last))
      (inside : Reaches surroundings site right last) : Reaches surroundings site (.both left right) machine
  | either {left right machine value middle last}
      (before : runOn (evaluate surroundings left) machine = (.ok value, middle))
      (decided : runOn (liftM value.truth : Action σ Bool) middle = (.ok false, last))
      (inside : Reaches surroundings site right last) : Reaches surroundings site (.either left right) machine
  | others {first others machine value middle}
      (before : runOn (evaluate surroundings first) machine = (.ok value, middle))
      (inside : ReachesFrom surroundings site value others middle) :
      Reaches surroundings site (.comparison first others) machine
  | result {condition result otherwise machine value middle last}
      (before : runOn (evaluate surroundings condition) machine = (.ok value, middle))
      (decided : runOn (liftM value.truth : Action σ Bool) middle = (.ok true, last))
      (inside : Reaches surroundings site result last) :
      Reaches surroundings site (.conditional condition result otherwise) machine
  | otherwise {condition result otherwise machine value middle last}
      (before : runOn (evaluate surroundings condition) machine = (.ok value, middle))
      (decided : runOn (liftM value.truth : Action σ Bool) middle = (.ok false, last))
      (inside : Reaches surroundings site otherwise last) :
      Reaches surroundings site (.conditional condition result otherwise) machine

/-- The evaluation of terms, from left to right, gets to a call. -/
inductive ReachesAll (surroundings : Surroundings σ) (site : CallSite σ) : List Term → Machine σ → Prop where
  | here {term rest machine} (inside : Reaches surroundings site term machine) :
      ReachesAll surroundings site (term :: rest) machine
  | later {term rest machine value middle} (before : runOn (evaluate surroundings term) machine = (.ok value, middle))
      (inside : ReachesAll surroundings site rest middle) : ReachesAll surroundings site (term :: rest) machine

/-- The evaluation of the entries of a dictionary gets to a call. -/
inductive ReachesEntries (surroundings : Surroundings σ) (site : CallSite σ) :
    List (Term × Term) → Machine σ → Prop where
  | key {key value rest machine} (inside : Reaches surroundings site key machine) :
      ReachesEntries surroundings site ((key, value) :: rest) machine
  | value {key value rest machine known middle}
      (before : runOn (evaluate surroundings key) machine = (.ok known, middle))
      (inside : Reaches surroundings site value middle) :
      ReachesEntries surroundings site ((key, value) :: rest) machine
  | later {key value rest machine known middle found last}
      (before : runOn (evaluate surroundings key) machine = (.ok known, middle))
      (between : runOn (evaluate surroundings value) middle = (.ok found, last))
      (inside : ReachesEntries surroundings site rest last) :
      ReachesEntries surroundings site ((key, value) :: rest) machine

/-- The test of a chain of relations gets to a call. -/
inductive ReachesFrom (surroundings : Surroundings σ) (site : CallSite σ) :
    Value → List (Relation × Term) → Machine σ → Prop where
  | here {left relation term rest machine} (inside : Reaches surroundings site term machine) :
      ReachesFrom surroundings site left ((relation, term) :: rest) machine
  | later {left relation term rest machine right middle last}
      (before : runOn (evaluate surroundings term) machine = (.ok right, middle))
      (decided : runOn (liftM (relation.holds left right) : Action σ Bool) middle = (.ok true, last))
      (inside : ReachesFrom surroundings site right rest last) :
      ReachesFrom surroundings site left ((relation, term) :: rest) machine

/-- The evaluation of arguments gets to a call. -/
inductive ReachesArguments (surroundings : Surroundings σ) (site : CallSite σ) :
    String → List Argument → Gathered → Machine σ → Prop where
  | here {label argument rest gathered machine} (inside : Reaches surroundings site argument.term machine) :
      ReachesArguments surroundings site label (argument :: rest) gathered machine
  | later {label argument rest gathered machine value middle more last}
      (before : runOn (evaluate surroundings argument.term) machine = (.ok value, middle))
      (added : runOn (liftM (gathered.add label argument value) : Action σ Gathered) middle = (.ok more, last))
      (inside : ReachesArguments surroundings site label rest more last) :
      ReachesArguments surroundings site label (argument :: rest) gathered machine

end

/-! ## How a term is evaluated -/

section Shapes

variable {surroundings : Surroundings σ}

theorem Term.second_item (owner : Term) {key : Term}
    (plain : ∀ start stop step, key = .slice start stop step → False) :
    (Term.item owner key).second? = some key := by
  rw [Term.second?]
  exact plain

theorem evaluate_item {owner key : Term} (plain : ∀ start stop step, key = .slice start stop step → False) :
    evaluate surroundings (.item owner key) = evaluate surroundings owner >>= fun value =>
      evaluate surroundings key >>= fun found => liftM (getItem value found) := by
  rw [evaluate]
  exact plain

theorem evaluate_first : {term part : Term} → term.first? = some part →
    ∃ next, evaluate surroundings term = evaluate surroundings part >>= next
  | .item owner key, _, rfl => by
      by_cases sliced : ∃ start stop step, key = .slice start stop step
      · obtain ⟨start, stop, step, rfl⟩ := sliced
        exact ⟨_, by rw [evaluate]⟩
      · exact ⟨_, evaluate_item fun start stop step same => sliced ⟨start, stop, step, same⟩⟩
  | .attribute .., _, rfl | .call .., _, rfl | .filter .., _, rfl | .test .., _, rfl | .negation _, _, rfl
  | .minus _, _, rfl | .plus _, _, rfl | .both .., _, rfl | .either .., _, rfl | .binary .., _, rfl
  | .comparison .., _, rfl | .conditional .., _, rfl =>
      ⟨_, by rw [evaluate]⟩

theorem evaluate_second : {term part other : Term} → term.first? = some part → term.second? = some other →
    ∃ next : Value → Value → Action σ Value, evaluate surroundings term =
      evaluate surroundings part >>= fun value => evaluate surroundings other >>= next value
  | .item owner key, _, _, rfl, isSecond => by
      have plain : ∀ start stop step, key = .slice start stop step → False := by
        rintro start stop step rfl
        cases isSecond
      rw [Term.second_item owner plain] at isSecond
      obtain rfl := Option.some.inj isSecond
      exact ⟨_, evaluate_item plain⟩
  | .binary .., _, _, rfl, rfl => ⟨_, by rw [evaluate]⟩

theorem evaluate_arguments : {term part : Term} → {label : String} → {arguments : List Argument} →
    term.first? = some part → term.arguments? = some (label, arguments) →
    ∃ next : Value → Arguments → Action σ Value, evaluate surroundings term =
      evaluate surroundings part >>= fun value =>
        evaluateArguments surroundings label arguments ⟨[], []⟩ >>= next value
  | .call .., _, _, _, rfl, rfl | .filter .., _, _, _, rfl, rfl | .test .., _, _, _, rfl, rfl =>
      ⟨_, by rw [evaluate]⟩

theorem evaluate_parts : {term : Term} → {parts : List Term} → term.parts? = some parts →
    ∃ next, evaluate surroundings term = evaluateAll surroundings parts >>= next
  | .tuple _, _, rfl | .list _, _, rfl | .joined _, _, rfl => ⟨_, by rw [evaluate]⟩

theorem evaluate_slice (owner start stop step : Term) :
    ∃ next : Value → List Value → Action σ Value, evaluate surroundings (.item owner (.slice start stop step)) =
      evaluate surroundings owner >>= fun value => evaluateAll surroundings [start, stop, step] >>= next value := by
  refine ⟨fun value parts => liftM (value.slice (parts.getD 0 .null) (parts.getD 1 .null) (parts.getD 2 .null)), ?_⟩
  rw [evaluate]
  simp only [evaluateAll, bind_assoc, pure_bind]
  rfl

theorem evaluateArguments_cons (label : String) (argument : Argument) (rest : List Argument) (gathered : Gathered) :
    evaluateArguments surroundings label (argument :: rest) gathered =
      evaluate surroundings argument.term >>= fun value =>
        liftM (gathered.add label argument value) >>= evaluateArguments surroundings label rest := by
  cases argument with
  | positional | named | spread | spreadNamed =>
    rw [evaluateArguments]
    rfl

end Shapes

/-! ## A fault at a call -/

section Faults

variable {surroundings : Surroundings σ} {site : CallSite σ} {fault : Fault} {after : Machine σ}

mutual

/-- A fault of a call that an evaluation gets to is one of the evaluation. -/
theorem Reaches.faults (fails : site.outcome surroundings = (.error fault, after)) {term : Term}
    {machine : Machine σ} : Reaches surroundings site term machine →
    runOn (evaluate surroundings term) machine = (.error fault, after)
  | .call called gathered => by
      rw [evaluate, bind_goesOn called, bind_goesOn gathered]
      exact fails
  | .first isFirst inside => by
      obtain ⟨next, shape⟩ := evaluate_first isFirst
      rw [shape]
      exact bind_stops (inside.faults fails)
  | .second isFirst isSecond before inside => by
      obtain ⟨next, shape⟩ := evaluate_second isFirst isSecond
      rw [shape, bind_goesOn before]
      exact bind_stops (inside.faults fails)
  | .arguments isFirst areArguments before inside => by
      obtain ⟨next, shape⟩ := evaluate_arguments isFirst areArguments
      rw [shape, bind_goesOn before]
      exact bind_stops (inside.faults fails)
  | .parts areParts inside => by
      obtain ⟨next, shape⟩ := evaluate_parts areParts
      rw [shape]
      exact bind_stops (inside.faults fails)
  | .slice before inside => by
      obtain ⟨next, shape⟩ := evaluate_slice _ _ _ _
      rw [shape, bind_goesOn before]
      exact bind_stops (inside.faults fails)
  | .entries inside => by
      rw [evaluate]
      exact bind_stops (inside.faults fails)
  | .both before decided inside => by
      rw [evaluate, bind_goesOn before, bind_goesOn decided]
      exact inside.faults fails
  | .either before decided inside => by
      rw [evaluate, bind_goesOn before, bind_goesOn decided]
      exact inside.faults fails
  | .others before inside => by
      rw [evaluate, bind_goesOn before]
      exact inside.faults fails
  | .result before decided inside | .otherwise before decided inside => by
      rw [evaluate, bind_goesOn before, bind_goesOn decided]
      exact inside.faults fails

theorem ReachesAll.faults (fails : site.outcome surroundings = (.error fault, after)) {terms : List Term}
    {machine : Machine σ} : ReachesAll surroundings site terms machine →
    runOn (evaluateAll surroundings terms) machine = (.error fault, after)
  | .here inside => by
      rw [evaluateAll]
      exact bind_stops (inside.faults fails)
  | .later before inside => by
      rw [evaluateAll, bind_goesOn before]
      exact bind_stops (inside.faults fails)

theorem ReachesEntries.faults (fails : site.outcome surroundings = (.error fault, after))
    {entries : List (Term × Term)} {machine : Machine σ} :
    ReachesEntries surroundings site entries machine →
    runOn (evaluateEntries surroundings entries) machine = (.error fault, after)
  | .key inside => by
      rw [evaluateEntries]
      exact bind_stops (inside.faults fails)
  | .value before inside => by
      rw [evaluateEntries, bind_goesOn before]
      exact bind_stops (inside.faults fails)
  | .later before between inside => by
      rw [evaluateEntries, bind_goesOn before, bind_goesOn between]
      exact bind_stops (inside.faults fails)

theorem ReachesFrom.faults (fails : site.outcome surroundings = (.error fault, after)) {left : Value}
    {others : List (Relation × Term)} {machine : Machine σ} :
    ReachesFrom surroundings site left others machine →
    runOn (compareFrom surroundings left others) machine = (.error fault, after)
  | .here inside => by
      rw [compareFrom]
      exact bind_stops (inside.faults fails)
  | .later before decided inside => by
      rw [compareFrom, bind_goesOn before, bind_goesOn decided]
      exact inside.faults fails

theorem ReachesArguments.faults (fails : site.outcome surroundings = (.error fault, after)) {label : String}
    {arguments : List Argument} {gathered : Gathered}
    {machine : Machine σ} : ReachesArguments surroundings site label arguments gathered machine →
    runOn (evaluateArguments surroundings label arguments gathered) machine = (.error fault, after)
  | .here inside => by
      rw [evaluateArguments_cons]
      exact bind_stops (inside.faults fails)
  | .later before added inside => by
      rw [evaluateArguments_cons, bind_goesOn before, bind_goesOn added]
      exact inside.faults fails

end

end Faults

/-! ## What an evaluation depends on -/

section Dependence

variable {left right : Surroundings σ}

mutual

/-- Evaluations with the same names go alike if the calls that one of them gets to do. -/
theorem evaluate_same (sameScope : left.scope = right.scope) : (term : Term) → (machine : Machine σ) →
    (∀ site, Reaches left site term machine → site.outcome left = site.outcome right) →
    runOn (evaluate left term) machine = runOn (evaluate right term) machine
  | .literal _, machine, agree | .noElse _, machine, agree | .slice .., machine, agree => by rw [evaluate, evaluate]
  | .name _, machine, agree => by rw [evaluate, evaluate, sameScope]
  | .tuple parts, machine, agree | .list parts, machine, agree | .joined parts, machine, agree => by
      rw [evaluate, evaluate]
      exact bind_same (evaluateAll_same sameScope parts machine fun site inside => agree site (.parts rfl inside))
        fun _ _ _ => rfl
  | .dict entries, machine, agree => by
      rw [evaluate, evaluate]
      exact bind_same (evaluateEntries_same sameScope entries machine fun site inside => agree site (.entries inside))
        fun _ _ _ => rfl
  | .item owner key, machine, agree => by
      have before := evaluate_same sameScope owner machine fun site inside => agree site (.first rfl inside)
      by_cases sliced : ∃ start stop step, key = .slice start stop step
      case pos =>
        obtain ⟨start, stop, step, rfl⟩ := sliced
        rw [evaluate, evaluate]
        refine bind_same before fun _ afterOwner ran => ?_
        refine bind_same (evaluate_same sameScope start afterOwner fun site inside =>
          agree site (.slice ran (.here inside))) fun _ afterStart ranStart => ?_
        refine bind_same (evaluate_same sameScope stop afterStart fun site inside =>
          agree site (.slice ran (.later ranStart (.here inside)))) fun _ afterStop ranStop => ?_
        exact bind_same (evaluate_same sameScope step afterStop fun site inside =>
          agree site (.slice ran (.later ranStart (.later ranStop (.here inside))))) fun _ _ _ => rfl
      case neg =>
        have plain : ∀ start stop step, key = .slice start stop step → False :=
          fun start stop step same => sliced ⟨start, stop, step, same⟩
        rw [evaluate_item plain, evaluate_item plain]
        refine bind_same before fun _ middle ran => ?_
        exact bind_same (evaluate_same sameScope key middle fun site inside =>
          agree site (.second rfl (Term.second_item owner plain) ran inside)) fun _ _ _ => rfl
  | .call callee arguments, machine, agree => by
      rw [evaluate, evaluate]
      refine bind_same (evaluate_same sameScope callee machine fun site inside => agree site (.first rfl inside))
        fun value middle ran => ?_
      refine bind_same (evaluateArguments_same sameScope _ arguments _ middle fun site inside =>
        agree site (.arguments rfl rfl ran inside)) fun gathered last ranToo => ?_
      exact agree ⟨value, gathered, last⟩ (.call ran ranToo)
  | .filter operand _ arguments, machine, agree | .test operand _ arguments, machine, agree => by
      rw [evaluate, evaluate]
      refine bind_same (evaluate_same sameScope operand machine fun site inside => agree site (.first rfl inside))
        fun value middle ran => ?_
      exact bind_same (evaluateArguments_same sameScope _ arguments _ middle fun site inside =>
        agree site (.arguments rfl rfl ran inside)) fun _ _ _ => rfl
  | .attribute operand _, machine, agree | .negation operand, machine, agree | .minus operand, machine, agree
  | .plus operand, machine, agree => by
      rw [evaluate, evaluate]
      exact bind_same (evaluate_same sameScope operand machine fun site inside => agree site (.first rfl inside))
        fun _ _ _ => rfl
  | .both first second, machine, agree => by
      rw [evaluate, evaluate]
      refine bind_same (evaluate_same sameScope first machine fun site inside => agree site (.first rfl inside))
        fun value middle ran => bind_same rfl fun holds last decided => ?_
      cases holds with
      | true => exact evaluate_same sameScope second last fun site inside => agree site (.both ran decided inside)
      | false => rfl
  | .either first second, machine, agree => by
      rw [evaluate, evaluate]
      refine bind_same (evaluate_same sameScope first machine fun site inside => agree site (.first rfl inside))
        fun value middle ran => bind_same rfl fun holds last decided => ?_
      cases holds with
      | true => rfl
      | false => exact evaluate_same sameScope second last fun site inside => agree site (.either ran decided inside)
  | .binary operation first second, machine, agree => by
      rw [evaluate, evaluate]
      refine bind_same (evaluate_same sameScope first machine fun site inside => agree site (.first rfl inside))
        fun value middle ran => ?_
      exact bind_same (evaluate_same sameScope second middle fun site inside => agree site (.second rfl rfl ran inside))
        fun _ _ _ => rfl
  | .comparison first others, machine, agree => by
      rw [evaluate, evaluate]
      refine bind_same (evaluate_same sameScope first machine fun site inside => agree site (.first rfl inside))
        fun value middle ran => ?_
      exact compareFrom_same sameScope value others middle fun site inside => agree site (.others ran inside)
  | .conditional condition result otherwise, machine, agree => by
      rw [evaluate, evaluate]
      refine bind_same (evaluate_same sameScope condition machine fun site inside => agree site (.first rfl inside))
        fun value middle ran => bind_same rfl fun holds last decided => ?_
      cases holds with
      | true => exact evaluate_same sameScope result last fun site inside => agree site (.result ran decided inside)
      | false =>
        exact evaluate_same sameScope otherwise last fun site inside => agree site (.otherwise ran decided inside)

theorem evaluateAll_same (sameScope : left.scope = right.scope) : (terms : List Term) → (machine : Machine σ) →
    (∀ site, ReachesAll left site terms machine → site.outcome left = site.outcome right) →
    runOn (evaluateAll left terms) machine = runOn (evaluateAll right terms) machine
  | [], machine, agree => by rw [evaluateAll, evaluateAll]
  | term :: rest, machine, agree => by
      rw [evaluateAll, evaluateAll]
      refine bind_same (evaluate_same sameScope term machine fun site inside => agree site (.here inside))
        fun _ middle ran => ?_
      exact bind_same (evaluateAll_same sameScope rest middle fun site inside => agree site (.later ran inside))
        fun _ _ _ => rfl

theorem evaluateEntries_same (sameScope : left.scope = right.scope) : (entries : List (Term × Term)) →
    (machine : Machine σ) →
    (∀ site, ReachesEntries left site entries machine → site.outcome left = site.outcome right) →
    runOn (evaluateEntries left entries) machine = runOn (evaluateEntries right entries) machine
  | [], machine, agree => by rw [evaluateEntries, evaluateEntries]
  | (key, value) :: rest, machine, agree => by
      rw [evaluateEntries, evaluateEntries]
      refine bind_same (evaluate_same sameScope key machine fun site inside => agree site (.key inside))
        fun _ middle ran => ?_
      refine bind_same (evaluate_same sameScope value middle fun site inside => agree site (.value ran inside))
        fun _ last ranToo => ?_
      exact bind_same (evaluateEntries_same sameScope rest last fun site inside =>
        agree site (.later ran ranToo inside)) fun _ _ _ => rfl

theorem compareFrom_same (sameScope : left.scope = right.scope) : (value : Value) →
    (others : List (Relation × Term)) → (machine : Machine σ) →
    (∀ site, ReachesFrom left site value others machine → site.outcome left = site.outcome right) →
    runOn (compareFrom left value others) machine = runOn (compareFrom right value others) machine
  | _, [], machine, agree => by rw [compareFrom, compareFrom]
  | value, (relation, term) :: rest, machine, agree => by
      rw [compareFrom, compareFrom]
      refine bind_same (evaluate_same sameScope term machine fun site inside => agree site (.here inside))
        fun other middle ran => bind_same rfl fun holds last decided => ?_
      cases holds with
      | true =>
        exact compareFrom_same sameScope other rest last fun site inside => agree site (.later ran decided inside)
      | false => rfl

theorem evaluateArguments_same (sameScope : left.scope = right.scope) (label : String) : (arguments : List Argument) →
    (gathered : Gathered) → (machine : Machine σ) →
    (∀ site, ReachesArguments left site label arguments gathered machine →
      site.outcome left = site.outcome right) →
    runOn (evaluateArguments left label arguments gathered) machine =
      runOn (evaluateArguments right label arguments gathered) machine
  | [], gathered, machine, agree => by rw [evaluateArguments, evaluateArguments]
  | .positional term :: rest, gathered, machine, agree | .named _ term :: rest, gathered, machine, agree
  | .spread term :: rest, gathered, machine, agree | .spreadNamed term :: rest, gathered, machine, agree => by
      rw [evaluateArguments_cons, evaluateArguments_cons]
      refine bind_same (evaluate_same sameScope term machine fun site inside => agree site (.here inside))
        fun value middle ran => bind_same rfl fun more last added => ?_
      exact evaluateArguments_same sameScope label rest more last fun site inside =>
        agree site (.later ran added inside)

end

end Dependence

/-! ## Undefined values -/

theorem requireArguments_cons {value : Value} (defined : value.isUndefined = false) (rest : List Value) :
    requireArguments (value :: rest) = requireArguments rest := by
  cases value with
  | undefined strict missing => cases defined
  | _ => rfl

theorem requireArguments_defined {values : List Value} (defined : values.any Value.isUndefined = false)
    (store : Store) : runOn (requireArguments values) store = (.ok (), store) := by
  induction values with
  | nil => rfl
  | cons value rest hypothesis =>
    rw [List.any_cons, Bool.or_eq_false_iff] at defined
    rw [requireArguments_cons defined.1]
    exact hypothesis defined.2

theorem requireArguments_undefined {values : List Value} (undefined : values.any Value.isUndefined = true)
    (store : Store) : ∃ missing, runOn (requireArguments values) store = (.error (.undefined missing), store) := by
  induction values with
  | nil => cases undefined
  | cons value rest hypothesis =>
    cases isUndefined : value.isUndefined with
    | false =>
      rw [List.any_cons, isUndefined, Bool.false_or] at undefined
      rw [requireArguments_cons isUndefined]
      exact hypothesis undefined
    | true =>
      cases value with
      | undefined strict missing => exact ⟨missing, rfl⟩
      | _ => cases isUndefined

theorem runOn_guard {arguments : Arguments} (machine : Machine σ)
    (defined : arguments.values.any Value.isUndefined = false) :
    runOn (liftM (requireArguments arguments.values) : Action σ Unit) machine = (.ok (), machine) := by
  rw [runOn_lift, requireArguments_defined defined]

theorem runOn_guard_stops {arguments : Arguments} (machine : Machine σ)
    (undefined : arguments.values.any Value.isUndefined = true) : ∃ missing,
    runOn (liftM (requireArguments arguments.values) : Action σ Unit) machine =
      (.error (.undefined missing), machine) := by
  obtain ⟨missing, stops⟩ := requireArguments_undefined undefined machine.store
  exact ⟨missing, by rw [runOn_lift, stops]⟩

/-- A call with an undefined argument is refused, and nothing has happened. -/
theorem CallSite.refused (surroundings : Surroundings σ) {site : CallSite σ}
    (undefined : site.arguments.values.any Value.isUndefined = true) :
    ∃ missing, site.outcome surroundings = (.error (.undefined missing), site.machine) := by
  obtain ⟨missing, stops⟩ := runOn_guard_stops site.machine undefined
  unfold outcome callValue
  exact ⟨missing, bind_stops stops⟩

/-- A directive that refuses undefined arguments itself. -/
def refusing (invoke : Nat → String → Arguments → Action σ Value) (handler : Nat) (method : String)
    (arguments : Arguments) : Action σ Value := do
  requireArguments arguments.values
  invoke handler method arguments

/-- Whether a call sorts a list. -/
def CallSite.Sorts (site : CallSite σ) : Prop := ∃ cell, site.callee = .function (.method (.list cell) "sort")

theorem filter_named_defined {arguments : Arguments} (defined : arguments.values.any Value.isUndefined = false)
    (test : String × Value → Bool) :
    ({ arguments with named := arguments.named.filter test } : Arguments).values.any Value.isUndefined = false := by
  rw [List.any_eq_false] at defined ⊢
  refine fun value member => defined value ?_
  rcases List.mem_append.mp member with positional | named
  · exact List.mem_append_left _ positional
  · obtain ⟨entry, kept, rfl⟩ := List.mem_map.mp named
    exact List.mem_append_right _ (List.mem_map.mpr ⟨entry, (List.mem_filter.mp kept).1, rfl⟩)

theorem applyCallee_refusing (invoke : Nat → String → Arguments → Action σ Value) (callee : Callee)
    {arguments : Arguments} (plain : ∀ cell, callee ≠ .method (.list cell) "sort")
    (defined : arguments.values.any Value.isUndefined = false) (machine : Machine σ) :
    runOn (applyCallee invoke callee arguments) machine =
      runOn (applyCallee (refusing invoke) callee arguments) machine := by
  unfold applyCallee
  split
  · rename_i cell
    exact absurd rfl (plain cell)
  · unfold applyDirectly
    split
    case h_9 handler method =>
      unfold refusing
      rw [bind_goesOn (runOn_guard machine defined)]
    all_goals rfl

/-- A directive is not asked with an undefined argument by a call, unless it is a call that sorts. -/
theorem CallSite.outcome_refusing {scope : Scope} {invoke : Nat → String → Arguments → Action σ Value}
    {site : CallSite σ} (plain : ¬ site.Sorts) :
    site.outcome ⟨scope, invoke⟩ = site.outcome ⟨scope, refusing invoke⟩ := by
  unfold outcome callValue
  cases undefined : site.arguments.values.any Value.isUndefined with
  | true =>
    obtain ⟨missing, stops⟩ := runOn_guard_stops site.machine undefined
    exact (bind_stops stops).trans (bind_stops stops).symm
  | false =>
    refine bind_same rfl fun _ after ran => ?_
    split
    · rfl
    · rename_i callee isFunction
      have applied := applyCallee_refusing invoke callee
        (fun cell same => plain ⟨cell, isFunction.trans (congrArg Value.function same)⟩)
        (filter_named_defined undefined fun entry => !isInternalArgument entry.1) after
      rw [runOn_tryCatch, runOn_tryCatch, applied]
    · rfl

/-! ## Expressions that are resolved -/

/-- The resolution of an expression gets to a call. -/
structure Attempts (setting : Setting σ) (expression : String) (start : Machine σ) (site : CallSite σ) : Prop where
  written : isBlankExpression expression = false
  reaches : ∃ program compiled scope ready,
    runOn (liftM (compile (Text.trim expression.toList)) : Action σ Program) start = (.ok program, compiled) ∧
      runOn (liftM (lookUp setting.context setting.additional program.names []) : Action σ Scope) compiled =
        (.ok scope, ready) ∧
      Reaches ⟨scope, setting.invoke⟩ site program.term ready

theorem resolve_written (setting : Setting σ) {expression : String} (written : isBlankExpression expression = false) :
    resolve setting expression =
      (do
        let value ← try run setting (Text.trim expression.toList) catch fault => throw (fault.resolving expression)
        if value.isUndefined then throw (.unresolved expression "expression is undefined")
        return value) := by
  rw [resolve_eq]
  rw [written]
  rfl

/-- A call with an undefined argument is not made: the expression is unresolved, for the reason that tells what is
missing, and everything is as it was before the call. -/
theorem resolve_refuses {setting : Setting σ} {expression : String} {start : Machine σ} {site : CallSite σ}
    (attempts : Attempts setting expression start site)
    (undefined : site.arguments.values.any Value.isUndefined = true) :
    ∃ missing : Missing, runOn (resolve setting expression) start =
      (.error (.unresolved expression missing.message), site.machine) := by
  obtain ⟨written, program, compiled, scope, ready, compiles, looks, reaches⟩ := attempts
  obtain ⟨missing, refused⟩ := CallSite.refused ⟨scope, setting.invoke⟩ undefined
  refine ⟨missing, ?_⟩
  have stops : runOn (run setting (Text.trim expression.toList)) start =
      (.error (.undefined missing), site.machine) := by
    rw [run_eq]
    rw [bind_goesOn compiles, bind_goesOn looks]
    exact reaches.faults refused
  rw [resolve_written setting written]
  refine bind_stops ?_
  rw [runOn_tryCatch, stops]
  rfl

/-- An expression that can be resolved has a value, and no call on the way had an undefined argument. -/
theorem resolve_defined {setting : Setting σ} {expression : String} {start final : Machine σ} {value : Value}
    (resolved : runOn (resolve setting expression) start = (.ok value, final)) :
    value.isUndefined = false ∧ ∀ site, Attempts setting expression start site →
      site.arguments.values.any Value.isUndefined = false := by
  constructor
  · cases written : isBlankExpression expression with
    | true =>
      rw [resolve_eq] at resolved
      rw [written] at resolved
      cases resolved
    | false =>
      rw [resolve_written setting written] at resolved
      obtain ⟨found, middle, -, resolved⟩ := bind_ok resolved
      cases undefined : found.isUndefined with
      | true =>
        rw [undefined] at resolved
        cases resolved
      | false =>
        rw [undefined] at resolved
        cases resolved
        exact undefined
  · intro site attempts
    cases undefined : site.arguments.values.any Value.isUndefined with
    | false => rfl
    | true =>
      obtain ⟨missing, refused⟩ := resolve_refuses attempts undefined
      rw [refused] at resolved
      cases resolved

/-- Only a call that sorts a list can ask a directive with an undefined argument: where there is none, the directives
may as well refuse undefined arguments themselves. -/
theorem resolve_refusing {setting : Setting σ} {expression : String} {start : Machine σ}
    (plain : ∀ site, Attempts setting expression start site → ¬ site.Sorts) :
    runOn (resolve setting expression) start =
      runOn (resolve { setting with invoke := refusing setting.invoke } expression) start := by
  cases written : isBlankExpression expression with
  | true =>
    rw [resolve_eq, resolve_eq, written, if_pos rfl, if_pos rfl]
    exact (bind_stops (runOn_throw _ start)).trans (bind_stops (runOn_throw _ start)).symm
  | false =>
    have same : runOn (run setting (Text.trim expression.toList)) start =
        runOn (run { setting with invoke := refusing setting.invoke } (Text.trim expression.toList)) start := by
      refine bind_same rfl fun program compiled compiles => bind_same rfl fun scope ready looks => ?_
      have sameScope : (⟨scope, setting.invoke⟩ : Surroundings σ).scope =
        (⟨scope, refusing setting.invoke⟩ : Surroundings σ).scope := rfl
      refine evaluate_same sameScope program.term ready fun site reaches => ?_
      exact CallSite.outcome_refusing
        (plain site ⟨written, program, compiled, scope, ready, compiles, looks, reaches⟩)
    rw [resolve_written _ written, resolve_written _ written]
    refine bind_same ?_ fun _ _ _ => rfl
    rw [runOn_tryCatch, runOn_tryCatch, same]

end Expression
end Imprint
