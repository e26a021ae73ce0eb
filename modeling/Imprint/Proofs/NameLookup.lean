import Imprint.Proofs.AttributeReading
import Imprint.Proofs.Evaluation
import Imprint.Proofs.TextKeys
import Mathlib.Data.List.TakeWhile

/-! # Looking up names

A context answers for a name without changing anything, or by attributes, which do not depend on the store.  So
what two contexts agree on stays agreed upon while further names are looked up. -/
set_option autoImplicit false
namespace Imprint
open Imprint.Action Value

/-- A computation that leaves the store as it is. -/
def Quiet {α : Type} (computation : Heap α) : Prop :=
  ∀ store, (runOn computation store).2 = store

namespace Quiet

variable {α β : Type}

theorem pure (value : α) : Quiet (Pure.pure value) :=
  fun _ => rfl

theorem throw (fault : Fault) : Quiet (MonadExcept.throw fault : Heap α) :=
  fun _ => rfl

theorem bind {computation : Heap α} {next : α → Heap β} (first : Quiet computation)
    (second : ∀ value, Quiet (next value)) : Quiet (computation >>= next) := by
  intro store
  have unchanged := first store
  rw [runOn_bind]
  cases reached : runOn computation store with
  | mk outcome after =>
    rw [reached] at unchanged
    obtain rfl : after = store := unchanged
    cases outcome with
    | error fault => rfl
    | ok value => exact second value after

theorem tryCatch {computation : Heap α} {handle : Fault → Heap α} (first : Quiet computation)
    (second : ∀ fault, Quiet (handle fault)) : Quiet (MonadExcept.tryCatch computation handle) := by
  intro store
  have unchanged := first store
  rw [runOn_tryCatch]
  cases reached : runOn computation store with
  | mk outcome after =>
    rw [reached] at unchanged
    obtain rfl : after = store := unchanged
    cases outcome with
    | error fault => exact second fault after
    | ok value => rfl

end Quiet

/-! ## Mappings -/

theorem lookup_quiet (entries : List (Value × Value)) (name : String) : Quiet (lookup (.text name) entries) := by
  obtain ⟨outcome, run⟩ := lookup_text_steady entries name
  intro store
  rw [run]

theorem isEqual_quiet (value : Value) (name : String) : Quiet (isEqual value (.text name)) := by
  by_cases undefined : ∃ missing, value = .undefined false missing
  · obtain ⟨missing, rfl⟩ := undefined
    exact .throw _
  · rw [isEqual_text fun missing equal => undefined ⟨missing, equal⟩]
    exact .pure _

theorem isMember_quiet (items : List Value) (name : String) : Quiet (isMember (.text name) items) := by
  show Quiet (memberBy isEqual (.text name) items)
  induction items with
  | nil => exact .pure _
  | cons item rest hypothesis =>
    rw [memberBy]
    split
    · exact .pure _
    · apply Quiet.bind (isEqual_quiet item name)
      intro equal
      cases equal with
      | true => exact .pure _
      | false => exact hypothesis

theorem iterate_quiet (value : Value) : Quiet value.iterate := by
  unfold iterate
  split <;> exact fun _ => rfl

theorem contains_quiet (container : Value) (name : String) : Quiet (container.contains (.text name)) := by
  have found (cell : Nat) : Quiet (do return (← lookup (.text name) (← Heap.entries cell)).isSome) :=
    .bind (fun _ => rfl) fun entries => .bind (lookup_quiet entries name) fun _ => .pure _
  unfold contains
  split
  next => exact .pure _
  next => exact .pure _
  next => exact .throw _
  next cell => exact found cell
  next cell => exact found cell
  next => exact .throw _
  next =>
    split
    · apply Quiet.bind (iterate_quiet container)
      rintro ⟨items, ending⟩
      apply Quiet.bind (isMember_quiet items name)
      intro member
      cases member with
      | true => exact .pure _
      | false => cases ending <;> exact fun _ => rfl
    · exact .throw _

theorem item?_quiet (value : Value) (name : String) : Quiet (value.item? (.text name)) := by
  cases value with
  | dict cell =>
    refine .bind (.tryCatch (.bind (fun _ => rfl) fun entries => ?_) fun fault => ?_) fun result => ?_
    · exact .bind (lookup_quiet entries name) fun _ => .pure _
    · split <;> exact fun _ => rfl
    · cases result <;> exact fun _ => rfl
  | _ => exact fun _ => rfl

/-! ## Contexts -/

/-- A computation that goes the same way on every store.  It leaves the store alone, or adds the same dictionary
twice and gives the later one, since an attribute is read before it is read for its value. -/
inductive Steady (computation : Heap (Option Value)) : Prop where
  | leaving (outcome : Except Fault (Option Value)) (run : ∀ store, runOn computation store = (outcome, store)) :
      Steady computation
  | adding (entries : List (Value × Value)) (run : ∀ store, runOn computation store =
      (.ok (some (.dict (store.cells.size + 1))), ((store.add (.dict entries)).2.add (.dict entries)).2)) :
      Steady computation

namespace Proxy

variable {proxy : Proxy} {name : String}

theorem has_quiet (quiet : Quiet (proxy.find? name)) : Quiet (proxy.has name) := by
  refine .bind (.tryCatch (.bind quiet fun _ => fun _ => rfl) fun fault => ?_) fun result => ?_
  · split <;> exact fun _ => rfl
  · cases result <;> exact fun _ => rfl

theorem runOn_has (store : Store) :
    runOn (proxy.has name) store =
      match runOn (proxy.find? name) store with
      | (.ok found, after) => (.ok found.isSome, after)
      | (.error (.error .key _), after) => (.ok false, after)
      | (.error fault, after) => (.error fault, after) := by
  rw [has, runOn_bind, runOn_tryCatch, runOn_bind]
  cases runOn (proxy.find? name) store with
  | mk outcome after =>
    cases outcome with
    | ok found => rfl
    | error fault =>
      cases fault with
      | error kind text => cases kind <;> rfl
      | _ => rfl

theorem find?_unread (other : proxy.root ≠ .null) (noMapping : ∀ cell, proxy.root ≠ .dict cell) :
    Unread (proxy.find? name) := by
  unfold find?
  split
  next => exact .pure _
  next =>
    unfold rootValue?
    split
    next nothing => exact absurd nothing other
    next cell mapping => exact absurd mapping (noMapping cell)
    next =>
      split
      · exact .pure _
      · exact attribute?_unread _ name

end Proxy

namespace Context

theorem steady_of_unread {proxy : Proxy} {name : String} (unread : Unread (proxy.find? name)) :
    Steady ((Context.proxy proxy).find? name) := by
  have seen (store : Store) := runOn_bind (proxy.has name)
    (fun held => if held then proxy.find? name else return none) store
  cases unread with
  | @leaving outcome run =>
    -- a fault for a missing key becomes an absence, so the outcome is read off a run on the empty store
    refine .leaving (runOn ((Context.proxy proxy).find? name) .empty).1 fun store => ?_
    refine (seen store).trans (Eq.trans ?_ (congrArg (fun run => (run.1, store)) (seen .empty).symm))
    rw [Proxy.runOn_has, Proxy.runOn_has, run, run]
    cases outcome with
    | ok found =>
      cases found with
      | some value => simp [run]
      | none => rfl
    | error fault =>
      cases fault with
      | error kind text => cases kind <;> rfl
      | _ => rfl
  | @adding entries run =>
    refine .adding entries fun store => (seen store).trans ?_
    rw [Proxy.runOn_has, run]
    show runOn (proxy.find? name) _ = _
    rw [run]
    simp [Store.add]

theorem proxy_quiet {proxy : Proxy} (found : ∀ name, Quiet (proxy.rootValue? name)) (name : String) :
    Quiet ((Context.proxy proxy).find? name) := by
  have proxied : Quiet (proxy.find? name) := by
    unfold Proxy.find?
    split
    · exact .pure _
    · exact found name
  refine .bind (Proxy.has_quiet proxied) fun held => ?_
  cases held with
  | true => exact proxied
  | false => exact .pure _

/-- A context looks into mappings, or it reads attributes, whatever the name. -/
theorem quiet_or_steady (context : Context) :
    (∀ name, Quiet (context.find? name)) ∨ ∀ name, Steady (context.find? name) := by
  cases context with
  | mapping value =>
    refine .inl fun name => .bind (contains_quiet value name) fun held => ?_
    cases held with
    | true => exact item?_quiet value name
    | false => exact .pure _
  | proxy source =>
    obtain ⟨root, capabilities⟩ := source
    by_cases nothing : root = .null
    · subst nothing
      exact .inl (proxy_quiet fun name => .pure _)
    · by_cases mapping : ∃ cell, root = .dict cell
      · obtain ⟨cell, rfl⟩ := mapping
        exact .inl (proxy_quiet fun name => .bind (fun _ => rfl) fun entries => lookup_quiet entries name)
      · exact .inr fun name => steady_of_unread (Proxy.find?_unread nothing fun cell equal => mapping ⟨cell, equal⟩)

end Context

/-! ## Agreement -/

/-- A steady computation that has been seen to go like another one on some store goes like it on all. -/
theorem Steady.same {left right : Heap (Option Value)} (first : Steady left) (second : Steady right) {store : Store}
    (same : runOn left store = runOn right store) (other : Store) : runOn left other = runOn right other := by
  cases first with
  | leaving outcome run =>
    cases second with
    | leaving found again =>
      rw [run, again] at same ⊢
      rw [(Prod.mk.inj same).1]
    | adding entries again =>
      rw [run, again] at same
      have size := congrArg (fun result => result.2.cells.size) same
      simp only [Store.add, Array.size_push] at size
      omega
  | adding entries run =>
    cases second with
    | leaving found again =>
      rw [run, again] at same
      have size := congrArg (fun result => result.2.cells.size) same
      simp only [Store.add, Array.size_push] at size
      omega
    | adding others again =>
      rw [run, again] at same
      have last := congrArg (fun result => result.2.cells.back?) same
      simp [Store.add] at last
      rw [run, again, last]

theorem Steady.absent {computation : Heap (Option Value)} (steady : Steady computation) {store other : Store}
    (absent : (runOn computation other).1 = .ok none) : (runOn computation store).1 = .ok none := by
  cases steady with
  | leaving outcome run =>
    rw [run] at absent ⊢
    exact absent
  | adding entries run =>
    rw [run] at absent
    cases absent

namespace Expression

/-- Two contexts with further names behind them that give the same for a name.  The further names matter only if
the contexts do not have it. -/
structure Agree (left right : Context) (first second : Scope) (store : Store) (name : String) : Prop where
  found : runOn (left.find? name) store = runOn (right.find? name) store
  absent : (runOn (left.find? name) store).1 = .ok none →
    (first ++ builtins).lookup name = (second ++ builtins).lookup name

variable {left right : Context} {first second : Scope} {store : Store}

theorem Agree.later {name other : String} (agree : Agree left right first second store name)
    (further : Agree left right first second store other) :
    Agree left right first second (runOn (left.find? name) store).2 other := by
  -- if one of the two is quiet, nothing has changed, since both have left the same store
  obtain quiet | steady := left.quiet_or_steady
  · rw [quiet name store]
    exact further
  · obtain quiet | steadily := right.quiet_or_steady
    · rw [agree.found, quiet name store]
      exact further
    · exact ⟨(steady other).same (steadily other) further.found _,
        fun absent => further.absent ((steady other).absent absent)⟩

theorem runOn_lookUp_agree {names : List String} (agree : ∀ name ∈ names, Agree left right first second store name)
    (known : Scope) : runOn (lookUp left first names known) store = runOn (lookUp right second names known) store := by
  induction names generalizing store known with
  | nil => rfl
  | cons name rest hypothesis =>
    obtain ⟨now, others⟩ := List.forall_mem_cons.mp agree
    rw [lookUp, lookUp]
    split
    · exact hypothesis others known
    · have later : ∀ other ∈ rest, Agree left right first second (runOn (left.find? name) store).2 other :=
        fun other member => now.later (others other member)
      have absent := now.absent
      rw [runOn_bind, runOn_bind, ← now.found]
      cases reached : runOn (left.find? name) store with
      | mk outcome after =>
        rw [reached] at later absent
        cases outcome with
        | error fault => rfl
        | ok found =>
          cases found with
          | some value => exact hypothesis later _
          | none =>
            dsimp only
            rw [absent rfl]
            split
            · exact hypothesis later _
            · exact hypothesis later _

/-! ## Resolving -/

theorem names_of_translate {letters : List Char} {program : Program} (translated : translate letters = .ok program) :
    ∃ term, parse letters = .ok term ∧ program.names = term.names := by
  obtain ⟨term, parsed, translated⟩ := except_bind_ok translated
  obtain ⟨folded, -, translated⟩ := except_bind_ok translated
  obtain ⟨_, -, translated⟩ := except_bind_ok translated
  cases translated
  exact ⟨term, parsed, rfl⟩

/-- The names that occur in an expression. -/
def occurring (expression : String) : List String :=
  match parse (Text.trim expression.toList) with
  | .ok term => term.names
  | .error _ => []

variable {σ : Type} {invoke : Nat → String → Arguments → Action σ Value} {machine : Machine σ}

theorem run_agree {letters : List Char}
    (agree : ∀ term, parse letters = .ok term → ∀ name ∈ term.names, Agree left right first second machine.store name) :
    runOn (run ⟨left, first, invoke⟩ letters) machine = runOn (run ⟨right, second, invoke⟩ letters) machine := by
  rw [run_eq, run_eq, runOn_bind, runOn_bind, runOn_lift, runOn_compile]
  cases translated : translate letters with
  | error fault => rfl
  | ok program =>
    obtain ⟨term, parsed, names⟩ := names_of_translate translated
    have same := runOn_lookUp_agree (names ▸ agree term parsed) []
    dsimp only
    rw [runOn_bind, runOn_bind, runOn_lift, runOn_lift]
    dsimp only
    rw [same]

theorem runOn_resolve (setting : Setting σ) (expression : String) :
    runOn (resolve setting expression) machine =
      if isBlankExpression expression then (.error (.unresolved expression "empty expression"), machine)
      else match runOn (run setting (Text.trim expression.toList)) machine with
        | (.ok value, after) =>
            if value.isUndefined then (.error (.unresolved expression "expression is undefined"), after)
            else (.ok value, after)
        | (.error fault, after) => (.error (fault.resolving expression), after) := by
  rw [resolve_eq]
  split
  · rfl
  · dsimp only
    rw [runOn_bind, runOn_tryCatch]
    cases runOn (run setting (Text.trim expression.toList)) machine with
    | mk outcome after =>
      cases outcome with
      | error fault => rfl
      | ok value =>
        dsimp only
        split <;> rfl

theorem not_blank {expression : String} {term : Term} (reads : parse (Text.trim expression.toList) = .ok term) :
    isBlankExpression expression = false := by
  apply Bool.eq_false_iff.mpr
  intro blank
  have empty : Text.trim expression.toList = [] := by
    rw [Text.trim, Text.trimStart, List.dropWhile_eq_nil_iff.mpr (List.all_eq_true.mp blank)]
    rfl
  have refused : (parse []).isOk = false := rfl
  rw [← empty, reads] at refused
  cases refused

/-- A name that the context has is resolved to what the context has under it. -/
theorem runOn_resolve_name {context : Context} {additional : Scope} {expression name : String} {value : Value}
    {after : Store} (reads : parse (Text.trim expression.toList) = .ok (.name name)) (ordinary : name ≠ "self")
    (found : runOn (context.find? name) machine.store = (.ok (some value), after))
    (defined : value.isUndefined = false) :
    runOn (resolve ⟨context, additional, invoke⟩ expression) machine =
      (.ok value, { machine with store := after }) := by
  have compiled : runOn (compile (Text.trim expression.toList)) machine.store =
      (.ok ⟨.name name, [name]⟩, machine.store) := by
    rw [runOn_compile, translate, reads]
    rfl
  have looked : runOn (lookUp context additional [name] []) machine.store = (.ok [(name, value)], after) := by
    rw [lookUp, List.lookup_nil, decide_eq_false ordinary]
    simp only [Option.isSome_none, Bool.or_false, Bool.false_eq_true, if_false]
    rw [runOn_bind, found]
    rfl
  have valued : nameValue [(name, value)] name = value := by
    rw [nameValue, if_neg ordinary, List.lookup_cons_self]
    rfl
  have ran : runOn (run ⟨context, additional, invoke⟩ (Text.trim expression.toList)) machine =
      (.ok value, { machine with store := after }) := by
    rw [run_eq, runOn_bind, runOn_lift, compiled]
    dsimp only
    rw [runOn_bind, runOn_lift, looked]
    exact congrArg (fun value => (Except.ok value, _)) valued
  rw [runOn_resolve, not_blank reads, ran]
  simp [defined]

/-- An expression is resolved to the same value or the same fault in all contexts that agree on its names, whatever
else they have; further names count only where the contexts have none.  So a name that the context has is resolved
to what the context has under it.  The reference of an expression to itself is not looked up at all. -/
theorem resolve_reads_names (invoke : Nat → String → Arguments → Action σ Value) (machine : Machine σ)
    (expression : String) :
    (∀ left right first second, (∀ name ∈ occurring expression, Agree left right first second machine.store name) →
      runOn (resolve ⟨left, first, invoke⟩ expression) machine =
        runOn (resolve ⟨right, second, invoke⟩ expression) machine) ∧
    ∀ context additional name value after, parse (Text.trim expression.toList) = .ok (.name name) → name ≠ "self" →
      runOn (context.find? name) machine.store = (.ok (some value), after) → value.isUndefined = false →
      runOn (resolve ⟨context, additional, invoke⟩ expression) machine =
        (.ok value, { machine with store := after }) := by
  constructor
  · intro left right first second agree
    have same : runOn (run ⟨left, first, invoke⟩ (Text.trim expression.toList)) machine =
        runOn (run ⟨right, second, invoke⟩ (Text.trim expression.toList)) machine := by
      apply run_agree
      intro term parsed
      rw [occurring, parsed] at agree
      exact agree
    rw [runOn_resolve, runOn_resolve, same]
  · intro context additional name value after reads ordinary found defined
    exact runOn_resolve_name reads ordinary found defined

/-- A mapping and a proxy that have one of two names in common, while the other one is additional. -/
theorem resolve_reads_names_layered :
    let machine : Machine Unit :=
      ⟨⟨#[.dict [(.text "total", .int 3), (.text "draft", .int 1)], .dict [(.text "secret", .text "x")]], 0⟩, ()⟩
    let left : Context := .mapping (.dict 0)
    let right : Context := .proxy ⟨.dict 1, [("sign", .null), ("total", .int 3)]⟩
    let first : Scope := [("total", .int 7), ("rate", .int 2)]
    let second : Scope := [("rate", .int 2)]
    let invoke (_ : Nat) (_ : String) (_ : Arguments) : Action Unit Value := return .null
    (∀ name ∈ occurring "total * rate", Agree left right first second machine.store name) ∧
      runOn (resolve ⟨left, first, invoke⟩ "total * rate") machine =
        runOn (resolve ⟨right, second, invoke⟩ "total * rate") machine ∧
      runOn (resolve ⟨left, first, invoke⟩ " total") machine = (.ok (.int 3), machine) := by
  intro machine left right first second invoke
  have names : occurring "total * rate" = ["total", "rate"] := by decide +kernel
  have agree : ∀ name ∈ occurring "total * rate", Agree left right first second machine.store name := by
    rw [names]
    simp only [List.forall_mem_cons]
    refine ⟨⟨rfl, nofun⟩, ⟨rfl, fun _ => rfl⟩, nofun⟩
  refine ⟨agree, (resolve_reads_names invoke machine "total * rate").1 left right first second agree, ?_⟩
  exact (resolve_reads_names invoke machine " total").2 left first "total" (.int 3) machine.store rfl (by decide) rfl
    rfl

end Expression
end Imprint
