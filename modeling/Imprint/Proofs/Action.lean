import Imprint.Expression.Evaluate

/-! # Runs of computations

A computation that may reach outside of the values is run on a machine: it gives a result or a fault,
and leaves a machine in either case.  Two judgements about runs carry all later arguments: a condition
on machines is kept, and two computations go side by side. -/
set_option autoImplicit false
namespace Imprint
namespace Action

variable {ς σ τ α β : Type}

/-- What a computation on a state gives, and the state it leaves. -/
def runOn (computation : ExceptT Fault (StateM ς) α) (state : ς) : Except Fault α × ς :=
  (ExceptT.run computation).run state

@[simp] theorem runOn_pure (value : α) (state : ς) :
    runOn (pure value : ExceptT Fault (StateM ς) α) state = (.ok value, state) := rfl

@[simp] theorem runOn_throw (fault : Fault) (state : ς) :
    runOn (throw fault : ExceptT Fault (StateM ς) α) state = (.error fault, state) := rfl

theorem runOn_bind (computation : ExceptT Fault (StateM ς) α)
    (next : α → ExceptT Fault (StateM ς) β) (state : ς) :
    runOn (computation >>= next) state =
      match runOn computation state with
      | (.ok value, middle) => runOn (next value) middle
      | (.error fault, middle) => (.error fault, middle) := by
  show (ExceptT.run (computation >>= next)).run state = _
  simp only [ExceptT.run_bind, StateT.run_bind, runOn]
  cases (StateT.run (ExceptT.run computation) state) with
  | mk result middle => cases result <;> rfl

theorem runOn_tryCatch (computation : ExceptT Fault (StateM ς) α)
    (handle : Fault → ExceptT Fault (StateM ς) α) (state : ς) :
    runOn (tryCatch computation handle) state =
      match runOn computation state with
      | (.ok value, middle) => (.ok value, middle)
      | (.error fault, middle) => runOn (handle fault) middle := by
  show (ExceptT.run (tryCatch computation handle)).run state = _
  simp only [ExceptT.run_tryCatch, StateT.run_bind, runOn]
  cases (StateT.run (ExceptT.run computation) state) with
  | mk result middle => cases result <;> rfl

/-- A computation on values works on the store of the machine and leaves the rest alone. -/
theorem runOn_lift (computation : Heap α) (machine : Machine σ) :
    runOn (liftM computation : Action σ α) machine =
      ((runOn computation machine.store).1,
        { machine with store := (runOn computation machine.store).2 }) := rfl

/-- A composed run that succeeds is made of two that do. -/
theorem bind_ok {computation : ExceptT Fault (StateM ς) α}
    {next : α → ExceptT Fault (StateM ς) β} {start final : ς} {result : β}
    (accepted : runOn (computation >>= next) start = (.ok result, final)) :
    ∃ value middle, runOn computation start = (.ok value, middle) ∧
      runOn (next value) middle = (.ok result, final) := by
  rw [runOn_bind] at accepted
  cases first : runOn computation start with
  | mk outcome middle =>
    cases outcome with
    | error fault => simp [first] at accepted
    | ok value => exact ⟨value, middle, rfl, by simpa [first] using accepted⟩

theorem except_bind_ok {first : Except Fault α} {next : α → Except Fault β} {result : β}
    (accepted : first >>= next = .ok result) : ∃ value, first = .ok value ∧ next value = .ok result := by
  cases first with
  | error fault => cases accepted
  | ok value => exact ⟨value, rfl, accepted⟩

/-- A fault of the first part of a composed run is one of all of it. -/
theorem bind_error {computation : ExceptT Fault (StateM ς) α} {next : α → ExceptT Fault (StateM ς) β} {start : ς}
    {fault : Fault} (failed : (runOn computation start).1 = .error fault) :
    (runOn (computation >>= next) start).1 = .error fault := by
  rw [runOn_bind]
  cases reached : runOn computation start with
  | mk outcome after =>
    rw [reached] at failed
    obtain rfl : outcome = .error fault := failed
    rfl

theorem bind_goesOn {computation : ExceptT Fault (StateM ς) α} {next : α → ExceptT Fault (StateM ς) β}
    {start middle : ς} {value : α} (ran : runOn computation start = (.ok value, middle)) :
    runOn (computation >>= next) start = runOn (next value) middle := by
  rw [runOn_bind, ran]

theorem bind_stops {computation : ExceptT Fault (StateM ς) α} {next : α → ExceptT Fault (StateM ς) β}
    {start middle : ς} {fault : Fault} (ran : runOn computation start = (.error fault, middle)) :
    runOn (computation >>= next) start = (.error fault, middle) := by
  rw [runOn_bind, ran]

/-- Composed computations do the same if their parts do. -/
theorem bind_same {computation other : ExceptT Fault (StateM ς) α} {next nextOther : α → ExceptT Fault (StateM ς) β}
    {start : ς} (first : runOn computation start = runOn other start)
    (second : ∀ value after, runOn computation start = (.ok value, after) →
      runOn (next value) after = runOn (nextOther value) after) :
    runOn (computation >>= next) start = runOn (other >>= nextOther) start := by
  rw [runOn_bind, runOn_bind, ← first]
  cases reached : runOn computation start with
  | mk outcome after =>
    cases outcome with
    | error fault => rfl
    | ok value => exact second value after reached

/-! ## Conditions that are kept -/

/-- Every run from a machine that satisfies a condition leaves one that does, whether it succeeds
or not. -/
def Keeps (condition : Machine σ → Prop) (computation : Action σ α) : Prop :=
  ∀ machine, condition machine → condition (runOn computation machine).2

/-- Whether a condition does not depend on the store. -/
def StoreFree (condition : Machine σ → Prop) : Prop :=
  ∀ (machine : Machine σ) (store : Store), condition machine → condition { machine with store }

namespace Keeps

variable {condition : Machine σ → Prop}

theorem pure (value : α) : Keeps condition (Pure.pure value : Action σ α) :=
  fun _ holds => holds

theorem throw (fault : Fault) : Keeps condition (MonadExcept.throw fault : Action σ α) :=
  fun _ holds => holds

theorem bind {computation : Action σ α} {next : α → Action σ β}
    (first : Keeps condition computation) (second : ∀ value, Keeps condition (next value)) :
    Keeps condition (computation >>= next) := by
  intro machine holds
  have middle := first machine holds
  rw [runOn_bind]
  cases reached : runOn computation machine with
  | mk outcome after =>
    rw [reached] at middle
    cases outcome with
    | error fault => exact middle
    | ok value => exact second value after middle

/-- What follows on a step that succeeds may depend on how it was run. -/
theorem bindRun {computation : Action σ α} {next : α → Action σ β} (first : Keeps condition computation)
    (second : ∀ machine value after, condition machine → runOn computation machine = (.ok value, after) →
      condition after → condition (runOn (next value) after).2) : Keeps condition (computation >>= next) := by
  intro machine holds
  have middle := first machine holds
  rw [runOn_bind]
  cases reached : runOn computation machine with
  | mk outcome after =>
    rw [reached] at middle
    cases outcome with
    | error fault => exact middle
    | ok value => exact second machine value after holds reached middle

/-- After a step whose outcome is known, what is left keeps the condition. -/
theorem after {computation : Action σ α} {next : α → Action σ β} {start middle : Machine σ} {value : α}
    (reached : runOn computation start = (.ok value, middle)) (rest : Keeps condition (next value))
    (holds : condition middle) : condition (runOn (computation >>= next) start).2 := by
  rw [runOn_bind, reached]
  exact rest middle holds

theorem tryCatch {computation : Action σ α} {handle : Fault → Action σ α}
    (first : Keeps condition computation) (second : ∀ fault, Keeps condition (handle fault)) :
    Keeps condition (MonadExcept.tryCatch computation handle) := by
  intro machine holds
  have middle := first machine holds
  rw [runOn_tryCatch]
  cases reached : runOn computation machine with
  | mk outcome after =>
    rw [reached] at middle
    cases outcome with
    | error fault => exact second fault after middle
    | ok value => exact middle

theorem lift (free : StoreFree condition) (computation : Heap α) :
    Keeps condition (liftM computation : Action σ α) :=
  fun machine holds => free machine _ holds

theorem forM {items : List β} {body : β → Action σ PUnit}
    (each : ∀ item ∈ items, Keeps condition (body item)) :
    Keeps condition (items.forM body) := by
  induction items with
  | nil => exact Keeps.pure _
  | cons item rest hypothesis =>
    exact Keeps.bind (each item List.mem_cons_self)
      fun _ => hypothesis fun other member => each other (List.mem_cons_of_mem _ member)

theorem mapM {items : List β} {body : β → Action σ α}
    (each : ∀ item ∈ items, Keeps condition (body item)) :
    Keeps condition (items.mapM body) := by
  induction items with
  | nil => exact Keeps.pure _
  | cons item rest hypothesis =>
    rw [List.mapM_cons]
    refine Keeps.bind (each item List.mem_cons_self) fun _ => ?_
    exact Keeps.bind (hypothesis fun other member => each other (List.mem_cons_of_mem _ member))
      fun _ => Keeps.pure _

end Keeps

/-- Every run from a machine that satisfies a condition leaves one that does, and what it gives, if it
succeeds, has a property. -/
def Gives (condition : Machine σ → Prop) (property : α → Prop) (computation : Action σ α) : Prop :=
  ∀ machine, condition machine → condition (runOn computation machine).2 ∧
    ∀ value, (runOn computation machine).1 = .ok value → property value

namespace Gives

variable {condition : Machine σ → Prop} {property : α → Prop}

theorem keeps {computation : Action σ α} (gives : Gives condition property computation) :
    Keeps condition computation :=
  fun machine holds => (gives machine holds).1

theorem pure {value : α} (holds : property value) :
    Gives condition property (Pure.pure value : Action σ α) := by
  refine fun _ kept => ⟨kept, ?_⟩
  rintro _ ⟨⟩
  exact holds

theorem bind {other : β → Prop} {computation : Action σ α} {next : α → Action σ β}
    (first : Gives condition property computation)
    (second : ∀ value, property value → Gives condition other (next value)) :
    Gives condition other (computation >>= next) := by
  intro machine holds
  obtain ⟨middle, given⟩ := first machine holds
  rw [runOn_bind]
  cases reached : runOn computation machine with
  | mk outcome after =>
    rw [reached] at middle given
    cases outcome with
    | error fault =>
      refine ⟨middle, ?_⟩
      rintro _ ⟨⟩
    | ok value => exact second value (given value rfl) after middle

theorem mapM {items : List β} {body : β → Action σ α}
    (each : ∀ item ∈ items, Gives condition property (body item)) :
    Gives condition (fun values => ∀ value ∈ values, property value) (items.mapM body) := by
  induction items with
  | nil => exact Gives.pure fun _ member => absurd member List.not_mem_nil
  | cons item rest hypothesis =>
    rw [List.mapM_cons]
    refine Gives.bind (each item List.mem_cons_self) fun value holds => ?_
    refine Gives.bind (hypothesis fun other member => each other (List.mem_cons_of_mem _ member))
      fun values others => Gives.pure fun other member => ?_
    rcases List.mem_cons.mp member with rfl | member
    · exact holds
    · exact others other member

end Gives

/-- What holds of every value that is given as soon as it is given, and is kept by all that follows, holds of
all of them at the end. -/
theorem mapM_holds (condition : Machine σ → Prop) (holds : α → Machine σ → Prop) {items : List β}
    {body : β → Action σ α} (keeps : ∀ item ∈ items, Keeps condition (body item))
    (gives : ∀ item ∈ items, ∀ machine value after, condition machine →
      runOn (body item) machine = (.ok value, after) → holds value after)
    (stays : ∀ value, ∀ item ∈ items, Keeps (fun machine => condition machine ∧ holds value machine) (body item))
    {values : List α} {machine after : Machine σ} (ready : condition machine)
    (run : runOn (items.mapM body) machine = (.ok values, after)) : ∀ value ∈ values, holds value after := by
  induction items generalizing machine values with
  | nil =>
    cases run
    exact fun _ member => absurd member List.not_mem_nil
  | cons item rest hypothesis =>
    rw [List.mapM_cons] at run
    obtain ⟨first, middle, here, run⟩ := bind_ok run
    obtain ⟨others, last, there, run⟩ := bind_ok run
    cases run
    have readyMiddle : condition middle := by
      have kept := keeps item List.mem_cons_self machine ready
      rwa [here] at kept
    intro value member
    rcases List.mem_cons.mp member with rfl | member
    · have kept : Keeps (fun machine => condition machine ∧ holds value machine) (rest.mapM body) :=
        Keeps.mapM fun other among => stays value other (List.mem_cons_of_mem _ among)
      have held := kept middle ⟨readyMiddle, gives item List.mem_cons_self machine value middle ready here⟩
      rw [there] at held
      exact held.2
    · exact hypothesis (fun other among => keeps other (List.mem_cons_of_mem _ among))
        (fun other among => gives other (List.mem_cons_of_mem _ among))
        (fun value other among => stays value other (List.mem_cons_of_mem _ among)) readyMiddle there value member

/-- Every run from a machine that satisfies a condition ends in a fault. -/
def Fails (condition : Machine σ → Prop) (computation : Action σ α) : Prop :=
  ∀ machine, condition machine → ∃ fault, (runOn computation machine).1 = .error fault

namespace Fails

variable {condition : Machine σ → Prop}

theorem bind {computation : Action σ α} {next : α → Action σ β} (first : Fails condition computation) :
    Fails condition (computation >>= next) := by
  intro machine holds
  obtain ⟨fault, failed⟩ := first machine holds
  exact ⟨fault, bind_error failed⟩

theorem after {computation : Action σ α} {next : α → Action σ β} (first : Keeps condition computation)
    (second : ∀ value, Fails condition (next value)) : Fails condition (computation >>= next) := by
  intro machine holds
  have middle := first machine holds
  rw [runOn_bind]
  cases reached : runOn computation machine with
  | mk outcome after =>
    rw [reached] at middle
    cases outcome with
    | error fault => exact ⟨fault, rfl⟩
    | ok value => exact second value after middle

theorem forM {items : List β} {body : β → Action σ PUnit}
    (each : ∀ item ∈ items, Keeps condition (body item)) {item : β} (member : item ∈ items)
    (fails : Fails condition (body item)) : Fails condition (items.forM body) := by
  induction items with
  | nil => cases member
  | cons first rest hypothesis =>
    rcases List.mem_cons.mp member with rfl | later
    · exact Fails.bind fails
    · exact Fails.after (each first List.mem_cons_self) fun _ =>
        hypothesis (fun other among => each other (List.mem_cons_of_mem _ among)) later

end Fails

/-- Every run from a machine that satisfies a condition leaves one that does if it succeeds. -/
def Leads (condition : Machine σ → Prop) (computation : Action σ α) : Prop :=
  ∀ machine, condition machine → ∀ value after, runOn computation machine = (.ok value, after) →
    condition after

theorem Keeps.leads {condition : Machine σ → Prop} {computation : Action σ α}
    (keeps : Keeps condition computation) : Leads condition computation := by
  intro machine holds value after accepted
  have kept := keeps machine holds
  rwa [accepted] at kept

namespace Leads

variable {condition : Machine σ → Prop}

theorem bind {computation : Action σ α} {next : α → Action σ β} (first : Leads condition computation)
    (second : ∀ value, Leads condition (next value)) : Leads condition (computation >>= next) := by
  intro machine holds result final accepted
  obtain ⟨value, middle, run, rest⟩ := bind_ok accepted
  exact second value middle (first machine holds value middle run) result final rest

theorem forM {items : List β} {body : β → Action σ PUnit}
    (each : ∀ item ∈ items, Leads condition (body item)) : Leads condition (items.forM body) := by
  induction items with
  | nil => exact (Keeps.pure _).leads
  | cons item rest hypothesis =>
    exact Leads.bind (each item List.mem_cons_self)
      fun _ => hypothesis fun other member => each other (List.mem_cons_of_mem _ member)

end Leads

theorem Keeps.gives {condition : Machine σ → Prop} {computation : Action σ α}
    (keeps : Keeps condition computation) : Gives condition (fun _ => True) computation :=
  fun machine holds => ⟨keeps machine holds, fun _ _ => trivial⟩

end Action

/-! ## Runs side by side -/

/-- What ties two machines together while two computations go side by side: `together` relates the
machines, which then hold the same values, and `broken` tells of the left one that the comparison is
over.  Neither depends on which values the machines hold. -/
structure Coupling (σ τ : Type) where
  broken : Machine σ → Prop
  together : Machine σ → Machine τ → Prop
  broken_store : Action.StoreFree broken
  same_store : ∀ {left : Machine σ} {right : Machine τ}, together left right →
    left.store = right.store
  together_store : ∀ {left : Machine σ} {right : Machine τ} (store : Store),
    together left right → together { left with store } { right with store }

namespace Coupling

open Imprint.Action

variable {σ τ α β : Type}

/-- Two computations give the same on machines that are tied together, and leave such machines, unless
the left run breaks the comparison; what is broken stays so. -/
structure Relates (coupling : Coupling σ τ) (left : Action σ α) (right : Action τ α) : Prop where
  stays : Keeps coupling.broken left
  agrees : ∀ start other, coupling.together start other →
    coupling.broken (runOn left start).2 ∨
      ((runOn left start).1 = (runOn right other).1 ∧
        coupling.together (runOn left start).2 (runOn right other).2)

namespace Relates

variable {coupling : Coupling σ τ}

theorem pure (value : α) :
    coupling.Relates (Pure.pure value : Action σ α) (Pure.pure value : Action τ α) where
  stays := Keeps.pure value
  agrees _ _ together := .inr ⟨rfl, together⟩

theorem throw (fault : Fault) :
    coupling.Relates (MonadExcept.throw fault : Action σ α)
      (MonadExcept.throw fault : Action τ α) where
  stays := Keeps.throw fault
  agrees _ _ together := .inr ⟨rfl, together⟩

theorem lift (computation : Heap α) :
    coupling.Relates (liftM computation : Action σ α) (liftM computation : Action τ α) where
  stays := Keeps.lift coupling.broken_store computation
  agrees start other together := by
    have same := coupling.same_store together
    refine .inr ⟨?_, ?_⟩
    · simp only [runOn_lift, same]
    · simp only [runOn_lift, same]
      exact coupling.together_store _ together

theorem bind {left : Action σ α} {right : Action τ α} {leftNext : α → Action σ β}
    {rightNext : α → Action τ β} (first : coupling.Relates left right)
    (second : ∀ value, coupling.Relates (leftNext value) (rightNext value)) :
    coupling.Relates (left >>= leftNext) (right >>= rightNext) where
  stays := Keeps.bind first.stays fun value => (second value).stays
  agrees start other together := by
    rw [runOn_bind, runOn_bind]
    cases reached : runOn left start with
    | mk outcome after =>
      cases reachedOther : runOn right other with
      | mk outcomeOther afterOther =>
        have middle := first.agrees start other together
        rw [reached, reachedOther] at middle
        rcases middle with broken | ⟨same, middle⟩
        · left
          cases outcome with
          | error fault => exact broken
          | ok value => exact (second value).stays after broken
        · cases same
          cases outcome with
          | error fault => exact .inr ⟨rfl, middle⟩
          | ok value => exact (second value).agrees after afterOther middle

theorem tryCatch {left : Action σ α} {right : Action τ α} {leftHandle : Fault → Action σ α}
    {rightHandle : Fault → Action τ α} (first : coupling.Relates left right)
    (second : ∀ fault, coupling.Relates (leftHandle fault) (rightHandle fault)) :
    coupling.Relates (MonadExcept.tryCatch left leftHandle)
      (MonadExcept.tryCatch right rightHandle) where
  stays := Keeps.tryCatch first.stays fun fault => (second fault).stays
  agrees start other together := by
    rw [runOn_tryCatch, runOn_tryCatch]
    cases reached : runOn left start with
    | mk outcome after =>
      cases reachedOther : runOn right other with
      | mk outcomeOther afterOther =>
        have middle := first.agrees start other together
        rw [reached, reachedOther] at middle
        rcases middle with broken | ⟨same, middle⟩
        · left
          cases outcome with
          | error fault => exact (second fault).stays after broken
          | ok value => exact broken
        · cases same
          cases outcome with
          | error fault => exact (second fault).agrees after afterOther middle
          | ok value => exact .inr ⟨rfl, middle⟩

theorem forM {items : List β} {left : β → Action σ PUnit} {right : β → Action τ PUnit}
    (each : ∀ item, coupling.Relates (left item) (right item)) :
    coupling.Relates (items.forM left) (items.forM right) := by
  induction items with
  | nil => exact Relates.pure _
  | cons item rest hypothesis => exact Relates.bind (each item) fun _ => hypothesis

theorem mapM {items : List β} {left : β → Action σ α} {right : β → Action τ α}
    (each : ∀ item, coupling.Relates (left item) (right item)) :
    coupling.Relates (items.mapM left) (items.mapM right) := by
  induction items with
  | nil => exact Relates.pure _
  | cons item rest hypothesis =>
    rw [List.mapM_cons, List.mapM_cons]
    exact Relates.bind (each item) fun _ => Relates.bind hypothesis fun _ => Relates.pure _

end Relates

end Coupling
end Imprint
