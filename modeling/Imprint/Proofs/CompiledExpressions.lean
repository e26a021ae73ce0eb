import Imprint.Proofs.EngineSteps
/-! # Expressions are compiled once

The first expression sets up what all of them can use, and the program of every expression that could be compiled
is kept for its letters.  A program that has been kept is run in the place of a new one.  This makes no difference
as long as nothing is kept but what compiling the letters anew would give, which every step sees to. -/
set_option autoImplicit false
namespace Imprint
open Imprint.Action Document

/-! ## What is kept -/

/-- What is kept of expressions: nothing before they have been set up, and then one program for the letters of
each, which is the one that compiling them anew gives. -/
structure Prepared (configured : Bool) (compiled : List Expression.Compiled) : Prop where
  setUp : ∀ entry ∈ compiled, configured = true
  once : (compiled.map (·.letters)).Nodup
  faithful : ∀ entry ∈ compiled, Expression.translate entry.letters = .ok entry.program

/-- The program that is run for an expression: the one that is kept for its letters, or a new one. -/
def programFor (compiled : List Expression.Compiled) (letters : List Char) : Except Fault Expression.Program :=
  match compiled.find? (·.letters == letters) with
  | some entry => .ok entry.program
  | none => Expression.translate letters

/-- What is kept behind an expression: its program, if it is a new one. -/
def keptBehind (compiled : List Expression.Compiled) (letters : List Char) : List Expression.Compiled :=
  match compiled.find? (·.letters == letters), Expression.translate letters with
  | none, .ok program => ⟨letters, program⟩ :: compiled
  | _, _ => compiled

namespace Prepared

variable {configured : Bool} {compiled : List Expression.Compiled}

theorem fresh : Prepared false [] :=
  ⟨nofun, List.nodup_nil, nofun⟩

theorem configure (prepared : Prepared configured compiled) : Prepared true compiled :=
  ⟨fun _ _ => rfl, prepared.once, prepared.faithful⟩

/-- A program that was kept is the one that compiling the expression anew gives. -/
theorem programFor_eq (prepared : Prepared configured compiled) (letters : List Char) :
    programFor compiled letters = Expression.translate letters := by
  unfold programFor
  cases kept : compiled.find? (·.letters == letters) with
  | none => rfl
  | some entry =>
    have found := List.find?_some kept
    obtain rfl : entry.letters = letters := beq_iff_eq.mp found
    exact (prepared.faithful entry (List.mem_of_find?_eq_some kept)).symm

/-- What is kept behind an expression is in order if it has been so before. -/
theorem behind (prepared : Prepared true compiled) (letters : List Char) :
    Prepared true (keptBehind compiled letters) := by
  unfold keptBehind
  split
  next program missing translated =>
    -- Only letters that nothing is kept for come with a new program, so none come up twice.
    refine ⟨fun _ _ => rfl, List.nodup_cons.mpr ⟨fun member => ?_, prepared.once⟩, fun entry member => ?_⟩
    · obtain ⟨other, among, same⟩ := List.mem_map.mp member
      exact List.find?_eq_none.mp missing other among (beq_iff_eq.mpr same)
    · rcases List.mem_cons.mp member with rfl | among
      · exact translated
      · exact prepared.faithful entry among
  next => exact prepared

/-- At the start of a stamping run nothing is kept. -/
theorem ofPackage (package : Package) (handlers : List Handler) (additional : Expression.Scope) :
    Prepared (World.ofPackage package handlers additional).configured
      (World.ofPackage package handlers additional).compiled :=
  fresh

end Prepared

/-! ## Resolving an expression -/

/-- The world when an expression has been compiled, if there is anything to compile. -/
def World.readied (world : World) (expression : String) : World :=
  if Expression.isBlankExpression expression then world
  else { world with
    configured := true
    compiled := keptBehind world.compiled (Text.trim expression.toList) }

theorem World.readied_only (world : World) (expression : String) : world.readied expression =
    { world with
      configured := (world.readied expression).configured
      compiled := (world.readied expression).compiled } := by
  unfold World.readied
  split <;> rfl

theorem Prepared.readied {world : World} (prepared : Prepared world.configured world.compiled) (expression : String) :
    Prepared (world.readied expression).configured (world.readied expression).compiled := by
  unfold World.readied
  split
  · exact prepared
  · exact prepared.configure.behind _

namespace Engine

theorem runOn_compile (letters : List Char) (machine : Machine World) : runOn (compile letters) machine =
    (programFor machine.outer.compiled letters, { machine with
      outer := { machine.outer with compiled := keptBehind machine.outer.compiled letters } }) := by
  unfold compile programFor keptBehind
  rw [runOn_bind, runOn_world]
  dsimp only
  cases machine.outer.compiled.find? (·.letters == letters) with
  | some entry => rfl
  | none =>
    dsimp only
    rw [runOn_bind, runOn_lift, Expression.runOn_compile]
    cases Expression.translate letters with
    | error fault => rfl
    | ok program => rfl

/-- An expression is resolved by the program for it, with all names that are set up for expressions. -/
theorem runOn_resolve (context : Context) (expression : String) (machine : Machine World) :
    runOn (resolve context expression) machine =
      runOn (Expression.resolveBy
          (fun letters => liftM (MonadExcept.ofExcept (programFor machine.outer.compiled letters) : Heap _))
          ⟨context, machine.outer.additional, callDirective⟩ expression)
        { machine with outer := machine.outer.readied expression } := by
  unfold resolve World.readied
  cases written : Expression.isBlankExpression expression with
  | true =>
    rw [Bool.not_true, if_neg Bool.false_ne_true, if_pos rfl, runOn_bind, runOn_world]
    unfold Expression.resolveBy
    rw [written]
    rfl
  | false =>
    rw [Bool.not_false, if_pos rfl, if_neg Bool.false_ne_true, runOn_bind, runOn_change]
    dsimp only
    rw [runOn_bind, runOn_world]
    refine Expression.runOn_resolve_same written ?_
    rw [runOn_compile, runOn_lift]
    cases programFor machine.outer.compiled (Text.trim expression.toList) with
    | error fault => rfl
    | ok program => rfl

/-- As long as what is kept is in order, an expression gives what it gives when it is compiled anew. -/
theorem runOn_resolve_anew (context : Context) (expression : String) {machine : Machine World}
    (prepared : Prepared machine.outer.configured machine.outer.compiled) :
    runOn (resolve context expression) machine =
      runOn (Expression.resolve ⟨context, machine.outer.additional, callDirective⟩ expression)
        { machine with outer := machine.outer.readied expression } := by
  rw [runOn_resolve]
  simp only [prepared.programFor_eq]
  rfl

end Engine
end Imprint
