import Imprint.Proofs.Action
import Imprint.Value.Member

/-! # Reading attributes

What is reached in a value by a name does not depend on the store.  Of an object, exactly the public names that it
tells of can be read. -/
set_option autoImplicit false
namespace Imprint.Value
open Imprint.Action

/-- A computation that reads nothing of the store.  It leaves the store alone, or adds a dictionary and gives it. -/
inductive Unread (computation : Heap (Option Value)) : Prop where
  | leaving {outcome : Except Fault (Option Value)} (run : ∀ store, runOn computation store = (outcome, store)) :
      Unread computation
  | adding {entries : List (Value × Value)}
      (run : ∀ store, runOn computation store =
        (.ok (some (.dict store.cells.size)), (store.add (.dict entries)).2)) : Unread computation

namespace Unread

theorem pure (found : Option Value) : Unread (Pure.pure found) :=
  .leaving fun _ => rfl

theorem throw (fault : Fault) : Unread (MonadExcept.throw fault) :=
  .leaving fun _ => rfl

theorem after {α : Type} {computation : Heap α} {next : α → Heap (Option Value)} {value : α}
    (run : ∀ store, runOn computation store = (.ok value, store)) (rest : Unread (next value)) :
    Unread (computation >>= next) := by
  cases rest with
  | leaving left => exact .leaving fun store => by rw [runOn_bind, run]; exact left store
  | adding added => exact .adding fun store => by rw [runOn_bind, run]; exact added store

end Unread

/-- Data attributes are among the public names.  Only the attributes of an element are made when they are asked
for; everything else is there. -/
theorem runOn_dataAttribute? (value : Value) (name : String) :
    (∃ found, (∀ store, runOn (dataAttribute? value name) store = (.ok found, store)) ∧
        (found.isSome = true → name ∈ value.publicMembers)) ∨
      name ∈ value.publicMembers ∧ ∃ entries, ∀ store, runOn (dataAttribute? value name) store =
        (.ok (some (.dict store.cells.size)), (store.add (.dict entries)).2) := by
  unfold dataAttribute?
  split
  -- almost all are there, or are no data attributes at all
  all_goals first
    | exact .inl ⟨none, fun _ => rfl, fun found => by cases found⟩
    | exact .inl ⟨some _, fun _ => rfl, fun _ => by dsimp only [publicMembers]; decide +kernel⟩
    | skip
  next part cell =>
    refine .inl ⟨some (.dict cell), fun _ => rfl, fun _ => ?_⟩
    cases part <;> simp [publicMembers]
  next node =>
    have listed : "tag" ∈ elementMembers := by decide +kernel
    cases node.tag? with
    | none => exact .inl ⟨none, fun _ => rfl, fun _ => listed⟩
    | some tag => exact .inl ⟨some (.text tag.fullText), fun _ => rfl, fun _ => listed⟩
  next node =>
    have listed : "prefix" ∈ elementMembers := by decide +kernel
    split
    · exact .inl ⟨some (.text "w"), fun _ => rfl, fun _ => listed⟩
    · exact .inl ⟨some .null, fun _ => rfl, fun _ => listed⟩
  next node =>
    have listed : "attrib" ∈ elementMembers := by decide +kernel
    split
    next tag attributes => exact .inr ⟨listed, _, fun _ => rfl⟩
    next => exact .inl ⟨none, fun _ => rfl, fun _ => listed⟩

/-- What is reached by a name is reached without reading the store. -/
theorem attribute?_unread (value : Value) (name : String) : Unread (value.attribute? name) := by
  unfold attribute?
  split
  next identity kind fields failing =>
    split
    next => exact .pure _
    next => exact .throw _
    next =>
      split
      · exact .pure _
      · split <;> exact .pure _
  next lenient missing =>
    split
    · exact .pure _
    · split
      · exact .pure _
      · exact .throw _
  next =>
    obtain ⟨found, run, -⟩ | ⟨-, entries, run⟩ := runOn_dataAttribute? value name
    · apply Unread.after run
      cases found with
      | some found => exact .pure _
      | none =>
        dsimp only
        split
        · exact .pure _
        · split <;> exact .pure _
    · exact .adding fun store => by rw [runOn_bind, run]; rfl

end Imprint.Value
