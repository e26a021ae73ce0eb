import Imprint.Proofs.Action
/-! # Texts as keys

A text equals no other value, so what is found under a text depends on nothing but the keys that are texts.  Only
an undefined key refuses to be compared, and no mapping takes one. -/
set_option autoImplicit false
namespace Imprint.Value
open Imprint.Action

/-- Values that a mapping takes as keys. -/
def IsKey (value : Value) : Prop :=
  ∀ store, runOn (requireKey value) store = (.ok (), store)

theorem IsKey.defined {value : Value} (isKey : IsKey value) (missing : Missing) : value ≠ .undefined false missing := by
  rintro rfl
  cases isKey .empty

/-- The entries whose keys are texts. -/
def textEntries (entries : List (Value × Value)) : List (String × Value) :=
  entries.filterMap fun entry =>
    match entry.1 with
    | .text name => some (name, entry.2)
    | _ => none

theorem isEqual_text {key : Value} (defined : ∀ missing, key ≠ .undefined false missing) (name : String) :
    isEqual key (.text name) = pure (same key (.text name)) := by
  show equals (999 + 1) key (.text name) = _
  cases key with
  | undefined lenient missing =>
    cases lenient with
    | true => simp [equals, isNumber]
    | false => exact absurd rfl (defined missing)
  | _ => simp [equals, isNumber]

/-- Whatever the keys are, looking for a text among them neither reads the store nor changes it. -/
theorem lookup_text_steady (entries : List (Value × Value)) (name : String) :
    ∃ outcome, ∀ store, runOn (lookup (.text name) entries) store = (outcome, store) := by
  show ∃ outcome, ∀ store, runOn (lookupBy isEqual (.text name) entries) store = (outcome, store)
  induction entries with
  | nil => exact ⟨.ok none, fun _ => rfl⟩
  | cons entry rest hypothesis =>
    obtain ⟨key, value⟩ := entry
    rw [lookupBy]
    by_cases found : same key (.text name) = true
    · rw [if_pos found]
      exact ⟨.ok (some value), fun _ => rfl⟩
    · rw [if_neg found]
      by_cases undefined : ∃ missing, key = .undefined false missing
      · obtain ⟨missing, rfl⟩ := undefined
        exact ⟨.error (.undefined missing), fun _ => rfl⟩
      · have defined : ∀ missing, key ≠ .undefined false missing := fun missing equal => undefined ⟨missing, equal⟩
        rw [isEqual_text defined, Bool.eq_false_iff.mpr found, pure_bind, if_neg Bool.false_ne_true]
        exact hypothesis

end Imprint.Value
