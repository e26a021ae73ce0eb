import Imprint.Proofs.EngineSteps
import Imprint.Proofs.RunTextRoundTrip
/-! # Which texts a document accepts

Cleaning a text drops the control characters that XML does not allow, but XML leaves out two code points more.
These two stay in the text, and a run cannot be given a text with one of them. -/
set_option autoImplicit false
namespace Imprint.Document
open Xml Imprint.Action Engine

/-- The characters of XML 1.0. -/
def IsXmlCharacter (letter : Char) : Prop :=
  letter = '\t' ∨ letter = '\n' ∨ letter = '\r' ∨ 0x20 ≤ letter.toNat ∧ letter.toNat ≤ 0xd7ff ∨
    0xe000 ≤ letter.toNat ∧ letter.toNat ≤ 0xfffd ∨ 0x10000 ≤ letter.toNat ∧ letter.toNat ≤ 0x10ffff

/-- The two code points behind the last character of the basic plane. -/
def IsNoncharacter (letter : Char) : Prop :=
  letter.toNat = 0xfffe ∨ letter.toNat = 0xffff

theorem toNat_bounds (letter : Char) : letter.toNat < 0xd800 ∨ 0xe000 ≤ letter.toNat ∧ letter.toNat ≤ 0x10ffff := by
  have valid : letter.toNat < 0xd800 ∨ 0xdfff < letter.toNat ∧ letter.toNat < 0x110000 := letter.valid
  omega

theorem not_strayControl_iff (letter : Char) :
    Text.isStrayControl letter = false ↔ IsXmlCharacter letter ∨ IsNoncharacter letter := by
  have bounds := toNat_bounds letter
  by_cases tab : letter = '\t'
  · simp [tab, Text.isStrayControl, IsXmlCharacter]
  by_cases feed : letter = '\n'
  · simp [feed, Text.isStrayControl, IsXmlCharacter]
  by_cases carriage : letter = '\r'
  · simp [carriage, Text.isStrayControl, IsXmlCharacter]
  · simp [Text.isStrayControl, IsXmlCharacter, IsNoncharacter, tab, feed, carriage]
    omega

theorem noncharacter_not_allowed {letter : Char} (left : IsNoncharacter letter) : ¬ IsXmlCharacter letter := by
  have control (other : Char) (low : other.toNat < 0x20) : letter ≠ other := by
    rintro rfl
    unfold IsNoncharacter at left
    omega
  unfold IsXmlCharacter
  simp only [control '\t' (by decide), control '\n' (by decide), control '\r' (by decide), false_or]
  unfold IsNoncharacter at left
  omega

/-- A cleaned text holds the letters of the text that XML allows, and the two that it does not. -/
theorem mem_sanitize (letters : List Char) (letter : Char) :
    letter ∈ Text.sanitize letters ↔ letter ∈ letters ∧ (IsXmlCharacter letter ∨ IsNoncharacter letter) := by
  rw [← not_strayControl_iff, Text.sanitize, List.mem_filter, Bool.not_eq_true']

theorem isWritableChar_iff (letter : Char) : Text.isWritableChar letter = true ↔ IsXmlCharacter letter := by
  simp only [Text.isWritableChar, Bool.and_eq_true, Bool.not_eq_true', not_strayControl_iff, bne_iff_ne]
  constructor
  · intro accepted
    obtain ⟨⟨allowed | left, first⟩, second⟩ := accepted
    · exact allowed
    · exact absurd left (not_or.mpr ⟨first, second⟩)
  · intro allowed
    refine ⟨⟨.inl allowed, fun first => ?_⟩, fun second => ?_⟩
    · exact noncharacter_not_allowed (.inl first) allowed
    · exact noncharacter_not_allowed (.inr second) allowed

theorem requireWritable_ok_iff (letters : List Char) :
    requireWritable letters = .ok () ↔ ∀ letter ∈ letters, ¬ IsNoncharacter letter := by
  constructor
  · intro accepted letter member left
    have stays : letter ∈ Text.sanitize letters := (mem_sanitize letters letter).mpr ⟨member, .inr left⟩
    have refused : canWrite letters = false := by
      apply Bool.eq_false_iff.mpr
      intro allowed
      exact noncharacter_not_allowed left ((isWritableChar_iff letter).mp (List.all_eq_true.mp allowed letter stays))
    rw [requireWritable, refused, if_neg Bool.false_ne_true] at accepted
    cases accepted
  · intro free
    apply requireWritable_ok
    intro letter member
    exact not_or.mp (free letter member)

theorem writeRun_ok_iff (run : Nat) (letters : List Char) (machine : Machine World) :
    (runOn (writeRun run letters) machine).1 = .ok () ↔ requireWritable letters = .ok () := by
  unfold writeRun
  cases requireWritable letters with
  | ok _ => simp only [runOn_changeForest]
  | error fault => simp only [runOn_bind, runOn_changeForest, runOn_throw, reduceCtorEq]

theorem toRun_text_ok_iff (content : String) (properties : Option Node) (store : Store) :
    (∃ run, (runOn (toRun (.text content) properties) store).1 = .ok run) ↔
      requireWritable content.toList = .ok () := by
  show (∃ run, (runOn (runOfText content.toList properties >>= fun run => pure (some run)) store).1 = .ok run) ↔ _
  unfold runOfText
  cases requireWritable content.toList with
  | ok _ => exact iff_of_true ⟨_, rfl⟩ rfl
  | error fault => exact iff_of_false nofun nofun

/-- A text can be written into a run, and a run can be made of it, exactly if it holds neither of the two code
points that cleaning leaves in although XML does not allow them.  What is written is cleaned. -/
theorem written_unless_noncharacter (content : String) :
    (∀ letter, letter ∈ Text.sanitize content.toList ↔
        letter ∈ content.toList ∧ (IsXmlCharacter letter ∨ IsNoncharacter letter)) ∧
      (∀ properties store, (∃ run, (runOn (toRun (.text content) properties) store).1 = .ok run) ↔
        ∀ letter ∈ content.toList, ¬ IsNoncharacter letter) ∧
      ∀ run machine, (runOn (writeRun run content.toList) machine).1 = .ok () ↔
        ∀ letter ∈ content.toList, ¬ IsNoncharacter letter := by
  refine ⟨mem_sanitize _, fun properties store => ?_, fun run machine => ?_⟩
  · rw [toRun_text_ok_iff, requireWritable_ok_iff]
  · rw [writeRun_ok_iff, requireWritable_ok_iff]

example : requireWritable [Char.ofNat 0xfffe] = .error unwritable := by decide

end Imprint.Document
