import Imprint.Proofs.ReplacedText
import Mathlib.Data.List.Chain
import Mathlib.Data.List.Forall2

/-! # Offsets of a reading

A reading that is kept up to date lists the direct runs of its paragraph with spans that lie side by side, and has
its text.  The runs that have a part in a stretch of this text stand next to each other, and the offsets that a
replacement counts from their starts lie in their texts. -/
set_option autoImplicit false
namespace Imprint.Document
open Xml

/-! ## Spans side by side -/

/-- A reading says what there is to read in a paragraph: one span for each direct run, in order, as long as the text
of the run, each beginning where the one before ends. -/
structure Reading.Faithful (reading : Reading) (paragraph : Node) : Prop where
  runs : List.Forall₂ (fun span run => span.stop = span.start + (runText run).length) reading.spans (runs paragraph)
  begins : ∀ span ∈ reading.spans.head?, span.start = 0
  contiguous : reading.spans.IsChain fun first second => first.stop = second.start
  text : reading.text = paragraphText paragraph

theorem spansFrom_lengths (runs : List Node) : ∀ offset : Nat,
    List.Forall₂ (fun span run => span.stop = span.start + (runText run).length)
      (spansFrom offset (runs.map runText)) runs := by
  induction runs with
  | nil => exact fun _ => .nil
  | cons run rest hypothesis => exact fun _ => .cons rfl (hypothesis _)

theorem spansFrom_head {offset : Nat} (texts : List (List Char)) :
    ∀ span ∈ (spansFrom offset texts).head?, span.start = offset := by
  cases texts with
  | nil => exact nofun
  | cons letters rest =>
    rintro span ⟨⟩
    rfl

theorem spansFrom_contiguous (texts : List (List Char)) : ∀ offset : Nat,
    (spansFrom offset texts).IsChain fun first second => first.stop = second.start := by
  induction texts with
  | nil => exact fun _ => .nil
  | cons letters rest hypothesis =>
    intro offset
    refine List.isChain_cons.mpr ⟨fun next isNext => ?_, hypothesis _⟩
    exact (spansFrom_head rest next isNext).symm

theorem Reading.faithful (paragraph : Node) : (Reading.ofParagraph paragraph).Faithful paragraph where
  runs := spansFrom_lengths _ 0
  begins := spansFrom_head _
  contiguous := spansFrom_contiguous _ 0
  text := rfl

/-! ## Stretches of the text -/

/-- The spans of a reading, by their place among the runs. -/
def Reading.entries (reading : Reading) : List (Nat × Span) :=
  reading.spans.zipIdx.map fun (span, index) => (index, span)

/-- The spans of texts, by their place counted from some number. -/
def entriesFrom (place offset : Nat) (texts : List (List Char)) : List (Nat × Span) :=
  ((spansFrom offset texts).zipIdx place).map fun (span, index) => (index, span)

theorem entriesFrom_cons (place offset : Nat) (letters : List Char) (rest : List (List Char)) :
    entriesFrom place offset (letters :: rest) =
      (place, ⟨offset, offset + letters.length⟩) :: entriesFrom (place + 1) (offset + letters.length) rest := rfl

section Stretch

variable {start stop : Nat}

/-- Behind the end of a stretch no run has a part in it. -/
theorem covered_none (texts : List (List Char)) {place offset : Nat} (behind : stop ≤ offset) :
    coveredFrom start stop place offset texts = [] := by
  refine List.eq_nil_iff_forall_not_mem.mpr fun entry member => ?_
  have bounds := covered_bounds member
  omega

/-- Inside of a stretch the runs up to its end have a part in it. -/
theorem covered_front (texts : List (List Char)) : ∀ place offset : Nat, start < offset →
    coveredFrom start stop place offset texts <+: entriesFrom place offset texts := by
  induction texts with
  | nil => exact fun _ _ _ => List.prefix_refl _
  | cons letters rest hypothesis =>
    intro place offset inside
    by_cases reached : stop ≤ offset
    · rw [covered_none _ reached]
      exact List.nil_prefix
    · have covers : (Span.mk offset (offset + letters.length)).covers start stop = true :=
        (covers_iff _ _ _).mpr ⟨by show start < offset + letters.length; omega, Nat.lt_of_not_le reached⟩
      rw [entriesFrom_cons, coveredFrom, if_pos covers]
      exact List.cons_prefix_cons.mpr ⟨rfl, hypothesis _ _ (by omega)⟩

/-- The runs that have a part in a stretch stand next to each other. -/
theorem covered_segment (texts : List (List Char)) : ∀ place offset : Nat,
    coveredFrom start stop place offset texts <:+: entriesFrom place offset texts := by
  induction texts with
  | nil => exact fun _ _ => List.infix_refl _
  | cons letters rest hypothesis =>
    intro place offset
    by_cases covers : (Span.mk offset (offset + letters.length)).covers start stop = true
    · have inside := ((covers_iff _ _ _).mp covers).1
      rw [entriesFrom_cons, coveredFrom, if_pos covers]
      exact (List.cons_prefix_cons.mpr ⟨rfl, covered_front rest _ _ inside⟩).isInfix
    · rw [entriesFrom_cons, coveredFrom, if_neg covers]
      exact (hypothesis _ _).trans (List.suffix_cons _ _).isInfix

end Stretch

/-- A stretch of the text of a paragraph lies in some neighbouring runs.  The first of them has its first letter and
the last of them its last one, and what is counted from their starts stays within their texts. -/
structure Reading.Locates (reading : Reading) (paragraph : Node) (start stop : Nat) (first last : Nat × Span) :
    Prop where
  segment : reading.affected start stop <:+: reading.entries
  isFirst : (reading.affected start stop).head? = some first
  isLast : (reading.affected start stop).getLast? = some last
  begins : first.2.start ≤ start ∧ start < first.2.stop
  ends : last.2.start ≤ stop - 1 ∧ stop - 1 < last.2.stop
  within : ∃ run final, (Document.runs paragraph)[first.1]? = some run ∧
    (Document.runs paragraph)[last.1]? = some final ∧
    start - first.2.start < (runText run).length ∧ stop - last.2.start ≤ (runText final).length

/-- A run with a part in a stretch is found in its place. -/
theorem run_of_entry {paragraph : Node} {entry : Nat × Span}
    (member : entry ∈ (Reading.ofParagraph paragraph).entries) :
    ∃ run, (runs paragraph)[entry.1]? = some run ∧ entry.2.stop = entry.2.start + (runText run).length := by
  obtain ⟨⟨span, place⟩, among, rfl⟩ := List.mem_map.mp member
  have found : (Reading.ofParagraph paragraph).spans[place]? = some span := List.mk_mem_zipIdx_iff_getElem?.mp among
  obtain ⟨inSpans, rfl⟩ := List.getElem?_eq_some_iff.mp found
  have lengths := (Reading.faithful paragraph).runs
  have inRuns : place < (runs paragraph).length := lengths.length_eq ▸ inSpans
  exact ⟨_, List.getElem?_eq_getElem inRuns, lengths.get inSpans inRuns⟩

/-- Every stretch with letters lies in some runs. -/
theorem Reading.locates (paragraph : Node) {start stop : Nat} (filled : start < stop)
    (inside : stop ≤ (paragraphText paragraph).length) :
    ∃ first last, (Reading.ofParagraph paragraph).Locates paragraph start stop first last := by
  have whole : ((Document.runs paragraph).map runText).flatten = paragraphText paragraph := by
    simp [paragraphText, List.flatMap]
  have affected : (Reading.ofParagraph paragraph).affected start stop =
      coveredFrom start stop 0 0 ((Document.runs paragraph).map runText) :=
    affected_eq_coveredFrom ((Document.runs paragraph).map runText) start stop 0 0
  have segment : (Reading.ofParagraph paragraph).affected start stop <:+: (Reading.ofParagraph paragraph).entries :=
    affected ▸ covered_segment _ 0 0
  obtain ⟨first, others, isFirst, begins⟩ := covered_first ((Document.runs paragraph).map runText) filled 0 0
    (Nat.zero_le _) (by rw [whole]; omega)
  obtain ⟨before, last, isLast, ends⟩ := covered_last ((Document.runs paragraph).map runText) filled 0 0
    (by omega) (by rw [whole]; omega)
  rw [← affected] at isFirst isLast
  have firstAmong : first ∈ (Reading.ofParagraph paragraph).affected start stop := by simp [isFirst]
  have lastAmong : last ∈ (Reading.ofParagraph paragraph).affected start stop := by simp [isLast]
  have firstBounds := covered_bounds (affected ▸ firstAmong)
  have lastBounds := covered_bounds (affected ▸ lastAmong)
  obtain ⟨run, isRun, firstLength⟩ := run_of_entry (segment.subset firstAmong)
  obtain ⟨final, isFinal, lastLength⟩ := run_of_entry (segment.subset lastAmong)
  exact ⟨first, last, segment, by simp [isFirst], by simp [isLast], ⟨begins, firstBounds.2.2.1⟩, by omega,
    run, final, isRun, isFinal, by omega, by omega⟩

/-! ## Sequences of replacements -/

namespace View

/-- The views that a sequence of replacements goes through: before the first one and after each of them. -/
def replacements (view : View) : List (List Char × Option Node) → List View
  | [] => [view]
  | (wanted, replacement) :: rest => view :: (view.replace wanted replacement).2.replacements rest

/-- What has been read of a paragraph is what there is to read. -/
def UpToDate (view : View) : Prop :=
  view.reading = .ofParagraph view.paragraph

theorem UpToDate.replace {view : View} (upToDate : view.UpToDate) (wanted : List Char) (replacement : Option Node) :
    (view.replace wanted replacement).2.UpToDate := by
  unfold View.replace
  split
  · rfl
  · exact upToDate

theorem UpToDate.replacements {view : View} (upToDate : view.UpToDate) (requests : List (List Char × Option Node)) :
    ∀ later ∈ view.replacements requests, later.UpToDate := by
  induction requests generalizing view with
  | nil =>
    intro later member
    exact List.mem_singleton.mp member ▸ upToDate
  | cons request rest hypothesis =>
    intro later member
    rcases List.mem_cons.mp member with rfl | member
    · exact upToDate
    · exact hypothesis (upToDate.replace request.1 request.2) later member

/-- Before and after every replacement in a sequence, a view lists the direct runs of the paragraph with spans side by
side, and has its text.  Every stretch of this text that has letters lies in neighbouring runs, of which the first
has its first letter and the last its last one, so the next replacement is made exactly if its text has letters
and occurs. -/
theorem replacements_faithful (paragraph : Node) (requests : List (List Char × Option Node)) :
    ∀ view ∈ (ofParagraph paragraph).replacements requests,
      view.reading.Faithful view.paragraph ∧
      (∀ start stop, start < stop → stop ≤ view.reading.text.length →
        ∃ first last, view.reading.Locates view.paragraph start stop first last) ∧
      ∀ wanted replacement, (view.replace wanted replacement).1 = true ↔
        wanted ≠ [] ∧ wanted <:+: view.reading.text := by
  intro view member
  have start : (ofParagraph paragraph).UpToDate := rfl
  have upToDate : view.reading = .ofParagraph view.paragraph := start.replacements requests view member
  have faithful : view.reading.Faithful view.paragraph := upToDate ▸ Reading.faithful view.paragraph
  refine ⟨faithful, fun start stop filled inside => ?_, fun wanted replacement => ?_⟩
  · rw [faithful.text] at inside
    exact upToDate ▸ Reading.locates view.paragraph filled inside
  · rw [faithful.text, ← isSome_replaceText_iff view.paragraph wanted replacement, replace, upToDate]
    cases replaceText? view.paragraph (.ofParagraph view.paragraph) wanted replacement <;> simp

/-- After a token has been replaced, a stretch goes over the new run and what is left on both sides of it. -/
theorem replacements_faithful_acrossRuns :
    let requests := [("$\x7bx\x7d".toList, some (createRun "v".toList none)), ("cd".toList, none)]
    let view := ((ofParagraph acrossRuns).replace "$\x7bx\x7d".toList (some (createRun "v".toList none))).2
    view ∈ (ofParagraph acrossRuns).replacements requests ∧ view.reading.text = "abvcde\rf".toList ∧
      view.reading.Faithful view.paragraph ∧ (∃ first last, view.reading.Locates view.paragraph 1 4 first last) ∧
      (view.replace "cd".toList none).1 = true := by
  intro requests view
  have member : view ∈ (ofParagraph acrossRuns).replacements requests := by simp [replacements, requests, view]
  have text : view.reading.text = "abvcde\rf".toList := by decide
  have long : 4 ≤ view.reading.text.length := by decide
  have occurs : "cd".toList <:+: view.reading.text := ⟨"abv".toList, "e\rf".toList, by decide⟩
  obtain ⟨faithful, located, replaced⟩ := replacements_faithful acrossRuns requests view member
  exact ⟨member, text, faithful, located 1 4 (by decide) long,
    (replaced "cd".toList none).mpr ⟨by decide, occurs⟩⟩

end View

end Imprint.Document
