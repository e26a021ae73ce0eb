import Imprint.Proofs.ReplacedText
import Imprint.Proofs.Tree
/-! # The children of a paragraph after a replacement

A replacement reaches from the run that the match begins in to the one that it ends in.  These two keep what is
not text and the letters outside of the match, the runs between them go, and whatever else stands among the
children of the paragraph stays where it is. -/
set_option autoImplicit false
namespace Imprint.Document
open Xml Node

/-! ## Runs of a match -/

/-- The children that stand for no text. -/
def silentChildren (node : Node) : List Node :=
  node.children.filter fun child => !isTextual child

/-- A run with another text is the same node, and nothing but its children that stand for text has changed. -/
structure Trimmed (run : Node) (letters : List Char) (left : Node) : Prop where
  head : left.head = run.head
  silent : silentChildren left = silentChildren run
  text : runText left = rewritten letters

/-- A new run with a text and a copy of the properties of another one. -/
structure Detached (run : Node) (letters : List Char) (new : Node) : Prop where
  direct : isRun new = true
  silent : silentChildren new = (runProperties run).toList.map copied
  text : runText new = rewritten letters

/-- What is left of a run: nothing if no letter is, and otherwise the run with the letters that are left. -/
inductive Remains (run : Node) (letters : List Char) : List Node → Prop where
  | gone (none : letters = []) : Remains run letters []
  | trimmed {left : Node} (filled : letters ≠ []) (trims : Trimmed run letters left) : Remains run letters [left]

/-- What stands in the place of a run that holds the whole match: the replacement between what is left of the run
in front of the match and behind it.  If there is something on both sides, the rest gets a run of its own. -/
inductive Parted (run : Node) (before after : List Char) (replacement : List Node) : List Node → Prop where
  | edge {front back : List Node} (reached : before = [] ∨ after = []) (isFront : Remains run before front)
      (isBack : Remains run after back) : Parted run before after replacement (front ++ replacement ++ back)
  | middle {left new : Node} (filledBefore : before ≠ []) (filledAfter : after ≠ []) (trims : Trimmed run before left)
      (detaches : Detached run after new) : Parted run before after replacement (left :: replacement ++ [new])

/-- The elements that a text is written as; what stands between tabs and line feeds is one text element. -/
inductive Written : Node → Prop where
  | text {piece : List Char} (unbroken : '\t' ∉ piece ∧ '\n' ∉ piece) : Written (textElement piece)
  | tabulator : Written (ofTag Tag.tabulator [])
  | lineBreak : Written (ofTag Tag.lineBreak [])

section Pieces

variable {run : Node} {letters : List Char}

theorem textElementsFrom_written (letters : List Char) : ∀ {collected : List Char},
    '\t' ∉ collected ∧ '\n' ∉ collected → ∀ child ∈ textElementsFrom collected letters, Written child := by
  have flushed {collected : List Char} (unbroken : '\t' ∉ collected ∧ '\n' ∉ collected) :
      ∀ child ∈ flushText collected, Written child := by
    intro child member
    unfold flushText at member
    split at member
    · cases member
    · cases List.mem_singleton.mp member
      exact .text (by simpa using unbroken)
  induction letters with
  | nil =>
    intro collected unbroken
    exact flushed unbroken
  | cons letter rest hypothesis =>
    intro collected unbroken
    have marked {marker : Node} (written : Written marker) :
        ∀ child ∈ flushText collected ++ marker :: textElementsFrom [] rest, Written child := by
      rw [List.forall_mem_append, List.forall_mem_cons]
      exact ⟨flushed unbroken, written, hypothesis (by simp)⟩
    unfold textElementsFrom
    split
    next => exact marked .tabulator
    next tab =>
      split
      next => exact marked .lineBreak
      next feed =>
        split
        next => exact hypothesis unbroken
        next => exact hypothesis (by simp [unbroken, Ne.symm tab, Ne.symm feed])

theorem textElements_written (letters : List Char) : ∀ child ∈ textElements letters, Written child :=
  textElementsFrom_written letters (by simp)

theorem Written.textual {child : Node} (written : Written child) : isTextual child = true := by
  cases written <;> rfl

theorem textElements_not_silent (letters : List Char) :
    (textElements letters).filter (fun child => !isTextual child) = [] := by
  rw [List.filter_eq_nil_iff]
  intro child member
  simp [(textElements_written letters child member).textual]

theorem setRunText_trimmed (run : Node) (letters : List Char) : Trimmed run letters (setRunText run letters) where
  head := rfl
  silent := by
    have others : (silentChildren run).filter (fun child => !isTextual child) = silentChildren run := by
      simp [silentChildren]
    have split := List.take_append_drop (textPosition run) (silentChildren run)
    show ((silentChildren run).take _ ++ textElements letters ++ (silentChildren run).drop _).filter _ = _
    rw [List.filter_append, List.filter_append, textElements_not_silent, List.append_nil, ← List.filter_append, split,
      others]
  text := runText_setRunText run letters

theorem createRun_detached (run : Node) (letters : List Char) :
    Detached run letters (createRun letters (runProperties run)) where
  direct := rfl
  silent := by
    have proper : AreProperties (runProperties run) := areProperties_child run
    show ((runProperties run).toList.map copied ++ textElements letters).filter _ = _
    rw [List.filter_append, textElements_not_silent, List.append_nil, List.filter_eq_self]
    intro child member
    obtain ⟨original, found, rfl⟩ := List.mem_map.mp member
    simpa using isTextual_properties ((hasTag_copied _ original).trans (proper original (by simpa using found)))
  text := runText_createRun (areProperties_child run) letters

theorem remains_kept (run : Node) (letters : List Char) :
    Remains run letters (if letters.isEmpty then [] else [setRunText run letters]) := by
  split
  · rename_i empty
    exact .gone (List.isEmpty_iff.mp empty)
  · rename_i filled
    exact .trimmed (by simpa using filled) (setRunText_trimmed run letters)

theorem splitRun_parted (replacement : List Node) (start stop : Nat) (run : Node) :
    Parted run ((runText run).take start) ((runText run).drop stop) replacement
      (splitRun replacement start stop run) := by
  have front := remains_kept run ((runText run).take start)
  have back := remains_kept run ((runText run).drop stop)
  dsimp only [splitRun]
  cases isBefore : ((runText run).take start).isEmpty with
  | true =>
    rw [isBefore, if_pos rfl] at front
    cases isAfter : ((runText run).drop stop).isEmpty with
    | true =>
      rw [isAfter, if_pos rfl] at back
      simpa using Parted.edge (.inl (List.isEmpty_iff.mp isBefore)) front back
    | false =>
      rw [isAfter, if_neg Bool.false_ne_true] at back
      simpa using Parted.edge (.inl (List.isEmpty_iff.mp isBefore)) front back
  | false =>
    rw [isBefore, if_neg Bool.false_ne_true] at front
    cases isAfter : ((runText run).drop stop).isEmpty with
    | true =>
      rw [isAfter, if_pos rfl] at back
      simpa using Parted.edge (.inr (List.isEmpty_iff.mp isAfter)) front back
    | false =>
      apply Parted.middle
      · simpa using isBefore
      · simpa using isAfter
      · exact setRunText_trimmed run _
      · exact createRun_detached run _

theorem cutFirst_remains (replacement : List Node) (start : Nat) (run : Node) :
    ∃ front, cutFirst replacement start run = front ++ replacement ∧ Remains run ((runText run).take start) front := by
  refine ⟨_, ?_, remains_kept run _⟩
  dsimp only [cutFirst]
  split
  · rfl
  · rfl

theorem cutLast_remains (stop : Nat) (run : Node) : Remains run ((runText run).drop stop) (cutLast stop run) :=
  remains_kept run _

end Pieces

/-! ## Stretches of children -/

/-- The text of the runs among some nodes. -/
def textAmong (nodes : List Node) : List Char :=
  (nodes.filter isRun).flatMap runText

theorem textAmong_append (first second : List Node) :
    textAmong (first ++ second) = textAmong first ++ textAmong second := by
  simp [textAmong]

theorem textAmong_run {run : Node} (direct : isRun run = true) (rest : List Node) :
    textAmong (run :: rest) = runText run ++ textAmong rest := by
  simp [textAmong, direct]

theorem textAmong_other {node : Node} (other : isRun node = false) (rest : List Node) :
    textAmong (node :: rest) = textAmong rest := by
  simp [textAmong, other]

/-- What becomes of the children of a paragraph when the stretch of text from `start` to `stop` is replaced. -/
inductive Reshaped (start stop : Nat) (replacement : List Node) : List Node → List Node → Prop where
  /-- The match lies within one run. -/
  | within {front back pieces : List Node} {run : Node} (direct : isRun run = true)
      (begins : (textAmong front).length ≤ start) (ends : stop ≤ (textAmong front).length + (runText run).length)
      (parts : Parted run ((runText run).take (start - (textAmong front).length))
        ((runText run).drop (stop - (textAmong front).length)) replacement pieces) :
      Reshaped start stop replacement (front ++ run :: back) (front ++ pieces ++ back)
  /-- The match goes on behind the run that it begins in; `offset` is where the text of the last one begins. -/
  | across {front middle back head tail : List Node} {first last : Node} {offset : Nat}
      (directFirst : isRun first = true) (directLast : isRun last = true)
      (here : (textAmong (front ++ first :: middle)).length = offset)
      (begins : (textAmong front).length ≤ start ∧ start < (textAmong (front ++ [first])).length)
      (ends : offset < stop ∧ stop ≤ offset + (runText last).length)
      (isHead : Remains first ((runText first).take (start - (textAmong front).length)) head)
      (isTail : Remains last ((runText last).drop (stop - offset)) tail) :
      Reshaped start stop replacement (front ++ first :: (middle ++ last :: back))
        (front ++ (head ++ replacement) ++ middle.filter (fun child => !isRun child) ++ tail ++ back)

theorem exists_run_at (nodes : List Node) : ∀ start, start < (textAmong nodes).length →
    ∃ front run back, nodes = front ++ run :: back ∧ isRun run = true ∧ (textAmong front).length ≤ start ∧
      start < (textAmong front).length + (runText run).length := by
  induction nodes with
  | nil =>
    intro start inside
    cases inside
  | cons node rest hypothesis =>
    intro start inside
    cases direct : isRun node with
    | false =>
      rw [textAmong_other direct] at inside
      obtain ⟨front, run, back, rfl, isRun, begins, ends⟩ := hypothesis start inside
      refine ⟨node :: front, run, back, rfl, isRun, ?_, ?_⟩
      · rwa [textAmong_other direct]
      · rwa [textAmong_other direct]
    | true =>
      rw [textAmong_run direct, List.length_append] at inside
      by_cases here : start < (runText node).length
      · exact ⟨[], node, rest, rfl, direct, Nat.zero_le _, by simpa [textAmong] using here⟩
      · obtain ⟨front, run, back, rfl, isRun, begins, ends⟩ := hypothesis (start - (runText node).length) (by omega)
        refine ⟨node :: front, run, back, rfl, isRun, ?_, ?_⟩
        · rw [textAmong_run direct, List.length_append]
          omega
        · rw [textAmong_run direct, List.length_append]
          omega

section Covered

variable {start stop : Nat}

theorem coveredFrom_append (first second : List (List Char)) : ∀ place offset,
    coveredFrom start stop place offset (first ++ second) = coveredFrom start stop place offset first ++
      coveredFrom start stop (place + first.length) (offset + first.flatten.length) second := by
  induction first with
  | nil => intro place offset; simp [coveredFrom]
  | cons letters rest hypothesis =>
    intro place offset
    have places : place + 1 + rest.length = place + (letters :: rest).length := by
      rw [List.length_cons]
      omega
    have offsets : offset + letters.length + rest.flatten.length = offset + (letters :: rest).flatten.length := by
      rw [List.flatten_cons, List.length_append]
      omega
    simp only [List.cons_append, coveredFrom, hypothesis, places, offsets]
    split
    · rfl
    · rfl

theorem coveredFrom_before (texts : List (List Char)) (place offset : Nat)
    (before : offset + texts.flatten.length ≤ start) : coveredFrom start stop place offset texts = [] := by
  induction texts generalizing place offset with
  | nil => rfl
  | cons letters rest hypothesis =>
    simp only [List.flatten_cons, List.length_append] at before
    have apart : (Span.mk offset (offset + letters.length)).covers start stop = false := by
      rw [Bool.eq_false_iff, ne_eq, covers_iff]
      dsimp only
      omega
    simp only [coveredFrom, apart, Bool.false_eq_true, if_false]
    exact hypothesis (place + 1) (offset + letters.length) (by omega)

theorem coveredFrom_behind (texts : List (List Char)) (place offset : Nat) (behind : stop ≤ offset) :
    coveredFrom start stop place offset texts = [] := by
  refine List.eq_nil_iff_forall_not_mem.mpr fun entry member => ?_
  have bounds := covered_bounds member
  omega

/-- All runs that lie inside of a stretch have a part in it, empty ones included. -/
theorem coveredFrom_inside (texts : List (List Char)) (place offset : Nat) (begins : start < offset)
    (ends : offset + texts.flatten.length < stop) :
    (coveredFrom start stop place offset texts).map Prod.fst = List.range' place texts.length := by
  induction texts generalizing place offset with
  | nil => rfl
  | cons letters rest hypothesis =>
    simp only [List.flatten_cons, List.length_append] at ends
    have covers : (Span.mk offset (offset + letters.length)).covers start stop = true := by
      rw [covers_iff]
      dsimp only
      omega
    simp only [coveredFrom, covers, if_true, List.map_cons, List.length_cons, List.range'_succ]
    rw [hypothesis (place + 1) (offset + letters.length) (by omega) (by omega)]

end Covered

section Replaced

variable {change : Nat → Node → List Node}

theorem replaceRuns_append (first second : List Node) : ∀ place,
    replaceRuns change place (first ++ second) =
      replaceRuns change place first ++ replaceRuns change (place + (first.filter isRun).length) second := by
  induction first with
  | nil => intro place; rfl
  | cons node rest hypothesis =>
    intro place
    cases direct : isRun node with
    | false => simp [replaceRuns, direct, hypothesis]
    | true =>
      have places : place + 1 + (rest.filter isRun).length = place + ((rest.filter isRun).length + 1) := by omega
      simp [replaceRuns, direct, hypothesis, places]

theorem replaceRuns_kept (nodes : List Node) (place : Nat)
    (kept : ∀ index, place ≤ index → index < place + (nodes.filter isRun).length → ∀ run, change index run = [run]) :
    replaceRuns change place nodes = nodes := by
  induction nodes generalizing place with
  | nil => rfl
  | cons node rest hypothesis =>
    cases direct : isRun node with
    | false =>
      simp only [List.filter_cons, direct, Bool.false_eq_true, if_false] at kept
      simp [replaceRuns, direct, hypothesis place kept]
    | true =>
      simp only [List.filter_cons, direct, if_true, List.length_cons] at kept
      have here := kept place (Nat.le_refl _) (by omega) node
      have rest := hypothesis (place + 1) fun index low high => kept index (by omega) (by omega)
      simp [replaceRuns, direct, here, rest]

theorem replaceRuns_dropped (nodes : List Node) (place : Nat)
    (dropped : ∀ index, place ≤ index → index < place + (nodes.filter isRun).length → ∀ run, change index run = []) :
    replaceRuns change place nodes = nodes.filter fun child => !isRun child := by
  induction nodes generalizing place with
  | nil => rfl
  | cons node rest hypothesis =>
    cases direct : isRun node with
    | false =>
      simp only [List.filter_cons, direct, Bool.false_eq_true, if_false] at dropped
      simp [replaceRuns, direct, hypothesis place dropped]
    | true =>
      simp only [List.filter_cons, direct, if_true, List.length_cons] at dropped
      have here := dropped place (Nat.le_refl _) (by omega) node
      have rest := hypothesis (place + 1) fun index low high => dropped index (by omega) (by omega)
      simp [replaceRuns, direct, here, rest]

end Replaced

/-! ## All the children -/

/-- The runs among some nodes that have a part in a stretch of text. -/
def coveredAmong (start stop place offset : Nat) (nodes : List Node) : List (Nat × Span) :=
  coveredFrom start stop place offset ((nodes.filter isRun).map runText)

section Assembled

variable {start stop place offset : Nat} {front middle back : List Node} {run first last : Node}

theorem coveredAmong_append (nodes others : List Node) :
    coveredAmong start stop place offset (nodes ++ others) = coveredAmong start stop place offset nodes ++
      coveredAmong start stop (place + (nodes.filter isRun).length) (offset + (textAmong nodes).length) others := by
  simp [coveredAmong, coveredFrom_append, textAmong, List.flatMap_def]

theorem coveredAmong_run (direct : isRun run = true) (begins : start < offset + (runText run).length)
    (ends : offset < stop) (rest : List Node) :
    coveredAmong start stop place offset (run :: rest) = (place, ⟨offset, offset + (runText run).length⟩) ::
      coveredAmong start stop (place + 1) (offset + (runText run).length) rest := by
  have covers : (Span.mk offset (offset + (runText run).length)).covers start stop = true :=
    (covers_iff _ _ _).mpr ⟨begins, ends⟩
  simp [coveredAmong, direct, coveredFrom, covers]

theorem coveredAmong_before (front : List Node) (before : offset + (textAmong front).length ≤ start) :
    coveredAmong start stop place offset front = [] :=
  coveredFrom_before _ place offset before

theorem coveredAmong_behind (back : List Node) (behind : stop ≤ offset) : coveredAmong start stop place offset back = [] :=
  coveredFrom_behind _ place offset behind

theorem coveredAmong_inside (begins : start < offset) (ends : offset + (textAmong middle).length < stop) :
    (coveredAmong start stop place offset middle).map Prod.fst =
      List.range' place (middle.filter isRun).length := by
  have inside := coveredFrom_inside ((middle.filter isRun).map runText) place offset begins ends
  rwa [List.length_map] at inside

/-- A stretch within one run changes nothing but this run. -/
theorem replaceRuns_within (direct : isRun run = true) (replacement : List Node) (order : start < stop)
    (begins : (textAmong front).length ≤ start) (ends : stop ≤ (textAmong front).length + (runText run).length) :
    replaceRuns (cutRun (coveredAmong start stop 0 0 (front ++ run :: back)) replacement start stop) 0
        (front ++ run :: back) =
      front ++ splitRun replacement (start - (textAmong front).length) (stop - (textAmong front).length) run ++
        back := by
  have covered : coveredAmong start stop 0 0 (front ++ run :: back) = [((front.filter isRun).length,
      ⟨(textAmong front).length, (textAmong front).length + (runText run).length⟩)] := by
    rw [coveredAmong_append, coveredAmong_before front (by omega), coveredAmong_run direct (by omega) (by omega),
      coveredAmong_behind back (by omega), Nat.zero_add, Nat.zero_add]
    rfl
  rw [covered, replaceRuns_append, replaceRuns_kept front]
  · rw [Nat.zero_add, replaceRuns, if_pos direct, replaceRuns_kept back]
    · simp only [cutRun, if_pos, ← List.append_assoc]
    · intro index low high other
      apply cutRun_unlisted
      simp
      omega
  · intro index low high other
    apply cutRun_unlisted
    simp
    omega

/-- A stretch that goes on behind the run that it begins in has a part in this run, in all runs up to the one that it
ends in, and in that one. -/
theorem coveredAmong_across (directFirst : isRun first = true) (directLast : isRun last = true)
    (here : (textAmong front).length + (runText first).length + (textAmong middle).length = offset)
    (begins : (textAmong front).length ≤ start ∧ start < (textAmong front).length + (runText first).length)
    (ends : offset < stop ∧ stop ≤ offset + (runText last).length) :
    ∃ inner, coveredAmong start stop 0 0 (front ++ first :: (middle ++ last :: back)) =
        ((front.filter isRun).length, ⟨(textAmong front).length, (textAmong front).length + (runText first).length⟩) ::
          (inner ++ [((front.filter isRun).length + 1 + (middle.filter isRun).length,
            ⟨offset, offset + (runText last).length⟩)]) ∧
      inner.map Prod.fst = List.range' ((front.filter isRun).length + 1) (middle.filter isRun).length := by
  refine ⟨coveredAmong start stop ((front.filter isRun).length + 1)
    ((textAmong front).length + (runText first).length) middle, ?_, coveredAmong_inside (by omega) (by omega)⟩
  rw [coveredAmong_append, coveredAmong_before front (by omega), coveredAmong_run directFirst (by omega) (by omega),
    coveredAmong_append, coveredAmong_run directLast (by omega) (by omega), coveredAmong_behind back (by omega),
    Nat.zero_add, Nat.zero_add, here]
  rfl

section Several

variable {inner : List (Nat × Span)} {size index : Nat} (firstSpan lastSpan : Span) (replacement : List Node)
  (start stop : Nat)

/-- The runs between the first and the last of several ones go. -/
theorem cutRun_between (places : inner.map Prod.fst = List.range' (place + 1) size) (low : place < index)
    (high : index < place + 1 + size) (run : Node) :
    cutRun ((place, firstSpan) :: (inner ++ [(place + 1 + size, lastSpan)])) replacement start stop index run = [] := by
  have listed : index ∈ inner.map Prod.fst := by simp [places, Nat.succ_le_of_lt low, high]
  have among : inner.any (fun entry => entry.1 == index) = true := by simpa using listed
  rw [cutRun_several, if_neg (Nat.ne_of_gt low), if_neg (Nat.ne_of_lt high), List.any_append, among]
  rfl

/-- The runs in front of the first of several ones and behind the last stay. -/
theorem cutRun_outside (places : inner.map Prod.fst = List.range' (place + 1) size)
    (apart : index < place ∨ place + 1 + size < index) (run : Node) :
    cutRun ((place, firstSpan) :: (inner ++ [(place + 1 + size, lastSpan)])) replacement start stop index run =
      [run] := by
  apply cutRun_unlisted
  intro entry member
  simp only [List.mem_cons, List.mem_append, List.not_mem_nil, or_false] at member
  obtain rfl | inside | rfl := member
  · dsimp only
    omega
  · have listed : entry.1 ∈ inner.map Prod.fst := List.mem_map_of_mem inside
    simp only [places, List.mem_range'_1] at listed
    omega
  · dsimp only
    omega

theorem replaceRuns_several (directFirst : isRun first = true) (directLast : isRun last = true)
    (places : inner.map Prod.fst = List.range' ((front.filter isRun).length + 1) (middle.filter isRun).length) :
    replaceRuns (cutRun (((front.filter isRun).length, firstSpan) ::
        (inner ++ [((front.filter isRun).length + 1 + (middle.filter isRun).length, lastSpan)])) replacement start stop)
        0 (front ++ first :: (middle ++ last :: back)) =
      front ++ (cutFirst replacement (start - firstSpan.start) first ++ (middle.filter (fun child => !isRun child) ++
        (cutLast (stop - lastSpan.start) last ++ back))) := by
  have later : (front.filter isRun).length + 1 + (middle.filter isRun).length ≠ (front.filter isRun).length := by omega
  rw [replaceRuns_append, replaceRuns_kept front, Nat.zero_add]
  · rw [replaceRuns, if_pos directFirst, replaceRuns_append, replaceRuns_dropped middle, replaceRuns,
      if_pos directLast, replaceRuns_kept back]
    · simp only [cutRun_several, if_pos, if_neg later]
    · intro index low high run
      exact cutRun_outside firstSpan lastSpan replacement start stop places (.inr (by omega)) run
    · intro index low high run
      exact cutRun_between firstSpan lastSpan replacement start stop places (by omega) (by omega) run
  · intro index low high run
    exact cutRun_outside firstSpan lastSpan replacement start stop places (.inl (by omega)) run

end Several

/-- A stretch that goes on behind the run that it begins in changes this run and the one that it ends in, and drops
the runs between. -/
theorem replaceRuns_across (directFirst : isRun first = true) (directLast : isRun last = true)
    (replacement : List Node) (here : (textAmong (front ++ first :: middle)).length = offset)
    (begins : (textAmong front).length ≤ start ∧ start < (textAmong (front ++ [first])).length)
    (ends : offset < stop ∧ stop ≤ offset + (runText last).length) :
    replaceRuns (cutRun (coveredAmong start stop 0 0 (front ++ first :: (middle ++ last :: back))) replacement start
        stop) 0 (front ++ first :: (middle ++ last :: back)) =
      front ++ cutFirst replacement (start - (textAmong front).length) first ++
        middle.filter (fun child => !isRun child) ++ cutLast (stop - offset) last ++ back := by
  have nothing : textAmong [] = [] := rfl
  simp only [textAmong_append, textAmong_run directFirst, nothing, List.append_nil, List.length_append] at here begins
  rw [← Nat.add_assoc] at here
  obtain ⟨inner, covered, places⟩ := coveredAmong_across directFirst directLast here begins ends
  rw [covered, replaceRuns_several _ _ replacement start stop directFirst directLast places]
  simp

/-- The children of a paragraph when the stretch of text from `start` to `stop` is cut out of them, with what is
made of the runs that the stretch begins and ends in. -/
inductive Cut (start stop : Nat) (replacement : List Node) : List Node → List Node → Prop where
  | within {front back : List Node} {run : Node} (direct : isRun run = true)
      (begins : (textAmong front).length ≤ start ∧ start < (textAmong front).length + (runText run).length)
      (ends : stop ≤ (textAmong front).length + (runText run).length) :
      Cut start stop replacement (front ++ run :: back) (front ++
        splitRun replacement (start - (textAmong front).length) (stop - (textAmong front).length) run ++ back)
  | across {front middle back : List Node} {first last : Node} {offset : Nat}
      (directFirst : isRun first = true) (directLast : isRun last = true)
      (here : (textAmong (front ++ first :: middle)).length = offset)
      (begins : (textAmong front).length ≤ start ∧ start < (textAmong (front ++ [first])).length)
      (ends : offset < stop ∧ stop ≤ offset + (runText last).length) :
      Cut start stop replacement (front ++ first :: (middle ++ last :: back))
        (front ++ cutFirst replacement (start - (textAmong front).length) first ++
          middle.filter (fun child => !isRun child) ++ cutLast (stop - offset) last ++ back)

/-- A replacement cuts the match out of the children of a paragraph. -/
theorem cut_replaceRuns (replacement children : List Node) (order : start < stop)
    (fits : stop ≤ (textAmong children).length) :
    Cut start stop replacement children
      (replaceRuns (cutRun (coveredAmong start stop 0 0 children) replacement start stop) 0 children) := by
  obtain ⟨front, run, rest, rfl, direct, begins, here⟩ := exists_run_at children start (by omega)
  by_cases ends : stop ≤ (textAmong front).length + (runText run).length
  · rw [replaceRuns_within direct replacement order begins ends]
    exact .within direct ⟨begins, here⟩ ends
  · simp only [textAmong_append, textAmong_run direct, List.length_append] at fits
    obtain ⟨middle, last, back, rfl, directLast, low, high⟩ :=
      exists_run_at rest (stop - 1 - ((textAmong front).length + (runText run).length)) (by omega)
    have inside : (textAmong front).length ≤ start ∧ start < (textAmong (front ++ [run])).length := by
      simp only [textAmong_append, textAmong_run direct, List.length_append]
      omega
    have reaches : (textAmong (front ++ run :: middle)).length < stop ∧
        stop ≤ (textAmong (front ++ run :: middle)).length + (runText last).length := by
      simp only [textAmong_append, textAmong_run direct, List.length_append]
      omega
    rw [replaceRuns_across direct directLast replacement rfl inside reaches]
    exact .across direct directLast rfl inside reaches

/-- A cut changes the children of a paragraph from the run that the match begins in to the one that it ends in, and
only these. -/
theorem Cut.reshaped {replacement children changed : List Node} (cut : Cut start stop replacement children changed) :
    Reshaped start stop replacement children changed := by
  cases cut with
  | within direct begins ends => exact .within direct begins.1 ends (splitRun_parted replacement _ _ _)
  | @across front middle back first last offset directFirst directLast here begins ends =>
    obtain ⟨head, cutHead, isHead⟩ := cutFirst_remains replacement (start - (textAmong front).length) first
    rw [cutHead]
    exact .across directFirst directLast here begins ends isHead (cutLast_remains (stop - offset) last)

end Assembled

variable {paragraph changed : Node} {wanted : List Char} {replacement : Option Node}

/-- A replacement cuts the first occurrence of the text out of the children of a paragraph. -/
theorem replaceText_cuts
    (replaced : replaceText? paragraph (.ofParagraph paragraph) wanted replacement = some changed) :
    ∃ start children, Text.FirstAt wanted (paragraphText paragraph) start ∧
      changed = paragraph.withChildren children ∧
      Cut start (start + wanted.length) replacement.toList paragraph.children children := by
  obtain ⟨filled, occurs⟩ := (isSome_replaceText_iff paragraph wanted replacement).mp (by rw [replaced]; rfl)
  obtain ⟨start, found⟩ := Option.isSome_iff_exists.mp (Text.isSome_find?_iff.mpr occurs)
  have size : 0 < wanted.length := List.length_pos_iff.mpr filled
  have whole := replaceText_found filled found replacement
  refine ⟨start, _, Text.find?_eq_some_iff.mp found, Option.some.inj (replaced.symm.trans whole), ?_⟩
  apply cut_replaceRuns
  · omega
  · exact find?_bound found

/-- A replacement changes nothing of a paragraph but its children, and of these only the runs that the first
occurrence of the text has letters of, and the empty ones inside of it. -/
theorem replaceText_children
    (replaced : replaceText? paragraph (.ofParagraph paragraph) wanted replacement = some changed) :
    ∃ start children, Text.FirstAt wanted (paragraphText paragraph) start ∧
      changed = paragraph.withChildren children ∧
      Reshaped start (start + wanted.length) replacement.toList paragraph.children children := by
  obtain ⟨start, children, occurs, same, cut⟩ := replaceText_cuts replaced
  exact ⟨start, children, occurs, same, cut.reshaped⟩

theorem replaceText_children_acrossRuns :
    let value := createRun "v".toList none
    ∃ changed, replaceText? acrossRuns (.ofParagraph acrossRuns) "$\x7bx\x7d".toList (some value) = some changed ∧
      ∃ start children, Text.FirstAt "$\x7bx\x7d".toList (paragraphText acrossRuns) start ∧
        changed = acrossRuns.withChildren children ∧ Reshaped start (start + 4) [value] acrossRuns.children children := by
  intro value
  have replaced : replaceText? acrossRuns (.ofParagraph acrossRuns) "$\x7bx\x7d".toList (some value) = some _ := rfl
  exact ⟨_, replaced, replaceText_children replaced⟩

end Imprint.Document
