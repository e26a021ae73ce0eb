import Imprint.Proofs.RunText
/-! # Cutting texts out of runs

Replacing a stretch of a paragraph's text touches the runs that have a part in it.  Which runs these
are is found by their places; what becomes of the texts depends only on the offsets. -/
set_option autoImplicit false
namespace Imprint.Document
open Xml

/-! ## Runs that have a part in a stretch -/

/-- The runs that have a part in a stretch, by their places counted from `place`, if the first text
begins at `offset`. -/
def coveredFrom (start stop : Nat) : Nat → Nat → List (List Char) → List (Nat × Span)
  | _, _, [] => []
  | place, offset, letters :: rest =>
      let span : Span := ⟨offset, offset + letters.length⟩
      let others := coveredFrom start stop (place + 1) (offset + letters.length) rest
      if span.covers start stop then (place, span) :: others else others

theorem affected_eq_coveredFrom (texts : List (List Char)) (start stop : Nat) :
    ∀ place offset : Nat,
      (((spansFrom offset texts).zipIdx place).filter
        fun entry => entry.1.covers start stop).map (fun (span, index) => (index, span)) =
        coveredFrom start stop place offset texts := by
  induction texts with
  | nil => intro place offset; rfl
  | cons letters rest hypothesis =>
    intro place offset
    simp only [spansFrom, List.zipIdx_cons, List.filter_cons, coveredFrom]
    split
    · rw [List.map_cons, hypothesis]
    · exact hypothesis _ _

theorem covers_iff (span : Span) (start stop : Nat) :
    span.covers start stop = true ↔ start < span.stop ∧ span.start < stop := by
  simp [Span.covers]

section Covered

variable {start stop : Nat}

/-- Runs that have a part lie behind the offset they are looked for from. -/
theorem covered_bounds {texts : List (List Char)} :
    ∀ {place offset : Nat} {entry : Nat × Span}, entry ∈ coveredFrom start stop place offset texts →
      place ≤ entry.1 ∧ offset ≤ entry.2.start ∧ start < entry.2.stop ∧ entry.2.start < stop := by
  induction texts with
  | nil => intro place offset entry member; cases member
  | cons letters rest hypothesis =>
    intro place offset entry member
    have later (member : entry ∈ coveredFrom start stop (place + 1) (offset + letters.length) rest) :
        place ≤ entry.1 ∧ offset ≤ entry.2.start ∧ start < entry.2.stop ∧ entry.2.start < stop := by
      have bounds := hypothesis member
      omega
    simp only [coveredFrom] at member
    split at member
    · rename_i covers
      rcases List.mem_cons.mp member with rfl | member
      · have parts := (covers_iff _ _ _).mp covers
        exact ⟨Nat.le_refl _, Nat.le_refl _, parts.1, parts.2⟩
      · exact later member
    · exact later member

/-- Runs that have a part stand one behind the other. -/
theorem covered_ordered {texts : List (List Char)} :
    ∀ {place offset : Nat}, (coveredFrom start stop place offset texts).Pairwise
      fun first second => first.1 < second.1 ∧ first.2.stop ≤ second.2.start := by
  induction texts with
  | nil => intro place offset; exact .nil
  | cons letters rest hypothesis =>
    intro place offset
    simp only [coveredFrom]
    split
    · refine .cons (fun entry member => ?_) hypothesis
      have bounds := covered_bounds member
      exact ⟨bounds.1, bounds.2.1⟩
    · exact hypothesis

/-- A stretch that begins in some texts begins in the first run that has a part in it. -/
theorem covered_first (texts : List (List Char)) (order : start < stop) :
    ∀ place offset : Nat, offset ≤ start → start < offset + texts.flatten.length →
      ∃ first others, coveredFrom start stop place offset texts = first :: others ∧
        first.2.start ≤ start := by
  induction texts with
  | nil =>
    intro place offset low high
    simp only [List.flatten_nil, List.length_nil] at high
    omega
  | cons letters rest hypothesis =>
    intro place offset low high
    simp only [List.flatten_cons, List.length_append] at high
    by_cases here : start < offset + letters.length
    · have covers : (Span.mk offset (offset + letters.length)).covers start stop = true :=
        (covers_iff _ _ _).mpr ⟨here, by show offset < stop; omega⟩
      exact ⟨_, _, by simp only [coveredFrom, covers, if_true]; rfl, low⟩
    · obtain ⟨first, others, found, begins⟩ :=
        hypothesis (place + 1) (offset + letters.length) (by omega) (by omega)
      have apart : (Span.mk offset (offset + letters.length)).covers start stop = false := by
        refine Bool.eq_false_iff.mpr fun covers => ?_
        exact here ((covers_iff _ _ _).mp covers).1
      exact ⟨first, others, by simp [coveredFrom, apart, found], begins⟩

/-- A stretch that ends in some texts ends in the last run that has a part in it. -/
theorem covered_last (texts : List (List Char)) (order : start < stop) :
    ∀ place offset : Nat, offset < stop → stop ≤ offset + texts.flatten.length →
      ∃ before last, coveredFrom start stop place offset texts = before ++ [last] ∧
        stop ≤ last.2.stop := by
  induction texts with
  | nil =>
    intro place offset low high
    simp only [List.flatten_nil, List.length_nil] at high
    omega
  | cons letters rest hypothesis =>
    intro place offset low high
    simp only [List.flatten_cons, List.length_append] at high
    by_cases here : stop ≤ offset + letters.length
    · have covers : (Span.mk offset (offset + letters.length)).covers start stop = true :=
        (covers_iff _ _ _).mpr ⟨by show start < offset + letters.length; omega, low⟩
      have none : coveredFrom start stop (place + 1) (offset + letters.length) rest = [] := by
        refine List.eq_nil_iff_forall_not_mem.mpr fun entry member => ?_
        have bounds := covered_bounds member
        omega
      exact ⟨[], (place, ⟨offset, offset + letters.length⟩), by simp [coveredFrom, covers, none],
        here⟩
    · obtain ⟨before, last, found, ends⟩ :=
        hypothesis (place + 1) (offset + letters.length) (by omega) (by omega)
      simp only [coveredFrom, found]
      split
      · exact ⟨_ :: before, last, rfl, ends⟩
      · exact ⟨before, last, rfl, ends⟩

end Covered

/-! ## Texts of what is left -/

/-- The texts that are left of a run from `offset` on when a stretch is replaced: what lies in front of
the stretch, with the replacement behind it if the stretch begins here, and what lies behind it. -/
def leftOver (replacement : List (List Char)) (start stop offset : Nat) (letters : List Char) :
    List (List Char) :=
  if offset + letters.length ≤ start ∨ stop ≤ offset then [letters]
  else
    (if offset ≤ start then rewritten (letters.take (start - offset)) :: replacement else []) ++
      (if stop ≤ offset + letters.length then [rewritten (letters.drop (stop - offset))] else [])

/-- Texts without empty ones. -/
def dense (texts : List (List Char)) : List (List Char) :=
  texts.filter fun letters => !letters.isEmpty

@[simp] theorem dense_nil : dense [] = [] := rfl

@[simp] theorem dense_append (first second : List (List Char)) :
    dense (first ++ second) = dense first ++ dense second := by
  simp [dense]

theorem dense_cons (letters : List Char) (rest : List (List Char)) :
    dense (letters :: rest) = dense [letters] ++ dense rest :=
  dense_append [letters] rest

@[simp] theorem dense_dense (texts : List (List Char)) : dense (dense texts) = dense texts := by
  simp [dense]

theorem dense_of_empty {letters : List Char} (empty : letters.isEmpty = true) :
    dense [rewritten letters] = [] := by
  rw [List.isEmpty_iff.mp empty]
  rfl

theorem isRun_setRunText {run : Node} (direct : isRun run = true) (letters : List Char) :
    isRun (setRunText run letters) = true := direct

theorem runTexts_setRunText {run : Node} (direct : isRun run = true) (letters : List Char) :
    runTexts [setRunText run letters] = dense [rewritten letters] := by
  rw [runTexts_run (isRun_setRunText direct letters), runText_setRunText]
  rfl

theorem runTexts_createRun {properties : Option Node} (proper : AreProperties properties)
    (letters : List Char) : runTexts [createRun letters properties] = dense [rewritten letters] := by
  rw [runTexts_run rfl, runText_createRun proper]
  rfl

section Pieces

variable {run : Node} (direct : isRun run = true) (replacement : List Node)
include direct

theorem runTexts_splitRun (start stop : Nat) :
    runTexts (splitRun replacement start stop run) =
      dense [rewritten ((runText run).take start)] ++ runTexts replacement ++
        dense [rewritten ((runText run).drop stop)] := by
  dsimp only [splitRun]
  cases before : ((runText run).take start).isEmpty with
  | true =>
    rw [dense_of_empty before]
    cases after : ((runText run).drop stop).isEmpty with
    | true => simp [dense_of_empty after]
    | false => simp [runTexts_append, runTexts_setRunText direct]
  | false =>
    cases after : ((runText run).drop stop).isEmpty with
    | true =>
      rw [dense_of_empty after, List.append_nil]
      show runTexts (setRunText run _ :: replacement) = _
      rw [runTexts_cons, runTexts_setRunText direct]
    | false =>
      have proper : AreProperties (runProperties run) := areProperties_child run
      show runTexts (setRunText run _ :: (replacement ++ [createRun _ (runProperties run)])) = _
      rw [runTexts_cons, runTexts_append, runTexts_setRunText direct, runTexts_createRun proper,
        List.append_assoc]

theorem runTexts_cutFirst (start : Nat) :
    runTexts (cutFirst replacement start run) =
      dense [rewritten ((runText run).take start)] ++ runTexts replacement := by
  dsimp only [cutFirst]
  cases before : ((runText run).take start).isEmpty with
  | true => simp [dense_of_empty before]
  | false =>
    show runTexts (setRunText run _ :: replacement) = _
    rw [runTexts_cons, runTexts_setRunText direct]

omit replacement in
theorem runTexts_cutLast (stop : Nat) :
    runTexts (cutLast stop run) = dense [rewritten ((runText run).drop stop)] := by
  dsimp only [cutLast]
  cases after : ((runText run).drop stop).isEmpty with
  | true => simp [dense_of_empty after]
  | false => simp [runTexts_setRunText direct]

end Pieces

/-- What is known about the runs that have a part in a stretch, as seen from the run at a place: the
stretch begins in the first of them and ends in the last, they are ordered, and the run at the place
is among them if it has a part. -/
structure Covering (affected : List (Nat × Span)) (start stop place : Nat) (span : Span) : Prop where
  first : ∃ first others, affected = first :: others ∧ first.2.start ≤ start
  last : ∃ before last, affected = before ++ [last] ∧ stop ≤ last.2.stop
  ordered : affected.Pairwise fun first second =>
    first.1 < second.1 ∧ first.2.stop ≤ second.2.start
  bounds : ∀ entry ∈ affected, start < entry.2.stop ∧ entry.2.start < stop
  listed : span.covers start stop = true → (place, span) ∈ affected
  unlisted : span.covers start stop = false → ∀ entry ∈ affected, entry.1 ≠ place

/-- A run of which no entry speaks stays. -/
theorem cutRun_unlisted {affected : List (Nat × Span)} {index : Nat}
    (unlisted : ∀ entry ∈ affected, entry.1 ≠ index) (replacement : List Node) (start stop : Nat) (run : Node) :
    cutRun affected replacement start stop index run = [run] := by
  cases affected with
  | nil => rfl
  | cons first others =>
    have notFirst : index ≠ first.1 := (unlisted first List.mem_cons_self).symm
    cases others with
    | nil => simp [cutRun, notFirst]
    | cons second rest =>
      have notOthers : (second :: rest).any (fun entry => entry.1 == index) = false := by
        refine List.any_eq_false.mpr fun entry member => ?_
        simpa using unlisted entry (List.mem_cons_of_mem _ member)
      have final := unlisted _ (List.mem_cons_of_mem _ (List.getLast_mem (List.cons_ne_nil second rest)))
      simp [cutRun, notFirst, notOthers, List.getLast?_eq_some_getLast (List.cons_ne_nil second rest), final.symm]

/-- The first of several runs, the last of them, and those between. -/
theorem cutRun_several (first last : Nat × Span) (inner : List (Nat × Span)) (replacement : List Node)
    (start stop index : Nat) (run : Node) :
    cutRun (first :: (inner ++ [last])) replacement start stop index run =
      if index = first.1 then cutFirst replacement (start - first.2.start) run
      else if index = last.1 then cutLast (stop - last.2.start) run
      else if (inner ++ [last]).any (fun entry => entry.1 == index) then []
      else [run] := by
  cases inner with
  | nil => simp [cutRun]
  | cons second rest =>
    have final? : (second :: (rest ++ [last])).getLast? = some last := by
      rw [← List.cons_append, List.getLast?_concat]
    simp [cutRun, final?]

theorem runTexts_cutRun {affected : List (Nat × Span)} {start stop place offset : Nat} {run : Node}
    (direct : isRun run = true) (replacement : List Node)
    (covering : Covering affected start stop place ⟨offset, offset + (runText run).length⟩) :
    runTexts (cutRun affected replacement start stop place run) =
      dense (leftOver (runTexts replacement) start stop offset (runText run)) := by
  obtain ⟨first, others, affectedFirst, begins⟩ := covering.first
  obtain ⟨before, last, affectedLast, ends⟩ := covering.last
  have whole : runTexts [run] = dense [runText run] := runTexts_run direct
  have replaced : dense (runTexts replacement) = runTexts replacement := dense_dense _
  cases covers : (Span.mk offset (offset + (runText run).length)).covers start stop with
  | false =>
    -- The run has no part: no entry speaks of its place.
    have other := covering.unlisted covers
    have apart : offset + (runText run).length ≤ start ∨ stop ≤ offset := by
      have parts := mt (covers_iff _ _ _).mpr (Bool.eq_false_iff.mp covers)
      dsimp only at parts
      omega
    rw [cutRun_unlisted other, whole, leftOver, if_pos apart]
  | true =>
    have parts := (covers_iff _ _ _).mp covers
    have here := covering.listed covers
    dsimp only at parts
    have reaches : ¬ (offset + (runText run).length ≤ start ∨ stop ≤ offset) := by omega
    rw [leftOver, if_neg reaches]
    cases others with
    | nil =>
      -- The run is the only one: the stretch begins and ends in it.
      obtain rfl : first = (place, ⟨offset, offset + (runText run).length⟩) := by
        simpa [affectedFirst, eq_comm] using here
      obtain rfl : last = (place, ⟨offset, offset + (runText run).length⟩) := by
        have only := affectedFirst.symm.trans affectedLast
        cases before with
        | nil => simpa [eq_comm] using only
        | cons _ _ => simp at only
      have same : cutRun affected replacement start stop place run =
          splitRun replacement (start - offset) (stop - offset) run := by
        simp [cutRun, affectedFirst]
      rw [same, runTexts_splitRun direct, if_pos begins, if_pos ends, dense_append,
        dense_cons _ (runTexts replacement), replaced]
    | cons second rest =>
      obtain ⟨front, final, split⟩ : ∃ front final, second :: rest = front ++ [final] :=
        ⟨_, _, (List.dropLast_concat_getLast (List.cons_ne_nil _ _)).symm⟩
      rw [split] at affectedFirst
      rw [affectedFirst] at here affectedLast
      obtain rfl : final = last := by
        have joined : (first :: front) ++ [final] = before ++ [last] := affectedLast
        exact (List.append_inj' joined rfl).2 |> List.singleton_inj.mp
      have ordered := covering.ordered
      rw [affectedFirst, List.pairwise_cons, List.pairwise_append] at ordered
      obtain ⟨afterFirst, -, -, beforeFinal⟩ := ordered
      have finalAfter := afterFirst final (by simp)
      have firstBounds := covering.bounds first (by simp [affectedFirst])
      have finalBounds := covering.bounds final (by simp [affectedFirst])
      rw [affectedFirst, cutRun_several]
      rcases List.mem_cons.mp here with isFirst | inOthers
      · -- The stretch begins in the run and goes on behind it.
        subst isFirst
        dsimp only at begins finalAfter firstBounds
        rw [if_pos rfl, runTexts_cutFirst direct, if_pos begins, if_neg (by omega), List.append_nil,
          dense_cons _ (runTexts replacement), replaced]
      · have after := afterFirst _ inOthers
        dsimp only at after
        have notFirst : place ≠ first.1 := by omega
        rw [if_neg notFirst]
        rcases List.mem_append.mp inOthers with inFront | isFinal
        · -- The run lies inside of the stretch.
          have behind := beforeFinal _ inFront final (by simp)
          dsimp only at behind
          have notFinal : place ≠ final.1 := by omega
          have listed : (front ++ [final]).any (fun entry => entry.1 == place) = true :=
            List.any_eq_true.mpr ⟨_, inOthers, beq_self_eq_true place⟩
          rw [if_neg notFinal, if_pos listed, if_neg (by omega), if_neg (by omega)]
          rfl
        · -- The stretch ends in the run and begins in front of it.
          obtain rfl := List.mem_singleton.mp isFinal
          dsimp only at ends
          rw [if_pos rfl, runTexts_cutLast direct, if_neg (by omega), if_pos ends]
          rfl

/-- The entries that a scan from some place still has to meet are the last ones of the list, and the
others speak of earlier places. -/
def Tracks (affected : List (Nat × Span)) (start stop place offset : Nat)
    (texts : List (List Char)) : Prop :=
  ∃ earlier, affected = earlier ++ coveredFrom start stop place offset texts ∧
    ∀ entry ∈ earlier, entry.1 < place

namespace Tracks

variable {affected : List (Nat × Span)} {start stop place offset : Nat} {letters : List Char}
  {rest : List (List Char)}

theorem next (tracks : Tracks affected start stop place offset (letters :: rest)) :
    Tracks affected start stop (place + 1) (offset + letters.length) rest := by
  obtain ⟨earlier, same, before⟩ := tracks
  simp only [coveredFrom] at same
  split at same
  · refine ⟨earlier ++ [(place, ⟨offset, offset + letters.length⟩)], by simpa using same, ?_⟩
    intro entry member
    rcases List.mem_append.mp member with member | member
    · exact Nat.lt_succ_of_lt (before entry member)
    · obtain rfl := List.mem_singleton.mp member
      exact Nat.lt_succ_self _
  · exact ⟨earlier, same, fun entry member => Nat.lt_succ_of_lt (before entry member)⟩

theorem listed (tracks : Tracks affected start stop place offset (letters :: rest))
    (covers : (Span.mk offset (offset + letters.length)).covers start stop = true) :
    (place, ⟨offset, offset + letters.length⟩) ∈ affected := by
  obtain ⟨earlier, same, -⟩ := tracks
  simp [same, coveredFrom, covers]

theorem unlisted (tracks : Tracks affected start stop place offset (letters :: rest))
    (apart : (Span.mk offset (offset + letters.length)).covers start stop = false) :
    ∀ entry ∈ affected, entry.1 ≠ place := by
  obtain ⟨earlier, same, before⟩ := tracks
  intro entry member equal
  simp only [same, coveredFrom, apart, Bool.false_eq_true, if_false, List.mem_append] at member
  rcases member with member | member
  · exact absurd equal (Nat.ne_of_lt (before entry member))
  · have bounds := covered_bounds member
    omega

end Tracks

/-- The texts that are left of several runs when a stretch is replaced. -/
def cutTexts (replacement : List (List Char)) (start stop : Nat) :
    Nat → List (List Char) → List (List Char)
  | _, [] => []
  | offset, letters :: rest =>
      leftOver replacement start stop offset letters ++
        cutTexts replacement start stop (offset + letters.length) rest

theorem runTexts_replaceRuns {affected : List (Nat × Span)} {start stop : Nat}
    (replacement children : List Node)
    (first : ∃ first others, affected = first :: others ∧ first.2.start ≤ start)
    (last : ∃ before last, affected = before ++ [last] ∧ stop ≤ last.2.stop)
    (ordered : affected.Pairwise fun first second =>
      first.1 < second.1 ∧ first.2.stop ≤ second.2.start)
    (bounds : ∀ entry ∈ affected, start < entry.2.stop ∧ entry.2.start < stop) :
    ∀ place offset : Nat,
      Tracks affected start stop place offset ((children.filter isRun).map runText) →
      runTexts (replaceRuns (cutRun affected replacement start stop) place children) =
        dense (cutTexts (runTexts replacement) start stop offset
          ((children.filter isRun).map runText)) := by
  induction children with
  | nil => intro place offset tracks; rfl
  | cons node rest hypothesis =>
    intro place offset tracks
    cases direct : isRun node with
    | false =>
      simp only [List.filter_cons, direct] at tracks ⊢
      simp only [replaceRuns, direct]
      show runTexts (node :: replaceRuns _ place rest) = _
      rw [runTexts_cons, runTexts_other direct, List.nil_append]
      exact hypothesis place offset tracks
    | true =>
      simp only [List.filter_cons, direct, if_true, List.map_cons] at tracks ⊢
      have covering : Covering affected start stop place
          ⟨offset, offset + (runText node).length⟩ :=
        ⟨first, last, ordered, bounds, tracks.listed, tracks.unlisted⟩
      simp only [replaceRuns, direct, if_true, cutTexts, dense_append, runTexts_append]
      rw [runTexts_cutRun direct replacement covering, hypothesis _ _ tracks.next]

/-! ## Cutting at two offsets -/

/-- The texts in front of an offset.  A text that is cut is written anew. -/
def cutBefore : Nat → List (List Char) → List (List Char)
  | _, [] => []
  | size, letters :: rest =>
      if letters.length ≤ size then letters :: cutBefore (size - letters.length) rest
      else [rewritten (letters.take size)]

/-- The texts behind an offset.  A text that is cut is written anew. -/
def cutAfter : Nat → List (List Char) → List (List Char)
  | _, [] => []
  | size, letters :: rest =>
      if size = 0 then letters :: rest
      else if letters.length ≤ size then cutAfter (size - letters.length) rest
      else rewritten (letters.drop size) :: rest

section Offsets

variable (replacement : List (List Char)) {start stop : Nat}

/-- Texts without characters have no part in a stretch. -/
theorem cutTexts_dense (texts : List (List Char)) : ∀ offset : Nat,
    dense (cutTexts replacement start stop offset (dense texts)) =
      dense (cutTexts replacement start stop offset texts) := by
  induction texts with
  | nil => intro offset; rfl
  | cons letters rest hypothesis =>
    intro offset
    cases letters with
    | nil =>
      have nothing : dense (leftOver replacement start stop offset []) = [] := by
        unfold leftOver
        split
        · rfl
        · rename_i covered
          simp only [List.length_nil] at covered ⊢
          rw [if_neg (by omega), if_neg (by omega)]
          rfl
      rw [cutTexts, dense_append, nothing]
      exact hypothesis offset
    | cons letter others =>
      have kept : dense ((letter :: others) :: rest) = (letter :: others) :: dense rest := rfl
      rw [kept, cutTexts, cutTexts, dense_append, dense_append, hypothesis]

theorem cutTexts_behind (texts : List (List Char)) : ∀ offset : Nat, stop ≤ offset →
    cutTexts replacement start stop offset texts = texts := by
  induction texts with
  | nil => intro offset behind; rfl
  | cons letters rest hypothesis =>
    intro offset behind
    rw [cutTexts, leftOver, if_pos (Or.inr behind), hypothesis _ (by omega)]
    rfl

theorem cutAfter_zero (texts : List (List Char)) : cutAfter 0 texts = texts := by
  cases texts <;> rfl

/-- What is left of a run that the stretch ends in, or goes on behind. -/
theorem dense_behind (letters : List Char) {offset : Nat} (rest : List (List Char))
    (reaches : offset < stop) (next : dense (cutTexts replacement start stop
      (offset + letters.length) rest) = dense (cutAfter (stop - (offset + letters.length)) rest)) :
    dense (if stop ≤ offset + letters.length then [rewritten (letters.drop (stop - offset))] else []) ++
        dense (cutTexts replacement start stop (offset + letters.length) rest) =
      dense (cutAfter (stop - offset) (letters :: rest)) := by
  have amount : stop - offset - letters.length = stop - (offset + letters.length) := by omega
  have some : stop - offset ≠ 0 := by omega
  rw [next, cutAfter, if_neg some, amount]
  by_cases inside : stop < offset + letters.length
  · have none : stop - (offset + letters.length) = 0 := by omega
    have longer : ¬ letters.length ≤ stop - offset := by omega
    rw [if_pos (Nat.le_of_lt inside), if_neg longer, dense_cons _ rest, none, cutAfter_zero]
  · have all : letters.drop (stop - offset) = [] := List.drop_eq_nil_of_le (by omega)
    rw [if_pos (by omega : letters.length ≤ stop - offset), all]
    split
    · rfl
    · rfl

theorem cutTexts_inside (texts : List (List Char)) : ∀ offset : Nat, start < offset →
    dense (cutTexts replacement start stop offset texts) =
      dense (cutAfter (stop - offset) texts) := by
  induction texts with
  | nil => intro offset inside; rfl
  | cons letters rest hypothesis =>
    intro offset inside
    by_cases behind : stop ≤ offset
    · have none : stop - offset = 0 := by omega
      rw [cutTexts_behind replacement _ _ behind, none, cutAfter_zero]
    · have next := hypothesis (offset + letters.length) (by omega)
      have covered : ¬ (offset + letters.length ≤ start ∨ stop ≤ offset) := by omega
      rw [cutTexts, leftOver, if_neg covered, if_neg (by omega : ¬ offset ≤ start), List.nil_append,
        dense_append]
      exact dense_behind replacement letters rest (by omega) next

theorem cutTexts_split (texts : List (List Char)) (order : start < stop) :
    ∀ offset : Nat, offset ≤ start → start < offset + texts.flatten.length →
      dense (cutTexts replacement start stop offset texts) =
        dense (cutBefore (start - offset) texts ++ replacement ++
          cutAfter (stop - offset) texts) := by
  induction texts with
  | nil =>
    intro offset low high
    simp only [List.flatten_nil, List.length_nil] at high
    omega
  | cons letters rest hypothesis =>
    intro offset low high
    simp only [List.flatten_cons, List.length_append] at high
    by_cases here : start < offset + letters.length
    · have covered : ¬ (offset + letters.length ≤ start ∨ stop ≤ offset) := by omega
      rw [cutTexts, leftOver, if_neg covered, if_pos low, dense_append, dense_append,
        List.append_assoc, dense_behind replacement letters rest (by omega)
          (cutTexts_inside replacement rest _ here)]
      rw [cutBefore, if_neg (by omega : ¬ letters.length ≤ start - offset)]
      simp only [dense_append, List.append_assoc]
      rw [dense_cons _ replacement, List.append_assoc]
    · have next := hypothesis (offset + letters.length) (by omega) (by omega)
      have before : start - offset - letters.length = start - (offset + letters.length) := by omega
      have after : stop - offset - letters.length = stop - (offset + letters.length) := by omega
      have apart : offset + letters.length ≤ start ∨ stop ≤ offset := by omega
      rw [cutTexts, leftOver, if_pos apart, dense_append, next, cutBefore, cutAfter,
        if_pos (by omega : letters.length ≤ start - offset), if_neg (by omega : stop - offset ≠ 0),
        if_pos (by omega : letters.length ≤ stop - offset), before, after]
      simp only [dense_append, List.append_assoc, List.cons_append]
      rw [dense_cons letters (cutBefore _ rest ++ _)]
      simp only [dense_append]

end Offsets

/-! ## Replacing a stretch of a paragraph -/

theorem find?_bound {needle : List Char} {letters : List Char} {start : Nat}
    (found : Text.find? needle letters = some start) : start + needle.length ≤ letters.length := by
  induction letters generalizing start with
  | nil =>
    simp only [Text.find?] at found
    split at found
    · rename_i empty
      cases found
      simp [List.isEmpty_iff.mp empty]
    · cases found
  | cons letter rest hypothesis =>
    simp only [Text.find?] at found
    split at found
    · rename_i starts
      cases found
      have short := (List.isPrefixOf_iff_prefix.mp starts).length_le
      simpa using short
    · obtain ⟨before, foundBefore, rfl⟩ := Option.map_eq_some_iff.mp found
      have bound := hypothesis foundBefore
      simp only [List.length_cons]
      omega

/-- A text that is found is replaced in the runs that have a part in its first occurrence. -/
theorem replaceText_found {paragraph : Node} {wanted : List Char} {start : Nat}
    (filled : wanted ≠ []) (found : Text.find? wanted (paragraphText paragraph) = some start)
    (replacement : Option Node) :
    replaceText? paragraph (Reading.ofParagraph paragraph) wanted replacement =
      some (paragraph.withChildren (replaceRuns
        (cutRun (coveredFrom start (start + wanted.length) 0 0 ((runs paragraph).map runText))
          replacement.toList start (start + wanted.length)) 0 paragraph.children)) := by
  have size : 0 < wanted.length := List.length_pos_iff.mpr filled
  have fits := find?_bound found
  have whole : ((runs paragraph).map runText).flatten = paragraphText paragraph := by
    simp [paragraphText, List.flatMap]
  have affected : (Reading.ofParagraph paragraph).affected start ((start + wanted.length : Nat) : Int) =
      coveredFrom start (start + wanted.length) 0 0 ((runs paragraph).map runText) :=
    affected_eq_coveredFrom ((runs paragraph).map runText) start (start + wanted.length) 0 0
  obtain ⟨first, others, foundFirst, -⟩ := covered_first ((runs paragraph).map runText)
    (by omega : start < start + wanted.length) 0 0 (by omega) (by rw [whole]; omega)
  have empty : wanted.isEmpty = false := by simpa using filled
  have found' : Text.find? wanted (Reading.ofParagraph paragraph).text = some start := found
  simp only [replaceText?, empty, found', Bool.false_eq_true, if_false]
  rw [affected, foundFirst]

/-- What replacing a text does to the texts of a paragraph's runs: those in front of its first
occurrence and those behind it stay, cut ones written anew, and the replacement stands between them. -/
theorem replaceText_texts {paragraph : Node} {wanted : List Char} {start : Nat}
    (filled : wanted ≠ []) (found : Text.find? wanted (paragraphText paragraph) = some start)
    (replacement : Option Node) :
    ∃ children, replaceText? paragraph (Reading.ofParagraph paragraph) wanted replacement =
        some (paragraph.withChildren children) ∧
      runTexts children = dense (cutBefore start (runTexts paragraph.children) ++
        runTexts replacement.toList ++
          cutAfter (start + wanted.length) (runTexts paragraph.children)) := by
  have size : 0 < wanted.length := List.length_pos_iff.mpr filled
  have fits := find?_bound found
  let texts := (runs paragraph).map runText
  have whole : texts.flatten = paragraphText paragraph := by
    simp [texts, paragraphText, List.flatMap]
  have isDense : dense texts = runTexts paragraph.children := rfl
  have order : start < start + wanted.length := by omega
  refine ⟨_, replaceText_found filled found replacement, ?_⟩
  rw [runTexts_replaceRuns replacement.toList paragraph.children
    (covered_first texts order 0 0 (by omega) (by rw [whole]; omega))
    (covered_last texts order 0 0 (by omega) (by rw [whole]; omega)) covered_ordered
    (fun entry member => (covered_bounds member).2.2) 0 0 ⟨[], rfl, by simp⟩]
  show dense (cutTexts _ _ _ 0 texts) = _
  rw [← cutTexts_dense, isDense, cutTexts_split _ _ order 0 (by omega)]
  · simp
  · rw [flatten_runTexts]
    omega

theorem replaceText_missing {paragraph : Node} {wanted : List Char}
    (missing : Text.find? wanted (paragraphText paragraph) = none) (replacement : Option Node) :
    replaceText? paragraph (Reading.ofParagraph paragraph) wanted replacement = none := by
  have missing' : Text.find? wanted (Reading.ofParagraph paragraph).text = none := missing
  unfold replaceText?
  split
  · rfl
  · rw [missing']

end Imprint.Document
