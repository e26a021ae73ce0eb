import Imprint.Proofs.CommentDeletion
import Imprint.Proofs.PrunedForests
import Imprint.Proofs.RefusedEdits
/-! # What conditions take out

The paragraphs, rows and tables whose condition was false are removed in turn, and what has been taken out before
decides whether a paragraph is the only one of its cell by then.  When all of them are where they were, every tree is
left as it was without what their turns took out. -/
set_option autoImplicit false
namespace Imprint
open Imprint.Action Xml Document Node Forest

/-! ## Removals in turn -/

namespace Xml.Forest

/-- What the removal of a paragraph takes out of a forest from which some nodes are gone already: the paragraph, or
what it holds apart from its properties if it is the only paragraph of its cell by then. -/
def struckBy (forest : Forest) (gone : List Nat) (paragraph : Nat) : List Nat :=
  match forest.parent? paragraph, forest.find? paragraph with
  | some parent, some node =>
      if isOnlyParagraphOfCell (parent.pruned gone) then
        (node.children.filter fun child => !child.hasTag Tag.paragraphProperties).map key
      else [paragraph]
  | _, _ => []

/-- What is gone after some removals, if each of them takes out more than is gone by then. -/
def takenInTurn (taken : List Nat → Nat → List Nat) : List Nat → List Nat → List Nat
  | gone, [] => gone
  | gone, target :: rest => takenInTurn taken (gone ++ taken gone target) rest

/-- When it is its turn, every target is still where it was. -/
def ThereInTurn (forest : Forest) (taken : List Nat → Nat → List Nat) : List Nat → List Nat → Prop
  | _, [] => True
  | gone, target :: rest => ((forest.parent? target).isSome = true ∧ target ∉ gone) ∧
      ThereInTurn forest taken (gone ++ taken gone target) rest

/-- What is gone after certain paragraphs, rows and tables have been removed. -/
def struckOut (forest : Forest) (paragraphs rows tables : List Nat) : List Nat :=
  takenInTurn forest.struckBy [] paragraphs ++ (rows ++ tables)

theorem takenInTurn_alone (targets : List Nat) : ∀ gone : List Nat,
    takenInTurn (fun _ target => [target]) gone targets = gone ++ targets := by
  induction targets with
  | nil => exact fun gone => (List.append_nil gone).symm
  | cons target rest hypothesis =>
    intro gone
    rw [takenInTurn, hypothesis, List.append_assoc]
    rfl

/-- What is gone after removals was gone before, or one of them has taken it out. -/
theorem mem_takenInTurn {taken : List Nat → Nat → List Nat} {number : Nat} (targets : List Nat) : ∀ {gone : List Nat},
    number ∈ takenInTurn taken gone targets →
      number ∈ gone ∨ ∃ target ∈ targets, ∃ earlier, number ∈ taken earlier target := by
  induction targets with
  | nil => exact fun member => .inl member
  | cons target rest hypothesis =>
    intro gone member
    rcases hypothesis member with before | ⟨later, among, earlier, isTaken⟩
    · rcases List.mem_append.mp before with before | here
      · exact .inl before
      · exact .inr ⟨target, List.mem_cons_self, gone, here⟩
    · exact .inr ⟨later, List.mem_cons_of_mem _ among, earlier, isTaken⟩

/-- Targets are there when it is their turn if none of them is taken out in the turn of another one. -/
theorem there_inTurn {forest : Forest} {taken : List Nat → Nat → List Nat} (targets : List Nat) :
    ∀ {gone : List Nat}, targets.Nodup →
    (∀ target ∈ targets, (forest.parent? target).isSome = true) → (∀ target ∈ targets, target ∉ gone) →
    (∀ target ∈ targets, ∀ later ∈ targets, later ≠ target → ∀ earlier, later ∉ taken earlier target) →
    forest.ThereInTurn taken gone targets := by
  induction targets with
  | nil => exact fun _ _ _ _ => trivial
  | cons target rest hypothesis =>
    intro gone unique located stays apart
    obtain ⟨other, uniqueRest⟩ := List.nodup_cons.mp unique
    have inside {later : Nat} (member : later ∈ rest) : later ∈ target :: rest := List.mem_cons_of_mem _ member
    refine ⟨⟨located target List.mem_cons_self, stays target List.mem_cons_self⟩,
      hypothesis uniqueRest (fun later member => located later (inside member)) (fun later member isGone => ?_)
        fun first isFirst later isLater => apart first (inside isFirst) later (inside isLater)⟩
    rcases List.mem_append.mp isGone with before | here
    · exact stays later (inside member) before
    · exact apart target List.mem_cons_self later (inside member) (fun same => other (same ▸ member)) gone here

end Xml.Forest

namespace Engine

/-- A machine with another forest. -/
def withForest (machine : Machine World) (forest : Forest) : Machine World :=
  { machine with outer := { machine.outer with forest } }

/-- How the removals of a kind go, one by one: a target that is still where it was in the beginning is removed, and
any other one is refused. -/
structure Removes (start : Forest) (remove : Nat → Engine Unit) (taken : List Nat → Nat → List Nat) : Prop where
  done : ∀ {machine : Machine World} {gone : List Nat} {target : Nat}, Stripped gone start machine.outer.forest →
    (start.parent? target).isSome = true → target ∉ gone → ∃ forest,
      runOn (remove target) machine = (.ok (), withForest machine forest) ∧
        Stripped (gone ++ taken gone target) start forest
  refused : ∀ {machine : Machine World} {target : Nat}, machine.outer.forest.parent? target = none →
    ∃ message, runOn (remove target) machine = (.error (.detached message), machine)

section Removals

variable {start : Forest} {remove : Nat → Engine Unit} {taken : List Nat → Nat → List Nat}

/-- Targets that are there when it is their turn are removed one after the other. -/
theorem Removes.forM_done (removes : Removes start remove taken) (targets : List Nat) :
    ∀ {gone : List Nat} {machine : Machine World}, Stripped gone start machine.outer.forest →
      start.ThereInTurn taken gone targets → ∃ forest,
        runOn (targets.forM remove) machine = (.ok (), withForest machine forest) ∧
          Stripped (takenInTurn taken gone targets) start forest := by
  induction targets with
  | nil => exact fun {gone machine} stripped _ => ⟨machine.outer.forest, rfl, stripped⟩
  | cons target rest hypothesis =>
    rintro gone machine stripped ⟨⟨located, stays⟩, there⟩
    obtain ⟨forest, run, step⟩ := removes.done stripped located stays
    obtain ⟨last, others, result⟩ := @hypothesis _ (withForest machine forest) step there
    refine ⟨last, ?_, result⟩
    show runOn (remove target >>= fun _ => rest.forM remove) machine = _
    rw [runOn_bind, run]
    exact others

/-- Removals that succeed have found every target where it was. -/
theorem Removes.forM_there (removes : Removes start remove taken) (wellFormed : start.WellFormed) (targets : List Nat) :
    ∀ {gone : List Nat} {machine final : Machine World}, Stripped gone start machine.outer.forest →
      runOn (targets.forM remove) machine = (.ok (), final) → start.ThereInTurn taken gone targets := by
  induction targets with
  | nil => exact fun _ _ => trivial
  | cons target rest hypothesis =>
    intro gone machine final stripped run
    obtain ⟨_, middle, removed, run⟩ := bind_ok run
    have located : (start.parent? target).isSome = true ∧ target ∉ gone := by
      by_contra away
      rw [← stripped.parent?_isSome wellFormed, Option.not_isSome_iff_eq_none] at away
      obtain ⟨message, refused⟩ := removes.refused away
      rw [refused] at removed
      cases removed
    obtain ⟨forest, done, step⟩ := removes.done stripped located.1 located.2
    rw [done] at removed
    cases removed
    exact ⟨located, hypothesis step run⟩

/-- A paragraph is taken out, or what it holds. -/
theorem removeParagraph_removes (wellFormed : start.WellFormed) :
    Removes start removeParagraph (start.struckBy) where
  done := by
    intro machine gone paragraph stripped located stays
    obtain ⟨parent, isParent⟩ := Option.isSome_iff_exists.mp located
    obtain ⟨inStart, held⟩ := mem_of_parent? isParent
    obtain ⟨node, direct, rfl⟩ := List.mem_map.mp held
    have found : start.find? node.key = some node := wellFormed.find?_key (child_mem_allBelow inStart direct)
    have foundNow := stripped.find?_some wellFormed found
    have isParentNow := stripped.parent?_some wellFormed stays isParent
    unfold removeParagraph
    rw [runOn_bind, runOn_forest]
    dsimp only
    rw [isParentNow]
    dsimp only
    rw [runOn_changeForest, struckBy, isParent, found]
    dsimp only
    cases only : isOnlyParagraphOfCell (parent.pruned gone) with
    | true =>
      refine ⟨machine.outer.forest.edit node.key emptied, rfl, ?_⟩
      rw [if_pos rfl]
      refine (stripped.trans (stripped.wellFormed.edit_filter foundNow (hasTag Tag.paragraphProperties))).congr ?_
      -- What the paragraph holds by now is what it held, without what is gone.
      exact fun number _ => mem_dropped_pruned fun child => hasTag_pruned child _
    | false =>
      exact ⟨machine.outer.forest.detach node.key, rfl, stripped.trans (.detach stripped.wellFormed node.key)⟩
  refused := removeParagraph_apart

theorem removeElement_removes (wellFormed : start.WellFormed) :
    Removes start removeElement (fun _ element => [element]) where
  done := by
    intro machine gone element stripped located stays
    obtain ⟨parent, isParent⟩ := Option.isSome_iff_exists.mp located
    have isParentNow := stripped.parent?_some wellFormed stays isParent
    refine ⟨machine.outer.forest.detach element, ?_, stripped.trans (.detach stripped.wellFormed element)⟩
    unfold removeElement
    rw [runOn_bind, runOn_forest]
    dsimp only
    rw [isParentNow]
    rfl
  refused := removeElement_apart

end Removals

/-- All that a commit of conditions removes is still where it was when it is its turn. -/
structure AllThere (forest : Forest) (paragraphs rows tables : List Nat) : Prop where
  first : forest.ThereInTurn forest.struckBy [] paragraphs
  others : forest.ThereInTurn (fun _ element => [element]) (takenInTurn forest.struckBy [] paragraphs) (rows ++ tables)

section Commit

variable {machine : Machine World} {paragraphs rows tables : List Nat}

theorem commitDisplay_done (wellFormed : machine.outer.forest.WellFormed)
    (there : AllThere machine.outer.forest paragraphs rows tables) (handler : Handler) :
    ∃ forest diagnostics, runOn (commitDisplay handler paragraphs rows tables) machine =
        (.ok (), { machine with outer := { machine.outer with forest, diagnostics } }) ∧
      Stripped (machine.outer.forest.struckOut paragraphs rows tables) machine.outer.forest forest := by
  obtain ⟨first, removed, struck⟩ :=
    (removeParagraph_removes wellFormed).forM_done paragraphs (.refl wellFormed) there.first
  have struckThere : Stripped (takenInTurn machine.outer.forest.struckBy [] paragraphs) machine.outer.forest
    (withForest machine first).outer.forest := struck
  obtain ⟨last, alsoRemoved, result⟩ :=
    (removeElement_removes wellFormed).forM_done (rows ++ tables) struckThere there.others
  rw [takenInTurn_alone] at result
  have verbose (machine : Machine World) : runOn (isVerbose handler) machine =
      (.ok (handler.inSession && machine.outer.session.verbose), machine) := rfl
  unfold commitDisplay
  rw [runOn_bind, removed]
  dsimp only
  rw [runOn_bind, alsoRemoved]
  dsimp only
  rw [runOn_bind, verbose]
  dsimp only
  split
  · exact ⟨last, _, rfl, result⟩
  · exact ⟨last, _, rfl, result⟩

theorem commitDisplay_there (wellFormed : machine.outer.forest.WellFormed) {handler : Handler} {final : Machine World}
    (accepted : runOn (commitDisplay handler paragraphs rows tables) machine = (.ok (), final)) :
    AllThere machine.outer.forest paragraphs rows tables := by
  obtain ⟨_, middle, removed, accepted⟩ := bind_ok accepted
  obtain ⟨_, last, alsoRemoved, -⟩ := bind_ok accepted
  have there := (removeParagraph_removes wellFormed).forM_there wellFormed paragraphs (.refl wellFormed) removed
  obtain ⟨forest, done, struck⟩ :=
    (removeParagraph_removes wellFormed).forM_done paragraphs (.refl wellFormed) there
  rw [done] at removed
  cases removed
  exact ⟨there, (removeElement_removes wellFormed).forM_there wellFormed (rows ++ tables) struck alsoRemoved⟩

end Commit

end Engine

/-! ## What a handler has been asked for -/

/-- A handler of conditions has been asked for paragraphs, rows and tables of a forest, for each of them once. -/
structure Collected (forest : Forest) (paragraphs rows tables : List Nat) : Prop where
  uniqueParagraphs : paragraphs.Nodup
  uniqueRows : rows.Nodup
  uniqueTables : tables.Nodup
  areParagraphs : ∀ paragraph ∈ paragraphs, forest.Tagged Tag.paragraph paragraph
  areRows : ∀ row ∈ rows, forest.Tagged Tag.row row
  areTables : ∀ table ∈ tables, forest.Tagged Tag.table table

theorem addOnce_nodup {number : Nat} {numbers : List Nat} (unique : numbers.Nodup) : (addOnce number numbers).Nodup := by
  unfold addOnce
  split
  · exact unique
  · rename_i absent
    rw [List.contains_iff_mem] at absent
    exact List.nodup_append.mpr ⟨unique, List.nodup_singleton number,
      fun other member last isLast same => absent (List.mem_singleton.mp isLast ▸ same ▸ member)⟩

namespace Collected

variable {forest : Forest} {paragraphs rows tables : List Nat}

theorem nothing (forest : Forest) : Collected forest [] [] [] where
  uniqueParagraphs := List.nodup_nil
  uniqueRows := List.nodup_nil
  uniqueTables := List.nodup_nil
  areParagraphs _ impossible := absurd impossible List.not_mem_nil
  areRows _ impossible := absurd impossible List.not_mem_nil
  areTables _ impossible := absurd impossible List.not_mem_nil

theorem mono {after : Forest} (collected : Collected forest paragraphs rows tables)
    (tags : ∀ tag number, forest.Tagged tag number → after.Tagged tag number) :
    Collected after paragraphs rows tables where
  uniqueParagraphs := collected.uniqueParagraphs
  uniqueRows := collected.uniqueRows
  uniqueTables := collected.uniqueTables
  areParagraphs paragraph member := tags _ _ (collected.areParagraphs paragraph member)
  areRows row member := tags _ _ (collected.areRows row member)
  areTables table member := tags _ _ (collected.areTables table member)

/-- What is asked for next is collected as well, for a handler that is bound to a paragraph. -/
theorem asks {anchor : Anchor} {duty : Duty} (collected : Collected forest paragraphs rows tables)
    (bound : ∀ paragraph, anchor.paragraph = some paragraph → forest.Tagged Tag.paragraph paragraph)
    (asks : Asks forest anchor (.display paragraphs rows tables) duty) :
    ∃ paragraphs rows tables, duty = .display paragraphs rows tables ∧ Collected forest paragraphs rows tables := by
  cases asks with
  | paragraph _ _ _ isBound =>
    refine ⟨_, _, _, rfl, { collected with uniqueParagraphs := addOnce_nodup collected.uniqueParagraphs, areParagraphs := ?_ }⟩
    intro paragraph member
    rcases mem_addOnce.mp member with rfl | old
    · exact bound _ isBound
    · exact collected.areParagraphs paragraph old
  | row _ _ _ _ around =>
    refine ⟨_, _, _, rfl, { collected with uniqueRows := addOnce_nodup collected.uniqueRows, areRows := ?_ }⟩
    intro row member
    rcases mem_addOnce.mp member with rfl | old
    · exact enclosing_tagged around
    · exact collected.areRows row old
  | table _ _ _ _ around =>
    refine ⟨_, _, _, rfl, { collected with uniqueTables := addOnce_nodup collected.uniqueTables, areTables := ?_ }⟩
    intro table member
    rcases mem_addOnce.mp member with rfl | old
    · exact enclosing_tagged around
    · exact collected.areTables table old

end Collected

namespace Engine

/-- The handler at a place is bound to a paragraph of the document, if to any. -/
def BoundToParagraph (place : Nat) (machine : Machine World) : Prop :=
  ∀ handler, machine.outer.handlers[place]? = some handler → ∀ paragraph, handler.anchor.paragraph = some paragraph →
    machine.outer.forest.Tagged Tag.paragraph paragraph

/-- The machines on which the handler of conditions at a place has been asked for something by some calls, each made
while it was bound to a paragraph.  A call may fail.  Between the calls anything may happen that leaves what it has
been asked for alone, and leaves the names of nodes as they are. -/
inductive Asked (place : Nat) : Machine World → Prop where
  | nothing {machine : Machine World} {handler : Handler} (present : machine.outer.handlers[place]? = some handler)
      (empty : handler.duty = .display [] [] []) : Asked place machine
  | call {machine : Machine World} (asked : Asked place machine) (bound : BoundToParagraph place machine)
      (method : String) (arguments : Arguments) : Asked place (runOn (callDirective place method arguments) machine).2
  | between {before after : Machine World} (asked : Asked place before)
      (duty : (after.outer.handlers[place]?).map Handler.duty = (before.outer.handlers[place]?).map Handler.duty)
      (tags : ∀ tag number, before.outer.forest.Tagged tag number → after.outer.forest.Tagged tag number) :
      Asked place after

/-- The handler at a place has collected paragraphs, rows and tables. -/
def HasCollected (place : Nat) (machine : Machine World) : Prop :=
  ∃ handler paragraphs rows tables, machine.outer.handlers[place]? = some handler ∧
    handler.duty = .display paragraphs rows tables ∧ Collected machine.outer.forest paragraphs rows tables

/-- A call of a handler that is bound to a paragraph adds to what has been collected, and leaves the document alone. -/
theorem collected_proof (place : Nat) (forest : Forest) : StepProof place fun machine =>
    machine.outer.forest = forest ∧ HasCollected place machine ∧ BoundToParagraph place machine where
  free _ _ holds := holds
  step machine after := by
    rintro ⟨same, ⟨handler, paragraphs, rows, tables, present, duty, collected⟩, bound⟩ step
    cases step with
    | @asked other next alsoPresent asks =>
      obtain rfl := Option.some.inj (present.symm.trans alsoPresent)
      rw [duty] at asks
      obtain ⟨paragraphs, rows, tables, isNext, collected⟩ := collected.asks (bound handler present) asks
      have presentAfter : (machine.outer.handlers.modify place fun other => { other with duty := next })[place]? =
          some { handler with duty := next } := by
        rw [List.getElem?_modify, present]
        simp
      refine ⟨same, ⟨_, paragraphs, rows, tables, presentAfter, isNext, collected⟩, fun last isLast paragraph isBound => ?_⟩
      obtain rfl := Option.some.inj (presentAfter.symm.trans isLast)
      exact bound handler present paragraph isBound
    | written alsoPresent replaces =>
      obtain rfl := Option.some.inj (present.symm.trans alsoPresent)
      rw [duty] at replaces
      cases replaces
    | blanked alsoPresent replaces =>
      obtain rfl := Option.some.inj (present.symm.trans alsoPresent)
      rw [duty] at replaces
      cases replaces
    | told => exact ⟨same, ⟨handler, paragraphs, rows, tables, present, duty, collected⟩, bound⟩

theorem Asked.collected {place : Nat} {machine : Machine World} (asked : Asked place machine) :
    HasCollected place machine := by
  induction asked with
  | @nothing machine handler present empty => exact ⟨handler, [], [], [], present, empty, .nothing _⟩
  | @call machine _ bound method arguments hypothesis =>
    exact ((collected_proof place _).callDirective_after method arguments ⟨rfl, hypothesis, bound⟩).2.1
  | @between before after _ duty tags hypothesis =>
    obtain ⟨handler, paragraphs, rows, tables, present, isDuty, collected⟩ := hypothesis
    rw [present, Option.map_some, isDuty] at duty
    obtain ⟨now, isNow, same⟩ := Option.map_eq_some_iff.mp duty
    exact ⟨now, paragraphs, rows, tables, isNow, same, collected.mono tags⟩

/-- The machine after the handler at a place has been bound and then called. -/
def calledAt (place : Nat) (machine : Machine World) (call : Anchor × String × Arguments) : Machine World :=
  (runOn (callDirective place call.2.1 call.2.2) (runOn (bindHandlers call.1) machine).2).2

section Calls

variable {place : Nat} {machine : Machine World}

theorem boundTo_calledAt (place : Nat) {call : Anchor × String × Arguments}
    (bound : ∀ paragraph, call.1.paragraph = some paragraph → machine.outer.forest.Tagged Tag.paragraph paragraph) :
    BoundToParagraph place (runOn (bindHandlers call.1) machine).2 := by
  intro handler present
  obtain ⟨_, -, rfl⟩ := List.mem_map.mp (List.mem_of_getElem? present)
  exact bound

theorem forest_callDirective (collected : HasCollected place machine) (bound : BoundToParagraph place machine)
    (method : String) (arguments : Arguments) :
    (runOn (callDirective place method arguments) machine).2.outer.forest = machine.outer.forest :=
  ((collected_proof place _).callDirective_after method arguments ⟨rfl, collected, bound⟩).1

theorem Asked.bound (asked : Asked place machine) (anchor : Anchor) :
    Asked place (runOn (bindHandlers anchor) machine).2 := by
  refine .between asked ?_ fun _ _ tagged => tagged
  rw [runOn_bindHandlers, World.bound, List.getElem?_map, Option.map_map]
  rfl

/-- A handler of conditions can be called for all paragraphs of the document, one after the other. -/
theorem Asked.calls (calls : List (Anchor × String × Arguments)) : ∀ {machine : Machine World}, Asked place machine →
    (∀ call ∈ calls, ∀ paragraph, call.1.paragraph = some paragraph →
      machine.outer.forest.Tagged Tag.paragraph paragraph) →
    Asked place (calls.foldl (calledAt place) machine) := by
  induction calls with
  | nil => exact fun asked _ => asked
  | cons call rest hypothesis =>
    intro machine asked bound
    have isBound := boundTo_calledAt place (bound call List.mem_cons_self)
    have same : (calledAt place machine call).outer.forest = machine.outer.forest :=
      forest_callDirective (asked.bound call.1).collected isBound _ _
    refine hypothesis (.call (asked.bound call.1) isBound _ _) fun other member paragraph isParagraph => ?_
    rw [same]
    exact bound other (List.mem_cons_of_mem _ member) paragraph isParagraph

end Calls

end Engine

/-! ## Paragraphs that hold no paragraphs, rows or tables -/

namespace Xml.Forest

/-- No paragraph directly holds a paragraph, a row or a table. -/
def NoneNested (forest : Forest) : Prop :=
  ∀ node ∈ forest.nodes, node.hasTag Tag.paragraph = true → ∀ child ∈ node.children, isNested child = false

/-- A key of a node that is neither a paragraph nor a row nor a table. -/
def Plain (forest : Forest) (number : Nat) : Prop :=
  ∃ node ∈ forest.nodes, node.key = number ∧ isNested node = false

section Plain

variable {forest : Forest} {number : Nat} {tag other : Tag}

theorem WellFormed.tagged_unique (wellFormed : forest.WellFormed) (first : forest.Tagged tag number)
    (second : forest.Tagged other number) : tag = other := by
  obtain ⟨node, member, rfl, isTag⟩ := first
  exact tag_unique isTag (wellFormed.hasTag_of_tagged member second)

theorem WellFormed.not_plain (wellFormed : forest.WellFormed) (tagged : forest.Tagged tag number)
    (nested : tag ∈ [Tag.paragraph, Tag.row, Tag.table]) : ¬ forest.Plain number := by
  rintro ⟨node, member, rfl, plain⟩
  have isTag := wellFormed.hasTag_of_tagged member tagged
  simp only [isNested, Bool.or_eq_false_iff] at plain
  simp only [List.mem_cons, List.not_mem_nil, or_false] at nested
  rcases nested with rfl | rfl | rfl
  · rw [plain.1.1] at isTag; cases isTag
  · rw [plain.1.2] at isTag; cases isTag
  · rw [plain.2] at isTag; cases isTag

/-- The removal of a paragraph takes out the paragraph itself or some of its children. -/
theorem mem_struckBy {gone : List Nat} {paragraph : Nat} (member : number ∈ forest.struckBy gone paragraph) :
    number = paragraph ∨
      ∃ node ∈ forest.nodes, node.key = paragraph ∧ ∃ child ∈ node.children, child.key = number := by
  unfold struckBy at member
  split at member
  · rename_i parent node _ found
    split at member
    · obtain ⟨child, among, rfl⟩ := List.mem_map.mp member
      obtain ⟨inForest, same⟩ := mem_of_find? found
      exact .inr ⟨node, inForest, same, child, List.mem_of_mem_filter among, rfl⟩
    · exact .inl (List.mem_singleton.mp member)
  · cases member

theorem NoneNested.struckBy (none : forest.NoneNested) (wellFormed : forest.WellFormed) {gone : List Nat}
    {paragraph : Nat} (isParagraph : forest.Tagged Tag.paragraph paragraph)
    (member : number ∈ forest.struckBy gone paragraph) : number = paragraph ∨ forest.Plain number := by
  rcases mem_struckBy member with same | ⟨node, inForest, rfl, child, direct, rfl⟩
  · exact .inl same
  · exact .inr ⟨child, child_mem_allBelow inForest direct, rfl,
      none node inForest (wellFormed.hasTag_of_tagged inForest isParagraph) child direct⟩

end Plain

end Xml.Forest

/-- What a handler has collected is all there when its turn comes, whatever lies in what else. -/
theorem Collected.allThere {forest : Forest} {paragraphs rows tables : List Nat}
    (collected : Collected forest paragraphs rows tables) (wellFormed : forest.WellFormed) (none : forest.NoneNested)
    (located : ∀ target ∈ paragraphs ++ (rows ++ tables), (forest.parent? target).isSome = true) :
    Engine.AllThere forest paragraphs rows tables := by
  -- Emptying a paragraph takes out nodes of other kinds only.
  have first : forest.ThereInTurn forest.struckBy [] paragraphs := by
    refine there_inTurn paragraphs collected.uniqueParagraphs
      (fun target member => located target (List.mem_append_left _ member)) (fun _ _ => List.not_mem_nil) ?_
    intro target member later isLater other earlier struck
    rcases none.struckBy wellFormed (collected.areParagraphs target member) struck with same | plain
    · exact other same
    · exact wellFormed.not_plain (collected.areParagraphs later isLater) (by simp) plain
  have apart {tag : Tag} {number : Nat} (tagged : forest.Tagged tag number) (kind : tag ∈ [Tag.row, Tag.table]) :
      number ∉ takenInTurn forest.struckBy [] paragraphs := by
    intro isTaken
    rcases mem_takenInTurn paragraphs isTaken with impossible | ⟨paragraph, isParagraph, _, struck⟩
    · cases impossible
    · rcases none.struckBy wellFormed (collected.areParagraphs paragraph isParagraph) struck with rfl | plain
      · obtain rfl := wellFormed.tagged_unique (collected.areParagraphs number isParagraph) tagged
        exact absurd kind (by decide)
      · exact wellFormed.not_plain tagged (List.mem_cons_of_mem _ kind) plain
  refine ⟨first, there_inTurn (rows ++ tables) ?_ (fun target member => located target (List.mem_append_right _ member))
    (fun target member => ?_) fun target _ later _ other _ same => other (List.mem_singleton.mp same)⟩
  · refine List.nodup_append.mpr ⟨collected.uniqueRows, collected.uniqueTables, fun row isRow table isTable same => ?_⟩
    subst same
    exact absurd (wellFormed.tagged_unique (collected.areRows row isRow) (collected.areTables row isTable)) (by decide)
  · rcases List.mem_append.mp member with isRow | isTable
    · exact apart (collected.areRows target isRow) (by simp)
    · exact apart (collected.areTables target isTable) (by simp)

namespace Engine

section Conditions

variable {place : Nat} {machine : Machine World} {handler : Handler}

/-- However a handler of conditions has been called, if everything that it is to remove has a parent, it is removed
without a fault.  Then the forest is as it was without the recorded rows and tables and without the recorded
paragraphs, but one that was the only paragraph of its cell when its turn came keeps its properties and stays. -/
theorem commitHandler_conditions (asked : Asked place machine)
    (present : machine.outer.handlers[place]? = some handler) (wellFormed : machine.outer.forest.WellFormed)
    (none : machine.outer.forest.NoneNested)
    (located : ∀ target ∈ handler.duty.targets, (machine.outer.forest.parent? target).isSome = true)
    (settings : RepeatSettings) :
    ∃ paragraphs rows tables forest diagnostics, handler.duty = .display paragraphs rows tables ∧
      runOn (commitHandler settings handler) machine =
        (.ok (), { machine with outer := { machine.outer with forest, diagnostics } }) ∧
      ∀ number, forest.find? number = (machine.outer.forest.find? number).map
        (pruned (machine.outer.forest.struckOut paragraphs rows tables)) := by
  obtain ⟨other, paragraphs, rows, tables, alsoPresent, duty, collected⟩ := asked.collected
  obtain rfl := Option.some.inj (present.symm.trans alsoPresent)
  rw [duty] at located
  obtain ⟨forest, diagnostics, run, stripped⟩ :=
    commitDisplay_done wellFormed (collected.allThere wellFormed none located) handler
  refine ⟨paragraphs, rows, tables, forest, diagnostics, duty, ?_, stripped.find? wellFormed⟩
  unfold commitHandler
  rw [duty]
  exact run

end Conditions

/-! ### A cell with a table in it -/

/-- A table of one row. -/
def tableOf (cells : List (List Node)) : Node :=
  Node.ofTag Tag.table [Node.ofTag Tag.row (cells.map (Node.ofTag Tag.cell))]

/-- A table, a cell of which holds a table between two paragraphs. -/
def tabled : Machine World :=
  ⟨.empty, World.ofPackage ⟨Node.ofTag Tag.body [tableOf [[createParagraph ["a".toList]], [createParagraph ["b".toList],
    tableOf [[createParagraph ["c".toList]]], createParagraph ["d".toList]]]], [], [], none, false⟩
    [Handler.condition] []⟩

/-- A false condition for a paragraph. -/
def unmet (method : String) (paragraph : Nat) : Anchor × String × Arguments :=
  (⟨some paragraph, none, none⟩, method, ⟨[.bool false], []⟩)

/-- Conditions for both paragraphs of the cell, and for the paragraph, the row and the table in it. -/
def tabledCalls : List (Anchor × String × Arguments) :=
  [unmet "display_table_row_if" 15, unmet "display_paragraph_if" 18, unmet "display_table_if" 15,
    unmet "display_paragraph_if" 9, unmet "display_paragraph_if" 18, unmet "display_paragraph_if" 15]

/-- The table after the calls. -/
def tabledAsked : Machine World :=
  tabledCalls.foldl (calledAt 0) tabled

theorem tabledAsked_asked : Asked 0 tabledAsked := by
  have present : tabled.outer.handlers[0]? = some Handler.condition := rfl
  refine .calls tabledCalls (.nothing present rfl) ?_
  have called : ∀ call ∈ tabledCalls, call.1.paragraph.all fun paragraph =>
      tabled.outer.forest.nodes.any fun node => node.key == paragraph && node.hasTag Tag.paragraph := by
    decide +kernel
  intro call member paragraph isParagraph
  have isThere := called call member
  rw [isParagraph, Option.all_some, List.any_eq_true] at isThere
  obtain ⟨node, inForest, isNode⟩ := isThere
  rw [Bool.and_eq_true, beq_iff_eq] at isNode
  exact ⟨node, inForest, isNode⟩

theorem commitHandler_conditions_tabled :
    ∃ handler, Asked 0 tabledAsked ∧ tabledAsked.outer.handlers[0]? = some handler ∧
      handler.duty = .display [18, 9, 15] [13] [12] ∧
      tabledAsked.outer.forest.WellFormed ∧ tabledAsked.outer.forest.NoneNested ∧
      (∀ target ∈ handler.duty.targets, (tabledAsked.outer.forest.parent? target).isSome = true) ∧
      tabledAsked.outer.forest.struckOut [18, 9, 15] [13] [12] = [18, 10, 16, 13, 12] ∧
      ∃ forest diagnostics, runOn (commitHandler (.ofReplacer .standard) handler) tabledAsked =
          (.ok (), { tabledAsked with outer := { tabledAsked.outer with forest, diagnostics } }) ∧
        ∀ number, forest.find? number = (tabledAsked.outer.forest.find? number).map (pruned [18, 10, 16, 13, 12]) := by
  have present : tabledAsked.outer.handlers[0]? = some
      { Handler.condition with duty := .display [18, 9, 15] [13] [12], anchor := ⟨some 15, none, none⟩ } := rfl
  have wellFormed : tabledAsked.outer.forest.WellFormed := ⟨by decide +kernel, by decide +kernel⟩
  have none : tabledAsked.outer.forest.NoneNested := by unfold NoneNested; decide +kernel
  have located : ∀ target ∈ (Duty.display [18, 9, 15] [13] [12]).targets,
      (tabledAsked.outer.forest.parent? target).isSome = true := by
    decide +kernel
  have gone : tabledAsked.outer.forest.struckOut [18, 9, 15] [13] [12] = [18, 10, 16, 13, 12] := by decide +kernel
  refine ⟨_, tabledAsked_asked, present, rfl, wellFormed, none, located, gone, ?_⟩
  obtain ⟨paragraphs, rows, tables, forest, diagnostics, duty, run, found⟩ :=
    commitHandler_conditions tabledAsked_asked present wellFormed none located (.ofReplacer .standard)
  cases duty
  rw [gone] at found
  exact ⟨forest, diagnostics, run, found⟩

end Engine
end Imprint
