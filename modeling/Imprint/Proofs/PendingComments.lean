import Imprint.Proofs.ConsumedComments
/-! # Which comments stay pending

A paragraph looks up the comment around each of its runs, and one comment more: that of the first start
marker that does not wrap exactly one run.  Any other start marker in it is passed over.  In a run that
comes to an end without errors this is the only reason for which a comment stays pending. -/
set_option autoImplicit false
namespace Imprint
open Imprint.Action Xml Document Node

/-! ## Start markers -/

namespace Document

/-- A start marker among some siblings is passed over: neither it nor some start marker in front of it
wraps exactly one run. -/
def PassedOver (front : List Node) (marker : Node) (behind : List Node) : Prop :=
  startsAtRun marker behind = false ∧ ∃ before other between, front = before ++ other :: between ∧
    other.hasTag Tag.rangeStart = true ∧ startsAtRun other (between ++ marker :: behind) = false

variable {id : String} {node : Node} {nodes rest : List Node}

/-- The first run behind a start marker has its comment around it if it is all that the marker wraps. -/
theorem wrappedBy_startsAtRun {previous : Option Node} :
    isRun node = true ∧ wrappedBy previous rest.head? = some id ↔
      ∃ marker, previous = some marker ∧ isStartOf id marker = true ∧ startsAtRun marker (node :: rest) = true := by
  constructor
  · rintro ⟨isRun, wrapped⟩
    obtain ⟨marker, stop, rfl, -, isStart, -, -⟩ := wrappedBy_eq_some.mp wrapped
    have own : identifier? marker = some id := by
      simp only [isStartOf, Bool.and_eq_true, beq_iff_eq] at isStart
      exact isStart.2
    exact ⟨marker, rfl, isStart, by rw [startsAtRun, wrapped, own, beq_self_eq_true, Bool.and_true]; exact isRun⟩
  · rintro ⟨marker, rfl, isStart, starts⟩
    simp only [isStartOf, Bool.and_eq_true, beq_iff_eq] at isStart
    rw [startsAtRun, Bool.and_eq_true, beq_iff_eq, isStart.2] at starts
    exact starts

/-- What stands at a place among some nodes is the first one, or stands at a place among the others. -/
theorem exists_place_cons (holds : Node → List Node → Prop) :
    (∃ front marker behind, node :: rest = front ++ marker :: behind ∧ holds marker behind) ↔
      holds node rest ∨ ∃ front marker behind, rest = front ++ marker :: behind ∧ holds marker behind := by
  constructor
  · rintro ⟨front, marker, behind, split, here⟩
    cases front with
    | nil =>
      obtain ⟨rfl, rfl⟩ := List.cons.inj split
      exact .inl here
    | cons first front => exact .inr ⟨front, marker, behind, (List.cons.inj split).2, here⟩
  · rintro (here | ⟨front, marker, behind, rfl, here⟩)
    · exact ⟨[], node, rest, rfl, here⟩
    · exact ⟨node :: front, marker, behind, rfl, here⟩

/-- The comments around runs are those of the start markers that wrap exactly one run. -/
theorem mem_around : ∀ {nodes : List Node} {previous : Option Node}, some id ∈ around previous nodes ↔
    (∃ marker, previous = some marker ∧ isStartOf id marker = true ∧ startsAtRun marker nodes = true) ∨
      ∃ front marker behind, nodes = front ++ marker :: behind ∧ isStartOf id marker = true ∧
        startsAtRun marker behind = true
  | [], previous => by simp [around, startsAtRun]
  | node :: rest, previous => by
    have first : some id ∈ (if isRun node then [wrappedBy previous rest.head?] else []) ↔
        isRun node = true ∧ wrappedBy previous rest.head? = some id := by
      split
      · rename_i run
        rw [List.mem_singleton, eq_comm]
        exact ⟨fun same => ⟨run, same⟩, And.right⟩
      · rename_i other
        exact ⟨fun impossible => absurd impossible List.not_mem_nil, fun both => absurd both.1 other⟩
    rw [around, List.mem_append, first, wrappedBy_startsAtRun, mem_around,
      exists_place_cons fun marker behind => isStartOf id marker = true ∧ startsAtRun marker behind = true]
    refine or_congr_right (or_congr_left ⟨?_, fun here => ⟨node, rfl, here⟩⟩)
    rintro ⟨_, ⟨⟩, here⟩
    exact here

/-- The comment of a paragraph is that of its first start marker that does not wrap exactly one run. -/
theorem anchoredComment_eq_some {nodes : List Node} : anchoredComment nodes = some id ↔
    ∃ front marker behind, nodes = front ++ marker :: behind ∧ isStartOf id marker = true ∧
      startsAtRun marker behind = false ∧ ∀ before other between, front = before ++ other :: between →
        other.hasTag Tag.rangeStart = true → startsAtRun other (between ++ marker :: behind) = true := by
  induction nodes with
  | nil => simp [anchoredComment]
  | cons node rest hypothesis =>
    rw [anchoredComment]
    by_cases anchors : (node.hasTag Tag.rangeStart && !startsAtRun node rest) = true
    · rw [if_pos anchors]
      rw [Bool.and_eq_true, Bool.not_eq_true'] at anchors
      constructor
      · intro own
        refine ⟨[], node, rest, rfl, ?_, anchors.2, ?_⟩
        · rw [isStartOf, anchors.1, own, beq_self_eq_true, Bool.and_true]
        · intro before other between impossible
          cases before <;> cases impossible
      · rintro ⟨front, marker, behind, split, isStart, -, wraps⟩
        cases front with
        | nil =>
          obtain ⟨rfl, rfl⟩ := List.cons.inj split
          rw [isStartOf, Bool.and_eq_true, beq_iff_eq] at isStart
          exact isStart.2
        | cons first front =>
          obtain ⟨rfl, rfl⟩ := List.cons.inj split
          cases anchors.2.symm.trans (wraps [] node front rfl anchors.1)
    · rw [if_neg anchors, hypothesis]
      constructor
      · rintro ⟨front, marker, behind, rfl, isStart, notOne, wraps⟩
        refine ⟨node :: front, marker, behind, rfl, isStart, notOne, ?_⟩
        intro before other between split isMarker
        cases before with
        | nil =>
          obtain ⟨rfl, rfl⟩ := List.cons.inj split
          rw [isMarker, Bool.true_and, Bool.not_eq_true', Bool.not_eq_false] at anchors
          exact anchors
        | cons first before => exact wraps before other between (List.cons.inj split).2 isMarker
      · rintro ⟨front, marker, behind, split, isStart, notOne, wraps⟩
        cases front with
        | nil =>
          obtain ⟨rfl, rfl⟩ := List.cons.inj split
          rw [isStartOf, Bool.and_eq_true] at isStart
          exact absurd (by rw [isStart.1, notOne]; rfl) anchors
        | cons first front =>
          refine ⟨front, marker, behind, (List.cons.inj split).2, isStart, notOne, ?_⟩
          intro before other between isFront isMarker
          exact wraps (first :: before) other between (by rw [isFront]; rfl) isMarker

/-- A paragraph meets the comments of those start markers that are not passed over. -/
theorem mem_meetings {paragraph : Node} (unique : (paragraph.children.map key).Nodup) :
    some id ∈ meetings paragraph ↔ ∃ front marker behind, paragraph.children = front ++ marker :: behind ∧
      isStartOf id marker = true ∧ ¬ PassedOver front marker behind := by
  have runs : (runs paragraph).map (fun run => commentAround paragraph.children run.key) =
      around none paragraph.children :=
    commentsAround_eq unique paragraph.children [] rfl
  rw [meetings, runs, List.mem_append, mem_around, List.mem_singleton, eq_comm, commentOfParagraph,
    anchoredComment_eq_some]
  constructor
  · rintro ((⟨_, ⟨⟩, -⟩ | ⟨front, marker, behind, split, isStart, one⟩) |
      ⟨front, marker, behind, split, isStart, -, wraps⟩)
    · exact ⟨front, marker, behind, split, isStart, fun passed => by rw [passed.1] at one; cases one⟩
    · refine ⟨front, marker, behind, split, isStart, ?_⟩
      rintro ⟨-, before, other, between, isFront, isMarker, notOne⟩
      rw [wraps before other between isFront isMarker] at notOne
      cases notOne
  · rintro ⟨front, marker, behind, split, isStart, notPassed⟩
    cases one : startsAtRun marker behind with
    | true => exact .inl (.inr ⟨front, marker, behind, split, isStart, one⟩)
    | false =>
      refine .inr ⟨front, marker, behind, split, isStart, one, fun before other between isFront isMarker => ?_⟩
      by_contra notOne
      exact notPassed ⟨one, before, other, between, isFront, isMarker, Bool.eq_false_iff.mpr notOne⟩

end Document

namespace Document.CommentStore

theorem insert_ids (new : Comment) (comments : List Comment) :
    (insert new comments).map Comment.id = if new.id ∈ comments.map Comment.id then comments.map Comment.id
      else comments.map Comment.id ++ [new.id] := by
  induction comments with
  | nil => rfl
  | cons first rest hypothesis =>
    rw [insert]
    by_cases same : first.id = new.id
    · rw [if_pos same, List.map_cons, List.map_cons, same, if_pos List.mem_cons_self]
    · rw [if_neg same, List.map_cons, hypothesis, List.map_cons]
      by_cases later : new.id ∈ rest.map Comment.id
      · rw [if_pos later, if_pos (List.mem_cons_of_mem _ later)]
      · have absent : new.id ∉ first.id :: rest.map Comment.id := by
          rw [List.mem_cons, not_or]
          exact ⟨Ne.symm same, later⟩
        rw [if_neg later, if_neg absent, List.cons_append]

/-- No two comments are read with the same identifier. -/
theorem read_nodup (tree : Node) : ((read tree).map Comment.id).Nodup := by
  unfold read
  refine List.foldlRecOn (motive := fun found : List Comment => (found.map Comment.id).Nodup) _ _ List.nodup_nil
    fun found unique element _ => ?_
  split
  · rw [insert_ids]
    split
    · exact unique
    · rename_i absent
      rw [List.nodup_append]
      refine ⟨unique, List.nodup_singleton _, ?_⟩
      rintro id known _ last rfl
      exact absent (List.mem_singleton.mp last ▸ known)
  · exact unique

theorem remove_absent {store : CommentStore} {id : String} (absent : id ∉ store.pending.map Comment.id) :
    (store.remove id).pending = store.pending := by
  rw [remove, List.filter_eq_self]
  intro comment pending
  rw [bne_iff_ne]
  rintro rfl
  exact absent (List.mem_map_of_mem pending)

end Document.CommentStore

theorem Reads.pending_nodup {world : World} {store : CommentStore} {part : Option Node}
    (reads : Reads world store part) : (store.pending.map Comment.id).Nodup := by
  cases reads with
  | nothing => exact List.nodup_nil
  | tree => exact CommentStore.read_nodup _

/-! ## A run without errors -/

section Ledger

variable {store : CommentStore} {start world : World} {met : List (Option String)} {during : List Event}
  {comment : Comment}

/-- Without errors the comments that were met are the comments that are used up. -/
theorem Ledger.used_iff_met (ledger : Ledger store start met during world) (spotless : world.session.errors = [])
    (pending : comment ∈ store.pending) :
    comment.id ∈ (consumption during).map Comment.id ↔ some comment.id ∈ met := by
  constructor
  · intro used
    obtain ⟨other, isUsed, same⟩ := List.mem_map.mp used
    obtain ⟨event, member, consumed⟩ := List.mem_filterMap.mp (List.mem_reverse.mp isUsed)
    obtain ⟨anchor, expression, data, rfl, isComment⟩ := consumed_of_directive consumed
    have evaluated : 0 < during.countP (Event.isFor comment.id) :=
      List.countP_pos_iff.mpr ⟨_, member, by simp [Event.isFor, Event.comment?, isComment, same]⟩
    exact List.count_pos_iff.mp (Nat.lt_of_lt_of_le evaluated (ledger.counted comment.id))
  · intro isMet
    obtain ⟨event, member, isFor⟩ := List.any_eq_true.mp (ledger.heeded comment pending isMet)
    rw [Event.isFor, beq_iff_eq] at isFor
    obtain ⟨other, isOther, same⟩ := Option.map_eq_some_iff.mp isFor
    refine List.mem_map.mpr ⟨other, List.mem_reverse.mpr (List.mem_filterMap.mpr ⟨event, member, ?_⟩), same⟩
    have succeeds := ledger.recorded spotless event member
    cases event with
    | directive anchor expression data succeeded =>
      rw [Event.isFailure, Bool.not_eq_false'] at succeeds
      rw [succeeds]
      exact isOther
    | _ => cases isOther

/-- A comment that is used up was evaluated successfully. -/
theorem Ledger.evaluated_of_used (ledger : Ledger store start met during world)
    (unique : (store.pending.map Comment.id).Nodup) (pending : comment ∈ store.pending)
    (used : comment.id ∈ (consumption during).map Comment.id) :
    ∃ anchor data, anchor.comment = some comment ∧ .directive anchor comment.text data true ∈ during := by
  obtain ⟨other, isUsed, same⟩ := List.mem_map.mp used
  obtain ⟨event, member, consumed⟩ := List.mem_filterMap.mp (List.mem_reverse.mp isUsed)
  obtain ⟨anchor, expression, data, rfl, isComment⟩ := consumed_of_directive consumed
  obtain ⟨inStore, rfl⟩ := ledger.texts anchor expression data true other member isComment
  obtain rfl := List.inj_on_of_nodup_map unique inStore pending same
  exact ⟨anchor, data, isComment, member⟩

end Ledger

/-- Certain comments are pending in a session, and it holds no fewer than certain errors. -/
structure Session.Holds (pending : List Comment) (errors : List (String × String)) (session : Session) : Prop where
  pending : ∃ store, session.comments = some store ∧ store.pending = pending
  errors : errors <+: session.errors

namespace Engine

variable {store : CommentStore} {part : Option Node} {dispatcher : Dispatcher} {builder : ProxyBuilder}
  {machine final : Machine World} {pending : List Comment} {errors : List (String × String)}

theorem holds_frame : CommitFrame 0 (fun _ => True) (fun _ => True) fun machine =>
    machine.outer.session.Holds pending errors where
  free _ _ holds := holds
  called index := by
    have proof : StepProof index fun machine : Machine World => machine.outer.session.Holds pending errors :=
      ⟨fun _ _ holds => holds, fun machine after holds step => by cases step <;> exact holds⟩
    exact proof.callDirective_keeps fun _ _ holds => holds
  reports _ _ holds reports := ⟨reports.comments ▸ holds.pending, holds.errors.trans reports.errors⟩
  fresh _ _ := Nat.zero_le _
  asked _ _ _ _ := ⟨fun _ => trivial, fun _ _ => trivial⟩
  planted _ _ holds := holds
  edits _ _ _ _ _ holds _ _ := holds
  moved _ _ _ _ _ holds := holds
  detached _ _ _ holds := holds
  emptied _ _ _ holds := holds
  raised _ _ _ holds := holds
  marked _ _ holds := ⟨holds.pending, holds.errors⟩
  thrownAway verbose body _ machine holds := by
    have same := inThrowawaySession_restores verbose body machine
    show Session.Holds pending errors (runOn (inThrowawaySession verbose body) machine).2.outer.session
    rw [same]
    exact holds
  valued _ _ _ _ holds := holds
  repeated _ _ _ _ _ _ _ _ _ holds := holds
  told _ _ holds := holds

theorem deleteComment_holds {comment : Comment} (absent : comment.id ∉ pending.map Comment.id) :
    Keeps (fun machine => machine.outer.session.Holds pending errors) (deleteComment comment) := by
  intro machine holds
  obtain ⟨store, held, rfl⟩ := holds.pending
  unfold deleteComment
  rw [runOn_bind, runOn_note]
  dsimp only
  rw [runOn_bind, runOn_world]
  dsimp only
  rw [World.noting_session, held]
  refine ⟨⟨_, rfl, ?_⟩, holds.errors⟩
  rw [CommentStore.delete]
  split
  · exact CommentStore.remove_absent absent
  · split <;> exact CommentStore.remove_absent absent

theorem saveComments_holds : Keeps (fun machine => machine.outer.session.Holds pending errors) saveComments := by
  intro machine holds
  obtain ⟨store, held, rfl⟩ := holds.pending
  unfold saveComments
  rw [runOn_bind, runOn_world]
  dsimp only
  rw [held]
  refine ⟨⟨_, rfl, ?_⟩, holds.errors⟩
  rw [CommentStore.save]
  split
  · rfl
  · split
    · split <;> rfl
    · rfl

/-- The end of a run makes no comment pending or not pending any more. -/
theorem carryOut_holds (held : machine.outer.session.comments = some store)
    (absent : ∀ comment ∈ machine.outer.session.consumed, comment.id ∉ store.pending.map Comment.id) :
    (runOn (carryOut dispatcher) machine).2.outer.session.Holds store.pending machine.outer.session.errors := by
  obtain ⟨-, consumed⟩ := commitHandlers_kept dispatcher machine
  have commits : Keeps (fun after => after.outer.session.Holds store.pending machine.outer.session.errors)
      (commitHandlers dispatcher) :=
    Keeps.bind (fun _ holds => holds) fun world => .forM fun place _ =>
      holds_frame.commitAt_keeps dispatcher (fun _ _ holds => holds) place
  have committed := commits machine ⟨⟨store, held, rfl⟩, List.prefix_rfl⟩
  unfold carryOut
  rw [runOn_bind]
  cases reached : runOn (commitHandlers dispatcher) machine with
  | mk outcome middle =>
    rw [reached] at committed consumed
    cases outcome with
    | error fault => exact committed
    | ok value =>
      have rest : Keeps (fun after => after.outer.session.Holds store.pending machine.outer.session.errors)
          (middle.outer.session.consumed.forM deleteComment >>= fun _ => saveComments) :=
        Keeps.bind (.forM fun comment member => deleteComment_holds (absent comment (consumed ▸ member)))
          fun _ => saveComments_holds
      exact rest middle committed

/-- If a run comes to an end without errors, the comments stay pending that no paragraph meets. -/
theorem evaluate_pending (ready : Ready store part machine.outer)
    (accepted : runOn (evaluateDirectives dispatcher builder >>= fun _ => carryOut dispatcher) machine =
      (.ok (), final)) (spotless : final.outer.session.errors = []) :
    ∃ last, final.outer.session.comments = some last ∧
      (∀ comment, comment ∈ last.pending ↔ comment ∈ store.pending ∧ some comment.id ∉ machine.outer.met) ∧
      ∀ comment ∈ store.pending, comment ∉ last.pending → ∃ anchor data,
        anchor.comment = some comment ∧ .directive anchor comment.text data true ∈ final.outer.events := by
  obtain ⟨_, walked, walks, accepted⟩ := bind_ok accepted
  obtain ⟨during, ledger, -⟩ := evaluateDirectives_ledger ready.opened ready.held walks
  have holds : (runOn (carryOut dispatcher) walked).2.outer.session.Holds
      (store.without (consumption during)).pending walked.outer.session.errors := by
    refine carryOut_holds ledger.comments fun comment used stays => ?_
    rw [ledger.consumed, ready.unused, List.nil_append] at used
    obtain ⟨other, isPending, same⟩ := List.mem_map.mp stays
    exact (CommentStore.mem_without.mp isPending).2 (List.mem_map.mpr ⟨comment, used, same.symm⟩)
  obtain ⟨later, events, -⟩ := carryOut_events accepted
  rw [accepted] at holds
  obtain ⟨last, held, stays⟩ := holds.pending
  have walkedSpotless : walked.outer.session.errors = [] := List.prefix_nil.mp (spotless ▸ holds.errors)
  refine ⟨last, held, fun comment => ?_, fun comment pending gone => ?_⟩
  · rw [stays, CommentStore.mem_without]
    exact and_congr_right fun pending => not_congr (ledger.used_iff_met walkedSpotless pending)
  · have used : comment.id ∈ (consumption during).map Comment.id := by
      by_contra unused
      exact gone (stays ▸ CommentStore.mem_without.mpr ⟨pending, unused⟩)
    obtain ⟨anchor, data, isComment, member⟩ :=
      ledger.evaluated_of_used ready.reads.pending_nodup pending used
    exact ⟨anchor, data, isComment, by
      rw [events, ledger.events]
      exact List.mem_append_right _ (List.mem_append_left _ member)⟩

/-- If a run comes to an end without errors, a comment stays pending exactly if every start marker that it
has in a paragraph is passed over; all others have been evaluated successfully. -/
theorem runDirectives_heeds (package : Package) (registrations : List Handler)
    (standard : ∀ handler ∈ registrations, handler ∈ Handler.standard) (additional : Expression.Scope)
    (verbose preloaded : Bool) (store : Store) {machine : Machine World}
    (prepared : runOn (if preloaded then loadComments else pure ()) ⟨store, { World.ofPackage package
      (registered registrations) additional with session := .start verbose }⟩ = (.ok (), machine))
    (dispatcher : Dispatcher) (builder : ProxyBuilder)
    (accepted : (runOn (runDirectives dispatcher builder) machine).1 = .ok ())
    (spotless : (runOn (runDirectives dispatcher builder) machine).2.outer.session.errors = []) :
    ∃ loaded comments part last, runOn loadComments machine = (.ok (), { machine with outer := loaded }) ∧
      loaded.session.comments = some comments ∧ Reads loaded comments part ∧
      part.map copied = package.comments.map copied ∧
      (runOn (runDirectives dispatcher builder) machine).2.outer.session.comments = some last ∧
      (∀ comment, comment ∈ last.pending ↔ comment ∈ comments.pending ∧
        ∀ paragraph ∈ allBelow (sections loaded.forest loaded.template.roots),
          paragraph.hasTag Tag.paragraph = true → ∀ front marker behind,
            paragraph.children = front ++ marker :: behind → isStartOf comment.id marker = true →
              PassedOver front marker behind) ∧
      ∀ comment ∈ comments.pending, comment ∉ last.pending → ∃ anchor data, anchor.comment = some comment ∧
        .directive anchor comment.text data true ∈
          (runOn (runDirectives dispatcher builder) machine).2.outer.events := by
  obtain ⟨read, comments, part, loads, ready, fromPackage⟩ :=
    prepared_ready package registrations standard additional verbose preloaded store prepared
  rw [runDirectives_goesOn loads] at accepted spotless ⊢
  obtain ⟨last, held, pending, evaluated⟩ := evaluate_pending ready.joined (Prod.ext accepted rfl) spotless
  refine ⟨read, comments, part, last, loads, ready.held, ready.reads, fromPackage, held, fun comment => ?_,
    evaluated⟩
  rw [pending comment]
  refine and_congr_right fun _ => ?_
  simp only [World.met, World.joined, List.mem_flatMap, List.mem_filter, not_exists, not_and, and_imp]
  refine forall_congr' fun paragraph => forall_congr' fun inSection => forall_congr' fun _ => ?_
  have unique := children_nodup ready.opened.wellFormed.unique (sections_subset _ _ inSection)
  rw [mem_meetings unique]
  simp only [not_exists, not_and, not_not]

theorem runDirectives_heeds_commented :
    (runOn (runDirectives plain (.ofRoot .null)) (unprocessed (commented []))).1 = .ok () ∧
      (runOn (runDirectives plain (.ofRoot .null)) (unprocessed (commented []))).2.outer.session.errors = [] ∧
      ∃ last, (runOn (runDirectives plain (.ofRoot .null))
        (unprocessed (commented []))).2.outer.session.comments = some last ∧ last.pending = [] := by
  have returns : (runOn (runDirectives plain (.ofRoot .null)) (unprocessed (commented []))).1 = .ok () := by
    decide +kernel
  have spotless : (runOn (runDirectives plain (.ofRoot .null))
      (unprocessed (commented []))).2.outer.session.errors = [] := by
    decide +kernel
  have prepared : runOn (if false then loadComments else pure ()) ⟨⟨#[], 0⟩, { World.ofPackage (commented [])
      (registered Handler.standard) [] with session := .start false }⟩ =
        (.ok (), unprocessed (commented [])) := rfl
  obtain ⟨loaded, comments, part, last, -, -, -, -, held, -⟩ := runDirectives_heeds (commented [])
    Handler.standard (fun _ member => member) [] false false ⟨#[], 0⟩ prepared plain (.ofRoot .null) returns spotless
  have nothing : ∀ last ∈ (runOn (runDirectives plain (.ofRoot .null))
      (unprocessed (commented []))).2.outer.session.comments, last.pending = [] := by
    decide +kernel
  exact ⟨returns, spotless, last, held, nothing last held⟩

/-- An element that tells the number of the comment it belongs to. -/
def ofNumbered (id : String) (tag : Tag) (children : List Node) : Node :=
  .mk 0 (.element tag [(Tag.identifier, id)]) "" children ""

/-- A paragraph with two comments around its two runs. -/
def twiceCommented : Package :=
  ⟨Node.ofTag Tag.body [Node.ofTag Tag.paragraph [ofNumbered "0" Tag.rangeStart [], ofNumbered "1" Tag.rangeStart [],
      createRun "a".toList none, createRun "b".toList none, ofNumbered "0" Tag.rangeEnd [],
      ofNumbered "1" Tag.rangeEnd [], Node.ofTag Tag.run [ofNumbered "0" Tag.reference []],
      Node.ofTag Tag.run [ofNumbered "1" Tag.reference []]]], [], [],
    some (Node.ofTag Tag.comments [
      ofNumbered "0" Tag.comment [createParagraph ["display_paragraph_if(true)".toList]],
      ofNumbered "1" Tag.comment [createParagraph ["display_paragraph_if(true)".toList]]]),
    false⟩

/-- Of two comments around the same runs the second one stays pending, without an error. -/
theorem runDirectives_leaves_second :
    let start := (unprocessed twiceCommented).outer
    let run := runOn (runDirectives plain (.ofRoot .null)) (unprocessed twiceCommented)
    run.1 = .ok () ∧ run.2.outer.session.errors = [] ∧
      ∃ comment ∈ (CommentStore.load start.forest start.template).1.pending,
        (∃ paragraph ∈ allBelow (sections start.forest start.template.roots),
          paragraph.hasTag Tag.paragraph = true ∧ ∃ marker ∈ paragraph.children,
            isStartOf comment.id marker = true) ∧
        ∃ last ∈ run.2.outer.session.comments, comment ∈ last.pending := by
  decide +kernel

end Engine

end Imprint
