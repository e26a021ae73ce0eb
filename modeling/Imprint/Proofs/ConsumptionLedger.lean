import Imprint.Proofs.DirectiveEffects
/-! # The comments that a walk uses up

A ledger is kept along a walk.  Whatever was evaluated for a comment is the text of a comment that was
still pending, a comment is used up as soon as this succeeds, and every evaluation has been met: it
belongs to a run or a paragraph that was visited. -/
set_option autoImplicit false
namespace Imprint
open Imprint.Action Xml Document Node

/-- The comment whose directive an event is the evaluation of. -/
def Event.comment? : Event → Option Comment
  | .directive anchor _ _ _ => anchor.comment
  | _ => none

/-- Whether an event is the evaluation of a directive that did not succeed. -/
def Event.isFailure : Event → Bool
  | .directive _ _ _ succeeded => !succeeded
  | _ => false

/-- Whether an event is the evaluation of the directive of a comment with an identifier. -/
def Event.isFor (id : String) (event : Event) : Bool :=
  event.comment?.map Comment.id == some id

/-- The comment whose directive was evaluated successfully. -/
def Event.consumed? : Event → Option Comment
  | .directive anchor _ _ true => anchor.comment
  | _ => none

/-- The comments that some events have used up, first one first. -/
def consumption (events : List Event) : List Comment :=
  (events.filterMap Event.consumed?).reverse

theorem consumption_cons (event : Event) (events : List Event) :
    consumption (event :: events) = consumption events ++ event.consumed?.toList := by
  cases used : event.consumed? with
  | none => simp [consumption, used]
  | some comment => simp [consumption, used]

theorem consumption_append (later earlier : List Event) :
    consumption (later ++ earlier) = consumption earlier ++ consumption later := by
  simp [consumption, List.filterMap_append]

theorem consumed_of_directive {event : Event} {comment : Comment} (used : event.consumed? = some comment) :
    ∃ anchor expression data, event = .directive anchor expression data true ∧
      anchor.comment = some comment := by
  cases event with
  | directive anchor expression data succeeded =>
    cases succeeded with
    | true => exact ⟨anchor, expression, data, rfl, used⟩
    | false => cases used
  | _ => cases used

/-- A store without the comments that were used up. -/
def Document.CommentStore.without (store : CommentStore) (consumed : List Comment) : CommentStore :=
  consumed.foldl (fun store comment => store.remove comment.id) store

namespace Document.CommentStore

variable {store : CommentStore} {consumed : List Comment}

theorem without_concat (store : CommentStore) (consumed : List Comment) (comment : Comment) :
    store.without (consumed ++ [comment]) = (store.without consumed).remove comment.id := by
  simp [without]

@[simp] theorem without_root (store : CommentStore) (consumed : List Comment) :
    (store.without consumed).root = store.root := by
  induction consumed generalizing store with
  | nil => rfl
  | cons comment rest hypothesis => exact hypothesis (store.remove comment.id)

@[simp] theorem without_dirty (store : CommentStore) (consumed : List Comment) :
    (store.without consumed).dirty = store.dirty := by
  induction consumed generalizing store with
  | nil => rfl
  | cons comment rest hypothesis => exact hypothesis (store.remove comment.id)

theorem mem_without {comment : Comment} : comment ∈ (store.without consumed).pending ↔
    comment ∈ store.pending ∧ comment.id ∉ consumed.map Comment.id := by
  induction consumed generalizing store with
  | nil => simp [without]
  | cons first rest hypothesis =>
    show comment ∈ ((store.remove first.id).without rest).pending ↔ _
    rw [hypothesis, remove, List.mem_filter, List.map_cons, List.mem_cons, not_or, bne_iff_ne, and_assoc]

theorem lookup_found {id : String} {comment : Comment} (found : store.lookup id = some comment) :
    comment ∈ store.pending ∧ comment.id = id :=
  ⟨List.mem_of_find?_eq_some found, by simpa using List.find?_some found⟩

end Document.CommentStore

/-- A comment of the store that is not pending any more has been evaluated. -/
theorem heeded_missing {store : CommentStore} {during : List Event} {id : Option String}
    (missing : id.bind (store.without (consumption during)).lookup = none) :
    ∀ comment ∈ store.pending, some comment.id ∈ [id] → during.any (Event.isFor comment.id) = true := by
  intro comment pending isMet
  obtain rfl := List.mem_singleton.mp isMet
  have gone : comment ∉ (store.without (consumption during)).pending := fun stays => by
    have differs := List.find?_eq_none.mp missing comment stays
    simp at differs
  have used : comment.id ∈ (consumption during).map Comment.id := by
    by_contra unused
    exact gone (CommentStore.mem_without.mpr ⟨pending, unused⟩)
  obtain ⟨other, isUsed, same⟩ := List.mem_map.mp used
  obtain ⟨event, member, consumed⟩ := List.mem_filterMap.mp (List.mem_reverse.mp isUsed)
  obtain ⟨anchor, expression, data, rfl, isComment⟩ := consumed_of_directive consumed
  rw [List.any_eq_true]
  exact ⟨_, member, by simp [Event.isFor, Event.comment?, isComment, same]⟩

/-- What has happened to the comments of a store since some world by some events, when certain comments
have been met: every directive that was evaluated for a comment was that of a comment of the store, the
comments for which this succeeded are used up and all others are pending, no comment has been evaluated
more often than it was met, and every comment of the store that was met has been evaluated.  As long as
there are no errors, all evaluations succeeded. -/
structure Ledger (store : CommentStore) (start : World) (met : List (Option String)) (during : List Event)
    (world : World) : Prop where
  events : world.events = during ++ start.events
  template : world.template = start.template
  consumed : world.session.consumed = start.session.consumed ++ consumption during
  comments : world.session.comments = some (store.without (consumption during))
  texts : ∀ anchor expression data succeeded comment, .directive anchor expression data succeeded ∈ during →
    anchor.comment = some comment → comment ∈ store.pending ∧ expression = comment.text
  unique : ((consumption during).map Comment.id).Nodup
  counted : ∀ id, during.countP (Event.isFor id) ≤ met.count (some id)
  heeded : ∀ comment ∈ store.pending, some comment.id ∈ met → during.any (Event.isFor comment.id) = true
  recorded : world.session.errors = [] → ∀ event ∈ during, event.isFailure = false

namespace Ledger

variable {store : CommentStore} {start world after : World} {met : List (Option String)} {during : List Event}

theorem refl (held : start.session.comments = some store) : Ledger store start [] [] start where
  events := rfl
  template := rfl
  consumed := (List.append_nil _).symm
  comments := held
  texts _ _ _ _ _ member := absurd member List.not_mem_nil
  unique := List.nodup_nil
  counted _ := Nat.le_refl _
  heeded _ _ impossible := absurd impossible List.not_mem_nil
  recorded _ _ impossible := absurd impossible List.not_mem_nil

/-- Meeting comments that have been evaluated already. -/
theorem meet (ledger : Ledger store start met during world) {more : List (Option String)}
    (heeded : ∀ comment ∈ store.pending, some comment.id ∈ more → during.any (Event.isFor comment.id) = true) :
    Ledger store start (met ++ more) during world where
  events := ledger.events
  template := ledger.template
  consumed := ledger.consumed
  comments := ledger.comments
  texts := ledger.texts
  unique := ledger.unique
  counted id := Nat.le_trans (ledger.counted id) (by rw [List.count_append]; exact Nat.le_add_right _ _)
  heeded comment pending isMet :=
    (List.mem_append.mp isMet).elim (ledger.heeded comment pending) (heeded comment pending)
  recorded := ledger.recorded

/-- Comments that are used up were pending. -/
theorem consumption_pending (ledger : Ledger store start met during world) :
    ∀ comment ∈ consumption during, comment ∈ store.pending := by
  intro comment member
  obtain ⟨event, inDuring, used⟩ := List.mem_filterMap.mp (List.mem_reverse.mp member)
  obtain ⟨anchor, expression, data, rfl, isComment⟩ := consumed_of_directive used
  exact (ledger.texts anchor expression data true comment inDuring isComment).1

end Ledger

/-! ## One evaluation -/

section Evaluated

variable {store : CommentStore} {start world after : World} {met : List (Option String)}
  {during calls : List Event} {anchor : Anchor} {expression : String} {data : Store} {succeeded : Bool}

theorem consumption_calls (calling : ∀ event ∈ calls, event.isDirective = false) (event : Event) :
    consumption (event :: calls ++ during) = consumption during ++ event.consumed?.toList := by
  have none : consumption calls = [] := by
    rw [consumption, List.reverse_eq_nil_iff, List.filterMap_eq_nil_iff]
    intro call member
    have passes := calling call member
    cases call with
    | directive => cases passes
    | _ => rfl
  rw [List.cons_append, consumption_cons, consumption_append, none, List.append_nil]

namespace Ledger

theorem texts_calls (ledger : Ledger store start met during world)
    (calling : ∀ event ∈ calls, event.isDirective = false)
    (known : ∀ comment, anchor.comment = some comment → comment ∈ store.pending ∧ expression = comment.text) :
    ∀ other text values outcome comment, .directive other text values outcome ∈
        (.directive anchor expression data succeeded :: calls) ++ during →
      other.comment = some comment → comment ∈ store.pending ∧ text = comment.text := by
  intro other text values outcome comment member isComment
  rw [List.cons_append, List.mem_cons, List.mem_append] at member
  rcases member with same | member | member
  · cases same
    exact known comment isComment
  · cases calling _ member
  · exact ledger.texts other text values outcome comment member isComment

theorem counted_calls (ledger : Ledger store start met during world)
    (calling : ∀ event ∈ calls, event.isDirective = false) (event : Event) (id : String) :
    (event :: calls ++ during).countP (Event.isFor id) ≤
      (met ++ event.comment?.toList.map fun comment => some comment.id).count (some id) := by
  have none : calls.countP (Event.isFor id) = 0 := by
    rw [List.countP_eq_zero]
    intro call member
    have passes := calling call member
    cases call with
    | directive => cases passes
    | _ => simp [Event.isFor, Event.comment?]
  have before := ledger.counted id
  rw [List.cons_append, List.countP_cons, List.countP_append, none, List.count_append]
  cases isComment : event.comment? with
  | none => simpa [Event.isFor, isComment] using before
  | some comment =>
    by_cases same : comment.id = id
    · simpa [Event.isFor, isComment, same] using before
    · simpa [Event.isFor, isComment, same] using before

theorem heeded_calls (ledger : Ledger store start met during world) (event : Event) :
    ∀ comment ∈ store.pending,
      some comment.id ∈ met ++ event.comment?.toList.map (fun comment => some comment.id) →
      (event :: calls ++ during).any (Event.isFor comment.id) = true := by
  intro comment pending isMet
  rw [List.cons_append, List.any_cons, List.any_append, Bool.or_eq_true, Bool.or_eq_true]
  rcases List.mem_append.mp isMet with before | here
  · exact .inr (.inr (ledger.heeded comment pending before))
  · left
    obtain ⟨other, isOther, same⟩ := List.mem_map.mp here
    rw [Event.isFor, Option.mem_toList.mp isOther, Option.map_some, same, beq_self_eq_true]

theorem recorded_calls (ledger : Ledger store start met during world)
    (grown : world.session.errors <+: after.session.errors)
    (calling : ∀ event ∈ calls, event.isDirective = false)
    (recorded : after.session.errors = [] → succeeded = true) (spotless : after.session.errors = []) :
    ∀ event ∈ .directive anchor expression data succeeded :: calls ++ during, event.isFailure = false := by
  intro event member
  rw [List.cons_append, List.mem_cons, List.mem_append] at member
  rcases member with rfl | member | member
  · rw [Event.isFailure, recorded spotless, Bool.not_true]
  · have passes := calling event member
    cases event with
    | directive => cases passes
    | _ => rfl
  · exact ledger.recorded (List.prefix_nil.mp (spotless ▸ grown)) event member

/-- An evaluation that uses up no comment. -/
theorem missed (ledger : Ledger store start met during world)
    (traces : Traces anchor world (.directive anchor expression data succeeded :: calls) after)
    (calling : ∀ event ∈ calls, event.isDirective = false)
    (known : ∀ comment, anchor.comment = some comment → comment ∈ store.pending ∧ expression = comment.text)
    (unused : succeeded = true → anchor.comment = none)
    (recorded : after.session.errors = [] → succeeded = true) :
    Ledger store start (met ++ anchor.comment.toList.map fun comment => some comment.id)
      ((.directive anchor expression data succeeded :: calls) ++ during) after := by
  have same : consumption ((.directive anchor expression data succeeded :: calls) ++ during) =
      consumption during := by
    rw [consumption_calls calling]
    cases succeeded with
    | false => exact List.append_nil _
    | true =>
      rw [Event.consumed?, unused rfl]
      exact List.append_nil _
  exact {
    events := by rw [traces.events, ledger.events, List.append_assoc]
    template := traces.template.trans ledger.template
    consumed := by rw [traces.consumed, ledger.consumed, same]
    comments := by rw [traces.comments, ledger.comments, same]
    texts := ledger.texts_calls calling known
    unique := same ▸ ledger.unique
    counted := ledger.counted_calls calling _
    heeded := ledger.heeded_calls (.directive anchor expression data succeeded)
    recorded := ledger.recorded_calls traces.errors calling recorded }

/-- An evaluation that uses up a comment. -/
theorem used (ledger : Ledger store start met during world) {comment : Comment}
    (traces : Traces anchor world (.directive anchor expression data true :: calls) after)
    (calling : ∀ event ∈ calls, event.isDirective = false) (isComment : anchor.comment = some comment)
    (pending : comment ∈ (store.without (consumption during)).pending) (text : expression = comment.text) :
    Ledger store start (met ++ [some comment.id])
      ((.directive anchor expression data true :: calls) ++ during)
      { after with session := { after.session with
        comments := after.session.comments.map (·.remove comment.id)
        consumed := after.session.consumed ++ [comment] } } := by
  obtain ⟨inStore, fresh⟩ := CommentStore.mem_without.mp pending
  have more : consumption ((.directive anchor expression data true :: calls) ++ during) =
      consumption during ++ [comment] := by
    rw [consumption_calls calling, Event.consumed?, isComment]
    rfl
  exact {
    events := by
      show after.events = _
      rw [traces.events, ledger.events, List.append_assoc]
    template := traces.template.trans ledger.template
    consumed := by
      show after.session.consumed ++ [comment] = _
      rw [traces.consumed, ledger.consumed, more, List.append_assoc]
    comments := by
      show after.session.comments.map _ = _
      rw [traces.comments, ledger.comments, more, CommentStore.without_concat]
      rfl
    texts := ledger.texts_calls calling fun other isOther => by
      obtain rfl := Option.some.inj (isComment.symm.trans isOther)
      exact ⟨inStore, text⟩
    unique := by
      rw [more, List.map_append, List.nodup_append]
      refine ⟨ledger.unique, List.nodup_singleton _, ?_⟩
      rintro id used _ last rfl
      exact fresh (List.mem_singleton.mp last ▸ used)
    counted := fun id => by
      have counted := ledger.counted_calls calling (.directive anchor expression data true) id
      rwa [Event.comment?, isComment] at counted
    heeded := fun other isPending isMet => by
      refine ledger.heeded_calls (.directive anchor expression data true) other isPending ?_
      rwa [Event.comment?, isComment]
    recorded := ledger.recorded_calls traces.errors calling fun _ => rfl }

end Ledger

end Evaluated

/-- The comments that the paragraphs of the sections meet. -/
def World.met (world : World) : List (Option String) :=
  ((allBelow (sections world.forest world.template.roots)).filter (Node.hasTag Tag.paragraph)).flatMap meetings

namespace Engine

/-- Calls are no evaluations of directives. -/
theorem calling_frame (start : List Event) :
    Frame fun machine => Since (fun event => !event.isDirective) start machine.outer.events where
  free _ _ since := since
  called index := by
    have proof : StepProof index fun machine =>
        Since (fun event => !event.isDirective) start machine.outer.events :=
      ⟨fun _ _ since => since, fun machine after since step => by cases step <;> exact since⟩
    exact proof.callDirective_keeps fun method machine since => since.trans (.noted rfl _)
  reports _ _ since reports := reports.events ▸ since

/-- An evaluation that comes to an end leaves its traces, and is the only one among its events. -/
theorem evaluateDirective_ok {dispatcher : Dispatcher} {builder : ProxyBuilder} {expression : String}
    {anchor : Anchor} {machine final : Machine World} {succeeded : Bool}
    (run : runOn (evaluateDirective dispatcher builder expression anchor) machine = (.ok succeeded, final)) :
    ∃ data calls, Traces anchor machine.outer (.directive anchor expression data succeeded :: calls) final.outer ∧
      (∀ event ∈ calls, event.isDirective = false) ∧ (final.outer.session.errors = [] → succeeded = true) := by
  obtain ⟨middle, data, ⟨⟨during, traces⟩, calls, since, calling⟩, reports, recorded⟩ :=
    evaluateDirective_outcome (traces_frame.both (calling_frame machine.outer.events))
      ⟨⟨[], .bound machine.outer anchor⟩, .refl _⟩ run
  obtain rfl : during = calls := List.append_cancel_right (traces.events.symm.trans since)
  exact ⟨data, during, (traces.noted rfl).reported reports,
    fun event member => by simpa using calling event member, recorded⟩

/-! ## A visit -/

variable {dispatcher : Dispatcher} {builder : ProxyBuilder} {store : CommentStore} {start : World}
  {met : List (Option String)} {during : List Event} {machine final : Machine World}

theorem runOn_pendingComment_held (held : machine.outer.session.comments = some store) (id : Option String) :
    runOn (pendingComment id) machine = (.ok (id.bind store.lookup), machine) := by
  unfold pendingComment
  rw [runOn_bind, runOn_world]
  dsimp only
  rw [held]
  cases id with
  | none => rfl
  | some id => rfl

/-- Looking up a comment meets it. -/
theorem runComment_ledger (ledger : Ledger store start met during machine.outer)
    (wellFormed : machine.outer.forest.WellFormed) {paragraph : Nat} {run : Option Nat} {id : Option String}
    (accepted : runOn (runComment dispatcher builder paragraph run id) machine = (.ok (), final)) :
    (∃ during, Ledger store start (met ++ [id]) during final.outer) ∧
      Forest.Edited (fun number => machine.outer.forest.fresh ≤ number ∨ run = some number)
        machine.outer.forest final.outer.forest := by
  obtain ⟨found, middle, looks, accepted⟩ := bind_ok accepted
  rw [runOn_pendingComment_held ledger.comments] at looks
  cases looks
  cases isFound : id.bind (store.without (consumption during)).lookup with
  | none =>
    rw [isFound] at accepted
    cases accepted
    exact ⟨⟨during, ledger.meet (heeded_missing isFound)⟩, .refl wellFormed⟩
  | some comment =>
    obtain ⟨known, rfl, looked⟩ := Option.bind_eq_some_iff.mp isFound
    obtain ⟨pending, rfl⟩ := CommentStore.lookup_found looked
    rw [isFound] at accepted
    obtain ⟨succeeded, after, evaluates, accepted⟩ := bind_ok accepted
    obtain ⟨data, calls, traces, calling, recorded⟩ := evaluateDirective_ok evaluates
    have edited := traces.forest_edited wellFormed
    cases succeeded with
    | true =>
      cases accepted
      exact ⟨⟨_, ledger.used traces calling rfl pending rfl⟩, edited⟩
    | false =>
      cases accepted
      refine ⟨⟨_, ledger.missed traces calling (fun other isOther => ?_) (fun impossible => ?_) recorded⟩, edited⟩
      · cases isOther
        exact ⟨(CommentStore.mem_without.mp pending).1, rfl⟩
      · cases impossible

section Outline

variable {touched : Nat → Prop} {before after : Forest} {paragraph : Node}

/-- Which comment is around a run is not changed by edits below the paragraph's children. -/
theorem commentAroundRun_edited (edited : Forest.Edited touched before after) (member : paragraph ∈ before.nodes)
    (free : ¬ touched paragraph.key) {run : Nat} (held : run ∈ paragraph.children.map key) :
    commentAroundRun after run = commentAround paragraph.children run := by
  obtain ⟨found, inAfter, -, outline⟩ := edited.found paragraph member
  have heads : found.children.map head = paragraph.children.map head := congrArg Prod.snd (outline free)
  have keys := (Forest.children_of_outline (outline free)).2
  have located : after.parent? run = some found :=
    edited.wellFormed.parent?_iff.mpr ⟨inAfter, keys ▸ held⟩
  rw [commentAroundRun, located]
  exact commentAround_heads heads run

theorem commentForParagraph_edited (edited : Forest.Edited touched before after)
    (member : paragraph ∈ before.nodes) (free : ¬ touched paragraph.key) :
    commentForParagraph after paragraph.key = commentOfParagraph paragraph := by
  obtain ⟨found, inAfter, same, outline⟩ := edited.found paragraph member
  have heads : found.children.map head = paragraph.children.map head := congrArg Prod.snd (outline free)
  have isFound : after.find? paragraph.key = some found :=
    edited.wellFormed.find?_iff.mpr ⟨inAfter, congrArg Head.key same⟩
  rw [commentForParagraph, isFound]
  exact anchoredComment_heads heads

end Outline

/-- The runs of a paragraph meet the comments around them, and the paragraph keeps its outline. -/
theorem visitRuns_ledger {before : Forest} {paragraph : Node} (member : paragraph ∈ before.nodes) {touched : Nat → Prop} (free : ¬ touched paragraph.key)
    (new : ∀ number, before.fresh ≤ number → touched number) (runs : List Nat)
    (mayRun : ∀ run ∈ runs, touched run) (held : ∀ run ∈ runs, run ∈ paragraph.children.map key) :
    ∀ {met : List (Option String)} {during : List Event} {machine final : Machine World},
    Ledger store start met during machine.outer →
    Forest.Edited touched before machine.outer.forest →
    runOn (runs.forM fun run => visitRun dispatcher builder run paragraph.key) machine = (.ok (), final) →
    (∃ during, Ledger store start (met ++ runs.map (commentAround paragraph.children)) during final.outer) ∧
      Forest.Edited touched before final.outer.forest := by
  induction runs with
  | nil =>
    intro met during machine final ledger edited accepted
    cases accepted
    exact ⟨⟨during, by simpa using ledger⟩, edited⟩
  | cons run rest hypothesis =>
    intro met during machine final ledger edited accepted
    obtain ⟨_, middle, visits, accepted⟩ := bind_ok accepted
    obtain ⟨_, _, reads, visits⟩ := bind_ok visits
    cases reads
    rw [commentAroundRun_edited edited member free (held run List.mem_cons_self)] at visits
    obtain ⟨⟨later, visited⟩, step⟩ := runComment_ledger ledger edited.wellFormed visits
    have further := edited.trans (step.mono fun number may => by
      rcases may with isNew | isRun
      · exact new number (Nat.le_trans edited.fresh isNew)
      · exact Option.some.inj isRun ▸ mayRun run List.mem_cons_self)
    have whole := hypothesis (fun other among => mayRun other (List.mem_cons_of_mem _ among))
      (fun other among => held other (List.mem_cons_of_mem _ among)) visited further accepted
    simpa using whole

/-- What holds between the visits of two paragraphs. -/
def Visiting (store : CommentStore) (start : World) (done : List Nat) (met : List (Option String))
    (machine : Machine World) : Prop :=
  (∃ during, Ledger store start met during machine.outer) ∧
    Forest.Edited (Within start.forest done) start.forest machine.outer.forest

/-- The directives inside of a paragraph's text meet no comment. -/
theorem runInline_visiting {done : List Nat} {paragraph : Nat} (here : paragraph ∈ done) :
    Leads (Visiting store start done met) (runInline dispatcher builder paragraph) := by
  have free : StoreFree (Visiting store start done met) := fun _ _ visiting => visiting
  have edits : EditsAt paragraph (Visiting store start done met) := by
    rintro machine node changed ⟨⟨during, ledger⟩, edited⟩ found revised
    refine ⟨⟨during, ?_⟩, edit_within here edited found revised⟩
    exact ⟨ledger.events, ledger.template, ledger.consumed, ledger.comments, ledger.texts, ledger.unique,
      ledger.counted, ledger.heeded, ledger.recorded⟩
  have read : Keeps (Visiting store start done met) (node paragraph) := fun _ visiting => visiting
  refine Leads.bind read.leads fun found => Leads.bind (Keeps.lift free _).leads fun tokens =>
    Leads.forM fun token _ => Leads.bind ?_ fun succeeded => ?_
  · rintro machine ⟨⟨during, ledger⟩, edited⟩ succeeded after evaluates
    obtain ⟨data, calls, traces, calling, recorded⟩ := evaluateDirective_ok evaluates
    have ledger := ledger.missed traces calling (fun _ impossible => by cases impossible) (fun _ => rfl) recorded
    simp only [Option.toList_none, List.map_nil, List.append_nil] at ledger
    exact ⟨⟨_, ledger⟩, traces.forest_unbound rfl ▸ edited⟩
  · cases succeeded with
    | true => exact (replace_keeps free edits _ _ _).leads
    | false => exact (Keeps.pure _).leads

/-- A visit of a paragraph meets the comments of its runs, and then its own. -/
theorem visit_visiting {done : List Nat} {paragraph : Node} (visiting : Visiting store start done met machine)
    (inForest : paragraph ∈ machine.outer.forest.nodes) (isParagraph : paragraph.hasTag Tag.paragraph = true)
    (here : paragraph.key ∈ done)
    (accepted : runOn (((runs paragraph).map key).forM
        (fun run => visitRun dispatcher builder run paragraph.key) >>= fun _ =>
      visitParagraph dispatcher builder paragraph.key) machine = (.ok (), final)) :
    Visiting store start done (met ++ meetings paragraph) final := by
  obtain ⟨⟨during, ledger⟩, edited⟩ := visiting
  have wellFormed := edited.wellFormed
  obtain ⟨_, middle, visitsRuns, accepted⟩ := bind_ok accepted
  -- While its runs are visited, only they may be touched.
  have free : ¬ (machine.outer.forest.fresh ≤ paragraph.key ∨ paragraph.key ∈ (runs paragraph).map key) := by
    rintro (new | isOwn)
    · have old := wellFormed.key_lt inForest
      omega
    · obtain ⟨run, isRunOf, same⟩ := List.mem_map.mp isOwn
      obtain ⟨direct, isARun⟩ := List.mem_filter.mp isRunOf
      rw [wellFormed.eq_of_key_eq (child_mem_allBelow inForest direct) inForest same,
        isRun_paragraph isParagraph] at isARun
      cases isARun
  have held : ∀ run ∈ (runs paragraph).map key, run ∈ paragraph.children.map key := fun run member => by
    obtain ⟨child, isRunOf, rfl⟩ := List.mem_map.mp member
    exact List.mem_map.mpr ⟨child, List.mem_of_mem_filter isRunOf, rfl⟩
  obtain ⟨⟨afterRuns, ledger⟩, runsEdited⟩ : (∃ during, Ledger store start
        (met ++ ((runs paragraph).map key).map (commentAround paragraph.children)) during middle.outer) ∧
      Forest.Edited (fun number => machine.outer.forest.fresh ≤ number ∨ number ∈ (runs paragraph).map key)
        machine.outer.forest middle.outer.forest :=
    visitRuns_ledger inForest free (fun _ new => .inl new) ((runs paragraph).map key)
      (fun _ member => .inr member) held ledger (.refl wellFormed) visitsRuns
  have toMiddle : Forest.Edited (Within start.forest done) start.forest middle.outer.forest := by
    refine edited.trans (runsEdited.mono fun number may => ?_)
    rcases may with new | isOwn
    · exact .inl (Nat.le_trans edited.fresh new)
    · obtain ⟨run, isRunOf, rfl⟩ := List.mem_map.mp isOwn
      obtain ⟨direct, isARun⟩ := List.mem_filter.mp isRunOf
      exact run_within edited inForest here direct isARun
  obtain ⟨_, _, reads, accepted⟩ := bind_ok accepted
  cases reads
  obtain ⟨_, evaluated, evaluates, accepted⟩ := bind_ok accepted
  rw [commentForParagraph_edited runsEdited inForest free] at evaluates
  obtain ⟨afterOwn, step⟩ := runComment_ledger ledger runsEdited.wellFormed evaluates
  have toEvaluated : Forest.Edited (Within start.forest done) start.forest evaluated.outer.forest := by
    refine toMiddle.trans (step.mono fun number may => ?_)
    rcases may with new | impossible
    · exact .inl (Nat.le_trans toMiddle.fresh new)
    · cases impossible
  have met : met ++ ((runs paragraph).map key).map (commentAround paragraph.children) ++
      [commentOfParagraph paragraph] = met ++ meetings paragraph := by
    rw [meetings, List.append_assoc, List.map_map]
    rfl
  rw [met] at afterOwn
  exact runInline_visiting here evaluated ⟨afterOwn, toEvaluated⟩ () final accepted

/-- A walk through some paragraphs meets what they met at the beginning. -/
theorem visitParagraphs_ledger (opened : start.forest.WellFormed) (later : List Node) :
    ∀ {done : List Nat} {met : List (Option String)} {machine final : Machine World},
    (∀ paragraph ∈ later, paragraph ∈ start.forest.nodes ∧ paragraph.hasTag Tag.paragraph = true) →
    (∀ node ∈ start.forest.nodes, node.key ∈ done → node.hasTag Tag.paragraph = true) →
    (done ++ later.map key).Nodup → Visiting store start done met machine →
    runOn (visitParagraphs forest (visitParagraph dispatcher builder) (visitRun dispatcher builder)
      (later.map key)) machine = (.ok (), final) →
    ∃ all, Visiting store start all (met ++ later.flatMap meetings) final := by
  induction later with
  | nil =>
    intro done met machine final _ _ _ visiting accepted
    cases accepted
    exact ⟨done, by simpa using visiting⟩
  | cons paragraph rest hypothesis =>
    intro done met machine final paragraphs visited unique visiting accepted
    obtain ⟨inStart, isParagraph⟩ := paragraphs paragraph List.mem_cons_self
    obtain ⟨ledger, edited⟩ := visiting
    have notDone : paragraph.key ∉ done := fun here =>
      (List.nodup_append.mp unique).2.2 _ here _ List.mem_cons_self rfl
    obtain ⟨free, -⟩ := not_within opened inStart isParagraph notDone visited
    obtain ⟨found, inForest, same, outline⟩ := edited.found paragraph inStart
    have sameKey : found.key = paragraph.key := congrArg Head.key same
    have isFound : machine.outer.forest.find? found.key = some found := edited.wellFormed.find?_key inForest
    have widened : Visiting store start (done ++ [found.key]) met machine :=
      ⟨ledger, edited.mono fun _ => Within.mono (List.subset_append_left _ _)⟩
    rw [List.map_cons, ← sameKey] at accepted
    obtain ⟨_, _, reads, accepted⟩ := bind_ok accepted
    cases reads
    have runKeys : runsOf machine.outer.forest found.key = (runs found).map key := by
      rw [runsOf, isFound]
    dsimp only at accepted
    rw [runKeys, ← bind_assoc] at accepted
    obtain ⟨_, middle, visits, accepted⟩ := bind_ok accepted
    have next := visit_visiting widened inForest ((hasTag_of_head same _).trans isParagraph) (by simp) visits
    rw [meetings_outline (outline free)] at next
    have visitedToo : ∀ node ∈ start.forest.nodes, node.key ∈ done ++ [found.key] →
        node.hasTag Tag.paragraph = true := by
      intro node inForest here
      rcases List.mem_append.mp here with before | last
      · exact visited node inForest before
      · rw [opened.eq_of_key_eq inForest inStart ((List.mem_singleton.mp last).trans sameKey)]
        exact isParagraph
    obtain ⟨all, finished⟩ := hypothesis
      (fun other member => paragraphs other (List.mem_cons_of_mem _ member)) visitedToo
      (by simpa [sameKey] using unique) next accepted
    exact ⟨all, by simpa using finished⟩

/-- A walk that comes to an end has used up the comments whose directive was evaluated successfully, has
met the comments that the paragraphs of the sections meet, and has evaluated none more often than there
are start markers for it. -/
theorem evaluateDirectives_ledger (opened : Opened machine.outer.template machine.outer.forest)
    (held : machine.outer.session.comments = some store)
    (accepted : runOn (evaluateDirectives dispatcher builder) machine = (.ok (), final)) :
    ∃ during, Ledger store machine.outer (machine.outer.met) during final.outer ∧
      ∀ id, during.countP (Event.isFor id) ≤
        (allBelow (sections machine.outer.forest machine.outer.template.roots)).countP (isStartOf id) := by
  have all := paragraphsBelow_eq machine.outer.forest machine.outer.template.roots
  obtain ⟨paragraphs, isAll⟩ : ∃ paragraphs, paragraphs =
      (allBelow (sections machine.outer.forest machine.outer.template.roots)).filter
        (Node.hasTag Tag.paragraph) := ⟨_, rfl⟩
  rw [← isAll] at all
  have unique := paragraphs_nodup opened
  rw [all] at unique
  have walks : runOn (evaluateDirectives dispatcher builder) machine =
      runOn (visitParagraphs forest (visitParagraph dispatcher builder) (visitRun dispatcher builder)
        (paragraphs.map key)) machine := by
    rw [← all]
    rfl
  rw [walks] at accepted
  obtain ⟨done, ⟨during, ledger⟩, -⟩ := visitParagraphs_ledger opened.wellFormed paragraphs
    (fun paragraph member => by
      rw [isAll] at member
      obtain ⟨inSection, isParagraph⟩ := List.mem_filter.mp member
      exact ⟨sections_subset _ _ inSection, isParagraph⟩)
    (fun _ _ impossible => absurd impossible List.not_mem_nil) (by simpa using unique)
    ⟨⟨[], .refl held⟩, .refl opened.wellFormed⟩ accepted
  rw [List.nil_append, isAll] at ledger
  refine ⟨during, ledger, fun id => Nat.le_trans (ledger.counted id) ?_⟩
  exact all_meetings_count id fun node member =>
    children_nodup opened.wellFormed.unique (sections_subset _ _ member)

end Engine

end Imprint
