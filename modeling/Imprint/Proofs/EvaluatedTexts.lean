import Imprint.Proofs.ConsumedComments
/-! # What is evaluated

For comments nothing is evaluated but the texts of comments.  After the directives the values of all
paragraphs are replaced, one paragraph after the other.  Editing a paragraph leaves the texts of all others
alone, so that what is evaluated is known when this begins: the tokens of the texts as they are then,
whatever the directives have written into them. -/
set_option autoImplicit false
namespace Imprint
open Imprint.Action Xml Document Node

namespace Document

/-! ## Texts -/

theorem runText_heads {first second : Node} (same : first.children.map head = second.children.map head) :
    runText first = runText second := by
  have read (node : Node) : runText node = (node.children.map head).flatMap fun head =>
      (childText? (.mk head.key head.label head.lead [] head.tail)).getD [] := by
    rw [List.flatMap_map]
    rfl
  rw [read, read, same]

/-- The text of a paragraph is not changed by edits of other paragraphs and of their runs. -/
theorem paragraphText_edited {touched : Nat → Prop} {before after : Forest}
    (edited : Forest.Edited touched before after) {paragraph found : Node} (member : paragraph ∈ before.nodes)
    (inAfter : found ∈ after.nodes) (same : found.key = paragraph.key) (free : ¬ touched paragraph.key)
    (freeRuns : ∀ run ∈ paragraph.children, isRun run = true → ¬ touched run.key) :
    paragraphText found = paragraphText paragraph := by
  have standsFor (node : Node) (inBefore : node ∈ before.nodes) (untouched : ¬ touched node.key)
      (other : Node) (place : other ∈ after.nodes) (sameKey : other.key = node.key) :
      other.children.map head = node.children.map head := by
    obtain ⟨last, inForest, sameHead, outline⟩ := edited.found node inBefore
    have isOther : last = other := edited.wellFormed.eq_of_key_eq inForest place
      ((congrArg Head.key sameHead).trans sameKey.symm)
    rw [← isOther]
    exact congrArg Prod.snd (outline untouched)
  have texts (old new : List Node) (heads : new.map head = old.map head)
      (oldChildren : ∀ run ∈ old, run ∈ paragraph.children)
      (newChildren : ∀ run ∈ new, run ∈ found.children) :
      (new.filter isRun).flatMap runText = (old.filter isRun).flatMap runText := by
    induction old generalizing new with
    | nil => rw [List.map_eq_nil_iff.mp heads]
    | cons run rest hypothesis =>
      obtain ⟨other, others, rfl, sameRun, sameRest⟩ := List.map_eq_cons_iff.mp heads
      have behind := hypothesis others sameRest
        (fun run member => oldChildren run (List.mem_cons_of_mem _ member))
        fun run member => newChildren run (List.mem_cons_of_mem _ member)
      have direct := oldChildren run List.mem_cons_self
      have sameTag : isRun other = isRun run := hasTag_of_head sameRun Tag.run
      rw [List.filter_cons, List.filter_cons, sameTag]
      cases isARun : isRun run with
      | false => exact behind
      | true =>
        have sameText : runText other = runText run := by
          refine runText_heads (standsFor run (child_mem_allBelow member direct)
            (freeRuns run direct isARun) other ?_ (congrArg Head.key sameRun))
          exact child_mem_allBelow inAfter (newChildren other List.mem_cons_self)
        rw [if_pos rfl, if_pos rfl, List.flatMap_cons, List.flatMap_cons, sameText, behind]
  exact texts paragraph.children found.children (standsFor paragraph member free found inAfter same)
    (fun _ direct => direct) fun _ direct => direct

end Document

/-! ## The pass -/

/-- An expression that the text of a paragraph holds when the values begin to be replaced; the paragraph
is one of the sections, and has not been gone through before. -/
def World.Offers (start : World) (replacer : Replacer) (paragraph : Nat) (expression : String) : Prop :=
  paragraph ∉ start.session.resolved ∧
    paragraph ∈ paragraphsBelow start.forest start.template.roots ∧
    ∃ node token, start.forest.find? paragraph = some node ∧
      replacer.delimiters.Finds (paragraphText node) token ∧
      expression = String.ofList (replacer.delimiters.strip token)

/-- Whether an event is the evaluation of what a text offers. -/
def World.Offered (start : World) (replacer : Replacer) (event : Event) : Prop :=
  ∃ paragraph expression succeeded, event = .value paragraph expression succeeded ∧
    start.Offers replacer paragraph expression

/-- What the replacement of values keeps: only the paragraphs that it has come to are edited, and nothing has
been evaluated but what the texts offered at the beginning. -/
structure Scanned (replacer : Replacer) (start : World) (done : List Nat) (machine : Machine World) :
    Prop where
  edited : Forest.Edited (Within start.forest done) start.forest machine.outer.forest
  resolved : start.session.resolved ⊆ machine.outer.session.resolved
  values : ∃ during, machine.outer.events = during ++ start.events ∧
    ∀ event ∈ during, start.Offered replacer event

theorem Scanned.mono {replacer : Replacer} {start : World} {some more : List Nat} (among : some ⊆ more)
    {machine : Machine World} (scanned : Scanned replacer start some machine) :
    Scanned replacer start more machine where
  edited := scanned.edited.mono fun _ within => within.mono among
  resolved := scanned.resolved
  values := scanned.values

namespace Engine

variable {replacer : Replacer} {start : World} {done : List Nat}

/-- The pass keeps to the offers unless a directive is called. -/
def Scanning (replacer : Replacer) (start : World) (done : List Nat) (machine : Machine World) : Prop :=
  Called start.events machine ∨ Scanned replacer start done machine

theorem scanning_frame : Frame (Scanning replacer start done) :=
  called_or_frame (fun _ _ scanned => ⟨scanned.edited, scanned.resolved, scanned.values⟩)
    (fun _ scanned => by
      obtain ⟨during, since, -⟩ := scanned.values
      exact ⟨during, since⟩)
    fun _ _ scanned reports => ⟨reports.forest ▸ scanned.edited, reports.resolved ▸ scanned.resolved,
      reports.events ▸ scanned.values⟩

theorem scanning_edits {paragraph : Nat} (here : paragraph ∈ done) :
    EditsAt paragraph (Scanning replacer start done) := fun _ _ _ scanning found revised =>
  scanning.imp_right fun scanned =>
    ⟨edit_within here scanned.edited found revised, scanned.resolved, scanned.values⟩

theorem scanning_note {paragraph : Nat} {expression : String}
    (offers : start.Offers replacer paragraph expression) (succeeded : Bool) :
    Keeps (Scanning replacer start done) (note (.value paragraph expression succeeded)) := by
  intro machine scanning
  rcases scanning with called | scanned
  · exact .inl (called.later [_] rfl)
  · obtain ⟨during, since, offered⟩ := scanned.values
    refine .inr ⟨scanned.edited, scanned.resolved, _ :: during, congrArg (_ :: ·) since, ?_⟩
    intro event member
    rcases List.mem_cons.mp member with rfl | member
    · exact ⟨paragraph, expression, succeeded, rfl, offers⟩
    · exact offered event member

/-- The turn of one paragraph. -/
theorem resolveParagraph_scanning (opened : start.forest.WellFormed) {source : Nat → Engine Context}
    (sources : ∀ condition : Machine World → Prop, StoreFree condition → ∀ number,
      Keeps condition (source number)) {paragraph : Node} (member : paragraph ∈ start.forest.nodes)
    (offered : paragraph.key ∈ paragraphsBelow start.forest start.template.roots)
    (free : ¬ Within start.forest done paragraph.key)
    (freeRuns : ∀ run ∈ paragraph.children, isRun run = true → ¬ Within start.forest done run.key)
    {machine : Machine World} (unresolved : paragraph.key ∉ machine.outer.session.resolved)
    (scanning : Scanning replacer start done machine) :
    Scanning replacer start (done ++ [paragraph.key])
      (runOn (resolveParagraph replacer source paragraph.key) machine).2 := by
  rcases scanning with called | scanned
  · have edits : EditsAt paragraph.key (Called start.events) := fun _ _ _ called _ _ => called
    exact .inl (called_frame.resolveParagraph_keeps edits replacer (sources _ called_frame.free _)
      (fun _ _ _ called => called.later [_] rfl) (fun _ called => called) machine called)
  · refine scanning_frame.resolveParagraph_after (scanning_edits (by simp)) replacer
      (sources _ scanning_frame.free _) (fun middle scanning => ?_)
      (.inr (scanned.mono (List.subset_append_left _ _))) fun found isFound token finds succeeded => ?_
    · refine scanning.imp_right fun scanned => ⟨scanned.edited, ?_, scanned.values⟩
      exact fun other known => mem_addOnce.mpr (.inr (scanned.resolved known))
    · obtain ⟨inForest, same⟩ := scanned.edited.wellFormed.find?_iff.mp isFound
      have text := paragraphText_edited scanned.edited member inForest same free freeRuns
      exact scanning_note ⟨fun resolved => unresolved (scanned.resolved resolved), offered, paragraph,
        token, opened.find?_key member, text ▸ finds, rfl⟩ succeeded

/-- What the pass does with a paragraph when it comes to it. -/
def resolveOnce (replacer : Replacer) (source : Nat → Engine Context) (paragraph : Nat) : Engine Unit := do
  if !(← world).session.resolved.contains paragraph then
    resolveParagraph replacer source paragraph

theorem visitParagraphs_scanning (opened : start.forest.WellFormed) {source : Nat → Engine Context}
    (sources : ∀ condition : Machine World → Prop, StoreFree condition → ∀ number,
      Keeps condition (source number)) (later : List Nat) : ∀ (done : List Nat),
    done ++ later = paragraphsBelow start.forest start.template.roots → (done ++ later).Nodup →
    ∀ {machine : Machine World}, Scanning replacer start done machine →
    Scanning replacer start (paragraphsBelow start.forest start.template.roots) (runOn (visitParagraphs forest
      (resolveOnce replacer source) (fun _ _ => pure ()) later) machine).2 := by
  induction later with
  | nil =>
    intro done all _ machine scanning
    rw [List.append_nil] at all
    exact all ▸ scanning
  | cons number rest hypothesis =>
    intro done all unique machine scanning
    have paragraphs (key : Nat) (among : key ∈ done ++ number :: rest) :
        ∃ node ∈ start.forest.nodes, node.hasTag Tag.paragraph = true ∧ node.key = key := by
      rw [all, paragraphsBelow_eq] at among
      obtain ⟨node, isParagraph, same⟩ := List.mem_map.mp among
      obtain ⟨inSection, tag⟩ := List.mem_filter.mp isParagraph
      exact ⟨node, sections_subset _ _ inSection, tag, same⟩
    obtain ⟨paragraph, member, isParagraph, rfl⟩ := paragraphs number (by simp)
    have notDone : paragraph.key ∉ done := fun here =>
      (List.nodup_append.mp unique).2.2 _ here _ List.mem_cons_self rfl
    obtain ⟨free, freeRuns⟩ := not_within opened member isParagraph notDone fun node inStart here => by
      obtain ⟨other, inForest, tag, same⟩ := paragraphs node.key (List.mem_append_left _ here)
      rwa [← opened.eq_of_key_eq inForest inStart same]
    have turn : Scanning replacer start (done ++ [paragraph.key])
        (runOn (resolveOnce replacer source paragraph.key) machine).2 := by
      unfold resolveOnce
      rw [runOn_bind, runOn_world]
      dsimp only
      cases known : machine.outer.session.resolved.contains paragraph.key with
      | true => exact scanning.imp_right (Scanned.mono (List.subset_append_left _ _))
      | false =>
        have unresolved : paragraph.key ∉ machine.outer.session.resolved := by
          intro resolved
          rw [List.contains_iff_mem.mpr resolved] at known
          cases known
        exact resolveParagraph_scanning opened sources member (all ▸ by simp) free freeRuns unresolved
          scanning
    have quiet (runs : List Nat) :
        runOn (runs.forM fun _ => (pure () : Engine Unit)) machine = (.ok (), machine) := by
      induction runs with
      | nil => rfl
      | cons run runs hypothesis => exact hypothesis
    unfold visitParagraphs
    rw [runOn_bind, runOn_forest]
    dsimp only
    rw [runOn_bind, quiet]
    dsimp only
    rw [runOn_bind]
    cases reached : runOn (resolveOnce replacer source paragraph.key) machine with
    | mk outcome middle =>
      rw [reached] at turn
      cases outcome with
      | error fault => exact turn.imp_right (Scanned.mono (by simp [← all]))
      | ok value => exact hypothesis (done ++ [paragraph.key]) (by simpa using all) (by simpa using unique) turn

theorem resolveDocument_eq (replacer : Replacer) (source : Nat → Engine Context) (machine : Machine World) :
    runOn (resolveDocument replacer source) machine = runOn (visitParagraphs forest
      (resolveOnce replacer source) (fun _ _ => pure ())
      (paragraphsBelow machine.outer.forest machine.outer.template.roots)) machine := rfl

/-- A condition that the resolution of every paragraph of the sections keeps holds after the pass. -/
theorem resolveDocument_after {condition : Machine World → Prop} {source : Nat → Engine Context}
    {machine : Machine World} (holds : condition machine)
    (resolves : ∀ paragraph ∈ paragraphsBelow machine.outer.forest machine.outer.template.roots,
      Keeps condition (resolveOnce replacer source paragraph)) :
    condition (runOn (resolveDocument replacer source) machine).2 := by
  rw [resolveDocument_eq]
  generalize paragraphsBelow machine.outer.forest machine.outer.template.roots = paragraphs at resolves ⊢
  have visits : Keeps condition (visitParagraphs forest (resolveOnce replacer source) (fun _ _ => pure ())
      paragraphs) := by
    induction paragraphs with
    | nil => exact .pure _
    | cons paragraph rest hypothesis =>
      exact Keeps.bind (fun _ holds => holds) fun forest => Keeps.bind (.forM fun _ _ => .pure _) fun _ =>
        Keeps.bind (resolves paragraph List.mem_cons_self) fun _ =>
          hypothesis fun other member => resolves other (List.mem_cons_of_mem _ member)
  exact visits machine holds

/-- A condition that the resolution of every paragraph keeps is kept by the pass. -/
theorem resolveDocument_keeps {condition : Machine World → Prop} {source : Nat → Engine Context}
    (resolves : ∀ paragraph, Keeps condition (resolveOnce replacer source paragraph)) :
    Keeps condition (resolveDocument replacer source) :=
  fun _ holds => resolveDocument_after holds fun paragraph _ => resolves paragraph

/-- The pass through a document edits its paragraphs, unless it calls a directive. -/
theorem resolveDocument_scans {machine : Machine World} (opened : Opened machine.outer.template machine.outer.forest)
    {source : Nat → Engine Context} (sources : ∀ condition : Machine World → Prop, StoreFree condition →
      ∀ number, Keeps condition (source number)) :
    Scanning replacer machine.outer (paragraphsBelow machine.outer.forest machine.outer.template.roots)
      (runOn (resolveDocument replacer source) machine).2 := by
  have fresh : Scanning replacer machine.outer [] machine := .inr ⟨.refl opened.wellFormed,
    fun _ member => member, [], rfl, fun _ member => absurd member List.not_mem_nil⟩
  rw [resolveDocument_eq]
  exact visitParagraphs_scanning opened.wellFormed sources _ [] rfl (paragraphs_nodup opened) fresh

/-- The pass through a document evaluates what its texts offer, unless it calls a directive, and evaluates no
directive. -/
theorem resolveDocument_offers {machine : Machine World} (opened : Opened machine.outer.template machine.outer.forest)
    {source : Nat → Engine Context} (sources : ∀ condition : Machine World → Prop, StoreFree condition →
      ∀ number, Keeps condition (source number)) :
    ∃ during, (runOn (resolveDocument replacer source) machine).2.outer.events = during ++ machine.outer.events ∧
      (∀ event ∈ during, event.isDirective = false) ∧
      ((∃ handler method, Event.called handler method ∈ during) ∨
        ∀ event ∈ during, machine.outer.Offered replacer event) := by
  have quiet : Keeps (fun after : Machine World =>
      Since (fun event => !event.isDirective) machine.outer.events after.outer.events)
      (resolveDocument replacer source) := by
    refine resolveDocument_keeps fun paragraph => Keeps.bind (fun _ since => since) fun world => ?_
    have edits : EditsAt paragraph fun after =>
        Since (fun event => !event.isDirective) machine.outer.events after.outer.events :=
      fun _ _ _ since _ _ => since
    have resolves := (calling_frame machine.outer.events).resolveParagraph_keeps edits replacer (sources _ (calling_frame _).free _)
      (fun expression succeeded _ since => since.trans (.noted rfl _)) fun _ since => since
    cases world.session.resolved.contains paragraph with
    | true => exact .pure _
    | false => exact resolves
  obtain ⟨during, since, noDirective⟩ := quiet machine (.refl _)
  refine ⟨during, since, fun event member => by simpa using noDirective event member, ?_⟩
  rcases @resolveDocument_scans replacer machine opened source sources with ⟨new, handler, method, called, member⟩ | scanned
  · left
    obtain rfl : during = new := List.append_cancel_right (since.symm.trans called)
    exact ⟨handler, method, member⟩
  · right
    obtain ⟨new, values, offered⟩ := scanned.values
    obtain rfl : during = new := List.append_cancel_right (since.symm.trans values)
    exact offered

end Engine

/-! ## The texts of comments -/

/-- Whether an event that is the evaluation of a comment's directive has the text of one of some comments. -/
def Event.quotes (comments : List Comment) : Event → Bool
  | .directive anchor expression _ _ =>
      anchor.comment.all fun comment => comments.contains comment && expression == comment.text
  | _ => true

theorem quotes_of_not_directive {event : Event} (noDirective : event.isDirective = false) (comments : List Comment) :
    event.quotes comments = true := by
  cases event with
  | directive => cases noDirective
  | _ => rfl

/-- Since some events nothing has been evaluated for comments but the texts of certain ones, and only these are
pending. -/
structure Quoting (comments : List Comment) (start : List Event) (machine : Machine World) : Prop where
  pending : ∀ store, machine.outer.session.comments = some store → store.pending ⊆ comments
  events : Since (Event.quotes comments) start machine.outer.events

namespace Engine

variable {comments : List Comment} {start : List Event} {dispatcher : Dispatcher} {builder : ProxyBuilder}

theorem quoting_frame : Frame (Quoting comments start) where
  free _ _ quoting := ⟨quoting.pending, quoting.events⟩
  called index := by
    have proof : StepProof index (Quoting comments start) :=
      ⟨fun _ _ quoting => ⟨quoting.pending, quoting.events⟩, fun machine after quoting step => by
        cases step <;> exact ⟨quoting.pending, quoting.events⟩⟩
    exact proof.callDirective_keeps fun _ _ quoting => ⟨quoting.pending, quoting.events.trans (.noted rfl _)⟩
  reports _ _ quoting reports :=
    ⟨fun store held => quoting.pending store (reports.comments.symm.trans held), reports.events ▸ quoting.events⟩

theorem quoting_walkFrame :
    WalkFrame dispatcher builder (fun _ => True) (· ∈ comments) (Quoting comments start) where
  free := quoting_frame.free
  evaluates expression anchor _ known _ quoting := by
    refine quoting_frame.evaluateDirective_keeps dispatcher builder (fun data succeeded _ quoting => ?_)
      ⟨quoting.pending, quoting.events⟩
    refine ⟨quoting.pending, quoting.events.trans (.noted ?_ _)⟩
    rw [Event.quotes]
    cases isComment : anchor.comment with
    | none => rfl
    | some comment =>
      obtain ⟨member, text⟩ := known comment isComment
      simp [member, text]
  pending _ quoting store held _ member := quoting.pending store held member
  consumes comment machine quoting := by
    refine ⟨fun store held => ?_, quoting.events⟩
    obtain ⟨old, isOld, rfl⟩ := Option.map_eq_some_iff.mp held
    exact fun _ member => quoting.pending old isOld (List.mem_filter.mp member).1
  edits _ _ _ _ _ quoting _ _ := ⟨quoting.pending, quoting.events⟩
  runs _ _ _ _ _ _ := trivial

/-- Whether a run succeeds or not, nothing is evaluated for comments but the texts of those that were read. -/
theorem runDirectives_quotes {machine : Machine World} (opened : Opened machine.outer.template machine.outer.forest)
    {store : CommentStore} (held : (runOn loadComments machine).2.outer.session.comments = some store) :
    Since (Event.quotes store.pending) machine.outer.events
      (runOn (runDirectives dispatcher builder) machine).2.outer.events := by
  obtain ⟨loaded, loads, isLoaded⟩ := runOn_loadComments opened
  rw [loads] at held
  have phases := runDirectives_inPhases dispatcher builder opened
  have walked : Since (Event.quotes store.pending) machine.outer.events
      (runOn (walkThrough dispatcher builder) machine).2.outer.events := by
    have walks : Quoting store.pending machine.outer.events (runOn (walkThrough dispatcher builder) machine).2 := by
      refine Keeps.after loads ?_ ⟨?_, isLoaded.events ▸ .refl _⟩
      · refine Keeps.bind (fun _ quoting => ⟨quoting.pending, quoting.events⟩) fun _ machine quoting => ?_
        exact quoting_walkFrame.visitParagraphs_keeps _ (fun _ _ => trivial) machine quoting
      · rintro other isOther
        obtain rfl := Option.some.inj (held.symm.trans isOther)
        exact List.Subset.refl _
    exact walks.events
  cases reached : runOn (walkThrough dispatcher builder) machine with
  | mk outcome middle =>
    rw [reached] at walked phases
    cases outcome with
    | error fault =>
      rw [phases.ended fault rfl]
      exact walked
    | ok value =>
      obtain ⟨deleting, committing, events, ofCommits, whole, failing⟩ := phases.carriedOut rfl
      refine walked.trans ⟨deleting ++ committing, events, fun event member => ?_⟩
      refine quotes_of_not_directive ?_ _
      rcases List.mem_append.mp member with member | member
      · cases outcome : (runOn (runDirectives dispatcher builder) machine).1 with
        | ok value =>
          obtain ⟨-, deleted, rfl⟩ := whole outcome
          obtain ⟨comment, -, rfl⟩ := List.mem_map.mp (List.mem_reverse.mp member)
          rfl
        | error fault =>
          rw [(failing fault outcome).1] at member
          cases member
      · have passes := ofCommits event member
        cases event with
        | directive => cases passes
        | _ => rfl

/-! ## Stamping -/

/-- What a stamper does before it fills a template. -/
def prepare (stamper : Stamper) : Engine Unit := do
  changeSession fun _ => Session.start stamper.verbose
  loadComments
  if stamper.verbose then
    let count := (((← world).session.comments.map CommentStore.pendingIds).getD []).length
    say ("[Stamp] " ++ toString count ++ " comment(s) in template").toList

/-- Fills a template, and makes all handlers forget what they were asked for if that fails. -/
def fillOrReset (stamper : Stamper) (data : Value) : Engine Unit := do
  try fill stamper data
  catch fault =>
    resetHandlers
    throw fault

theorem stamp_eq (stamper : Stamper) (data : Value) :
    stamp stamper data = prepare stamper >>= fun _ => fillOrReset stamper data >>= fun _ => resetHandlers := by
  unfold stamp prepare
  cases stamper.verbose with
  | true => simp only [if_pos, bind_assoc]; rfl
  | false => simp only [bind_assoc]; rfl

theorem resetHandlers_keeps (events : List Event) :
    Keeps (fun machine => machine.outer.events = events) resetHandlers := by
  have changes (update : Handler → Handler) (index : Nat) :
      Keeps (fun machine => machine.outer.events = events) (changeHandler index update) := fun _ same => same
  refine Keeps.bind (fun _ same => same) fun world => .forM fun index _ => ?_
  refine Keeps.bind (fun _ same => same) fun world => ?_
  split
  · exact .pure _
  · split
    · exact Keeps.bind (fun _ same => same) fun _ => changes forgetful index
    · exact changes forgetful index

/-- Stamping leaves the events of filling. -/
theorem stamp_events (stamper : Stamper) (data : Value) {machine prepared : Machine World}
    (prepares : runOn (prepare stamper) machine = (.ok (), prepared)) :
    (runOn (stamp stamper data) machine).2.outer.events = (runOn (fill stamper data) prepared).2.outer.events := by
  have resets := resetHandlers_keeps (runOn (fill stamper data) prepared).2.outer.events
  rw [stamp_eq, runOn_bind, prepares]
  dsimp only
  have first : (runOn (fillOrReset stamper data) prepared).2.outer.events =
      (runOn (fill stamper data) prepared).2.outer.events := by
    unfold fillOrReset
    rw [runOn_tryCatch]
    cases reached : runOn (fill stamper data) prepared with
    | mk outcome after =>
      cases outcome with
      | ok value => rfl
      | error fault =>
        rw [reached] at resets
        exact (Keeps.bind resets fun _ => .throw fault) after rfl
  rw [runOn_bind]
  cases reached : runOn (fillOrReset stamper data) prepared with
  | mk outcome after =>
    rw [reached] at first
    cases outcome with
    | ok value => exact resets after first
    | error fault => exact first

/-- Before a template is filled its comments have been read. -/
theorem prepare_reads (stamper : Stamper) {machine : Machine World}
    (opened : Opened machine.outer.template machine.outer.forest) :
    ∃ read store part, runOn (prepare stamper) machine = (.ok (), { machine with outer := read }) ∧
      Loaded { machine.outer with session := Session.start stamper.verbose } read ∧
      Opened read.template read.forest ∧ read.events = machine.outer.events ∧
      read.session.comments = some store ∧ Reads read store part ∧
      part.map copied = Package.commentsOf machine.outer.forest machine.outer.template.comments := by
  obtain ⟨start, isStart⟩ : ∃ start : World, start =
      { machine.outer with session := Session.start stamper.verbose } := ⟨_, rfl⟩
  have openedStart : Opened start.template start.forest := isStart ▸ opened
  obtain ⟨loaded, loads, isLoaded⟩ := @runOn_loadComments ⟨machine.store, start⟩ openedStart
  obtain ⟨after, store, part, loadsToo, held, reads⟩ := @runOn_loadComments_reads ⟨machine.store, start⟩
    openedStart (by rw [isStart]; rfl)
  rw [loads] at loadsToo
  obtain rfl : loaded = after := congrArg (fun run => run.2.outer) loadsToo
  have openedLoaded := openedStart.extend isLoaded.extended
  have sameComments : part.map copied =
      Package.commentsOf machine.outer.forest machine.outer.template.comments := by
    rw [← reads.comments openedLoaded.wellFormed, isLoaded.template,
      Package.commentsOf_extend openedStart isLoaded.extended, isStart]
  have sameEvents : loaded.events = machine.outer.events := by
    rw [isLoaded.events, isStart]
  have starts : runOn (changeSession fun _ => Session.start stamper.verbose) machine =
      (.ok (), ⟨machine.store, start⟩) := by rw [isStart]; rfl
  rw [← isLoaded.template] at openedLoaded
  subst isStart
  unfold prepare
  rw [runOn_bind, starts]
  dsimp only
  rw [runOn_bind, loads]
  cases verbose : stamper.verbose with
  | false => exact ⟨loaded, store, part, rfl, verbose ▸ isLoaded, openedLoaded, sameEvents, held, reads, sameComments⟩
  | true =>
    rw [verbose] at isLoaded
    refine ⟨_, store, part, rfl, ⟨?_, ?_, isLoaded.template, isLoaded.handlers, isLoaded.events, isLoaded.consumed⟩,
      openedLoaded, sameEvents, held, reads.step rfl rfl, sameComments⟩
    · exact isLoaded.extended
    · exact isLoaded.edited

/-- What filling a template evaluates, when its comments have been read. -/
theorem fill_evaluates (stamper : Stamper) (data : Value) {machine : Machine World} {comments : CommentStore}
    (opened : Opened machine.outer.template machine.outer.forest)
    (held : machine.outer.session.comments = some comments) :
    let directed := runOn (runDirectives stamper.dispatcher (stamper.functions.copy data)) machine
    let filled := (runOn (fill stamper data) machine).2.outer.events
    Since (Event.quotes comments.pending) machine.outer.events filled ∧
      (∀ fault, directed.1 = .error fault → filled = directed.2.outer.events) ∧
      (directed.1 = .ok () → ∃ during, filled = during ++ directed.2.outer.events ∧
        ((∃ handler method, Event.called handler method ∈ during) ∨
          ∀ event ∈ during, directed.2.outer.Offered stamper.replacer event)) := by
  intro directed filled
  have heldAgain : (runOn loadComments machine).2.outer.session.comments = some comments := by
    rw [loadComments_again held]
    exact held
  have quotes : Since (Event.quotes comments.pending) machine.outer.events directed.2.outer.events :=
    runDirectives_quotes opened heldAgain
  obtain ⟨⟨outcome, after⟩, reached⟩ : ∃ reached, runOn (runDirectives stamper.dispatcher
      (stamper.functions.copy data)) machine = reached := ⟨_, rfl⟩
  have isDirected : directed = (outcome, after) := reached
  rw [isDirected] at quotes ⊢
  cases outcome with
  | error fault =>
    have same : filled = after.outer.events := by
      show (runOn (fill stamper data) machine).2.outer.events = _
      rw [fill, runOn_bind, reached]
    exact ⟨same ▸ quotes, fun _ _ => same, fun impossible => by cases impossible⟩
  | ok value =>
    have sources : ∀ condition : Machine World → Prop, StoreFree condition → ∀ number : Nat,
        Keeps condition (dataContext stamper data) :=
      fun condition free _ => Keeps.bind (.lift free _) fun _ => .pure _
    obtain ⟨during, events, noDirective, offers⟩ := resolveDocument_offers (runDirectives_opened opened reached) sources
    have same : filled = during ++ after.outer.events := by
      show (runOn (fill stamper data) machine).2.outer.events = _
      rw [← events, fill, runOn_bind, reached]
    refine ⟨?_, ?_, fun _ => ⟨during, same, offers⟩⟩
    · rw [same]
      exact quotes.trans ⟨during, rfl, fun event member => quotes_of_not_directive (noDirective event member) _⟩
    · rintro fault ⟨⟩

/-- What is evaluated when a document is stamped.  For comments it is the text of one that was read.  When the
directives have been carried out, it is what the texts of the document offer as they are then, unless a
directive is called while values are replaced. -/
theorem stamp_evaluates (package : Package) (registrations : List Handler) (additional : Expression.Scope)
    (store : Store) (stamper : Stamper) (data : Value) :
    let start : Machine World := ⟨store, World.ofPackage package (registered registrations) additional⟩
    let directed := runOn (runDirectives stamper.dispatcher (stamper.functions.copy data))
      (runOn (prepare stamper) start).2
    let stamped := (runOn (stamp stamper data) start).2.outer.events
    (∃ comments part, Reads (runOn (prepare stamper) start).2.outer comments part ∧
      part.map copied = package.comments.map copied ∧
      ∀ anchor expression data succeeded comment, .directive anchor expression data succeeded ∈ stamped →
        anchor.comment = some comment → comment ∈ comments.pending ∧ expression = comment.text) ∧
      (∀ fault, directed.1 = .error fault → stamped = directed.2.outer.events) ∧
      (directed.1 = .ok () → ∃ during, stamped = during ++ directed.2.outer.events ∧
        ((∃ handler method, Event.called handler method ∈ during) ∨
          ∀ event ∈ during, directed.2.outer.Offered stamper.replacer event)) := by
  intro start directed stamped
  have opened : Opened start.outer.template start.outer.forest :=
    World.ofPackage_opened package (registered registrations) additional
  obtain ⟨read, comments, part, prepares, -, openedRead, events, held, reads, copies⟩ := prepare_reads stamper opened
  obtain ⟨quotes, fails, succeeds⟩ := @fill_evaluates stamper data ⟨start.store, read⟩ comments openedRead held
  have sameStamped : stamped = (runOn (fill stamper data) ⟨start.store, read⟩).2.outer.events :=
    stamp_events stamper data prepares
  have sameDirected : directed = runOn (runDirectives stamper.dispatcher (stamper.functions.copy data))
      ⟨start.store, read⟩ :=
    congrArg (fun prepared => runOn (runDirectives stamper.dispatcher (stamper.functions.copy data))
      (Prod.snd prepared)) prepares
  rw [sameStamped, sameDirected, prepares]
  refine ⟨⟨comments, part, reads, copies.trans package.openIn_comments, ?_⟩, fails, succeeds⟩
  intro anchor expression values succeeded comment member isComment
  obtain ⟨during, since, quoted⟩ := quotes
  have quiet : read.events = [] := events
  rw [since, quiet, List.append_nil] at member
  have quoting := quoted _ member
  simpa [Event.quotes, isComment] using quoting

end Engine
end Imprint
