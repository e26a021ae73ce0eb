import Imprint.Proofs.CompiledExpressions
/-! # What a run does not depend on

The first expression sets up what all of them can use, and every expression is compiled once; later ones find that
done.  Comments are only read at the beginning of a run and only put back at the end of its directives.  Nothing
else depends on what is kept of expressions, as long as it is in order, or on how comments are kept: two runs that
differ in it alone go side by side. -/
set_option autoImplicit false
namespace Imprint
open Imprint.Action Xml Document

/-- What a run does not depend on: what is kept of expressions, and comments in the place of their own. -/
structure Hidden where
  configured : Bool
  compiled : List Expression.Compiled
  comments : CommentsPart

/-- The world with something else hidden in it. -/
def World.veiled (world : World) (hidden : Hidden) : World :=
  { world with
    configured := hidden.configured
    compiled := hidden.compiled
    template := { world.template with comments := hidden.comments } }

/-- The machine with something else hidden in it. -/
def Machine.veiled (machine : Machine World) (hidden : Hidden) : Machine World :=
  { machine with outer := machine.outer.veiled hidden }

/-- What is hidden in a world. -/
def World.hidden (world : World) : Hidden :=
  ⟨world.configured, world.compiled, world.template.comments⟩

/-- Nothing but what is hidden tells whether an expression has been compiled. -/
theorem World.readied_veiled (world : World) (hidden : Hidden) (expression : String) :
    (world.veiled hidden).readied expression =
      (world.readied expression).veiled ((world.veiled hidden).readied expression).hidden := by
  unfold World.readied
  split <;> rfl

/-- What is hidden on two sides: what is kept of expressions is in order on each, and the comments are related. -/
structure Hidden.Tied (related : CommentsPart → CommentsPart → Prop) (one other : Hidden) : Prop where
  prepared : Prepared one.configured one.compiled
  preparedOther : Prepared other.configured other.compiled
  comments : related one.comments other.comments

/-- Two machines that differ at most in what is hidden, which is tied. -/
def veiling (related : CommentsPart → CommentsPart → Prop) : Coupling World World where
  broken _ := False
  together left right := ∃ hidden, left.outer.hidden.Tied related hidden ∧ right = left.veiled hidden
  broken_store _ _ impossible := impossible
  same_store := by
    rintro left _ ⟨hidden, -, rfl⟩
    rfl
  together_store := by
    rintro left _ store ⟨hidden, tied, rfl⟩
    exact ⟨hidden, tied, rfl⟩

/-- Comments that are related stay so when the same store is saved. -/
def SavedAlike (related : CommentsPart → CommentsPart → Prop) : Prop :=
  ∀ (store : CommentStore) (forest : Forest) (template : Template) (comments : CommentsPart),
    related template.comments comments →
      related (store.save forest template).2.comments (store.save forest { template with comments }).2.comments

namespace Engine

variable {α β : Type} {related : CommentsPart → CommentsPart → Prop}

/-- What a computation gives, and what it leaves behind apart from what is hidden, does not depend on that.
What is hidden stays tied. -/
def Blind (related : CommentsPart → CommentsPart → Prop) (computation : Engine α) : Prop :=
  (veiling related).Relates computation computation

namespace Blind

/-- It is enough to compare what two runs give and leave, where both leave alone what is hidden. -/
theorem of_runs {computation : Engine α} (same : ∀ machine hidden,
    (runOn computation machine).2.outer.hidden = machine.outer.hidden ∧
      runOn computation (machine.veiled hidden) =
        ((runOn computation machine).1, (runOn computation machine).2.veiled hidden)) :
    Blind related computation where
  stays _ impossible := impossible
  agrees start other := by
    rintro ⟨hidden, tied, rfl⟩
    obtain ⟨kept, ran⟩ := same start hidden
    rw [ran]
    exact .inr ⟨rfl, hidden, kept ▸ tied, rfl⟩

theorem agree {computation : Engine α} (blind : Blind related computation) {start other : Machine World}
    (together : (veiling related).together start other) :
    (runOn computation start).1 = (runOn computation other).1 ∧
      (veiling related).together (runOn computation start).2 (runOn computation other).2 :=
  (blind.agrees start other together).resolve_left id

theorem pure (value : α) : Blind related (Pure.pure value : Engine α) := Coupling.Relates.pure value

theorem throw (fault : Fault) : Blind related (MonadExcept.throw fault : Engine α) := Coupling.Relates.throw fault

theorem lift (computation : Heap α) : Blind related (liftM computation : Engine α) := Coupling.Relates.lift computation

theorem bind {computation : Engine α} {next : α → Engine β} (first : Blind related computation)
    (second : ∀ value, Blind related (next value)) : Blind related (computation >>= next) :=
  Coupling.Relates.bind first second

theorem tryCatch {computation : Engine α} {handle : Fault → Engine α} (first : Blind related computation)
    (second : ∀ fault, Blind related (handle fault)) : Blind related (MonadExcept.tryCatch computation handle) :=
  Coupling.Relates.tryCatch first second

theorem forM {items : List β} {body : β → Engine PUnit} (each : ∀ item, Blind related (body item)) :
    Blind related (items.forM body) :=
  Coupling.Relates.forM each

theorem mapM {items : List β} {body : β → Engine α} (each : ∀ item, Blind related (body item)) :
    Blind related (items.mapM body) := by
  induction items with
  | nil => exact pure _
  | cons item rest hypothesis =>
    rw [List.mapM_cons]
    exact bind (each item) fun _ => bind hypothesis fun _ => pure _

/-- Something else is read. -/
theorem reading {next : World → Engine α} (blind : ∀ world hidden, next (world.veiled hidden) = next world)
    (each : ∀ world, Blind related (next world)) : Blind related (world >>= next) where
  stays _ impossible := impossible.elim
  agrees start other := by
    rintro ⟨hidden, tied, rfl⟩
    have same : runOn (world >>= next) (start.veiled hidden) = runOn (next start.outer) (start.veiled hidden) := by
      rw [← blind start.outer hidden]
      rfl
    rw [same]
    exact (each start.outer).agrees start _ ⟨hidden, tied, rfl⟩

end Blind

/-! ## Elementary steps -/

theorem change_blind {update : World → World}
    (blind : ∀ world hidden, update (world.veiled hidden) = (update world).veiled hidden) :
    Blind related (change update) :=
  .of_runs fun machine hidden => by
    have kept := congrArg World.hidden (blind machine.outer machine.outer.hidden)
    exact ⟨kept, congrArg (fun outer => (Except.ok (), (⟨machine.store, outer⟩ : Machine World)))
      (blind machine.outer hidden)⟩

theorem changeForest_blind (update : Forest → Forest) : Blind related (changeForest update) :=
  change_blind fun _ _ => rfl

theorem changeSession_blind (update : Session → Session) : Blind related (changeSession update) :=
  change_blind fun _ _ => rfl

theorem changeHandler_blind (index : Nat) (update : Handler → Handler) :
    Blind related (changeHandler index update) :=
  change_blind fun _ _ => rfl

theorem say_blind (message : List Char) : Blind related (say message) := change_blind fun _ _ => rfl

theorem tell_blind (entry : JournalEntry) : Blind related (tell entry) := change_blind fun _ _ => rfl

theorem note_blind (event : Event) : Blind related (note event) := change_blind fun _ _ => rfl

theorem forest_blind : Blind related forest := .of_runs fun _ _ => ⟨rfl, rfl⟩

theorem data_blind : Blind related data := .of_runs fun _ _ => ⟨rfl, rfl⟩

theorem node_blind (key : Nat) : Blind related (node key) := .bind forest_blind fun _ => .pure _

theorem textOf_blind (paragraph : Nat) : Blind related (textOf paragraph) :=
  .bind (node_blind paragraph) fun _ => .pure _

/-- Telling something, if that is wanted. -/
theorem saying_blind (verbose : Bool) (message : List Char) :
    Blind related (if verbose then say message else pure ()) := by
  cases verbose with
  | true => exact say_blind message
  | false => exact .pure ()

theorem recordError_blind (expression reason action : String) :
    Blind related (recordError expression reason action) :=
  .bind (changeSession_blind _) fun _ => .reading (fun _ _ => rfl) fun _ => saying_blind _ _

theorem inThrowawaySession_blind {body : Engine α} (verbose : Bool) (within : Blind related body) :
    Blind related (inThrowawaySession verbose body) := by
  refine .reading (fun _ _ => rfl) fun world => .bind (changeSession_blind _) fun _ => ?_
  refine .tryCatch (.bind within fun _ => .bind (changeSession_blind _) fun _ => .pure _) fun _ => ?_
  exact .bind (changeSession_blind _) fun _ => .throw _

theorem writeRun_blind (run : Nat) (letters : List Char) : Blind related (writeRun run letters) := by
  unfold writeRun
  split
  · exact changeForest_blind _
  · exact .bind (changeForest_blind _) fun _ => .throw _

/-! ## Directives -/

theorem soleArgument_blind (label parameter : String) (arguments : Arguments) :
    Blind related (soleArgument label parameter arguments) :=
  .bind (.lift _) fun _ => .pure _

theorem askRepeat_blind (index : Nat) (anchor : Anchor) (items : Value) :
    Blind related (askRepeat index anchor items) := by
  unfold askRepeat
  split
  · exact .pure ()
  · dsimp only
    split
    · exact .bind (.pure _) fun _ => .bind forest_blind fun _ => changeHandler_blind _ _
    · exact .bind (.lift _) fun _ => .bind (.pure _) fun _ =>
        .bind forest_blind fun _ => changeHandler_blind _ _

theorem askDisplay_blind (index : Nat) (anchor : Anchor) (method : String) (condition : Value) :
    Blind related (askDisplay index anchor method condition) := by
  refine .bind (.lift _) fun holds => ?_
  cases holds with
  | true => exact .pure ()
  | false =>
    cases anchor.paragraph with
    | none => exact .pure ()
    | some paragraph => exact .bind forest_blind fun _ => changeHandler_blind _ _

theorem replaceWord_blind (anchor : Anchor) (value : Value) : Blind related (replaceWord anchor value) := by
  unfold replaceWord
  split
  · exact .pure ()
  · exact .pure ()
  · exact .bind (.lift _) fun _ => writeRun_blind _ _

theorem recordCall_blind (index : Nat) (anchor : Anchor) (recorder : Recorder) (method : String)
    (values : List Value) : Blind related (recordCall index anchor recorder method values) := by
  unfold recordCall
  cases anchor.paragraph with
  | none =>
    cases anchor.run with
    | none => exact .bind (.pure _) fun _ => .bind (.pure _) fun _ => tell_blind _
    | some run =>
      exact .bind (.pure _) fun _ => .bind (node_blind run) fun _ =>
        .bind (.pure _) fun _ => tell_blind _
  | some paragraph =>
    refine .bind (changeHandler_blind _ _) fun _ => .bind (textOf_blind paragraph) fun _ => ?_
    cases anchor.run with
    | none => exact .bind (.pure _) fun _ => tell_blind _
    | some run => exact .bind (node_blind run) fun _ => .bind (.pure _) fun _ => tell_blind _

theorem performDirective_blind (handler : Handler) (index : Nat) (method : String) (arguments : Arguments) :
    Blind related (performDirective handler index method arguments) := by
  unfold performDirective
  split
  · exact .bind (soleArgument_blind _ _ _) fun _ => askRepeat_blind _ _ _
  · exact .bind (soleArgument_blind _ _ _) fun _ => askDisplay_blind _ _ _ _
  · exact .bind (soleArgument_blind _ _ _) fun _ => replaceWord_blind _ _
  · exact .bind (.lift _) fun _ => recordCall_blind _ _ _ _ _

theorem callDirective_blind (index : Nat) (method : String) (arguments : Arguments) :
    Blind related (callDirective index method arguments) := by
  refine .bind (note_blind _) fun _ => .reading (fun _ _ => rfl) fun world => ?_
  split
  · exact .pure _
  · exact .bind (performDirective_blind _ _ _ _) fun _ => .pure _

/-- What has been kept of expressions decides neither how an expression is compiled nor what it can use. -/
theorem resolve_blind (context : Context) (expression : String) : Blind related (resolve context expression) where
  stays _ impossible := impossible.elim
  agrees start other := by
    rintro ⟨hidden, tied, rfl⟩
    have prepared := @Prepared.readied start.outer tied.prepared expression
    have preparedOther := @Prepared.readied (start.outer.veiled hidden) tied.preparedOther expression
    rw [runOn_resolve_anew context expression tied.prepared,
      @runOn_resolve_anew context expression (start.veiled hidden) tied.preparedOther]
    -- Both sides run the program that compiling anew gives; what they keep behind it is hidden again.
    refine (Expression.resolve_relates context start.outer.additional expression callDirective_blind
      fun _ => .lift _).agrees _ _ ⟨_, ⟨prepared, preparedOther, ?_⟩, congrArg (Machine.mk start.store)
        (start.outer.readied_veiled hidden expression)⟩
    rw [World.readied_only, World.readied_only (start.outer.veiled hidden)]
    exact tied.comments

/-! ## Values -/

theorem attempt_blind (failing : Bool) (context : Context) (expression : String) (event : Bool → Event) :
    Blind related (attempt failing context expression event) := by
  refine .tryCatch (.bind (resolve_blind context expression) fun _ =>
    .bind (note_blind _) fun _ => .pure _) fun fault => .bind (note_blind _) fun _ => ?_
  split
  · cases failing with
    | true => exact .throw _
    | false => exact .pure _
  · exact .throw _

section Replacing

variable (replacer : Replacer) (paragraph : Nat)

theorem replace_blind (wanted : List Char) (content : Value) :
    Blind related (replace replacer paragraph wanted content) :=
  .bind (node_blind paragraph) fun _ => .bind (.lift _) fun _ => changeForest_blind _

theorem replaceLineBreaks_blind : Blind related (replaceLineBreaks replacer paragraph) := by
  unfold replaceLineBreaks
  split
  · refine .bind (node_blind paragraph) fun _ => ?_
    split
    · exact changeForest_blind _
    · exact .throw _
  · exact .pure ()
  · exact .throw _

theorem replaceValue_blind (token : List Char) (renderer : Renderer) (value : Value) :
    Blind related (replaceValue replacer paragraph token renderer value) := by
  refine .bind (.lift _) fun _ => .bind (replace_blind replacer paragraph _ _) fun _ => ?_
  cases replacer.verbose with
  | true => exact .bind (.lift _) fun _ => say_blind _
  | false => exact .pure ()

theorem replaceResolved_blind (token : List Char) (value : Value) :
    Blind related (replaceResolved replacer paragraph token value) := by
  unfold replaceResolved
  split
  · cases replacer.replaceNull with
    | true => exact replaceValue_blind _ _ _ _ _
    | false => exact saying_blind _ _
  · exact replaceValue_blind _ _ _ _ _

theorem replaceUnresolved_blind (token : List Char) :
    Blind related (replaceUnresolved replacer paragraph token) := by
  unfold replaceUnresolved
  split
  · exact replace_blind _ _ _ _
  · split
    · exact replace_blind _ _ _ _
    · exact .pure ()

variable {source : Nat → Engine Context} (sources : ∀ paragraph, Blind related (source paragraph))
include sources

theorem replaceToken_blind (token : List Char) :
    Blind related (replaceToken replacer source paragraph token) := by
  refine .bind (sources paragraph) fun _ => .bind (attempt_blind _ _ _ _) fun outcome => ?_
  cases outcome with
  | resolved value => exact replaceResolved_blind _ _ _ _
  | unresolved expression reason =>
    exact .bind (recordError_blind _ _ _) fun _ => replaceUnresolved_blind _ _ _

theorem resolveParagraph_blind : Blind related (resolveParagraph replacer source paragraph) := by
  refine .bind (changeSession_blind _) fun _ => .bind (node_blind paragraph) fun _ =>
    .bind (.lift _) fun _ => .bind (.forM fun _ => replaceToken_blind _ _ sources _) fun _ =>
      .bind (.lift _) fun breaks => ?_
  cases breaks with
  | true => exact replaceLineBreaks_blind _ _
  | false => exact .pure ()

end Replacing

/-- Going through a document. -/
theorem visit_blind {onParagraph : Nat → Engine Unit} {onRun : Nat → Nat → Engine Unit}
    (paragraphs : ∀ paragraph, Blind related (onParagraph paragraph))
    (runs : ∀ run paragraph, Blind related (onRun run paragraph)) (roots : List Nat) :
    Blind related (visit forest onParagraph onRun roots) := by
  refine .bind forest_blind fun found => ?_
  generalize paragraphsBelow found roots = all
  induction all with
  | nil => exact .pure ()
  | cons paragraph rest hypothesis =>
    exact .bind forest_blind fun _ => .bind (.forM fun run => runs run paragraph) fun _ =>
      .bind (paragraphs paragraph) fun _ => hypothesis

theorem resolveDocument_blind (replacer : Replacer) {source : Nat → Engine Context}
    (sources : ∀ paragraph, Blind related (source paragraph)) : Blind related (resolveDocument replacer source) := by
  refine .reading (fun _ _ => rfl) fun world => visit_blind (fun paragraph => ?_) (fun _ _ => .pure ()) _
  refine .reading (fun _ _ => rfl) fun world => ?_
  split
  · exact resolveParagraph_blind _ _ sources
  · exact .pure ()

/-! ## Commits -/

section Committing

variable (settings : RepeatSettings) (handler : Handler)

theorem inSessionOf_blind (verbose : Bool) {body : Engine α} (within : Blind related body) :
    Blind related (inSessionOf handler verbose body) := by
  unfold inSessionOf
  split
  · exact within
  · exact inThrowawaySession_blind _ within

theorem isVerbose_blind : Blind related (isVerbose handler) :=
  .reading (fun _ _ => rfl) fun _ => .pure _

theorem plantTree_blind (tree : Node) : Blind related (plantTree tree) :=
  .bind forest_blind fun _ => .bind (changeForest_blind _) fun _ => .pure _

theorem copyForItem_blind (context : Context) (template : Nat) :
    Blind related (copyForItem settings handler context template) :=
  .bind (.bind (node_blind template) fun _ => plantTree_blind _) fun _ =>
    .bind (inSessionOf_blind _ _ (resolveParagraph_blind _ _ fun _ => .pure _)) fun _ => .pure _

theorem repetitionOf_blind (pending : PendingRepeat) :
    Blind related (repetitionOf settings handler pending) := by
  unfold repetitionOf
  split
  · exact .bind (node_blind _) fun _ => .bind (.lift _) fun _ => .mapM fun _ => plantTree_blind _
  · exact .bind (.mapM fun _ => .bind (.lift _) fun _ => .mapM fun _ => copyForItem_blind _ _ _ _)
      fun _ => .pure _

theorem commitRepeat_blind (pending : PendingRepeat) :
    Blind related (commitRepeat settings handler pending) := by
  refine .bind forest_blind fun _ => ?_
  dsimp only
  split
  · exact .throw _
  · refine .bind (repetitionOf_blind _ _ _) fun _ => .bind (note_blind _) fun _ =>
      .bind (.forM fun _ => changeForest_blind _) fun _ =>
        .bind (.forM fun _ => changeForest_blind _) fun _ => .bind (isVerbose_blind handler) fun _ => ?_
    exact saying_blind _ _

theorem pendingRepeats_blind (interface : Interface) : Blind related (pendingRepeats interface) := by
  refine .reading (fun _ _ => rfl) fun world => ?_
  split
  · exact .pure _
  · exact .pure _

theorem commitPosition_blind (size position : Nat) :
    Blind related (commitPosition settings handler size position) := by
  refine .bind (pendingRepeats_blind _) fun pending => ?_
  dsimp only
  split
  · exact .throw _
  · split
    · exact commitRepeat_blind _ _ _
    · exact .pure ()

theorem removeParagraph_blind (paragraph : Nat) : Blind related (removeParagraph paragraph) := by
  refine .bind forest_blind fun _ => ?_
  split
  · exact .throw _
  · exact changeForest_blind _

theorem removeElement_blind (element : Nat) : Blind related (removeElement element) := by
  refine .bind forest_blind fun _ => ?_
  split
  · exact .bind (node_blind element) fun _ => .throw _
  · exact changeForest_blind _

theorem commitDisplay_blind (paragraphs rows tables : List Nat) :
    Blind related (commitDisplay handler paragraphs rows tables) :=
  .bind (.forM removeParagraph_blind) fun _ => .bind (.forM removeElement_blind) fun _ =>
    .bind (isVerbose_blind handler) fun _ => saying_blind _ _

theorem commitHandler_blind : Blind related (commitHandler settings handler) := by
  unfold commitHandler
  split
  · exact .forM fun _ => commitPosition_blind _ _ _ _
  · exact commitDisplay_blind _ _ _ _
  · exact .pure ()
  · refine .bind (tell_blind _) fun _ => ?_
    split
    · exact .forM fun _ => changeForest_blind _
    · exact .pure ()

end Committing

theorem resetHandler_blind (index : Nat) : Blind related (resetHandler index) := by
  refine .reading (fun _ _ => rfl) fun world => ?_
  split
  · exact .pure ()
  · dsimp only
    split
    · exact .bind (tell_blind _) fun _ => changeHandler_blind _ _
    · exact .bind (.pure ()) fun _ => changeHandler_blind _ _

theorem resetHandlers_blind : Blind related resetHandlers :=
  .reading (fun _ _ => rfl) fun _ => .forM resetHandler_blind

/-! ## A run -/

section Dispatching

variable (dispatcher : Dispatcher) (builder : ProxyBuilder)

theorem withHandlers_blind : Blind related (withHandlers builder) := by
  refine .reading (fun _ _ => rfl) fun world => ?_
  generalize world.handlers.zipIdx = handlers
  induction handlers generalizing builder with
  | nil => exact .pure _
  | cons handler rest hypothesis =>
    rw [List.foldlM_cons]
    exact .bind (.lift _) fun _ => hypothesis _

theorem evaluateDirective_blind (expression : String) (anchor : Anchor) :
    Blind related (evaluateDirective dispatcher builder expression anchor) := by
  refine .bind (change_blind fun _ _ => rfl) fun _ => .bind (withHandlers_blind builder) fun _ =>
    .bind (.lift _) fun _ => .bind data_blind fun _ => .bind (attempt_blind _ _ _ _) fun outcome => ?_
  cases outcome with
  | resolved value =>
    cases dispatcher.verbose with
    | true => exact .bind (say_blind _) fun _ => .pure _
    | false => exact .pure _
  | unresolved expression reason => exact .bind (recordError_blind _ _ _) fun _ => .pure _

theorem pendingComment_blind (id : Option String) : Blind related (pendingComment id) := by
  refine .reading (fun _ _ => rfl) fun world => ?_
  split
  · exact .pure _
  · exact .pure _

theorem runComment_blind (paragraph : Nat) (run : Option Nat) (id : Option String) :
    Blind related (runComment dispatcher builder paragraph run id) := by
  refine .bind (pendingComment_blind id) fun found => ?_
  cases found with
  | none => exact .pure ()
  | some comment =>
    refine .bind (evaluateDirective_blind dispatcher builder _ _) fun succeeded => ?_
    cases succeeded with
    | true =>
      rw [if_pos rfl]
      exact changeSession_blind _
    | false => exact .pure ()

theorem runToken_blind (paragraph : Nat) (token : List Char) :
    Blind related (runToken dispatcher builder paragraph token) := by
  refine .bind (evaluateDirective_blind dispatcher builder _ _) fun succeeded => ?_
  cases succeeded with
  | true => exact replace_blind _ _ _ _
  | false => exact .pure ()

theorem visitParagraph_blind (paragraph : Nat) :
    Blind related (visitParagraph dispatcher builder paragraph) :=
  .bind forest_blind fun _ => .bind (runComment_blind dispatcher builder _ _ _) fun _ =>
    .bind (node_blind paragraph) fun _ => .bind (.lift _) fun _ =>
      .forM fun _ => runToken_blind dispatcher builder _ _

theorem evaluateDirectives_blind : Blind related (evaluateDirectives dispatcher builder) :=
  .reading (fun _ _ => rfl) fun _ => visit_blind (visitParagraph_blind dispatcher builder)
    (fun _ _ => .bind forest_blind fun _ => runComment_blind dispatcher builder _ _ _) _

theorem commitAt_blind (index : Nat) : Blind related (commitAt dispatcher index) := by
  refine .reading (fun _ _ => rfl) fun world => ?_
  split
  · exact .pure ()
  · have commits (handler : Handler) : Blind related (note (.committed index) >>= fun _ =>
        commitHandler dispatcher.settings handler) :=
      .bind (note_blind _) fun _ => commitHandler_blind _ _
    cases dispatcher.verbose with
    | true => exact .bind (say_blind _) fun _ => commits _
    | false => exact commits _

theorem commitHandlers_blind : Blind related (commitHandlers dispatcher) :=
  .reading (fun _ _ => rfl) fun _ => .forM (commitAt_blind dispatcher)

theorem deleteComment_blind (comment : Comment) : Blind related (deleteComment comment) := by
  refine .bind (note_blind _) fun _ => .reading (fun _ _ => rfl) fun world => ?_
  split
  · exact .pure ()
  · exact .bind forest_blind fun _ => .reading (fun _ _ => rfl) fun _ =>
      .bind (changeForest_blind _) fun _ => changeSession_blind _

end Dispatching

/-! ## Comments -/

/-- Saving a store changes at most the comments of a template, and the store in a way that does not depend on
them. -/
theorem save_veiled (store : CommentStore) (forest : Forest) (template : Template) (comments : CommentsPart) :
    store.save forest { template with comments } = ((store.save forest template).1, { (store.save forest template).2 with
      comments := (store.save forest { template with comments }).2.comments }) := by
  unfold CommentStore.save
  cases store.root with
  | none => rfl
  | some root =>
    cases store.dirty with
    | false => rfl
    | true =>
      dsimp only
      cases template.comments <;> cases comments <;> cases forest.find? root <;> rfl

theorem saveComments_blind (alike : SavedAlike related) : Blind related saveComments where
  stays _ impossible := impossible.elim
  agrees start other := by
    rintro ⟨hidden, tied, rfl⟩
    right
    cases held : start.outer.session.comments with
    | none =>
      rw [runOn_saveComments_none held, @runOn_saveComments_none (start.veiled hidden) held]
      exact ⟨rfl, hidden, tied, rfl⟩
    | some store =>
      rw [runOn_saveComments_some held, @runOn_saveComments_some (start.veiled hidden) store held]
      have saved := alike store start.outer.forest start.outer.template hidden.comments tied.comments
      refine ⟨rfl, { hidden with
        comments := (store.save start.outer.forest { start.outer.template with comments := hidden.comments }).2.comments },
        ⟨tied.prepared, tied.preparedOther, saved⟩, ?_⟩
      show Machine.mk start.store { (start.outer.veiled hidden) with
        template := (store.save start.outer.forest { start.outer.template with comments := hidden.comments }).2
        session := { start.outer.session with
          comments := (store.save start.outer.forest { start.outer.template with comments := hidden.comments }).1 } } = _
      rw [save_veiled]
      rfl

/-- What a run does with the directives of a document whose comments have been read. -/
def followDirectives (dispatcher : Dispatcher) (builder : ProxyBuilder) : Engine Unit := do
  joinSession
  evaluateDirectives dispatcher builder
  commitHandlers dispatcher
  (← world).session.consumed.forM deleteComment
  saveComments

theorem runDirectives_eq_follow (dispatcher : Dispatcher) (builder : ProxyBuilder) :
    runDirectives dispatcher builder = loadComments >>= fun _ => followDirectives dispatcher builder := rfl

theorem followDirectives_blind (alike : SavedAlike related) (dispatcher : Dispatcher) (builder : ProxyBuilder) :
    Blind related (followDirectives dispatcher builder) :=
  .bind (change_blind fun _ _ => rfl) fun _ => .bind (evaluateDirectives_blind dispatcher builder) fun _ =>
    .bind (commitHandlers_blind dispatcher) fun _ => .reading (fun _ _ => rfl) fun _ =>
      .bind (.forM deleteComment_blind) fun _ => saveComments_blind alike

/-- Runs something, and makes all handlers forget what they were asked for however that ends. -/
def resetting (body : Engine Unit) : Engine Unit := do
  try body
  catch fault =>
    resetHandlers
    throw fault
  resetHandlers

/-- What a stamping run does when the comments of the template have been read. -/
def stampRead (stamper : Stamper) (data : Value) : Engine Unit :=
  resetting do
    followDirectives stamper.dispatcher (stamper.functions.copy data)
    resolveDocument stamper.replacer fun _ => dataContext stamper data

section Stamping

variable (stamper : Stamper) (data : Value)

theorem resolveValues_blind :
    Blind related (resolveDocument stamper.replacer fun _ => dataContext stamper data) :=
  resolveDocument_blind _ fun _ => .bind (.lift _) fun _ => .pure _

theorem resetting_blind {body : Engine Unit} (within : Blind related body) : Blind related (resetting body) :=
  .bind (.tryCatch within fun _ => .bind resetHandlers_blind fun _ => .throw _) fun _ => resetHandlers_blind

theorem stampRead_blind (alike : SavedAlike related) : Blind related (stampRead stamper data) :=
  resetting_blind (.bind (followDirectives_blind alike _ _) fun _ => resolveValues_blind stamper data)

end Stamping

end Engine

/-! ## What is kept of expressions -/

/-- The machine that keeps something else of expressions. -/
def Machine.setUp (machine : Machine World) (configured : Bool) (compiled : List Expression.Compiled) : Machine World :=
  { machine with outer := { machine.outer with configured, compiled } }

end Imprint
