import Imprint.Proofs.RemainingComments
/-! # Two ways to keep comments

The comments of a template are a tree like the others, whose changes show at once, or they are kept on their own,
read from a copy, and put back as a whole if the copy has changed.  A stamping run does not depend on which of
them it is, and leaves the same comments. -/
set_option autoImplicit false
namespace Imprint
open Imprint.Action Xml Document Node

/-! ## Opening and reading -/

/-- Comments that are kept together with the other trees, and comments that are kept on their own. -/
def KeptApart (together apart : CommentsPart) : Prop :=
  (∃ root, together = .live root) ∧ ∃ tree, apart = .stored tree

theorem savedAlike_keptApart : SavedAlike KeptApart := by
  rintro store forest template comments ⟨⟨root, live⟩, tree, rfl⟩
  unfold CommentStore.save
  cases store.root with
  | none => exact ⟨⟨root, live⟩, tree, rfl⟩
  | some number =>
    cases store.dirty with
    | false => exact ⟨⟨root, live⟩, tree, rfl⟩
    | true =>
      dsimp only
      rw [live]
      cases forest.find? number with
      | none => exact ⟨⟨root, live⟩, tree, rfl⟩
      | some found => exact ⟨⟨root, live⟩, found, rfl⟩

/-- A package whose comments are kept together with the other trees, or on their own. -/
def Document.Package.keeping (package : Package) (apart : Bool) : Package :=
  { package with commentsApart := apart }

theorem openIn_keeping {package : Package} {comments : Node} (present : package.comments = some comments)
    (forest : Forest) : ∃ (template : Template) (opened planted : Forest) (root : Nat),
      opened.plant comments = (root, planted) ∧
      (package.keeping false).openIn forest = ({ template with comments := .live root }, planted) ∧
      (package.keeping true).openIn forest = ({ template with comments := .stored comments }, opened) := by
  unfold Package.openIn Package.keeping
  dsimp only
  rw [present]
  exact ⟨⟨_, _, _, .none⟩, _, _, _, rfl, rfl, rfl⟩

theorem openIn_keeping_none {package : Package} (missing : package.comments = none) (apart : Bool) (forest : Forest) :
    (package.keeping apart).openIn forest = (package.keeping false).openIn forest := by
  unfold Package.openIn Package.keeping
  dsimp only
  rw [missing]

/-- Comments that are kept on their own are planted when they are read, and then read like a live tree. -/
theorem load_keeping {comments : Node} {opened planted : Forest} {root : Nat} {template : Template}
    (plants : opened.plant comments = (root, planted)) :
    CommentStore.load opened { template with comments := .stored comments } =
      CommentStore.load planted { template with comments := .live root } := by
  unfold CommentStore.load
  simp only [plants]

theorem ofTemplate_stored {world : World} {hidden : Hidden} {tree : Node} (apart : hidden.comments = .stored tree)
    (same : Package.commentsOf world.forest hidden.comments = Package.commentsOf world.forest world.template.comments) :
    Package.ofTemplate (world.veiled hidden).template (world.veiled hidden).forest =
      (Package.ofTemplate world.template world.forest).keeping true := by
  rw [apart] at same
  unfold World.veiled
  rw [apart]
  exact congrArg (fun comments => (⟨_, _, _, comments, true⟩ : Package)) same

theorem ofTemplate_without {template : Template} {forest : Forest}
    (without : Package.commentsOf forest template.comments = none) :
    Package.ofTemplate template forest = (Package.ofTemplate template forest).keeping false := by
  obtain ⟨body, headers, footers, comments⟩ := template
  cases comments with
  | none => rfl
  | live root => cases without
  | stored tree => cases without

namespace Engine

/-- What a stamper tells about the comments that it has read. -/
def announce (stamper : Stamper) : Engine Unit := do
  if stamper.verbose then
    let count := (((← world).session.comments.map CommentStore.pendingIds).getD []).length
    say ("[Stamp] " ++ toString count ++ " comment(s) in template").toList

theorem announce_blind {related : CommentsPart → CommentsPart → Prop} (stamper : Stamper) :
    Blind related (announce stamper) := by
  unfold announce
  split
  · exact .reading (fun _ _ => rfl) fun _ => say_blind _
  · exact .pure ()

theorem runOn_prepare (stamper : Stamper) (machine : Machine World) : runOn (prepare stamper) machine =
    runOn (announce stamper) { machine with outer := { machine.outer with
      forest := (CommentStore.load machine.outer.forest machine.outer.template).2
      session := { Session.start stamper.verbose with
        comments := some (CommentStore.load machine.outer.forest machine.outer.template).1 } } } := by
  have loads := @runOn_loadComments_unread { machine with outer := { machine.outer with
    session := Session.start stamper.verbose } } rfl
  have whole : prepare stamper = changeSession (fun _ => Session.start stamper.verbose) >>= fun _ =>
    loadComments >>= fun _ => announce stamper := rfl
  rw [whole, runOn_bind, runOn_changeSession]
  dsimp only
  rw [runOn_bind, loads]

/-- When their comments have been read, documents that keep them in different ways differ in nothing else. -/
theorem prepare_together {package : Package} {comments : Node} (present : package.comments = some comments)
    (handlers : List Handler) (additional : Expression.Scope) (store : Store) (stamper : Stamper) :
    (veiling KeptApart).together
      (runOn (prepare stamper) ⟨store, World.ofPackage (package.keeping false) handlers additional⟩).2
      (runOn (prepare stamper) ⟨store, World.ofPackage (package.keeping true) handlers additional⟩).2 := by
  obtain ⟨template, opened, planted, root, plants, live, stored⟩ := openIn_keeping present .empty
  rw [runOn_prepare, runOn_prepare]
  unfold World.ofPackage
  rw [live, stored]
  dsimp only
  rw [load_keeping plants]
  refine (Blind.agree (announce_blind stamper) ?_).2
  exact ⟨⟨false, [], .stored comments⟩, ⟨.fresh, .fresh, ⟨root, rfl⟩, comments, rfl⟩, rfl⟩

/-! ## Runs side by side -/

/-- Runs on documents that differ in how their comments are kept differ in nothing else, and leave the same of the
comments. -/
theorem stampRead_either_way {store storeApart : CommentStore} {part partApart : Option Node}
    {left right : Machine World} (together : (veiling KeptApart).together left right)
    (ready : Ready store part left.outer) (readyApart : Ready storeApart partApart right.outer) (stamper : Stamper)
    (data : Value) :
    (runOn (stampRead stamper data) right).1 = (runOn (stampRead stamper data) left).1 ∧
      ∃ hidden, (runOn (stampRead stamper data) right).2 = (runOn (stampRead stamper data) left).2.veiled hidden ∧
        KeptApart (runOn (stampRead stamper data) left).2.outer.template.comments hidden.comments ∧
        Package.commentsOf (runOn (stampRead stamper data) left).2.outer.forest hidden.comments =
          Package.commentsOf (runOn (stampRead stamper data) left).2.outer.forest
            (runOn (stampRead stamper data) left).2.outer.template.comments := by
  obtain ⟨sameDirected, _, -, directed⟩ := (followDirectives_blind savedAlike_keptApart stamper.dispatcher
    (stamper.functions.copy data)).agree together
  obtain ⟨same, hidden, tied, stamped⟩ := (stampRead_blind stamper data savedAlike_keptApart).agree together
  have leftComments := stampRead_comments ready stamper data
  have rightComments := stampRead_comments readyApart stamper data
  obtain ⟨_, -, isRight⟩ := together
  -- What was read tells what is left, and both have read the same.
  have samePart : partApart = part := by
    rw [ready.commentsTree, readyApart.commentsTree, isRight]
    rfl
  dsimp only at leftComments rightComments
  rw [stamped, directed, samePart, ← sameDirected] at rightComments
  exact ⟨same.symm, hidden, stamped, tied.comments, rightComments.trans leftComments.symm⟩

/-- Documents that keep their comments in different ways are stamped alike: with the same fault or none, the same
errors and diagnostics, and the same parts.  The comments are kept as they were. -/
theorem stamp_kept_either_way (package : Package) (registrations : List Handler)
    (standard : ∀ handler ∈ registrations, handler ∈ Handler.standard) (additional : Expression.Scope) (store : Store)
    (stamper : Stamper) (data : Value) :
    let run (apart : Bool) := runOn (stamp stamper data)
      ⟨store, World.ofPackage (package.keeping apart) (registered registrations) additional⟩
    let stamped (apart : Bool) := Package.ofTemplate (run apart).2.outer.template (run apart).2.outer.forest
    (run true).1 = (run false).1 ∧ (run true).2.outer.session.errors = (run false).2.outer.session.errors ∧
      (run true).2.outer.diagnostics = (run false).2.outer.diagnostics ∧
      stamped true = (stamped false).keeping package.comments.isSome := by
  intro run stamped
  have ready (apart : Bool) := @prepare_ready
    ⟨store, World.ofPackage (package.keeping apart) (registered registrations) additional⟩ stamper
    (World.ofPackage_opened _ _ _) rfl (standard_idle standard)
  obtain ⟨readApart, storeApart, partApart, preparesApart, isReadyApart, -⟩ := ready true
  obtain ⟨read, comments, part, prepares, isReady, copies⟩ := ready false
  have ranApart : run true = _ := runOn_stamp stamper data preparesApart isReadyApart.held
  have ran : run false = _ := runOn_stamp stamper data prepares isReady.held
  cases present : package.comments with
  | none =>
    have sameWorld : World.ofPackage (package.keeping true) (registered registrations) additional =
        World.ofPackage (package.keeping false) (registered registrations) additional := by
      unfold World.ofPackage
      rw [openIn_keeping_none present]
    have same : run true = run false :=
      congrArg (fun world => runOn (stamp stamper data) (⟨store, world⟩ : Machine World)) sameWorld
    have noPart : part = none := by
      have without := copies.trans (package.keeping false).openIn_comments
      rw [Package.keeping, present] at without
      exact Option.map_eq_none_iff.mp without
    have without := @stampRead_comments comments part ⟨store, read⟩ isReady stamper data
    dsimp only at without
    rw [← ran, noPart, remaining_none] at without
    refine ⟨by rw [same], by rw [same], by rw [same], ?_⟩
    show Package.ofTemplate (run true).2.outer.template (run true).2.outer.forest = _
    rw [same]
    exact ofTemplate_without without
  | some tree =>
    have together := prepare_together present (registered registrations) additional store stamper
    rw [prepares, preparesApart] at together
    obtain ⟨same, hidden, veiled, ⟨⟨root, live⟩, last, apart⟩, sameComments⟩ :=
      stampRead_either_way together isReady isReadyApart stamper data
    rw [← ran, ← ranApart] at same veiled
    rw [← ran] at sameComments
    refine ⟨same, by rw [veiled]; rfl, by rw [veiled]; rfl, ?_⟩
    show Package.ofTemplate (run true).2.outer.template (run true).2.outer.forest = _
    rw [veiled]
    exact ofTemplate_stored apart sameComments

/-- A template with a comment, which is kept together with the other trees, or on its own. -/
def commentKept (apart : Bool) : Machine World :=
  ⟨⟨#[], 0⟩, World.ofPackage ((commented []).keeping apart) (registered Handler.standard) []⟩

theorem stamp_kept_either_way_commented :
    (runOn (stamp .plain .null) (commentKept false)).1 = .ok () ∧
      (runOn (stamp .plain .null) (commentKept false)).2.outer.session.consumed ≠ [] ∧
      (runOn (stamp .plain .null) (commentKept true)).1 = (runOn (stamp .plain .null) (commentKept false)).1 ∧
      Package.ofTemplate (runOn (stamp .plain .null) (commentKept true)).2.outer.template
          (runOn (stamp .plain .null) (commentKept true)).2.outer.forest =
        (Package.ofTemplate (runOn (stamp .plain .null) (commentKept false)).2.outer.template
          (runOn (stamp .plain .null) (commentKept false)).2.outer.forest).keeping true := by
  have returns : (runOn (stamp .plain .null) (commentKept false)).1 = .ok () := by decide +kernel
  have uses : (runOn (stamp .plain .null) (commentKept false)).2.outer.session.consumed ≠ [] := by decide +kernel
  have alike := stamp_kept_either_way (commented []) Handler.standard (fun _ member => member) [] ⟨#[], 0⟩ .plain .null
  dsimp only at alike
  have same (apart : Bool) : (⟨⟨#[], 0⟩, World.ofPackage ((commented []).keeping apart) (registered Handler.standard) []⟩ :
      Machine World) = commentKept apart := rfl
  rw [same, same] at alike
  exact ⟨returns, uses, alike.1, alike.2.2.2⟩

end Engine
end Imprint
