import Imprint.Proofs.Evaluation
import Imprint.Stamping.Stamper

/-! # Steps of a stamping run

What each elementary step gives on a machine and leaves behind.  Nothing else looks inside of them. -/
set_option autoImplicit false
namespace Imprint

/-- The state with one more event. -/
def World.noting (world : World) (event : Event) : World :=
  { world with events := event :: world.events }

@[simp] theorem World.noting_handlers (world : World) (event : Event) :
    (world.noting event).handlers = world.handlers := rfl

@[simp] theorem World.noting_forest (world : World) (event : Event) :
    (world.noting event).forest = world.forest := rfl

@[simp] theorem World.noting_session (world : World) (event : Event) :
    (world.noting event).session = world.session := rfl

@[simp] theorem World.noting_template (world : World) (event : Event) :
    (world.noting event).template = world.template := rfl

@[simp] theorem World.noting_events (world : World) (event : Event) :
    (world.noting event).events = event :: world.events := rfl

namespace Engine
open Imprint.Action Xml Document

variable {α : Type}

/-- What a computation gives and leaves, if it is known how it ends. -/
theorem runOn_ends {computation : Engine α} {machine : Machine World} {outcome : Except Fault α}
    (ends : (runOn computation machine).1 = outcome) :
    runOn computation machine = (outcome, (runOn computation machine).2) :=
  Prod.ext ends rfl

@[simp] theorem runOn_world (machine : Machine World) :
    runOn world machine = (.ok machine.outer, machine) := rfl

@[simp] theorem runOn_forest (machine : Machine World) :
    runOn forest machine = (.ok machine.outer.forest, machine) := rfl

@[simp] theorem runOn_data (machine : Machine World) :
    runOn data machine = (.ok machine.store, machine) := rfl

@[simp] theorem runOn_change (update : World → World) (machine : Machine World) :
    runOn (change update) machine = (.ok (), { machine with outer := update machine.outer }) := rfl

@[simp] theorem runOn_changeForest (update : Forest → Forest) (machine : Machine World) :
    runOn (changeForest update) machine =
      (.ok (), { machine with
        outer := { machine.outer with forest := update machine.outer.forest } }) := rfl

@[simp] theorem runOn_changeSession (update : Session → Session) (machine : Machine World) :
    runOn (changeSession update) machine =
      (.ok (), { machine with
        outer := { machine.outer with session := update machine.outer.session } }) := rfl

theorem runOn_changeHandler (index : Nat) (update : Handler → Handler) (machine : Machine World) :
    runOn (changeHandler index update) machine =
      (.ok (), { machine with outer := { machine.outer with
        handlers := machine.outer.handlers.modify index update } }) := rfl

@[simp] theorem runOn_note (event : Event) (machine : Machine World) :
    runOn (note event) machine =
      (.ok (), { machine with outer := machine.outer.noting event }) := rfl

@[simp] theorem runOn_say (message : List Char) (machine : Machine World) :
    runOn (say message) machine =
      (.ok (), { machine with
        outer := { machine.outer with
          diagnostics := ((Text.lines false [] (message ++ ['\n'])).map String.ofList).reverse ++
            machine.outer.diagnostics } }) := rfl

theorem runOn_node {machine : Machine World} {key : Nat} {found : Node}
    (present : machine.outer.forest.find? key = some found) :
    runOn (node key) machine = (.ok found, machine) := by
  have read : runOn (node key) machine =
      (.ok ((machine.outer.forest.find? key).getD (.mk key (.comment "") "" [] "")), machine) := rfl
  rw [read, present]
  rfl

theorem runOn_node_missing {machine : Machine World} {key : Nat}
    (missing : machine.outer.forest.find? key = none) :
    runOn (node key) machine = (.ok (.mk key (.comment "") "" [] ""), machine) := by
  have read : runOn (node key) machine =
      (.ok ((machine.outer.forest.find? key).getD (.mk key (.comment "") "" [] "")), machine) := rfl
  rw [read, missing]
  rfl

/-- Changes of the forest one after the other. -/
theorem runOn_forM_changeForest (items : List α) (update : α → Forest → Forest) :
    ∀ machine : Machine World, runOn (items.forM fun item => changeForest (update item)) machine =
      (.ok (), { machine with outer := { machine.outer with
        forest := items.foldl (fun forest item => update item forest) machine.outer.forest } }) := by
  induction items with
  | nil => intro machine; rfl
  | cons item rest hypothesis =>
    intro machine
    show runOn (changeForest (update item) >>= fun _ => rest.forM _) machine = _
    rw [runOn_bind, runOn_changeForest]
    dsimp only
    rw [hypothesis]
    rfl

/-- Putting content into a paragraph works on a copy of the paragraph, which then takes its place. -/
theorem runOn_replace {machine : Machine World} {paragraph : Nat} {found : Node}
    (present : machine.outer.forest.find? paragraph = some found) (replacer : Replacer)
    (wanted : List Char) (content : Value) :
    runOn (replace replacer paragraph wanted content) machine =
      match runOn (replacer.replaceIn found wanted content) machine.store with
      | (.ok changed, store) =>
          (.ok (), ⟨store, { machine.outer with
            forest := machine.outer.forest.edit paragraph fun _ => changed }⟩)
      | (.error fault, store) => (.error fault, ⟨store, machine.outer⟩) := by
  unfold replace
  rw [runOn_bind, runOn_node present]
  simp only [runOn_bind, runOn_lift]
  cases reached : runOn (replacer.replaceIn found wanted content) machine.store with
  | mk outcome store => cases outcome <;> rfl

/-! ## The comments of a template -/

theorem runOn_loadComments_unread {machine : Machine World} (unread : machine.outer.session.comments = none) :
    runOn loadComments machine = (.ok (), { machine with outer := { machine.outer with
      forest := (CommentStore.load machine.outer.forest machine.outer.template).2
      session := { machine.outer.session with
        comments := some (CommentStore.load machine.outer.forest machine.outer.template).1 } } }) := by
  unfold loadComments
  rw [runOn_bind, runOn_world]
  dsimp only
  rw [unread]
  rfl

theorem loadComments_again {machine : Machine World} {store : CommentStore}
    (held : machine.outer.session.comments = some store) : runOn loadComments machine = (.ok (), machine) := by
  unfold loadComments
  rw [runOn_bind, runOn_world]
  dsimp only
  rw [held]
  rfl

theorem runOn_saveComments_none {machine : Machine World} (missing : machine.outer.session.comments = none) :
    runOn saveComments machine = (.ok (), machine) := by
  unfold saveComments
  rw [runOn_bind, runOn_world]
  dsimp only
  rw [missing]
  rfl

theorem runOn_saveComments_some {machine : Machine World} {store : CommentStore}
    (held : machine.outer.session.comments = some store) :
    runOn saveComments machine = (.ok (), { machine with outer := { machine.outer with
      template := (store.save machine.outer.forest machine.outer.template).2
      session := { machine.outer.session with
        comments := (store.save machine.outer.forest machine.outer.template).1 } } }) := by
  unfold saveComments
  rw [runOn_bind, runOn_world]
  dsimp only
  rw [held]
  rfl

end Engine
end Imprint
