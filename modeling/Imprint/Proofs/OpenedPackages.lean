import Imprint.Proofs.EngineSteps
import Imprint.Proofs.ForestGrowth
/-! # Opened documents

Opening a package plants its parts one after the other.  So every section is a tree of the forest, and a
live tree of comments is none of the sections.  Reading the comments keeps it that way. -/
set_option autoImplicit false
namespace Imprint
open Xml Document Node

namespace Xml.Forest

theorem empty_wellFormed : empty.WellFormed where
  unique := List.nodup_nil
  bounded _ member := absurd member List.not_mem_nil

/-- Planting touches nothing. -/
theorem Planted.edited {tree copy : Node} {before after : Forest}
    (planted : Planted tree before copy after) (touched : Nat → Prop) : Edited touched before after where
  wellFormed := planted.wellFormed
  fresh := planted.advance
  found node member := by
    refine ⟨node, ?_, .refl _ _⟩
    rw [planted.nodes]
    exact List.mem_append_left _ member
  trees other member _ := by
    rw [planted.trees]
    exact List.mem_append_left _ member
  roots other member := by
    refine ⟨other, ?_, rfl⟩
    rw [planted.trees]
    exact List.mem_append_left _ member
  old := planted.grown.old
  children found member child direct small := by
    rw [planted.nodes] at member
    rcases List.mem_append.mp member with member | member
    · exact ⟨found, member, rfl, List.mem_map.mpr ⟨child, direct, rfl⟩⟩
    · rw [← allBelow_singleton] at member
      have new := planted.fresh child.key
        (List.mem_map.mpr ⟨child, child_mem_allBelow member direct, rfl⟩)
      omega

/-- A forest with the trees of another one and perhaps more. -/
structure Extends (before after : Forest) : Prop where
  wellFormed : after.WellFormed
  positive : 0 < after.fresh
  kept : ∀ tree ∈ before.trees, tree ∈ after.trees

theorem Extends.trans {before middle after : Forest} (first : Extends before middle)
    (second : Extends middle after) : Extends before after where
  wellFormed := second.wellFormed
  positive := second.positive
  kept tree member := second.kept tree (first.kept tree member)

theorem Planted.extends {tree copy : Node} {before after : Forest}
    (planted : Planted tree before copy after) (positive : 0 < before.fresh) : Extends before after where
  wellFormed := planted.wellFormed
  positive := Nat.lt_of_lt_of_le positive planted.advance
  kept other member := by
    rw [planted.trees]
    exact List.mem_append_left _ member

/-- Whether a key is that of a tree. -/
def IsRoot (forest : Forest) (root : Nat) : Prop := ∃ tree ∈ forest.trees, tree.key = root

theorem IsRoot.extend {before after : Forest} {root : Nat} (isRoot : IsRoot before root)
    (longer : Extends before after) : IsRoot after root := by
  obtain ⟨tree, member, same⟩ := isRoot
  exact ⟨tree, longer.kept tree member, same⟩

theorem Planted.isRoot {tree copy : Node} {before after : Forest} (planted : Planted tree before copy after) :
    IsRoot after copy.key :=
  ⟨copy, by rw [planted.trees]; exact List.mem_append_right _ (List.mem_singleton_self copy), rfl⟩

theorem IsRoot.lt_fresh {forest : Forest} (wellFormed : forest.WellFormed) {root : Nat}
    (isRoot : IsRoot forest root) : root < forest.fresh := by
  obtain ⟨tree, member, rfl⟩ := isRoot
  exact wellFormed.key_lt (mem_allBelow_of_mem member)

end Xml.Forest

open Forest

namespace Document

/-- A document in a forest: every section is a tree of it, and so is a live tree of comments, which is
no section. -/
structure Opened (template : Template) (forest : Forest) : Prop where
  wellFormed : forest.WellFormed
  positive : 0 < forest.fresh
  sections : ∀ root ∈ template.roots, forest.IsRoot root
  comments : ∀ root, template.comments = .live root → forest.IsRoot root ∧ root ∉ template.roots

theorem Opened.extend {template : Template} {before after : Forest} (opened : Opened template before)
    (longer : Extends before after) : Opened template after where
  wellFormed := longer.wellFormed
  positive := longer.positive
  sections root member := (opened.sections root member).extend longer
  comments root live := ⟨(opened.comments root live).1.extend longer, (opened.comments root live).2⟩

theorem Opened.find? {template : Template} {forest : Forest} (opened : Opened template forest) {root : Nat}
    (member : root ∈ template.roots) : ∃ tree ∈ forest.trees, forest.find? root = some tree := by
  obtain ⟨tree, outermost, rfl⟩ := opened.sections root member
  exact ⟨tree, outermost, opened.wellFormed.find?_key (mem_allBelow_of_mem outermost)⟩

theorem mem_filterMap_root? {sections : List Section} {root : Nat} :
    root ∈ sections.filterMap Section.root? ↔ Section.tree root ∈ sections := by
  rw [List.mem_filterMap]
  constructor
  · rintro ⟨part, member, isTree⟩
    cases part with
    | tree other => exact Option.some.inj isTree ▸ member
    | raw => cases isTree
    | external => cases isTree
  · exact fun member => ⟨_, member, rfl⟩

theorem mem_roots {template : Template} {root : Nat} : root ∈ template.roots ↔
    Section.tree root ∈ template.headers ∨ root = template.body ∨
      Section.tree root ∈ template.footers := by
  rw [Template.roots, List.mem_eraseDups, List.mem_append, List.mem_cons, mem_filterMap_root?, mem_filterMap_root?]

/-- A part that is looked up and found to be a tree is one of the sections. -/
theorem mem_of_getElem?_getD {sections : List Section} {position root : Nat}
    (isTree : sections[position]?.getD .raw = .tree root) : Section.tree root ∈ sections := by
  cases found : sections[position]? with
  | none =>
    rw [found] at isTree
    cases isTree
  | some part =>
    rw [found] at isTree
    obtain rfl : part = .tree root := isTree
    exact List.mem_of_getElem? found

namespace Package

/-- The sections of opened parts are trees. -/
theorem openParts_extends (headers : List Section) (parts : List Part) : ∀ (opened : List Section)
    (forest : Forest), forest.WellFormed → 0 < forest.fresh →
    (∀ root, Section.tree root ∈ headers ++ opened → forest.IsRoot root) →
    Extends forest (openParts headers opened parts forest).2 ∧
      ∀ root, Section.tree root ∈ (openParts headers opened parts forest).1 →
        (openParts headers opened parts forest).2.IsRoot root := by
  induction parts with
  | nil =>
    intro opened forest wellFormed positive known
    rw [openParts]
    exact ⟨⟨wellFormed, positive, fun _ member => member⟩, fun root member =>
      known root (List.mem_append_right _ member)⟩
  | cons part rest hypothesis =>
    intro opened forest wellFormed positive known
    have without {part : Section} (harmless : ∀ root, part = .tree root → forest.IsRoot root) :
        ∀ root, Section.tree root ∈ headers ++ (opened ++ [part]) → forest.IsRoot root := by
      intro root member
      rw [← List.append_assoc, List.mem_append, List.mem_singleton] at member
      rcases member with member | same
      · exact known root member
      · exact harmless root same.symm
    cases part with
    | tree tree =>
      obtain ⟨copy, after, plants, planted⟩ := wellFormed.plant positive tree
      have longer := planted.extends positive
      simp only [openParts, plants]
      obtain ⟨others, sections⟩ := hypothesis (opened ++ [.tree copy.key]) after longer.wellFormed
        longer.positive fun root member => by
          rw [← List.append_assoc, List.mem_append, List.mem_singleton] at member
          rcases member with member | same
          · exact (known root member).extend longer
          · cases same
            exact planted.isRoot
      exact ⟨longer.trans others, sections⟩
    | raw =>
      rw [openParts]
      exact hypothesis _ forest wellFormed positive (without fun root impossible => by cases impossible)
    | external =>
      rw [openParts]
      exact hypothesis _ forest wellFormed positive (without fun root impossible => by cases impossible)
    | shared inHeaders position =>
      simp only [openParts]
      refine hypothesis _ forest wellFormed positive (without fun root isTree => known root ?_)
      split at isTree
      · exact List.mem_append_left _ (mem_of_getElem?_getD isTree)
      · exact List.mem_append_right _ (mem_of_getElem?_getD isTree)

/-- Every package opens. -/
theorem openIn_opened (package : Package) :
    Opened (package.openIn .empty).1 (package.openIn .empty).2 := by
  obtain ⟨body, first, plants, planted⟩ := empty_wellFormed.plant (by decide) package.body
  have bodyOpened := planted.extends (by decide)
  have bodyRoot : first.IsRoot body.key := planted.isRoot
  obtain ⟨headers, second, opensHeaders⟩ : ∃ headers second,
      openParts [] [] package.headers first = (headers, second) := ⟨_, _, rfl⟩
  obtain ⟨headersOpened, headerRoots⟩ := openParts_extends [] package.headers [] first
    bodyOpened.wellFormed bodyOpened.positive fun _ member => absurd member List.not_mem_nil
  rw [opensHeaders] at headersOpened headerRoots
  obtain ⟨footers, third, opensFooters⟩ : ∃ footers third,
      openParts headers [] package.footers second = (footers, third) := ⟨_, _, rfl⟩
  obtain ⟨footersOpened, footerRoots⟩ := openParts_extends headers package.footers [] second
    headersOpened.wellFormed headersOpened.positive fun root member =>
      headerRoots root (by simpa using member)
  rw [opensFooters] at footersOpened footerRoots
  have sections (comments : CommentsPart) :
      ∀ root ∈ Template.roots ⟨body.key, headers, footers, comments⟩, third.IsRoot root := by
    intro root member
    rcases mem_roots.mp member with member | rfl | member
    · exact (headerRoots root member).extend footersOpened
    · exact bodyRoot.extend (headersOpened.trans footersOpened)
    · exact footerRoots root member
  have withoutComments {comments : CommentsPart} (notLive : ∀ root, comments ≠ .live root) :
      Opened ⟨body.key, headers, footers, comments⟩ third :=
    ⟨footersOpened.wellFormed, footersOpened.positive, sections comments,
      fun root live => absurd live (notLive root)⟩
  simp only [openIn, plants, opensHeaders, opensFooters]
  cases comments : package.comments with
  | none => exact withoutComments (by intro root impossible; cases impossible)
  | some tree =>
    cases package.commentsApart with
    | true => exact withoutComments (by intro root impossible; cases impossible)
    | false =>
      obtain ⟨root, last, plantsComments, plantedComments⟩ :=
        footersOpened.wellFormed.plant footersOpened.positive tree
      have longer := plantedComments.extends footersOpened.positive
      simp only [plantsComments, Bool.false_eq_true, ↓reduceIte]
      refine ⟨longer.wellFormed, longer.positive, fun other member =>
        (sections _ other member).extend longer, ?_⟩
      rintro other ⟨⟩
      refine ⟨plantedComments.isRoot, fun member => ?_⟩
      have old := (sections _ root.key member).lt_fresh footersOpened.wellFormed
      have new := plantedComments.key_fresh
      omega

/-- A planted tree can be taken out again. -/
theorem treeOf_plant {forest : Forest} {tree : Node} (wellFormed : (forest.plant tree).2.WellFormed) :
    treeOf (forest.plant tree).2 (forest.plant tree).1 = tree.copied := by
  obtain ⟨copy, next, numbered⟩ : ∃ copy next, tree.copied.number forest.fresh = (copy, next) := ⟨_, _, rfl⟩
  have same := copied_number tree.copied forest.fresh
  have plants : forest.plant tree = (copy.key, ⟨forest.trees ++ [copy], next⟩) := by
    simp only [plant, numbered]
  rw [plants] at wellFormed ⊢
  rw [numbered, copied_copied] at same
  have outermost : copy ∈ forest.trees ++ [copy] := by simp
  rw [treeOf, wellFormed.find?_key (mem_allBelow_of_mem outermost)]
  exact same

/-- The comments of an opened package are those of the package. -/
theorem openIn_comments (package : Package) :
    commentsOf (package.openIn .empty).2 (package.openIn .empty).1.comments = package.comments.map copied := by
  have opened := package.openIn_opened.wellFormed
  unfold openIn at opened ⊢
  dsimp only at opened ⊢
  cases comments : package.comments with
  | none => rfl
  | some tree =>
    rw [comments] at opened
    cases apart : package.commentsApart with
    | true => rfl
    | false =>
      rw [apart] at opened
      exact congrArg some (treeOf_plant opened)

/-- A document in a longer forest has the same comments. -/
theorem commentsOf_extend {template : Template} {before after : Forest} (opened : Opened template before)
    (longer : Extends before after) :
    commentsOf after template.comments = commentsOf before template.comments := by
  cases comments : template.comments with
  | none => rfl
  | stored tree => rfl
  | live root =>
    obtain ⟨⟨tree, outermost, rfl⟩, -⟩ := opened.comments root comments
    rw [commentsOf, commentsOf, treeOf, treeOf, opened.wellFormed.find?_key (mem_allBelow_of_mem outermost),
      longer.wellFormed.find?_key (mem_allBelow_of_mem (longer.kept tree outermost))]

end Package

end Document

open Document

theorem World.ofPackage_opened (package : Package) (handlers : List Handler)
    (additional : Expression.Scope) :
    Opened (World.ofPackage package handlers additional).template
      (World.ofPackage package handlers additional).forest :=
  package.openIn_opened

namespace Engine
open Imprint.Action

/-- What reading the comments leaves: nothing has been touched, and the template is as it was. -/
structure Loaded (before after : World) : Prop where
  extended : Extends before.forest after.forest
  edited : ∀ touched, Forest.Edited touched before.forest after.forest
  template : after.template = before.template
  handlers : after.handlers = before.handlers
  events : after.events = before.events
  consumed : after.session.consumed = before.session.consumed

theorem runOn_loadComments {machine : Machine World}
    (opened : Opened machine.outer.template machine.outer.forest) :
    ∃ after, runOn loadComments machine = (.ok (), { machine with outer := after }) ∧
      Loaded machine.outer after := by
  have same : Extends machine.outer.forest machine.outer.forest :=
    ⟨opened.wellFormed, opened.positive, fun _ member => member⟩
  unfold loadComments
  rw [runOn_bind, runOn_world]
  dsimp only
  split
  · rw [runOn_bind, runOn_forest]
    dsimp only
    rw [runOn_bind, runOn_world]
    dsimp only
    have loaded : Extends machine.outer.forest
          (CommentStore.load machine.outer.forest machine.outer.template).2 ∧
        ∀ touched, Forest.Edited touched machine.outer.forest
          (CommentStore.load machine.outer.forest machine.outer.template).2 := by
      unfold CommentStore.load
      cases machine.outer.template.comments with
      | none => exact ⟨same, fun _ => .refl opened.wellFormed⟩
      | live root =>
        dsimp only
        split
        · exact ⟨same, fun _ => .refl opened.wellFormed⟩
        · exact ⟨same, fun _ => .refl opened.wellFormed⟩
      | stored tree =>
        obtain ⟨copy, after, plants, planted⟩ := opened.wellFormed.plant opened.positive tree
        simp only [plants]
        split
        · exact ⟨planted.extends opened.positive, planted.edited⟩
        · exact ⟨planted.extends opened.positive, planted.edited⟩
    exact ⟨_, rfl, loaded.1, loaded.2, rfl, rfl, rfl, rfl⟩
  · exact ⟨_, rfl, same, fun _ => .refl opened.wellFormed, rfl, rfl, rfl, rfl⟩

end Engine
end Imprint
