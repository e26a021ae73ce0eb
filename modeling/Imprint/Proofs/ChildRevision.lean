import Imprint.Proofs.NodeNumbering
/-! # Revisions of children

An edit drops nodes, adds nodes that have no keys yet, and goes into some of the nodes that stay.  What
was dropped is found again among the missing pieces, so that no key is lost and none comes up twice. -/
set_option autoImplicit false
namespace Imprint.Xml.Node

/-- Some nodes after an edit: of the old ones some are kept as they are, some are dropped, and those that
`touched` allows for may have their children edited; new ones have no keys. -/
inductive Revised (touched : Nat → Prop) : List Node → List Node → Prop where
  | nil : Revised touched [] []
  | keep {old new : List Node} (node : Node) (rest : Revised touched old new) :
      Revised touched (node :: old) (node :: new)
  | drop {old new : List Node} (node : Node) (rest : Revised touched old new) :
      Revised touched (node :: old) new
  | add {old new : List Node} (node : Node) (unkeyed : ∀ number ∈ keysOf [node], number = 0)
      (rest : Revised touched old new) : Revised touched old (node :: new)
  | inside {old new children : List Node} (node : Node) (may : touched node.key)
      (below : Revised touched node.children children) (rest : Revised touched old new) :
      Revised touched (node :: old) (node.withChildren children :: new)

/-- The nodes and everything below them have no keys. -/
def Unkeyed (nodes : List Node) : Prop :=
  ∀ number ∈ keysOf nodes, number = 0

theorem keysOf_append (first second : List Node) :
    keysOf (first ++ second) = keysOf first ++ keysOf second := by
  simp [keysOf, allBelow_append]

theorem keysOf_cons (node : Node) (rest : List Node) :
    keysOf (node :: rest) = node.key :: (keysOf node.children ++ keysOf rest) := by
  simp [keysOf, allBelow_cons]

theorem Unkeyed.append {first second : List Node} (left : Unkeyed first) (right : Unkeyed second) :
    Unkeyed (first ++ second) := by
  intro number member
  rw [keysOf_append] at member
  rcases List.mem_append.mp member with member | member
  · exact left number member
  · exact right number member

theorem Unkeyed.cons_iff {node : Node} {rest : List Node} :
    Unkeyed (node :: rest) ↔ Unkeyed [node] ∧ Unkeyed rest := by
  constructor
  · intro whole
    have joined : Unkeyed ([node] ++ rest) := whole
    refine ⟨fun number member => joined number ?_, fun number member => joined number ?_⟩
    · rw [keysOf_append]
      exact List.mem_append_left _ member
    · rw [keysOf_append]
      exact List.mem_append_right _ member
  · rintro ⟨first, second⟩
    exact first.append second

/-- Copies have no keys. -/
theorem unkeyed_copiedAll (nodes : List Node) : Unkeyed (copiedAll nodes) := by
  induction nodes using nodes_induction with
  | nil => intro number member; simp [copiedAll, keysOf] at member
  | cons own label lead inner tail rest below beside =>
    intro number member
    rw [copiedAll, copied, keysOf_cons] at member
    rcases List.mem_cons.mp member with here | member
    · exact here
    · rcases List.mem_append.mp member with inside | outside
      · exact below number inside
      · exact beside number outside

theorem unkeyed_copied (node : Node) : Unkeyed [node.copied] := by
  have copies := unkeyed_copiedAll [node]
  simpa [copiedAll] using copies

namespace Revised

variable {touched : Nat → Prop} {old new : List Node}

theorem refl (nodes : List Node) : Revised touched nodes nodes := by
  induction nodes with
  | nil => exact .nil
  | cons node rest hypothesis => exact .keep node hypothesis

theorem mono {other : Nat → Prop} (implies : ∀ number, touched number → other number)
    (revised : Revised touched old new) : Revised other old new := by
  induction revised with
  | nil => exact .nil
  | keep node rest hypothesis => exact .keep node hypothesis
  | drop node rest hypothesis => exact .drop node hypothesis
  | add node unkeyed rest hypothesis => exact .add node unkeyed hypothesis
  | inside node may below rest inner hypothesis => exact .inside node (implies _ may) inner hypothesis

theorem addAll {added : List Node} (unkeyed : Unkeyed added) (revised : Revised touched old new) :
    Revised touched old (added ++ new) := by
  induction added with
  | nil => exact revised
  | cons node rest hypothesis =>
    obtain ⟨first, others⟩ := Unkeyed.cons_iff.mp unkeyed
    exact .add node first (hypothesis others)

/-- An edit may drop nodes of an edit. -/
theorem filter (revised : Revised touched old new) (test : Node → Bool) :
    Revised touched old (new.filter test) := by
  induction revised with
  | nil => exact .nil
  | keep node rest hypothesis =>
    rw [List.filter_cons]
    split
    · exact .keep node hypothesis
    · exact .drop node hypothesis
  | drop node rest hypothesis => exact .drop node hypothesis
  | add node unkeyed rest hypothesis =>
    rw [List.filter_cons]
    split
    · exact .add node unkeyed hypothesis
    · exact hypothesis
  | inside node may below rest inner hypothesis =>
    rw [List.filter_cons]
    split
    · exact .inside node may below hypothesis
    · exact .drop node hypothesis

/-- An edit may put new nodes anywhere into an edit. -/
theorem insert (revised : Revised touched old new) {added : List Node} (unkeyed : Unkeyed added) :
    ∀ position : Nat, Revised touched old (new.take position ++ added ++ new.drop position) := by
  induction revised with
  | nil =>
    intro position
    simpa using addAll unkeyed .nil
  | keep node rest hypothesis =>
    intro position
    cases position with
    | zero => exact addAll unkeyed (.keep node rest)
    | succ position => exact .keep node (hypothesis position)
  | drop node rest hypothesis =>
    intro position
    exact .drop node (hypothesis position)
  | add node free rest hypothesis =>
    intro position
    cases position with
    | zero => exact addAll unkeyed (.add node free rest)
    | succ position => exact .add node free (hypothesis position)
  | inside node may below rest inner hypothesis =>
    intro position
    cases position with
    | zero => exact addAll unkeyed (.inside node may below rest)
    | succ position => exact .inside node may below (hypothesis position)

/-- The keys after an edit are old ones. -/
theorem keys_subset (revised : Revised touched old new) :
    ∀ number ∈ keysOf new, number ∈ keysOf old ∨ number = 0 := by
  induction revised with
  | nil => intro number member; exact .inl member
  | keep node rest hypothesis =>
    intro number member
    rw [keysOf_cons] at member ⊢
    simp only [List.mem_cons, List.mem_append] at member ⊢
    rcases member with here | inside | outside
    · exact .inl (.inl here)
    · exact .inl (.inr (.inl inside))
    · exact (hypothesis number outside).imp_left fun member => .inr (.inr member)
  | drop node rest hypothesis =>
    intro number member
    rw [keysOf_cons]
    exact (hypothesis number member).imp_left fun member =>
      List.mem_cons_of_mem _ (List.mem_append_right _ member)
  | @add old new node unkeyed rest hypothesis =>
    intro number member
    have split : keysOf (node :: new) = keysOf [node] ++ keysOf new := keysOf_append [node] new
    rw [split] at member
    rcases List.mem_append.mp member with member | member
    · exact .inr (unkeyed number member)
    · exact hypothesis number member
  | inside node may below rest inner hypothesis =>
    intro number member
    rw [keysOf_cons] at member ⊢
    simp only [List.mem_cons, List.mem_append, children_withChildren, key_withChildren] at member ⊢
    rcases member with here | inside | outside
    · exact .inl (.inl here)
    · exact (inner number inside).imp_left fun member => .inr (.inl member)
    · exact (hypothesis number outside).imp_left fun member => .inr (.inr member)

theorem not_mem (revised : Revised touched old new) {number : Nat} (absent : number ∉ keysOf old)
    (keyed : number ≠ 0) : number ∉ keysOf new :=
  fun member => (revised.keys_subset number member).elim absent keyed

end Revised

namespace Revised

variable {touched : Nat → Prop} {old new : List Node}

/-- The outermost nodes after an edit that have keys were among the outermost before. -/
theorem outermost (revised : Revised touched old new) :
    ∀ node ∈ new, node.key ≠ 0 → node.key ∈ old.map key := by
  induction revised with
  | nil => intro node member; cases member
  | keep first rest hypothesis =>
    intro node member keyed
    rcases List.mem_cons.mp member with rfl | member
    · exact List.mem_cons_self
    · exact List.mem_cons_of_mem _ (hypothesis node member keyed)
  | drop first rest hypothesis =>
    intro node member keyed
    exact List.mem_cons_of_mem _ (hypothesis node member keyed)
  | add first unkeyed rest hypothesis =>
    intro node member keyed
    rcases List.mem_cons.mp member with rfl | member
    · exact absurd (unkeyed _ (by simp [keysOf, allBelow_cons])) keyed
    · exact hypothesis node member keyed
  | inside first may below rest inner hypothesis =>
    intro node member keyed
    rcases List.mem_cons.mp member with rfl | member
    · exact List.mem_cons_self
    · exact List.mem_cons_of_mem _ (hypothesis node member keyed)

/-- No node gets a child with a key that it did not have. -/
theorem children (revised : Revised touched old new) :
    ∀ found ∈ allBelow new, ∀ child ∈ found.children, child.key ≠ 0 →
      ∃ node ∈ allBelow old, node.key = found.key ∧ child.key ∈ node.children.map key := by
  induction revised with
  | nil => intro found member; simp at member
  | @keep old new first rest hypothesis =>
    intro found member child direct keyed
    rw [allBelow_cons] at member
    have same (place : found ∈ allBelow (first :: old)) :
        ∃ node ∈ allBelow (first :: old), node.key = found.key ∧ child.key ∈ node.children.map key :=
      ⟨found, place, rfl, List.mem_map.mpr ⟨child, direct, rfl⟩⟩
    rcases List.mem_cons.mp member with rfl | member
    · exact same (by simp [allBelow_cons])
    · rcases List.mem_append.mp member with inside | outside
      · exact same (by simp [allBelow_cons, inside])
      · obtain ⟨node, place, rest⟩ := hypothesis found outside child direct keyed
        exact ⟨node, by simp [allBelow_cons, place], rest⟩
  | drop first rest hypothesis =>
    intro found member child direct keyed
    obtain ⟨node, place, rest⟩ := hypothesis found member child direct keyed
    exact ⟨node, by simp [allBelow_cons, place], rest⟩
  | @add old new first unkeyed rest hypothesis =>
    intro found member child direct keyed
    have split : allBelow (first :: new) = allBelow [first] ++ allBelow new :=
      allBelow_append [first] new
    rw [split] at member
    rcases List.mem_append.mp member with inside | outside
    · have below := child_mem_allBelow inside direct
      exact absurd (unkeyed _ (List.mem_map.mpr ⟨child, below, rfl⟩)) keyed
    · exact hypothesis found outside child direct keyed
  | inside first may below rest inner hypothesis =>
    intro found member child direct keyed
    rw [allBelow_cons, children_withChildren] at member
    rcases List.mem_cons.mp member with rfl | member
    · exact ⟨first, by simp [allBelow_cons], rfl, below.outermost child direct keyed⟩
    · rcases List.mem_append.mp member with inside | outside
      · obtain ⟨node, place, rest⟩ := inner found inside child direct keyed
        exact ⟨node, by simp [allBelow_cons, place], rest⟩
      · obtain ⟨node, place, rest⟩ := hypothesis found outside child direct keyed
        exact ⟨node, by simp [allBelow_cons, place], rest⟩

end Revised

/-! ## Missing pieces -/

/-- What is missing comes from the nodes. -/
theorem missingFromAll_subset (kept : List Nat) (nodes : List Node) :
    allBelow (missingFromAll kept nodes) ⊆ allBelow nodes := by
  induction nodes using nodes_induction with
  | nil => intro node member; simp [missingFromAll] at member
  | cons own label lead inner tail rest below beside =>
    intro node member
    rw [missingFromAll, allBelow_append] at member
    rw [allBelow_cons]
    rcases List.mem_append.mp member with inside | outside
    · rw [missingFrom] at inside
      split at inside
      · exact List.mem_cons_of_mem _ (List.mem_append_left _ (below inside))
      · rw [allBelow_singleton, selfAndBelow_eq] at inside
        rcases List.mem_cons.mp inside with rfl | inside
        · exact List.mem_cons_self
        · exact List.mem_cons_of_mem _ (List.mem_append_left _ inside)
    · exact List.mem_cons_of_mem _ (List.mem_append_right _ (beside outside))

/-- Nothing is missing where everything is kept. -/
theorem missingFromAll_kept (kept : List Nat) (nodes : List Node) :
    (∀ number ∈ keysOf nodes, number ∈ kept) → missingFromAll kept nodes = [] := by
  induction nodes using nodes_induction with
  | nil => intro all; rfl
  | cons own label lead inner tail rest below beside =>
    intro all
    simp only [keysOf_cons, Node.key, Node.children, List.mem_cons, List.mem_append] at all
    have here : kept.contains own = true := by simpa using all own (.inl rfl)
    simp only [missingFromAll, missingFrom, here, if_true]
    rw [below fun number member => all number (.inr (.inl member)),
      beside fun number member => all number (.inr (.inr member))]
    rfl

/-- Nothing of a node is missing but what is missing below it, if the node itself is kept. -/
theorem missingFrom_kept {kept : List Nat} {node : Node} (present : node.key ∈ kept) :
    missingFrom kept node = missingFromAll kept node.children := by
  cases node with
  | mk own label lead inner tail =>
    have present : kept.contains own = true := List.contains_iff_mem.mpr present
    simp only [missingFrom, present, if_true]
    rfl

theorem missingFrom_gone {kept : List Nat} {node : Node} (absent : node.key ∉ kept) :
    missingFrom kept node = [node] := by
  cases node with
  | mk own label lead inner tail =>
    have absent : kept.contains own = false :=
      Bool.eq_false_iff.mpr fun present => absent (List.contains_iff_mem.mp present)
    simp only [missingFrom, absent, Bool.false_eq_true, if_false]

/-- What an edit left of a node: another node with its head, and with its outline unless the edit may
have gone into it. -/
def StandsFor (touched : Nat → Prop) (found node : Node) : Prop :=
  found.head = node.head ∧ (¬ touched node.key → found.outline = node.outline)

theorem StandsFor.refl (touched : Nat → Prop) (node : Node) : StandsFor touched node node :=
  ⟨rfl, fun _ => rfl⟩

/-- Nodes after an edit, and the missing pieces, hold what is left of every node from before, and no key
comes up more often than before. -/
structure Accounted (touched : Nat → Prop) (old new missing : List Node) : Prop where
  count : ∀ wanted : Nat, 0 < wanted →
    (keysOf new).count wanted + (keysOf missing).count wanted = (keysOf old).count wanted
  found : ∀ node ∈ allBelow old, ∃ found ∈ allBelow new ++ allBelow missing,
    StandsFor touched found node

theorem count_cons (node : Node) (rest : List Node) (wanted : Nat) :
    (keysOf (node :: rest)).count wanted =
      (keysOf [node]).count wanted + (keysOf rest).count wanted := by
  have split : keysOf (node :: rest) = keysOf [node] ++ keysOf rest := keysOf_append [node] rest
  rw [split, List.count_append]

namespace Accounted

variable {touched : Nat → Prop} {old new missing : List Node}

/-- What was left of some nodes is left of them behind a node that stays as it was. -/
theorem found_cons {places : List Node} (node : Node) (rest : Accounted touched old new missing)
    (own : ∀ other ∈ node :: allBelow node.children, other ∈ places)
    (others : ∀ other ∈ allBelow new ++ allBelow missing, other ∈ places) :
    ∀ other ∈ allBelow (node :: old), ∃ found ∈ places, StandsFor touched found other := by
  intro other member
  rw [allBelow_cons, ← List.cons_append] at member
  rcases List.mem_append.mp member with inside | outside
  · exact ⟨other, own other inside, .refl _ _⟩
  · obtain ⟨found, place, same⟩ := rest.found other outside
    exact ⟨found, others found place, same⟩

theorem keep (node : Node) (rest : Accounted touched old new missing) :
    Accounted touched (node :: old) (node :: new) missing where
  count wanted keyed := by
    have others := rest.count wanted keyed
    rw [count_cons node new, count_cons node old]
    omega
  found := by
    rw [allBelow_cons node new]
    refine rest.found_cons node (fun other inside => ?_) fun other place => ?_
    · rw [← List.cons_append]
      exact List.mem_append_left _ (List.mem_append_left _ inside)
    · rcases List.mem_append.mp place with place | place
      · simp [place]
      · simp [place]

theorem drop (node : Node) (rest : Accounted touched old new missing) :
    Accounted touched (node :: old) new (node :: missing) where
  count wanted keyed := by
    have others := rest.count wanted keyed
    rw [count_cons node missing, count_cons node old]
    omega
  found := by
    rw [allBelow_cons node missing]
    refine rest.found_cons node (fun other inside => ?_) fun other place => ?_
    · rw [← List.cons_append]
      exact List.mem_append_right _ (List.mem_append_left _ inside)
    · rcases List.mem_append.mp place with place | place
      · simp [place]
      · simp [place]

theorem add (node : Node) (unkeyed : Unkeyed [node]) (rest : Accounted touched old new missing) :
    Accounted touched old (node :: new) missing where
  count wanted keyed := by
    have others := rest.count wanted keyed
    have absent : (keysOf [node]).count wanted = 0 := by
      refine List.count_eq_zero.mpr fun member => ?_
      have zero := unkeyed wanted member
      omega
    rw [count_cons node new]
    omega
  found other member := by
    obtain ⟨found, place, same⟩ := rest.found other member
    rw [allBelow_cons]
    rcases List.mem_append.mp place with place | place
    · exact ⟨found, by simp [place], same⟩
    · exact ⟨found, by simp [place], same⟩

theorem inside (node : Node) (may : touched node.key) {children missingBelow : List Node}
    (below : Accounted touched node.children children missingBelow)
    (rest : Accounted touched old new missing) :
    Accounted touched (node :: old) (node.withChildren children :: new)
      (missingBelow ++ missing) where
  count wanted keyed := by
    have inner := below.count wanted keyed
    have others := rest.count wanted keyed
    simp only [keysOf_cons, keysOf_append, children_withChildren, key_withChildren, List.count_cons,
      List.count_append]
    omega
  found other member := by
    rw [allBelow_cons] at member
    rw [allBelow_cons, allBelow_append, children_withChildren]
    rcases List.mem_cons.mp member with rfl | member
    · exact ⟨_, by simp, head_withChildren other children, fun free => absurd may free⟩
    · rcases List.mem_append.mp member with within | outside
      · obtain ⟨found, place, same⟩ := below.found other within
        rcases List.mem_append.mp place with place | place
        · exact ⟨found, by simp [place], same⟩
        · exact ⟨found, by simp [place], same⟩
      · obtain ⟨found, place, same⟩ := rest.found other outside
        rcases List.mem_append.mp place with place | place
        · exact ⟨found, by simp [place], same⟩
        · exact ⟨found, by simp [place], same⟩

end Accounted

theorem nodup_keysOf_cons {node : Node} {rest : List Node} (unique : (keysOf (node :: rest)).Nodup) :
    (keysOf [node]).Nodup ∧ (keysOf node.children).Nodup ∧ (keysOf rest).Nodup ∧
      node.key ∉ keysOf node.children ∧ ∀ number ∈ keysOf [node], number ∉ keysOf rest := by
  have split : keysOf (node :: rest) = keysOf [node] ++ keysOf rest := keysOf_append [node] rest
  rw [split, List.nodup_append] at unique
  have own : keysOf [node] = node.key :: keysOf node.children := by simp [keysOf, allBelow_cons]
  have inner := unique.1
  rw [own, List.nodup_cons] at inner
  exact ⟨unique.1, inner.2, unique.2.1, inner.1,
    fun number member other => unique.2.2 number member number other rfl⟩

/-- After an edit everything is accounted for, if `kept` lists the keys that are still there. -/
theorem Revised.accounted {touched : Nat → Prop} {old new : List Node}
    (revised : Revised touched old new) (kept : List Nat) :
    (keysOf old).Nodup → 0 ∉ keysOf old →
      (∀ number ∈ keysOf old, (number ∈ kept ↔ number ∈ keysOf new)) →
        Accounted touched old new (missingFromAll kept old) := by
  -- On the edit: in each case `kept` still lists the keys of what is left behind the first node, since no key
  -- comes up both in the first node and behind it.
  induction revised with
  | nil =>
    intro unique keyed agree
    exact ⟨fun wanted positive => by simp [keysOf, missingFromAll], fun node member => by
      simp at member⟩
  | @keep old new node rest hypothesis =>
    intro unique keyed agree
    obtain ⟨-, -, uniqueRest, -, apart⟩ := nodup_keysOf_cons unique
    have split (nodes : List Node) : keysOf (node :: nodes) = keysOf [node] ++ keysOf nodes :=
      keysOf_append [node] nodes
    have here : missingFrom kept node = [] := by
      have stays (number : Nat) (member : number ∈ keysOf [node]) : number ∈ kept :=
        (agree number (by rw [split]; exact List.mem_append_left _ member)).mpr
          (by rw [split]; exact List.mem_append_left _ member)
      simpa [missingFromAll] using missingFromAll_kept kept [node] stays
    rw [missingFromAll, here, List.nil_append]
    refine .keep node (hypothesis uniqueRest ?_ ?_)
    · intro member
      exact keyed (by rw [split]; exact List.mem_append_right _ member)
    · intro number member
      have whole := agree number (by rw [split]; exact List.mem_append_right _ member)
      rw [whole, split, List.mem_append]
      exact or_iff_right fun inside => apart number inside member
  | @drop old new node rest hypothesis =>
    intro unique keyed agree
    obtain ⟨-, -, uniqueRest, -, apart⟩ := nodup_keysOf_cons unique
    have own : node.key ∈ keysOf [node] := by simp [keysOf, allBelow_cons]
    have split : keysOf (node :: old) = keysOf [node] ++ keysOf old := keysOf_append [node] old
    rw [split] at keyed agree
    have gone : node.key ∉ kept := by
      rw [agree node.key (List.mem_append_left _ own)]
      exact rest.not_mem (apart _ own) fun zero => keyed (zero ▸ List.mem_append_left _ own)
    rw [missingFromAll, missingFrom_gone gone, List.singleton_append]
    exact .drop node (hypothesis uniqueRest (fun member => keyed (List.mem_append_right _ member))
      fun number member => agree number (List.mem_append_right _ member))
  | @add old new node unkeyed rest hypothesis =>
    intro unique keyed agree
    refine .add node unkeyed (hypothesis unique keyed fun number member => ?_)
    have split : keysOf (node :: new) = keysOf [node] ++ keysOf new := keysOf_append [node] new
    rw [agree number member, split, List.mem_append]
    refine or_iff_right fun inside => keyed ?_
    rw [← unkeyed number inside]
    exact member
  | @inside old new children node may below rest inner hypothesis =>
    intro unique keyed agree
    obtain ⟨-, uniqueBelow, uniqueRest, ownApart, apart⟩ := nodup_keysOf_cons unique
    have ownKeys : keysOf [node] = node.key :: keysOf node.children := by
      simp [keysOf, allBelow_cons]
    rw [ownKeys] at apart
    rw [keysOf_cons] at keyed
    simp only [List.mem_cons, List.mem_append, not_or] at keyed
    have agree : ∀ number, number = node.key ∨ number ∈ keysOf node.children ∨ number ∈ keysOf old →
        (number ∈ kept ↔ number = node.key ∨ number ∈ keysOf children ∨ number ∈ keysOf new) := by
      intro number member
      have whole := agree number (by simpa [keysOf_cons] using member)
      simpa [keysOf_cons] using whole
    rw [missingFromAll, missingFrom_kept ((agree node.key (.inl rfl)).mpr (.inl rfl))]
    refine .inside node may (inner uniqueBelow keyed.2.1 fun number member => ?_)
      (hypothesis uniqueRest keyed.2.2 fun number member => ?_)
    · have notOwn : number ≠ node.key := fun same => ownApart (same ▸ member)
      have notBehind : number ∉ keysOf new := rest.not_mem (apart number (List.mem_cons_of_mem _ member))
        fun zero => keyed.2.1 (zero ▸ member)
      rw [agree number (.inr (.inl member)), or_iff_right notOwn, or_iff_left notBehind]
    · have notOwn : number ≠ node.key := fun same => apart number (same ▸ List.mem_cons_self) member
      have notBelow : number ∉ keysOf children := below.not_mem
        (fun inside => apart number (List.mem_cons_of_mem _ inside) member) fun zero => keyed.2.2 (zero ▸ member)
      rw [agree number (.inr (.inr member)), or_iff_right notOwn, or_iff_right notBelow]

end Imprint.Xml.Node
