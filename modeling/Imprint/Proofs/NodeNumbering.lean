import Imprint.Proofs.Tree
/-! # Nodes that get keys

Numbering gives every node without a key the next unused one and leaves all others alone. -/
set_option autoImplicit false
namespace Imprint.Xml.Node

/-- Numbers with unused ones, counted from `fresh`, in place of the zeros. -/
def filled : Nat → List Nat → List Nat
  | _, [] => []
  | fresh, number :: rest =>
      if number = 0 then fresh :: filled (fresh + 1) rest else number :: filled fresh rest

theorem filled_append (first second : List Nat) : ∀ fresh : Nat,
    filled fresh (first ++ second) =
      filled fresh first ++ filled (fresh + first.count 0) second := by
  induction first with
  | nil => intro fresh; rfl
  | cons number rest hypothesis =>
    intro fresh
    rw [List.cons_append, filled, filled, List.count_cons]
    by_cases zero : number = 0
    · have amount : fresh + 1 + rest.count 0 = fresh + (rest.count 0 + 1) := by omega
      simp only [if_pos zero, hypothesis, List.cons_append, beq_iff_eq, amount]
    · simp only [if_neg zero, hypothesis, List.cons_append, beq_iff_eq, Nat.add_zero]

theorem mem_filled {numbers : List Nat} {wanted : Nat} : ∀ {fresh : Nat},
    wanted ∈ filled fresh numbers →
      (wanted ∈ numbers ∧ wanted ≠ 0) ∨ (fresh ≤ wanted ∧ wanted < fresh + numbers.count 0) := by
  induction numbers with
  | nil => intro fresh member; cases member
  | cons number rest hypothesis =>
    intro fresh member
    rw [filled] at member
    rw [List.count_cons]
    by_cases zero : number = 0
    · simp only [if_pos zero, List.mem_cons] at member
      simp only [beq_iff_eq, if_pos zero]
      rcases member with here | later
      · exact .inr (by omega)
      · rcases hypothesis later with old | new
        · exact .inl ⟨List.mem_cons_of_mem _ old.1, old.2⟩
        · exact .inr (by omega)
    · simp only [if_neg zero, List.mem_cons] at member
      simp only [beq_iff_eq, if_neg zero]
      rcases member with rfl | later
      · exact .inl ⟨List.mem_cons_self, zero⟩
      · rcases hypothesis later with old | new
        · exact .inl ⟨List.mem_cons_of_mem _ old.1, old.2⟩
        · exact .inr (by omega)

theorem count_filled (numbers : List Nat) {wanted : Nat} (keyed : 0 < wanted) : ∀ fresh : Nat,
    (filled fresh numbers).count wanted = numbers.count wanted +
      (if fresh ≤ wanted ∧ wanted < fresh + numbers.count 0 then 1 else 0) := by
  induction numbers with
  | nil =>
    intro fresh
    have empty : ¬ (fresh ≤ wanted ∧ wanted < fresh + 0) := by omega
    rw [filled, List.count_nil, List.count_nil, if_neg empty]
  | cons number rest hypothesis =>
    intro fresh
    rw [filled]
    by_cases zero : number = 0
    · simp only [if_pos zero, List.count_cons, hypothesis, beq_iff_eq]
      split_ifs <;> omega
    · simp only [if_neg zero, List.count_cons, hypothesis, beq_iff_eq, Nat.add_zero]
      omega

/-- Keys that were there before are neither filled in nor left out. -/
theorem mem_filled_iff {numbers : List Nat} {wanted fresh : Nat} (keyed : 0 < wanted) (small : wanted < fresh) :
    wanted ∈ filled fresh numbers ↔ wanted ∈ numbers := by
  constructor
  · intro member
    rcases mem_filled member with old | new
    · exact old.1
    · omega
  · intro present
    have counted := count_filled numbers keyed fresh
    have occurs := List.count_pos_iff.mpr present
    exact List.count_pos_iff.mp (by omega)

theorem zero_not_mem_filled {numbers : List Nat} {fresh : Nat} (positive : 0 < fresh) : 0 ∉ filled fresh numbers := by
  intro member
  rcases mem_filled member with old | new
  · exact old.2 rfl
  · omega

/-- A node that has a key keeps it. -/
theorem number_keyed {node : Node} (keyed : node.key ≠ 0) (fresh : Nat) : node.number fresh =
    (node.withChildren (numberAll node.children fresh).1, (numberAll node.children fresh).2) := by
  cases node with
  | mk own label lead inner tail =>
    simp only [number, if_neg (show own ≠ 0 from keyed)]
    rfl

/-- Numbering fills in the keys in document order. -/
theorem numberAll_keys (nodes : List Node) : ∀ fresh : Nat,
    keysOf (numberAll nodes fresh).1 = filled fresh (keysOf nodes) ∧
      (numberAll nodes fresh).2 = fresh + (keysOf nodes).count 0 := by
  induction nodes using nodes_induction with
  | nil => intro fresh; exact ⟨rfl, rfl⟩
  | cons own label lead inner tail rest below beside =>
    intro fresh
    have keys (own : Nat) (inner rest : List Node) :
        keysOf (mk own label lead inner tail :: rest) = own :: (keysOf inner ++ keysOf rest) := by
      simp [keysOf, allBelow_cons, Node.key, Node.children]
    by_cases zero : own = 0
    · have inside := below (fresh + 1)
      have outside := beside (fresh + 1 + (keysOf inner).count 0)
      simp only [numberAll, number, if_pos zero, inside.2, keys, inside.1, outside.1, outside.2,
        filled, filled_append, List.count_cons, List.count_append, beq_iff_eq, true_and]
      omega
    · have inside := below fresh
      have outside := beside (fresh + (keysOf inner).count 0)
      simp only [numberAll, number, if_neg zero, inside.2, keys, inside.1, outside.1, outside.2,
        filled, filled_append, List.count_cons, List.count_append, beq_iff_eq, true_and]
      omega

/-- All nodes have keys when they have been numbered. -/
theorem numberAll_key_ne_zero {nodes : List Node} {fresh : Nat} (positive : 0 < fresh) {node : Node}
    (member : node ∈ allBelow (numberAll nodes fresh).1) : node.key ≠ 0 := by
  have present : node.key ∈ keysOf (numberAll nodes fresh).1 := List.mem_map.mpr ⟨node, member, rfl⟩
  rw [(numberAll_keys nodes fresh).1] at present
  exact fun zero => zero_not_mem_filled positive (zero ▸ present)

/-- Nodes that all have keys are not changed. -/
theorem numberAll_keyed (nodes : List Node) : ∀ fresh : Nat, 0 ∉ keysOf nodes →
    numberAll nodes fresh = (nodes, fresh) := by
  induction nodes using nodes_induction with
  | nil => intro fresh keyed; rfl
  | cons own label lead inner tail rest below beside =>
    intro fresh keyed
    simp only [keysOf, allBelow_cons, Node.children, Node.key, List.map_cons, List.map_append,
      List.mem_cons, List.mem_append, not_or] at keyed
    obtain ⟨here, inside, outside⟩ := keyed
    simp only [numberAll, number, if_neg (Ne.symm here), below fresh inside, beside fresh outside]

/-- The heads of numbered nodes are those of the nodes if all of these have keys. -/
theorem numberAll_heads (nodes : List Node) : ∀ fresh : Nat, 0 ∉ nodes.map key →
    (numberAll nodes fresh).1.map head = nodes.map head := by
  induction nodes with
  | nil => intro fresh keyed; rfl
  | cons node rest hypothesis =>
    intro fresh keyed
    simp only [List.map_cons, List.mem_cons, not_or] at keyed
    cases node with
    | mk own label lead inner tail =>
      have here : own ≠ 0 := Ne.symm keyed.1
      simp only [numberAll, number, if_neg here, List.map_cons, hypothesis _ keyed.2]
      rfl

/-- A node with a key keeps its head when nodes are numbered, and its outline too if its children have
keys. -/
theorem numberAll_outline (nodes : List Node) : ∀ fresh : Nat, ∀ node ∈ allBelow nodes, node.key ≠ 0 →
    ∃ numbered ∈ allBelow (numberAll nodes fresh).1, numbered.head = node.head ∧
      (0 ∉ node.children.map key → numbered.outline = node.outline) := by
  induction nodes using nodes_induction with
  | nil => intro fresh node member; simp at member
  | cons own label lead inner tail rest below beside =>
    intro fresh node member keyed
    rw [allBelow_cons] at member
    simp only [numberAll, allBelow_cons]
    rcases List.mem_cons.mp member with rfl | member
    · refine ⟨_, List.mem_cons_self, ?_, ?_⟩
      · simp only [number, Node.key] at keyed ⊢
        simp only [if_neg keyed]
        rfl
      · intro childrenKeyed
        simp only [number, Node.key] at keyed ⊢
        simp only [if_neg keyed, outline, Node.children]
        rw [numberAll_heads inner _ childrenKeyed]
        rfl
    · rcases List.mem_append.mp member with inside | outside
      · obtain ⟨numbered, found, same⟩ :=
          below (if own = 0 then (fresh, fresh + 1) else (own, fresh)).2 node inside keyed
        exact ⟨numbered, List.mem_cons_of_mem _ (List.mem_append_left _ found), same⟩
      · obtain ⟨numbered, found, same⟩ := beside _ node outside keyed
        exact ⟨numbered, List.mem_cons_of_mem _ (List.mem_append_right _ found), same⟩

/-- The outermost of numbered nodes have the keys they had, or new ones. -/
theorem numberAll_outermost (nodes : List Node) : ∀ fresh : Nat,
    ∀ numbered ∈ (numberAll nodes fresh).1,
      numbered.key ∈ nodes.map key ∨ fresh ≤ numbered.key := by
  induction nodes with
  | nil => intro fresh numbered member; simp [numberAll] at member
  | cons node rest hypothesis =>
    intro fresh numbered member
    cases node with
    | mk own label lead inner tail =>
      have advance : fresh ≤ (numberAll inner
          (if own = 0 then (fresh, fresh + 1) else (own, fresh)).2).2 := by
        rw [(numberAll_keys inner _).2]
        split_ifs <;> simp only <;> omega
      simp only [numberAll, number, List.mem_cons] at member
      rcases member with rfl | member
      · simp only [Node.key]
        split_ifs
        · exact .inr (Nat.le_refl _)
        · exact .inl (by simp [Node.key])
      · rcases hypothesis _ numbered member with old | new
        · exact .inl (List.mem_cons_of_mem _ old)
        · exact .inr (Nat.le_trans advance new)

/-- A numbered node was there before, with its key or without one, and its children are those it had or
new ones. -/
theorem numberAll_origin (nodes : List Node) : ∀ fresh : Nat,
    ∀ numbered ∈ allBelow (numberAll nodes fresh).1, ∃ node ∈ allBelow nodes,
      (numbered.key = node.key ∨ node.key = 0) ∧
        ∀ child ∈ numbered.children, child.key ∈ node.children.map key ∨ fresh ≤ child.key := by
  induction nodes using nodes_induction with
  | nil => intro fresh numbered member; simp [numberAll] at member
  | cons own label lead inner tail rest below beside =>
    intro fresh numbered member
    have start : fresh ≤ (if own = 0 then (fresh, fresh + 1) else (own, fresh)).2 := by
      split_ifs <;> simp only <;> omega
    have advance : fresh ≤ (numberAll inner
        (if own = 0 then (fresh, fresh + 1) else (own, fresh)).2).2 := by
      rw [(numberAll_keys inner _).2]
      omega
    simp only [numberAll, allBelow_cons, number, List.mem_cons, List.mem_append] at member
    rcases member with rfl | inside | outside
    · refine ⟨mk own label lead inner tail, by simp [allBelow_cons], ?_, ?_⟩
      · simp only [Node.key]
        split_ifs with zero
        · exact .inr zero
        · exact .inl rfl
      · intro child direct
        exact (numberAll_outermost inner _ child direct).imp_right (Nat.le_trans start)
    · obtain ⟨node, place, same, children⟩ := below _ numbered inside
      exact ⟨node, by simp [allBelow_cons, Node.children, place], same, fun child direct =>
        (children child direct).imp_right (Nat.le_trans start)⟩
    · obtain ⟨node, place, same, children⟩ := beside _ numbered outside
      exact ⟨node, by simp [allBelow_cons, place], same, fun child direct =>
        (children child direct).imp_right (Nat.le_trans advance)⟩

mutual

theorem copied_number : (node : Node) → (fresh : Nat) → (number node fresh).1.copied = node.copied
  | mk own label lead inner tail, fresh => by
      simp only [number, copied, copied_numberAll inner]

theorem copied_numberAll : (nodes : List Node) → (fresh : Nat) →
    copiedAll (numberAll nodes fresh).1 = copiedAll nodes
  | [], fresh => rfl
  | node :: rest, fresh => by
      simp only [numberAll, copiedAll, copied_number node, copied_numberAll rest]

end

theorem copiedAll_eq_map (nodes : List Node) : copiedAll nodes = nodes.map copied := by
  induction nodes with
  | nil => rfl
  | cons node rest hypothesis => rw [copiedAll, hypothesis, List.map_cons]

mutual

theorem copied_copied : (node : Node) → node.copied.copied = node.copied
  | mk own label lead inner tail => by
      simp only [copied, copiedAll_copiedAll inner]

theorem copiedAll_copiedAll : (nodes : List Node) → copiedAll (copiedAll nodes) = copiedAll nodes
  | [] => rfl
  | node :: rest => by
      simp only [copiedAll, copied_copied node, copiedAll_copiedAll rest]

end

end Imprint.Xml.Node
