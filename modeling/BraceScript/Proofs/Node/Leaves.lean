import BraceScript.Node

/-!
# Leaves of trees

The search for the first leaf of a tree finds the first of its leaves from left to right. A *change
of leaves* gives names other texts and moves places, and leaves all else of a tree as it is: its
branches, the kinds of its leaves and the texts of those that are not names. The place of a changed
tree is that of the tree, moved.
-/

namespace BraceScript

namespace Node

variable {l : Leaf} {n : Node} {ns ms : List Node} {label : Label}

/-! ## The first leaf -/

theorem size_pos (n : Node) : 0 < n.size := by
  cases n with
  | leaf l => simp [size]
  | branch label children => simp [size]

theorem forestSize_append (ns ms : List Node) :
    forestSize (ns ++ ms) = forestSize ns + forestSize ms := by
  induction ns with
  | nil => simp [forestSize]
  | cons n ns ih =>
    simp only [List.cons_append, forestSize, ih]
    omega

@[simp] theorem forestLeaves_append (ns ms : List Node) :
    forestLeaves (ns ++ ms) = forestLeaves ns ++ forestLeaves ms := by
  induction ns with
  | nil => simp [forestLeaves]
  | cons n ns ih => simp [forestLeaves, ih]

/-- With a step for each leaf and branch the search finds the first leaf of the trees in its list,
    which holds at every moment just the leaves that are still to come. -/
theorem search_eq_head? {steps : Nat} (enough : forestSize ns ≤ steps) :
    search steps ns = (forestLeaves ns).head? := by
  induction steps generalizing ns with
  | zero =>
    cases ns with
    | nil => simp [search, forestLeaves]
    | cons n rest =>
      have some := n.size_pos
      rw [forestSize] at enough
      omega
  | succ steps ih =>
    match ns with
    | [] => simp [search, forestLeaves]
    | leaf l :: rest => simp [search, forestLeaves, leaves]
    | branch label children :: rest =>
      have fewer : forestSize (children ++ rest) ≤ steps := by
        rw [forestSize_append]
        simp only [forestSize, size] at enough
        omega
      simp [search, ih fewer, forestLeaves, leaves]

theorem firstLeaf?_eq_head? (n : Node) : n.firstLeaf? = n.leaves.head? := by
  rw [firstLeaf?, search_eq_head?]
  · simp [forestLeaves]
  · simp [forestSize]

theorem position?_eq_head? (n : Node) : n.position? = n.leaves.head?.bind Leaf.position? := by
  rw [position?, firstLeaf?_eq_head?]

/-- Given a step for each leaf and branch, a search answers with the first leaf of the trees in its
    list, from left to right, and more steps make no difference; so it finds the first leaf of every
    tree, and finds none just when the tree has none. The place of a tree is that of its first leaf:
    there is none just when the tree has no leaf or its first leaf has no line, whatever the places
    of the leaves after it are. -/
theorem search_finds_first_leaf (n : Node) :
    (∀ trees steps, forestSize trees ≤ steps → search steps trees = (forestLeaves trees).head?) ∧
    n.firstLeaf? = n.leaves.head? ∧
    (n.firstLeaf? = none ↔ n.leaves = []) ∧
    (∀ l rest line, n.leaves = l :: rest → l.place.line = some line →
      n.position? = some ⟨l.place.offset.getD 0, line, l.place.column.getD 0⟩) ∧
    (n.position? = none ↔
      n.leaves = [] ∨ ∃ l rest, n.leaves = l :: rest ∧ l.place.line = none) := by
  refine ⟨fun trees steps => search_eq_head?, firstLeaf?_eq_head? n, ?_, ?_, ?_⟩
  · rw [firstLeaf?_eq_head?, List.head?_eq_none_iff]
  · intro l rest line whole known
    rw [position?_eq_head?, whole]
    simp [Leaf.position?, Coordinates.position?, known]
  · rw [position?_eq_head?]
    cases n.leaves with
    | nil => simp
    | cons l rest => simp [Leaf.position?, Coordinates.position?]

/-- A tree that starts with branches without leaves: its first leaf has no line, and one after it
    has. -/
theorem search_finds_first_leaf_unplaced :
    let lost : Leaf := ⟨.token .identifier, "x", {}⟩
    let placed : Leaf := ⟨.token .number, "1", .ofPosition .origin⟩
    let n := branch .program [branch .block [], branch .block [branch .block [], leaf lost],
      leaf placed]
    n.leaves = [lost, placed] ∧ n.firstLeaf? = some lost ∧ n.position? = none := by
  intro lost placed n
  have leaves : n.leaves = [lost, placed] := rfl
  obtain ⟨-, first, -, -, unplaced⟩ := search_finds_first_leaf n
  exact ⟨leaves, by rw [first, leaves]; rfl, unplaced.mpr (.inr ⟨lost, [placed], leaves, rfl⟩)⟩

theorem faultPosition?_branch (other : label ≠ .binary) :
    (branch label ns).faultPosition? = (branch label ns).position? := by
  rw [faultPosition?]
  rintro _ _ _ same
  exact other (branch.inj same).1

/-! ## Leaves of parts -/

theorem mem_forestLeaves : l ∈ forestLeaves ns ↔ ∃ n ∈ ns, l ∈ n.leaves := by
  induction ns with
  | nil => simp [forestLeaves]
  | cons n ns ih => simp [forestLeaves, ih]

theorem mem_leaves_branch : l ∈ (branch label ns).leaves ↔ ∃ n ∈ ns, l ∈ n.leaves := by
  rw [leaves, mem_forestLeaves]

/-- The left spine of a tree has the leaves of the tree in their order. -/
theorem leaves_spine (n : Node) (outer : List (List Node)) :
    (n.spine outer).1.leaves ++ (n.spine outer).2.flatMap forestLeaves =
      n.leaves ++ outer.flatMap forestLeaves := by
  fun_induction spine n outer with
  | case1 left rest outer ih => simp [ih, leaves, forestLeaves]
  | case2 n outer => rfl

/-! ## Every leaf changed -/

mutual

/-- A tree with each leaf replaced. -/
def mapLeaves (f : Leaf → Leaf) : Node → Node
  | leaf l => leaf (f l)
  | branch label children => branch label (forestMap f children)

/-- Several trees with each leaf replaced. -/
def forestMap (f : Leaf → Leaf) : List Node → List Node
  | [] => []
  | n :: rest => mapLeaves f n :: forestMap f rest

end

variable {f : Leaf → Leaf}

theorem forestMap_eq_map (ns : List Node) : forestMap f ns = ns.map (mapLeaves f) := by
  induction ns with
  | nil => rfl
  | cons n ns ih => rw [forestMap, ih, List.map_cons]

mutual

theorem leaves_mapLeaves : ∀ n : Node, (n.mapLeaves f).leaves = n.leaves.map f
  | leaf l => rfl
  | branch label children => by rw [mapLeaves, leaves, leaves, forestLeaves_forestMap children]

theorem forestLeaves_forestMap : ∀ ns : List Node,
    forestLeaves (forestMap f ns) = (forestLeaves ns).map f
  | [] => rfl
  | n :: rest => by
    rw [forestMap, forestLeaves, forestLeaves, leaves_mapLeaves n, forestLeaves_forestMap rest,
      List.map_append]

end

mutual

theorem mapLeaves_of_fixed : ∀ n : Node, (∀ l ∈ n.leaves, f l = l) → n.mapLeaves f = n
  | leaf l, fixed => by rw [mapLeaves, fixed l (by simp [leaves])]
  | branch label children, fixed => by rw [mapLeaves, forestMap_of_fixed children fixed]

theorem forestMap_of_fixed : ∀ ns : List Node, (∀ l ∈ forestLeaves ns, f l = l) →
    forestMap f ns = ns
  | [], _ => rfl
  | n :: rest, fixed => by
    obtain ⟨here, later⟩ := List.forall_mem_append.mp fixed
    rw [forestMap, mapLeaves_of_fixed n here, forestMap_of_fixed rest later]

end

theorem mapLeaves_id (n : Node) : n.mapLeaves (fun l => l) = n :=
  mapLeaves_of_fixed n fun _ _ => rfl

theorem forestMap_id (ns : List Node) : forestMap (fun l => l) ns = ns :=
  forestMap_of_fixed ns fun _ _ => rfl

theorem firstLeaf?_mapLeaves (n : Node) : (n.mapLeaves f).firstLeaf? = n.firstLeaf?.map f := by
  rw [firstLeaf?_eq_head?, firstLeaf?_eq_head?, leaves_mapLeaves, List.head?_map]

theorem spine_mapLeaves (n : Node) (outer : List (List Node)) :
    (n.mapLeaves f).spine (outer.map (forestMap f)) =
      ((n.spine outer).1.mapLeaves f, (n.spine outer).2.map (forestMap f)) := by
  fun_induction spine n outer with
  | case1 left rest outer ih => simpa [mapLeaves, forestMap, spine] using ih
  | case2 n outer other =>
    match n with
    | leaf l => rfl
    | branch label [] => rw [mapLeaves, forestMap, spine]; simp
    | branch label (left :: rest) =>
      rw [mapLeaves, forestMap, spine]
      rintro _ _ same
      obtain ⟨rfl, -⟩ := branch.inj same
      exact other left rest rfl

end Node

/-! ## Changes of names and places -/

/-- A change of leaves that keeps their kinds and the texts of those that are not names, and moves
    the places of all of them in the same way. -/
structure LeafChange where
  apply : Leaf → Leaf
  move : Position → Position
  kind_apply : ∀ l, (apply l).kind = l.kind
  text_apply : ∀ l, l.kind ≠ .token .identifier → (apply l).text = l.text
  position?_apply : ∀ l, (apply l).position? = l.position?.map move

namespace LeafChange

/-- Nothing changes. -/
def none : LeafChange where
  apply l := l
  move p := p
  kind_apply _ := rfl
  text_apply _ _ := rfl
  position?_apply _ := by simp

/-- Leaves with a place are moved. -/
def moving (move : Position → Position) : LeafChange where
  apply l := { l with place := (l.position?.map fun p => .ofPosition (move p)).getD l.place }
  move := move
  kind_apply _ := rfl
  text_apply _ _ := rfl
  position?_apply l := by
    cases found : l.position? with
    | none => simpa [Leaf.position?] using found
    | some p => rfl

/-- The names that are `old` become `new`. -/
def renamed (old new : String) : LeafChange where
  apply l := if l.kind = .token .identifier ∧ l.text = old then { l with text := new } else l
  move p := p
  kind_apply l := by split <;> rfl
  text_apply l other := by rw [if_neg fun both => other both.1]
  position?_apply l := by split <;> simp [Leaf.position?]

end LeafChange

namespace Node

/-- A tree with its leaves changed. -/
def changed (change : LeafChange) (n : Node) : Node := n.mapLeaves change.apply

variable {change : LeafChange}

theorem map_changed (ns : List Node) : ns.map (changed change) = forestMap change.apply ns :=
  (forestMap_eq_map ns).symm

theorem position?_changed (n : Node) :
    (n.changed change).position? = n.position?.map change.move := by
  rw [position?, changed, firstLeaf?_mapLeaves, position?]
  cases n.firstLeaf? with
  | none => rfl
  | some l => exact change.position?_apply l

theorem faultPosition?_changed (n : Node) :
    (n.changed change).faultPosition? = n.faultPosition?.map change.move := by
  fun_cases faultPosition? n with
  | case1 first op rest => exact position?_changed op
  | case2 n other =>
    rw [faultPosition?, position?_changed]
    intro first op rest same
    cases n with
    | leaf l => simp [changed, mapLeaves] at same
    | branch label children =>
      obtain ⟨rfl, parts⟩ := branch.inj same
      rw [forestMap_eq_map] at parts
      obtain ⟨first, _, rfl, -, others⟩ := List.map_eq_cons_iff.mp parts
      obtain ⟨op, rest, rfl, -, -⟩ := List.map_eq_cons_iff.mp others
      exact other first op rest rfl

end Node

end BraceScript
