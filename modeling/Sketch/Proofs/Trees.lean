import Sketch.Command.Tree
import Mathlib.Data.List.Forall2

/-!
# Trees apart from their spans

`Tree.map` changes the numbers and the spans of a tree, and nothing else.  `Tree.bare t` is `t`
with every span forgotten.  Equality `==` of trees does not look at spans, so a tree and its bare
tree are equal to the same trees.  `Tree.nodes t` are the subtrees of `t`.
A tree is `Tree.NaNFree` if each of its numbers is equal to itself.
-/

namespace Sketch

namespace Tree

/-! ### Changing numbers and spans -/

mutual

/-- The tree with each number `x` replaced by `f x`, and each span `s` by `g s`. -/
def map (f : Number → Number) (g : Span → Span) : Tree → Tree
  | number x s => number (f x) (g s)
  | name n s => name n (g s)
  | tuple items s => tuple (mapList f g items) (g s)
  | call n args s => call n (mapList f g args) (g s)
  | wildcard kind s => wildcard kind (g s)

/-- Trees with each number `x` replaced by `f x`, and each span `s` by `g s`. -/
def mapList (f : Number → Number) (g : Span → Span) : List Tree → List Tree
  | [] => []
  | t :: ts => map f g t :: mapList f g ts

end

/-- The tree with each number `x` replaced by `f x`. -/
def mapNumbers (f : Number → Number) : Tree → Tree := map f id

/-- The tree without its spans. -/
def bare : Tree → Tree := map id fun _ => .nowhere

section Map

variable (f : Number → Number) (g : Span → Span)

/-- Trees are changed one by one. -/
theorem mapList_eq_map (ts : List Tree) :
  mapList f g ts = ts.map (map f g)
  := by
  induction ts with
  | nil => rfl
  | cons t ts ih => rw [mapList, ih, List.map_cons]

theorem map_tuple (items : List Tree) (s : Span) :
  (tuple items s).map f g = tuple (items.map (map f g)) (g s)
  := by
  rw [map, mapList_eq_map]

theorem map_call (n : Text) (args : List Tree) (s : Span) :
  (call n args s).map f g = call n (args.map (map f g)) (g s)
  := by
  rw [map, mapList_eq_map]

@[simp]
theorem mapNumbers_number (x : Number) (s : Span) :
  (number x s).mapNumbers f = number (f x) s
  := rfl

@[simp]
theorem mapNumbers_tuple (items : List Tree) (s : Span) :
  (tuple items s).mapNumbers f = tuple (items.map (mapNumbers f)) s
  := map_tuple f id items s

@[simp]
theorem mapNumbers_call (n : Text) (args : List Tree) (s : Span) :
  (call n args s).mapNumbers f = call n (args.map (mapNumbers f)) s
  := map_call f id n args s

@[simp]
theorem bare_number (x : Number) (s : Span) :
  (number x s).bare = number x .nowhere
  := rfl

@[simp]
theorem bare_name (n : Text) (s : Span) :
  (name n s).bare = name n .nowhere
  := rfl

@[simp]
theorem bare_tuple (items : List Tree) (s : Span) :
  (tuple items s).bare = tuple (items.map bare) .nowhere
  := map_tuple id _ items s

@[simp]
theorem bare_call (n : Text) (args : List Tree) (s : Span) :
  (call n args s).bare = call n (args.map bare) .nowhere
  := map_call id _ n args s

@[simp]
theorem bare_wildcard (kind : Wildcard) (s : Span) :
  (wildcard kind s).bare = wildcard kind .nowhere
  := rfl

end Map

/-! ### Equality -/

/-- Lists of trees are equal if they are equal one by one. -/
theorem sameList_iff (ts us : List Tree) :
  sameList ts us = true ↔ List.Forall₂ (fun t u => (t == u) = true) ts us
  := by
  induction ts generalizing us with
  | nil =>
    cases us with
    | nil => simp [sameList]
    | cons u us => simp [sameList]
  | cons t ts ih =>
    cases us with
    | nil => simp [sameList]
    | cons u us =>
      rw [sameList, Bool.and_eq_true, ih us, List.forall₂_cons]
      apply Iff.rfl

/-- Numbers are compared as numbers, whatever their spans. -/
theorem number_beq (x y : Number) (r s : Span) :
  (number x r == number y s) = (x == y)
  := rfl

theorem name_beq (m n : Text) (r s : Span) :
  (name m r == name n s) = (m == n)
  := rfl

/-- Tuples are equal if their items are. -/
theorem tuple_beq (ts us : List Tree) (r s : Span) :
  (tuple ts r == tuple us s) = sameList ts us
  := rfl

/-- Calls are equal if their names are the same and their arguments are equal. -/
theorem call_beq (m n : Text) (ts us : List Tree) (r s : Span) :
  (call m ts r == call n us s) = (m == n && sameList ts us)
  := rfl

/-- Replacing the trees of a list by trees that are equal to the same ones does not matter for
equality. -/
theorem sameList_map {f : Tree → Tree} {ts : List Tree}
    (h : ∀ t ∈ ts, ∀ u, (f t == u) = (t == u)) (us : List Tree) :
  sameList (ts.map f) us = sameList ts us
  := by
  induction ts generalizing us with
  | nil => rfl
  | cons t ts ih =>
    cases us with
    | nil => rfl
    | cons u us =>
      have hrest := ih (fun v hv => h v (List.mem_cons_of_mem t hv)) us
      have hfirst : same (f t) u = same t u := h t List.mem_cons_self u
      rw [List.map_cons, sameList, sameList, hfirst, hrest]

/-- The spans of a tree do not matter for equality. -/
theorem bare_beq (t u : Tree) :
  (t.bare == u) = (t == u)
  := by
  induction t using Tree.induction generalizing u with
  | number x s => cases u <;> rfl
  | name n s => cases u <;> rfl
  | tuple items s ih =>
    rw [bare_tuple]
    cases u with
    | tuple us r => rw [tuple_beq, tuple_beq, sameList_map ih]
    | _ => rfl
  | call n args s ih =>
    rw [bare_call]
    cases u with
    | call m us r => rw [call_beq, call_beq, sameList_map ih]
    | _ => rfl
  | wildcard kind s => cases u <;> rfl

/-! ### Equality is symmetric -/

/-- If equality is symmetric for the members of a list, then it is so for the list. -/
theorem sameList_comm {ts : List Tree} (h : ∀ t ∈ ts, ∀ u, (t == u) = (u == t))
    (us : List Tree) :
  sameList ts us = sameList us ts
  := by
  induction ts generalizing us with
  | nil => cases us <;> rfl
  | cons t ts ih =>
    cases us with
    | nil => rfl
    | cons u us =>
      have hfirst : same t u = same u t := h t List.mem_cons_self u
      have hrest := ih (fun v hv => h v (List.mem_cons_of_mem t hv)) us
      rw [sameList, sameList, hfirst, hrest]

/-- Equality of trees is symmetric. -/
theorem beq_comm (t u : Tree) :
  (t == u) = (u == t)
  := by
  induction t using Tree.induction generalizing u with
  | number x s =>
    cases u with
    | number y r => rw [number_beq, number_beq, BEq.comm]
    | _ => rfl
  | name n s =>
    cases u with
    | name m r => rw [name_beq, name_beq, BEq.comm]
    | _ => rfl
  | tuple items s ih =>
    cases u with
    | tuple us r => rw [tuple_beq, tuple_beq, sameList_comm ih]
    | _ => rfl
  | call n args s ih =>
    cases u with
    | call m us r => rw [call_beq, call_beq, sameList_comm ih, BEq.comm]
    | _ => rfl
  | wildcard kind s =>
    cases u with
    | wildcard kind' r => cases kind <;> cases kind' <;> rfl
    | _ => rfl

/-! ### Subtrees -/

/-- The items of a tuple, the arguments of a call, and nothing for other trees. -/
def children : Tree → List Tree
  | tuple items _ => items
  | call _ args _ => args
  | _ => []

/-- The children of the bare tree are the bare children. -/
theorem children_bare (t : Tree) :
  t.bare.children = t.children.map bare
  := by
  cases t <;> simp [children]

/-- What holds of a tree as soon as it holds of its children holds of every tree. -/
theorem induction_children {motive : Tree → Prop}
    (h : ∀ t, (∀ c ∈ t.children, motive c) → motive t) (t : Tree) :
  motive t
  := by
  induction t using Tree.induction with
  | tuple items s ih => apply h (tuple items s) ih
  | call n args s ih => apply h (call n args s) ih
  | _ => exact h _ nofun

mutual

/-- A tree and all trees below it, each before those below it. -/
def nodes : Tree → List Tree
  | number x s => [number x s]
  | name n s => [name n s]
  | tuple items s => tuple items s :: nodesList items
  | call n args s => call n args s :: nodesList args
  | wildcard kind s => [wildcard kind s]

/-- The nodes of a list of trees. -/
def nodesList : List Tree → List Tree
  | [] => []
  | t :: ts => nodes t ++ nodesList ts

end

/-- The nodes of trees are collected one tree after the other. -/
theorem nodesList_eq_flatMap (ts : List Tree) :
  nodesList ts = ts.flatMap nodes
  := by
  induction ts with
  | nil => rfl
  | cons t ts ih => rw [nodesList, ih, List.flatMap_cons]

/-- The nodes of a tree are its root and the nodes of its children. -/
theorem nodes_eq (t : Tree) :
  t.nodes = t :: t.children.flatMap nodes
  := by
  cases t with
  | tuple items s => rw [nodes, nodesList_eq_flatMap, children]
  | call n args s => rw [nodes, nodesList_eq_flatMap, children]
  | _ => rfl

/-- A tree is one of its nodes. -/
theorem mem_nodes_self (t : Tree) :
  t ∈ t.nodes
  := by
  rw [nodes_eq]
  apply List.mem_cons_self

/-- What is read off the nodes of a tree is read off its root and then off the nodes of its
children. -/
theorem filterMap_nodes {α : Type} (f : Tree → Option α) (t : Tree) :
  t.nodes.filterMap f = (f t).toList ++ t.children.flatMap fun c => c.nodes.filterMap f
  := by
  rw [nodes_eq, List.filterMap_cons, List.filterMap_flatMap]
  cases f t with
  | none => rfl
  | some a => rfl

/-- The nodes of a child are nodes of the tree. -/
theorem mem_nodes_of_mem_children {m c t : Tree} (hc : c ∈ t.children) (hm : m ∈ c.nodes) :
  m ∈ t.nodes
  := by
  rw [nodes_eq]
  apply List.mem_cons_of_mem
  apply List.mem_flatMap.mpr ⟨c, hc, hm⟩

/-- The children of a tree are nodes of it. -/
theorem mem_nodes_child {c t : Tree} (hc : c ∈ t.children) :
  c ∈ t.nodes
  := mem_nodes_of_mem_children hc (mem_nodes_self c)

/-- The nodes of a node are nodes of the tree. -/
theorem mem_nodes_trans {l m t : Tree} (hl : l ∈ m.nodes) (hm : m ∈ t.nodes) :
  l ∈ t.nodes
  := by
  induction t using Tree.induction with
  | tuple items s ih =>
    rw [nodes_eq, List.mem_cons, List.mem_flatMap] at hm
    rcases hm with rfl | ⟨c, hc, hm⟩
    · exact hl
    · exact mem_nodes_of_mem_children hc (ih c hc hm)
  | call n args s ih =>
    rw [nodes_eq, List.mem_cons, List.mem_flatMap] at hm
    rcases hm with rfl | ⟨c, hc, hm⟩
    · exact hl
    · exact mem_nodes_of_mem_children hc (ih c hc hm)
  | _ =>
    obtain rfl := List.mem_singleton.mp hm
    exact hl

/-- What holds of all nodes holds of the tree itself, and of all nodes of its children. -/
theorem forall_nodes (P : Tree → Prop) (t : Tree) :
  (∀ m ∈ t.nodes, P m) ↔ P t ∧ ∀ c ∈ t.children, ∀ m ∈ c.nodes, P m
  := by
  rw [nodes_eq, List.forall_mem_cons]
  apply and_congr_right
  intro _
  constructor
  · intro h c hc m hm
    apply h m (List.mem_flatMap.mpr ⟨c, hc, hm⟩)
  · intro h m hm
    obtain ⟨c, hc, hm⟩ := List.mem_flatMap.mp hm
    apply h c hc m hm

/-- Whether a tree is a number that is not equal to itself. -/
def isNaN : Tree → Bool
  | number x _ => x.isNaN
  | _ => false

/-- Every number of a tree is equal to itself. -/
abbrev NaNFree (t : Tree) : Prop := ∀ m ∈ t.nodes, m.isNaN = false

/-- The children of a tree without NaN have none, either. -/
theorem NaNFree.of_mem_children {t c : Tree} (h : t.NaNFree) (hc : c ∈ t.children) :
  c.NaNFree
  := ((forall_nodes _ t).mp h).2 c hc

end Tree

end Sketch
