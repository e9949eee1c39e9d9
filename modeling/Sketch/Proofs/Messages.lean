import Sketch.Proofs.Conflicts
import Sketch.Proofs.NumberText
import Sketch.Proofs.Reduction

/-!
# Messages without zero bytes

A message ends before the first zero byte of what is to be said.  Zero bytes can only come from
names, and from what functions give.  So if there are none in these, then all that is said about a
call that cannot be replaced stands in the message (`Registry.NulFree.notMem_detail`).
-/

namespace Sketch

namespace Text

/-- There is no zero byte in numbers. -/
theorem Figures.notMem {t : Text} (h : Figures t) :
  0 ∉ t
  := by
  intro hzero
  exact absurd (h 0 hzero) (by decide)

end Text

open Text

/-! ### Names -/

namespace Tree

/-- The name at the root of a tree, whether it is called or not. -/
def rootName? : Tree → Option Text
  | name n _ => some n
  | call n _ _ => some n
  | _ => none

/-- All names of a tree, whether they are called or not. -/
def names (t : Tree) : List Text := t.nodes.filterMap rootName?

theorem rootName?_root (t : Tree) :
  t.root.rootName? = t.rootName?
  := by
  cases t <;> rfl

/-- The name at a node of a tree is one of the names of the tree. -/
theorem mem_names_of_rootName? {t m : Tree} {n : Text} (hm : m ∈ t.nodes)
    (hn : m.rootName? = some n) :
  n ∈ t.names
  := List.mem_filterMap.mpr ⟨m, hm, hn⟩

/-- The names of a subtree are names of the tree. -/
theorem mem_names_of_mem_nodes {t m : Tree} {n : Text} (hm : m ∈ t.nodes) (hn : n ∈ m.names) :
  n ∈ t.names
  := by
  obtain ⟨l, hl, hn⟩ := List.mem_filterMap.mp hn
  apply mem_names_of_rootName? (mem_nodes_trans hl hm) hn

/-- No name of the tree contains a zero byte. -/
def NulFree (t : Tree) : Prop := ∀ n ∈ t.names, 0 ∉ n

theorem NulFree.notMem {t m : Tree} {n : Text} (h : t.NulFree) (hm : m ∈ t.nodes)
    (hn : m.rootName? = some n) :
  0 ∉ n
  := h n (mem_names_of_rootName? hm hn)

end Tree

/-! ### Reduction -/

namespace Registry

/-- What the functions of the registry give contains no zero byte: neither the messages of their
faults do, nor the names in what they compute. -/
structure NulFree (registry : Registry) : Prop where
  messages : ∀ cause s, registry.reductions.Yields (.error (.fault cause s)) → 0 ∉ cause.detail
  results : ∀ r, registry.reductions.Yields (.ok r) → r.NulFree

variable {registry : Registry}

/-- Reduction does not add a zero byte to the names of a tree. -/
theorem NulFree.reduce (h : registry.NulFree) {t r : Tree} (ht : t.NulFree) {trail : Trail}
    (hr : (registry.reduce t).result trail = .ok r) :
  r.NulFree
  := by
  intro n hn
  obtain ⟨m, hm, hn⟩ := List.mem_filterMap.mp hn
  rcases registry.origin_of_reduce hr hm with ⟨m', hm', hroot, -⟩ | ⟨r', hr', m', hm', hroot⟩
  · apply ht.notMem hm'
    rw [← Tree.rootName?_root, hroot, Tree.rootName?_root, hn]
  · apply (h.results r' hr').notMem hm'
    rw [← Tree.rootName?_root, hroot, Tree.rootName?_root, hn]

end Registry

end Sketch
