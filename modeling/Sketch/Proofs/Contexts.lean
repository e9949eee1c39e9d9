import Sketch.Proofs.CallOutcomes

/-!
# Reducing a part of a tree first

A context is a tree with a hole in the place of one of its subtrees.  Reducing the subtree before
it is put into the hole makes no difference, provided that no function computes a tree that is to
be reduced further (`Registry.reduce_plug_reduced`).

What reduction leaves behind is settled then, so it is reduced to itself.  And the outcome for the
whole tree depends on the subtree only through the outcome for the subtree.
-/

namespace Sketch

/-! ### Contexts -/

/-- A tree with a hole in the place of one of its subtrees. -/
inductive Context where
  /-- The hole. -/
  | hole
  /-- A tuple with the hole in one of its items. -/
  | tuple (before : List Tree) (inner : Context) (after : List Tree) (span : Span)
  /-- A call with the hole in one of its arguments. -/
  | call (name : Text) (before : List Tree) (inner : Context) (after : List Tree) (span : Span)

/-- The tree with a subtree put into the hole. -/
def Context.plug : Context → Tree → Tree
  | hole, t => t
  | tuple before inner after s, t => .tuple (before ++ inner.plug t :: after) s
  | call n before inner after s, t => .call n (before ++ inner.plug t :: after) s

namespace Registry

variable (registry : Registry)

theorem reduceList_congr {t u : Tree} (h : registry.reduce t = registry.reduce u)
    (before after : List Tree) :
  registry.reduceList (before ++ t :: after) = registry.reduceList (before ++ u :: after)
  := by
  induction before with
  | nil => rw [List.nil_append, List.nil_append, reduceList, reduceList, h]
  | cons b before ih => rw [List.cons_append, List.cons_append, reduceList, reduceList, ih]

/-- Subtrees that are reduced in the same way can be exchanged. -/
theorem reduce_plug_congr {t u : Tree} (h : registry.reduce t = registry.reduce u)
    (context : Context) :
  registry.reduce (context.plug t) = registry.reduce (context.plug u)
  := by
  induction context with
  | hole => exact h
  | tuple before inner after s ih =>
    rw [Context.plug, Context.plug, reduce, reduce, registry.reduceList_congr ih]
  | call n before inner after s ih =>
    rw [Context.plug, Context.plug, reduce, reduce, registry.reduceList_congr ih]

/-! ### Registries that compute what is not reduced further -/

/-- No function of the registry computes a tree with a call of a function that computes trees. -/
def Conclusive : Prop :=
  ∀ r, registry.reductions.Yields (.ok r) →
    ∀ n args s, .call n args s ∈ r.nodes → registry.reductions.hasName n = false

variable {registry}

theorem Conclusive.settled (h : registry.Conclusive) {r : Tree}
    (hr : registry.reductions.Yields (.ok r)) :
  registry.Settled r
  := by
  intro m hm
  cases m with
  | call n args s => rw [isSettled, reduces, h r hr n args s hm, Bool.and_false, Bool.not_false]
  | _ => rfl

/-- What reduction leaves behind is settled. -/
theorem Conclusive.settled_reduce (h : registry.Conclusive) {t r : Tree} {trail : Trail}
    (hr : (registry.reduce t).result trail = .ok r) :
  registry.Settled r
  := by
  intro m hm
  rcases registry.origin_of_reduce hr hm with ⟨_, _, _, hsettled⟩ | ⟨r', hr', m', hm', hroot⟩
  · exact hsettled
  · rw [← isSettled_root, ← hroot, isSettled_root]
    apply h.settled hr' m' hm'

theorem conclusive_builtin :
  Registry.builtin.Conclusive
  := by
  intro r hr n args s hcall
  have hvalue : r.IsValue := Builtin.ends_of_yields hr
  cases hvalue with
  | number x r => simp [Tree.nodes] at hcall
  | pair x y r r' r'' => simp [Tree.nodes, Tree.nodesList] at hcall

/-- If no function computes a tree that is to be reduced further, as is the case for the functions
that are always there, then a part of a tree may be reduced first: the reduction of the whole tree
has the same result, or fails with the same error.  In particular, a reduced tree is reduced to
itself. -/
theorem reduce_plug_reduced :
  Registry.builtin.Conclusive ∧ ∀ registry : Registry, registry.Conclusive →
    ∀ (t r : Tree) (trail : Trail), (registry.reduce t).result trail = .ok r →
      (∀ context : Context, registry.reduce (context.plug t) = registry.reduce (context.plug r))
      ∧ registry.reduce r = pure r
  := by
  use conclusive_builtin
  intro registry hconclusive t r trail hr
  have hreduced : registry.reduce r = pure r :=
    registry.reduce_of_settled (hconclusive.settled_reduce hr)
  have hsame : registry.reduce t = registry.reduce r := by
    rw [registry.reduce_eq_pure hr, hreduced]
  exact ⟨registry.reduce_plug_congr hsame, hreduced⟩

/-- The sum in `point(add(1, 2), div(1)(0))` can be computed first.  The division fails all the
same. -/
theorem reduce_plug_reduced_sum :
  let s := Span.nowhere
  let sum := Tree.call (utf8 "add") [.tuple [.number 1 s, .number 2 s] s] ⟨6, 15⟩
  let quotient := Tree.call (utf8 "div") [.number 1 s, .number 0 s] ⟨17, 26⟩
  let context := Context.call (utf8 "point") [] (.tuple [] .hole [quotient] s) [] s
  Registry.builtin.reduce (context.plug sum)
      = Registry.builtin.reduce (context.plug (.number (1 + 2) ⟨6, 15⟩))
    ∧ Registry.builtin.reduce (.number (1 + 2) ⟨6, 15⟩) = pure (.number (1 + 2) ⟨6, 15⟩)
  := by
  intro s sum quotient context
  have hsum : (Registry.builtin.reduce sum).result [] = .ok (.number (1 + 2) ⟨6, 15⟩) := rfl
  obtain ⟨hbuiltin, hplug⟩ := reduce_plug_reduced
  obtain ⟨hcontext, hsettled⟩ := hplug Registry.builtin hbuiltin sum _ [] hsum
  exact ⟨hcontext context, hsettled⟩

end Registry

end Sketch
