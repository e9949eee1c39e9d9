import Sketch.Proofs.CallOutcomes
import Sketch.Proofs.Instances

/-!
# Reduction keeps all other calls

Reduction takes away the calls of functions that compute trees.  All other calls, wherever they
stand, are kept in their order (`Registry.builtin_reduce_keeps_calls`).

No such call gets lost inside of an argument of a call that is replaced.  A tree that matches a
template has as many calls as the template (`Tree.length_heads_of_capture`), and the templates of
these functions have no call but their root.  So a call with another call left in its arguments
matches none of them, and is not replaced.
-/

namespace Sketch

/-- A call without its arguments. -/
structure CallHead where
  /-- The name of the function. -/
  name : Text
  /-- The number of arguments. -/
  arity : Nat
  /-- The span of the call. -/
  span : Span

namespace Tree

/-- The call at the root of a tree. -/
def head? : Tree → Option CallHead
  | call n args s => some ⟨n, args.length, s⟩
  | _ => none

/-- All calls of a tree, each before those inside of it, from left to right. -/
def heads (t : Tree) : List CallHead := t.nodes.filterMap head?

/-- The calls of a tree are that at its root and those of its children. -/
theorem heads_eq (t : Tree) :
  t.heads = t.head?.toList ++ t.children.flatMap heads
  := filterMap_nodes head? t

theorem heads_tuple (items : List Tree) (s : Span) :
  (tuple items s).heads = items.flatMap heads
  := heads_eq (tuple items s)

theorem heads_call (n : Text) (args : List Tree) (s : Span) :
  (call n args s).heads = ⟨n, args.length, s⟩ :: args.flatMap heads
  := heads_eq (call n args s)

/-- The span of a tree does not change how many calls there are in it. -/
theorem length_heads_withSpan (t : Tree) (s : Span) :
  (t.withSpan s).heads.length = t.heads.length
  := by
  cases t <;> rfl

/-! ### Trees that match a template -/

/-- There are no calls in numbers. -/
theorem heads_of_numbers? {items : List Tree} {xs : List Number} (h : numbers? items = some xs) :
  items.flatMap heads = []
  := by
  induction items generalizing xs with
  | nil => rfl
  | cons t items ih =>
    rw [numbers?_cons] at h
    obtain ⟨x, hx, h⟩ := Option.bind_eq_some_iff.mp h
    obtain ⟨ys, hys, -⟩ := Option.map_eq_some_iff.mp h
    cases t with
    | number y s => exact ih hys
    | _ => cases hx

/-- If trees that match have as many calls as their templates, then so have lists of them. -/
theorem length_heads_of_captureList {ts us : List Tree} {captures : Captures}
    (h : ∀ t ∈ ts, ∀ u captures, t.capture u = .ok (some captures) →
      t.heads.length = u.heads.length)
    (hcapture : captureList ts us = .ok (some captures)) :
  (ts.flatMap heads).length = (us.flatMap heads).length
  := by
  induction ts generalizing us captures with
  | nil =>
    cases us with
    | nil => rfl
    | cons u us => cases hcapture
  | cons t ts ih =>
    cases us with
    | nil => cases hcapture
    | cons u us =>
      rw [captureList] at hcapture
      obtain ⟨cs, ds, hcs, hds, -⟩ := Matched.andThen_iff.mp hcapture
      have hfirst := h t List.mem_cons_self u cs hcs
      have hrest := ih (fun v hv => h v (List.mem_cons_of_mem t hv)) hds
      rw [List.flatMap_cons, List.flatMap_cons, List.length_append, List.length_append, hfirst,
        hrest]

/-- A tree that matches a template has as many calls as the template. -/
theorem length_heads_of_capture {t u : Tree} {captures : Captures}
    (h : t.capture u = .ok (some captures)) :
  t.heads.length = u.heads.length
  := by
  induction t using Tree.induction generalizing u captures with
  | number x s =>
    cases u with
    | number y r => rfl
    | wildcard kind r => rfl
    | _ => cases h
  | name n s =>
    cases u with
    | name m r => rfl
    | _ => cases h
  | tuple items s ih =>
    cases u with
    | tuple us r =>
      rw [heads_tuple, heads_tuple]
      apply length_heads_of_captureList (fun t ht u captures => ih t ht) (capture_tuple_iff.mp h)
    | wildcard kind r =>
      cases kind with
      | number => cases h
      | tuple =>
        rw [capture] at h
        obtain ⟨xs, hxs, -⟩ := Option.map_eq_some_iff.mp (Except.ok.inj h)
        rw [heads_tuple, heads_of_numbers? hxs]
        rfl
    | _ => cases h
  | call n args s ih =>
    cases u with
    | call m us r =>
      obtain ⟨-, hargs⟩ := capture_call_iff.mp h
      rw [heads_call, heads_call, List.length_cons, List.length_cons,
        length_heads_of_captureList (fun t ht u captures => ih t ht) hargs]
    | _ => cases h
  | wildcard kind s => cases h

end Tree

namespace Registry

open Sketch.Tree

/-! ### Reduction -/

/-- The functions of the registry that compute trees take no calls as arguments and compute no
calls. -/
structure TakesNoCalls (registry : Registry) : Prop where
  templates : ∀ p ∈ registry.reductions.patterns, p.template.heads.length = 1
  results : ∀ r, registry.reductions.Yields (.ok r) → r.heads.length = 0

variable {registry : Registry}

/-- No call is left in the arguments of a call that is replaced. -/
theorem TakesNoCalls.heads_args (h : registry.TakesNoCalls) {n : Text} {args : List Tree} {s : Span}
    {hit : Hit Tree} (hfind : registry.reductions.find (.call n args s) = .ok (some hit)) :
  args.flatMap heads = []
  := by
  obtain ⟨hmem, hcapture⟩ := Table.search_hit hfind
  have hlength := length_heads_of_capture hcapture
  rw [h.templates _ hmem, heads_call, List.length_cons] at hlength
  apply List.length_eq_zero_iff.mp (Nat.succ.inj hlength)

/-- If some of the calls of trees are kept, then so are those of lists of trees. -/
theorem flatMap_heads_of_forall₂ {keep : CallHead → Bool} {ts rs : List Tree}
    (h : List.Forall₂ (fun t r => r.heads = t.heads.filter keep) ts rs) :
  rs.flatMap heads = (ts.flatMap heads).filter keep
  := by
  induction h with
  | nil => rfl
  | cons ht _ ih => rw [List.flatMap_cons, List.flatMap_cons, List.filter_append, ht, ih]

/-- The calls of a reduced tree are the calls of the tree that are not reduced. -/
theorem TakesNoCalls.heads_reduce (h : registry.TakesNoCalls) {t r : Tree} {trail : Trail}
    (hr : (registry.reduce t).result trail = .ok r) :
  r.heads = t.heads.filter fun head => !registry.reduces head.name
  := by
  induction t using Tree.induction generalizing r trail with
  | tuple items s ih =>
    rw [result_reduce_tuple] at hr
    obtain ⟨reduced, hreduced, hr⟩ := bind_eq_ok_iff.mp hr
    obtain rfl := Except.ok.inj hr
    rw [heads_tuple, heads_tuple]
    apply flatMap_heads_of_forall₂
    apply registry.forall₂_of_reduceList (fun t ht r => ih t ht) hreduced
  | call n args s ih =>
    rw [result_reduce_call] at hr
    obtain ⟨reduced, hreduced, hr⟩ := bind_eq_ok_iff.mp hr
    have hmembers := registry.forall₂_of_reduceList (fun t ht r => ih t ht) hreduced
    have hargs := flatMap_heads_of_forall₂ hmembers
    have happlies := registry.applies_applyCall n reduced s
    generalize registry.applyCall n reduced s = x at happlies hr
    cases happlies with
    | kept hn =>
      obtain rfl := Except.ok.inj hr
      have hkept : (!registry.reduces n) = true := by
        rw [hn]
        rfl
      rw [Call.tree, heads_call, heads_call, List.filter_cons, if_pos hkept, ← hargs,
        hmembers.length_eq]
    | @computed hit computed hn hfind hcomputed =>
      obtain rfl := Except.ok.inj hr
      have hgone : ¬(!registry.reduces n) = true := by
        rw [hn]
        exact Bool.false_ne_true
      have hnone : (computed.withSpan (computed.span.orElse s)).heads = [] := by
        rw [← List.length_eq_zero_iff, length_heads_withSpan]
        apply h.results computed ⟨n, reduced, s, hit, hfind, hcomputed⟩
      rw [hnone, heads_call, List.filter_cons, if_neg hgone, ← hargs, h.heads_args hfind]
    | refused _ _ => cases hr
    | missingCapture _ => cases hr
  | _ =>
    obtain rfl := Except.ok.inj hr
    rfl

/-! ### The functions that are always there -/

/-- The functions that are always there neither ask for calls in their arguments nor compute any. -/
theorem takesNoCalls_builtin :
  Registry.builtin.TakesNoCalls
  := by
  constructor
  · decide +kernel
  · intro r hr
    have hvalue : r.IsValue := Builtin.ends_of_yields hr
    cases hvalue with
    | number x s => rfl
    | pair x y s s' s'' => rfl

/-- No function that is always there both computes trees and makes figures. -/
theorem reduces_eq_hasName (n : Text) :
  Registry.builtin.reduces n = Registry.builtin.reductions.hasName n
  := by
  have hdisjoint : ∀ m ∈ Registry.builtin.reductions.names,
      Registry.builtin.drawings.hasName m = false := by
    decide +kernel
  rw [reduces]
  cases hn : Registry.builtin.reductions.hasName n with
  | false => rw [Bool.and_false]
  | true => rw [hdisjoint n (List.contains_iff_mem.mp hn), Bool.not_false, Bool.and_true]

/-- A reduced tree has no call of a function that computes trees, and all other calls of the tree
that it was reduced from: each with its name, its number of arguments and its span, in the same
order. -/
theorem builtin_reduce_keeps_calls {t r : Tree} {trail : Trail}
    (h : (Registry.builtin.reduce t).result trail = .ok r) :
  (∀ n args s, .call n args s ∈ r.nodes → Registry.builtin.reductions.hasName n = false)
    ∧ r.nodes.filterMap head?
      = (t.nodes.filterMap head?).filter fun head =>
        !Registry.builtin.reductions.hasName head.name
  := by
  have hheads := takesNoCalls_builtin.heads_reduce h
  simp only [reduces_eq_hasName] at hheads
  refine ⟨?_, hheads⟩
  intro n args s hcall
  have hhead : ⟨n, args.length, s⟩ ∈ r.heads := List.mem_filterMap.mpr ⟨_, hcall, rfl⟩
  rw [hheads] at hhead
  simpa using (List.mem_filter.mp hhead).2

/-- In `f(point(add(1)(2), 3))` the sum is computed inside of two calls that are kept. -/
theorem builtin_reduce_keeps_calls_nested :
  let s := Span.nowhere
  let sum := Tree.call (utf8 "add") [.number 1 s, .number 2 s] ⟨8, 17⟩
  let point := Tree.call (utf8 "point") [.tuple [sum, .number 3 s] ⟨8, 20⟩] ⟨2, 21⟩
  ∃ r, (Registry.builtin.reduce (.call (utf8 "f") [point] ⟨0, 22⟩)).result [] = .ok r
    ∧ r.nodes.filterMap head? = [⟨utf8 "f", 1, ⟨0, 22⟩⟩, ⟨utf8 "point", 1, ⟨2, 21⟩⟩]
  := by
  intro s sum point
  let reduced := Tree.call (utf8 "f")
    [.call (utf8 "point") [.tuple [.number (1 + 2) ⟨8, 17⟩, .number 3 s] ⟨8, 20⟩] ⟨2, 21⟩] ⟨0, 22⟩
  have hreduced : (Registry.builtin.reduce (.call (utf8 "f") [point] ⟨0, 22⟩)).result []
      = .ok reduced := rfl
  use reduced, hreduced
  rw [(builtin_reduce_keeps_calls hreduced).2]
  rfl

end Registry

end Sketch
