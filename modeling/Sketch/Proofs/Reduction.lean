import Sketch.Proofs.Results
import Sketch.Proofs.Trees

/-!
# Reduction with any registry

A call whose arguments are reduced is kept, is replaced by what its function computes, or fails
(`Registry.Applies`).  These are the only steps at which anything happens, so what reduction does
with any registry follows from this list of cases.

A tree that can be reduced at one trail is reduced to the same tree at every trail
(`Registry.reduce_eq_pure`).  Every node of the reduced tree was there before, or was computed
(`Registry.origin_of_reduce`).  A tree is settled if none of its calls is reduced, and then
reduction leaves it as it is (`Registry.reduce_of_settled`).
-/

namespace Sketch

/-- A function of the table, applied to the captures of a call that it is found for, gives the
outcome `x`. -/
def Table.Yields {ρ : Type} (table : Table ρ) (x : Applied ρ) : Prop :=
  ∃ n args s hit, table.find (.call n args s) = .ok (some hit)
    ∧ hit.pattern.behaviour hit.captures = x

/-- A call as a tree. -/
def Call.tree (call : Call) : Tree := .call call.name call.args call.span

namespace Tracked

theorem inside_pure {α : Type} (frame : Frame) (a : α) :
  inside frame (pure a) = (pure a : Tracked α)
  := rfl

end Tracked

namespace Registry

variable (registry : Registry)

open Tracked

/-! ### Calls with reduced arguments -/

/-- Why a call with reduced arguments cannot be replaced, and the span that this concerns: no
pattern is found for it, or the function of the pattern that is found fails. -/
inductive Refuses (call : Call) : EvaluationCause → Span → Prop
  | unmatchable {e : MatchError} :
    registry.reductions.find call.tree = .error e → Refuses call (.unmatchable e) e.span
  | unmatched :
    registry.reductions.find call.tree = .ok none → Refuses call (.unmatched call.tree) call.span
  | fault {hit : Hit Tree} {cause : Fault} {s : Span} :
    registry.reductions.find call.tree = .ok (some hit) →
      hit.pattern.behaviour hit.captures = .error (.fault cause s) →
        Refuses call (.fault cause) (s.orElse call.span)

/-- What is done with a call whose arguments are reduced. -/
inductive Applies (call : Call) : Tracked Tree → Prop
  | kept : registry.reduces call.name = false → Applies call (pure call.tree)
  | computed {hit : Hit Tree} {r : Tree} :
    registry.reduces call.name = true → registry.reductions.find call.tree = .ok (some hit) →
      hit.pattern.behaviour hit.captures = .ok r →
        Applies call (pure (r.withSpan (r.span.orElse call.span)))
  | refused {cause : EvaluationCause} {s : Span} :
    registry.reduces call.name = true → registry.Refuses call cause s →
      Applies call (failEvaluation cause s)
  | missingCapture :
    registry.reductions.Yields (.error .missingCapture) → Applies call (throw .missingCapture)

/-- What a registry does with a call is one of the cases of applying it. -/
theorem applies_applyCall (n : Text) (args : List Tree) (s : Span) :
  registry.Applies ⟨n, args, s⟩ (registry.applyCall n args s)
  := by
  rw [applyCall]
  cases hreduces : registry.reduces n with
  | false => exact Applies.kept hreduces
  | true =>
    rw [if_pos rfl]
    rcases hfind : registry.reductions.find (.call n args s) with e | _ | hit
    · exact Applies.refused hreduces (.unmatchable hfind)
    · exact Applies.refused hreduces (.unmatched hfind)
    · dsimp only
      rcases hresult : hit.pattern.behaviour hit.captures with (⟨cause, r⟩ | _) | r
      · exact Applies.refused hreduces (.fault hfind hresult)
      · exact Applies.missingCapture ⟨n, args, s, hit, hfind, hresult⟩
      · exact Applies.computed hreduces hfind hresult

/-! ### The trail does not matter for results -/

/-- A call that is applied successfully at one trail is so at every trail, with the same value. -/
theorem applyCall_eq_pure {n : Text} {args : List Tree} {s : Span} {trail : Trail} {r : Tree}
    (h : (registry.applyCall n args s).result trail = .ok r) :
  registry.applyCall n args s = pure r
  := by
  have happlies := registry.applies_applyCall n args s
  generalize registry.applyCall n args s = x at happlies h ⊢
  cases happlies with
  | kept _ => rw [Except.ok.inj h]
  | computed _ _ _ => rw [Except.ok.inj h]
  | refused _ _ => cases h
  | missingCapture _ => cases h

/-- If trees are reduced without looking at the trail, then so are lists of them. -/
theorem reduceList_eq_pure {ts rs : List Tree}
    (h : List.Forall₂ (fun t r => registry.reduce t = pure r) ts rs) :
  registry.reduceList ts = pure rs
  := by
  induction h with
  | nil => rfl
  | cons ht _ ih => rw [reduceList, ht, ih, pure_bind, pure_bind]

/-- If trees are reduced to themselves, then so are lists of them. -/
theorem reduceList_eq_self {ts : List Tree} (h : ∀ t ∈ ts, registry.reduce t = pure t) :
  registry.reduceList ts = pure ts
  := registry.reduceList_eq_pure (List.forall₂_same.mpr h)

/-- A tree that can be reduced at one trail is reduced to the same tree at every trail. -/
theorem reduce_eq_pure {t r : Tree} {trail : Trail}
    (h : (registry.reduce t).result trail = .ok r) :
  registry.reduce t = pure r
  := by
  induction t using Tree.induction generalizing r trail with
  | tuple items s ih =>
    rw [result_reduce_tuple] at h
    obtain ⟨reduced, hreduced, hr⟩ := bind_eq_ok_iff.mp h
    obtain rfl := Except.ok.inj hr
    have hitems := registry.forall₂_of_reduceList (fun t ht _ => ih t ht) hreduced
    rw [reduce, registry.reduceList_eq_pure hitems, pure_bind]
  | call n args s ih =>
    rw [result_reduce_call] at h
    obtain ⟨reduced, hreduced, hr⟩ := bind_eq_ok_iff.mp h
    have hargs := registry.forall₂_of_reduceList (fun t ht _ => ih t ht) hreduced
    rw [reduce, registry.reduceList_eq_pure hargs, pure_bind, registry.applyCall_eq_pure hr,
      inside_pure]
  | _ =>
    obtain rfl := Except.ok.inj h
    rfl

/-! ### Settled trees -/

/-- Whether the root of a tree is not a call that is reduced. -/
def isSettled : Tree → Bool
  | .call n _ _ => !registry.reduces n
  | _ => true

/-- No call in the tree is reduced. -/
def Settled (t : Tree) : Prop := ∀ m ∈ t.nodes, registry.isSettled m = true

/-- A tree is settled if its root and all its children are. -/
theorem settled_iff {t : Tree} :
  registry.Settled t ↔ registry.isSettled t = true ∧ ∀ c ∈ t.children, registry.Settled c
  := Tree.forall_nodes (fun m => registry.isSettled m = true) t

/-- A settled tree is reduced to itself. -/
theorem reduce_of_settled {t : Tree} (h : registry.Settled t) :
  registry.reduce t = pure t
  := by
  induction t using Tree.induction with
  | tuple items s ih =>
    have hchildren := (registry.settled_iff.mp h).2
    have hitems : registry.reduceList items = pure items :=
      registry.reduceList_eq_self fun c hc => ih c hc (hchildren c hc)
    rw [reduce, hitems, pure_bind]
  | call n args s ih =>
    obtain ⟨hroot, hchildren⟩ := registry.settled_iff.mp h
    have hargs : registry.reduceList args = pure args :=
      registry.reduceList_eq_self fun c hc => ih c hc (hchildren c hc)
    have hn : registry.reduces n = false := by
      simpa [isSettled] using hroot
    have hkept : registry.applyCall n args s = pure (.call n args s) := by
      rw [applyCall, hn]
      rfl
    rw [reduce, hargs, pure_bind, hkept, inside_pure]
  | _ => rfl

end Registry

/-! ### Where the nodes of a reduced tree come from -/

namespace Tree

/-- The root of a tree, without its span and what is below it. -/
def root : Tree → Tree
  | tuple _ _ => tuple [] .nowhere
  | call n _ _ => call n [] .nowhere
  | leaf => leaf.withSpan .nowhere

theorem root_withSpan (t : Tree) (s : Span) :
  (t.withSpan s).root = t.root
  := by
  cases t <;> rfl

theorem children_withSpan (t : Tree) (s : Span) :
  (t.withSpan s).children = t.children
  := by
  cases t <;> rfl

/-- Another span at the root of a tree does not change the roots of its nodes. -/
theorem exists_root_of_mem_withSpan {t m : Tree} {s : Span} (h : m ∈ (t.withSpan s).nodes) :
  ∃ m' ∈ t.nodes, m'.root = m.root
  := by
  rw [nodes_eq, children_withSpan, List.mem_cons] at h
  rw [nodes_eq]
  rcases h with rfl | h
  · exact ⟨t, List.mem_cons_self, (root_withSpan t s).symm⟩
  · exact ⟨m, List.mem_cons_of_mem t h, rfl⟩

end Tree

namespace Registry

variable (registry : Registry)

open Tracked

/-- Whether the root of a tree is settled does not depend on the children. -/
theorem isSettled_root (t : Tree) :
  registry.isSettled t.root = registry.isSettled t
  := by
  cases t <;> rfl

/-- A node of the tree `t`, which is not a call that is reduced, or a node of a tree that a function
computes has the same root as `m`. -/
def Origin (t m : Tree) : Prop :=
  (∃ m' ∈ t.nodes, m'.root = m.root ∧ registry.isSettled m = true)
    ∨ ∃ r, registry.reductions.Yields (.ok r) ∧ ∃ m' ∈ r.nodes, m'.root = m.root

/-- What comes from a child of a tree comes from the tree. -/
theorem Origin.of_child {t c m : Tree} (h : registry.Origin c m) (hc : c ∈ t.children) :
  registry.Origin t m
  := by
  rcases h with ⟨m', hm', hroot⟩ | h
  · left
    exact ⟨m', Tree.mem_nodes_of_mem_children hc hm', hroot⟩
  · right
    exact h

/-- The nodes of a tree with reduced members come from it if its root does, and the nodes of the
members come from members. -/
theorem origin_of_members {t r m : Tree} (hm : m ∈ r.nodes) (hroot : t.root = r.root)
    (hsettled : registry.isSettled r = true)
    (hmembers : List.Forall₂ (fun c d => ∀ m ∈ d.nodes, registry.Origin c m)
      t.children r.children) :
  registry.Origin t m
  := by
  rw [Tree.nodes_eq, List.mem_cons, List.mem_flatMap] at hm
  rcases hm with rfl | ⟨d, hd, hm⟩
  · left
    use t
    rw [Tree.nodes_eq]
    exact ⟨List.mem_cons_self, hroot, hsettled⟩
  · obtain ⟨c, hc, hcd⟩ := exists_of_forall₂ hmembers hd
    apply Origin.of_child registry (hcd m hm) hc

/-- Every node of a reduced tree was there before, or was computed. -/
theorem origin_of_reduce {t r m : Tree} {trail : Trail}
    (h : (registry.reduce t).result trail = .ok r) (hm : m ∈ r.nodes) :
  registry.Origin t m
  := by
  induction t using Tree.induction generalizing r m trail with
  | tuple items s ih =>
    rw [result_reduce_tuple] at h
    obtain ⟨reduced, hreduced, hr⟩ := bind_eq_ok_iff.mp h
    obtain rfl := Except.ok.inj hr
    apply registry.origin_of_members hm
    · rfl
    · rfl
    · apply registry.forall₂_of_reduceList _ hreduced
      intro c hc d hd m hm
      apply ih c hc hd hm
  | call n args s ih =>
    rw [result_reduce_call] at h
    obtain ⟨reduced, hreduced, hr⟩ := bind_eq_ok_iff.mp h
    have happlies := registry.applies_applyCall n reduced s
    generalize registry.applyCall n reduced s = x at happlies hr
    cases happlies with
    | kept hn =>
      obtain rfl := Except.ok.inj hr
      apply registry.origin_of_members hm
      · rfl
      · rw [Call.tree, isSettled, hn]
        rfl
      · apply registry.forall₂_of_reduceList _ hreduced
        intro c hc d hd m hm
        apply ih c hc hd hm
    | @computed hit computed _ hfind hcomputed =>
      obtain rfl := Except.ok.inj hr
      right
      use computed, ⟨n, reduced, s, hit, hfind, hcomputed⟩
      apply Tree.exists_root_of_mem_withSpan hm
    | refused _ _ => cases hr
    | missingCapture _ => cases hr
  | _ =>
    obtain rfl := Except.ok.inj h
    apply registry.origin_of_members hm rfl rfl .nil

end Registry

end Sketch
