import Sketch.Proofs.FailingCalls
import Sketch.Proofs.LookupOrder

/-!
# Arguments one by one and in pairs

The operations on two numbers take them as a pair, or one by one.  Both ways lead to the same
result, and to errors with the same span (`Registry.builtin_curried_like_paired`).

The two ways are two patterns with the same behaviour.  A call with one argument can match only
the first of them, a call with two arguments only the second one, and no other pattern of the
table is for this function (`Table.firstMatch_filter`).  In both cases the two arguments are
compared with the same two templates, so what is found and captured is the same
(`Table.TakesPairs.applied_eq`).
-/

namespace Sketch

/-! ### Patterns for a call -/

namespace Tree

/-- Whether a tree is a call of the given function with the given number of arguments. -/
def isCallOf (n : Text) (arity : Nat) : Tree → Bool
  | call m args _ => m == n && arity == args.length
  | _ => false

/-- A call does not match a template of another name or with another number of arguments. -/
theorem capture_of_isCallOf_eq_false {n : Text} {args : List Tree} {u : Tree}
    (h : u.isCallOf n args.length = false) (s : Span) :
  (call n args s).capture u = .ok none
  := by
  cases u with
  | call m us r =>
    have hdiffers : (m == n && decide (args.length = us.length)) = false := h
    rw [capture, hdiffers]
    rfl
  | wildcard kind r => cases kind <;> rfl
  | _ => rfl

theorem captureList_singleton (t u : Tree) :
  captureList [t] [u] = t.capture u
  := by
  rw [captureList, captureList]
  rcases t.capture u with e | _ | captures
  · rfl
  · rfl
  · rw [Matched.andThen, List.append_nil]

/-- A pair in brackets is matched like the two trees themselves. -/
theorem capture_paired (n : Text) (a b x y : Tree) (r r' s s' : Span) :
  (call n [tuple [a, b] r] s).capture (call n [tuple [x, y] r'] s') = captureList [a, b] [x, y]
  := by
  have hcall : (call n [tuple [a, b] r] s).opens (call n [tuple [x, y] r'] s') = true := by
    simp [opens]
  rw [capture_of_opens hcall, children, children, captureList_singleton, capture_of_opens rfl]
  rfl

theorem capture_curried (n : Text) (a b x y : Tree) (s s' : Span) :
  (call n [a, b] s).capture (call n [x, y] s') = captureList [a, b] [x, y]
  := by
  have hcall : (call n [a, b] s).opens (call n [x, y] s') = true := by
    simp [opens]
  rw [capture_of_opens hcall, children, children]

end Tree

namespace Table

variable {ρ : Type}

/-- Only patterns for the function and the number of arguments of a call matter. -/
theorem firstMatch_filter (n : Text) (args : List Tree) (s : Span) (ps : List (Pattern ρ)) :
  firstMatch (.call n args s) (ps.filter fun p => p.template.isCallOf n args.length)
    = firstMatch (.call n args s) ps
  := by
  induction ps with
  | nil => rfl
  | cons p ps ih =>
    rw [List.filter_cons]
    cases hp : p.template.isCallOf n args.length with
    | true => rw [if_pos rfl, firstMatch, firstMatch, ih]
    | false =>
      rw [if_neg Bool.false_ne_true, firstMatch, Tree.capture_of_isCallOf_eq_false hp]
      exact ih

/-- What the function of the first pattern that a tree matches gives. -/
def applied (table : Table ρ) (t : Tree) : Except MatchError (Option (Applied ρ)) :=
  (table.find t).map (Option.map fun hit => hit.pattern.behaviour hit.captures)

/-- What a table does with a tree is what the first pattern that matches does with the captures. -/
theorem applied_eq (table : Table ρ) (t : Tree) :
  table.applied t
    = (firstMatch t table.patterns).map (Option.map fun found => found.1.behaviour found.2)
  := by
  rw [applied, ← map_found_find]
  rcases table.find t with e | _ | hit
  · rfl
  · rfl
  · rfl

theorem yields_of_applied {table : Table ρ} {n : Text} {args : List Tree} {s : Span} {x : Applied ρ}
    (h : table.applied (.call n args s) = .ok (some x)) :
  table.Yields x
  := by
  rw [applied] at h
  rcases hfind : table.find (.call n args s) with e | _ | hit
  · rw [hfind] at h
    cases h
  · rw [hfind] at h
    cases h
  · rw [hfind] at h
    exact ⟨n, args, s, hit, hfind, Option.some.inj (Except.ok.inj h)⟩

/-- If there is only one pattern for the function and the number of arguments of a call, then the
call is matched against the template of this pattern. -/
theorem applied_of_filter {table : Table ρ} {n : Text} {args : List Tree} {p : Pattern ρ}
    (h : (table.patterns.filter fun p => p.template.isCallOf n args.length) = [p]) (s : Span) :
  table.applied (.call n args s)
    = (Tree.capture (.call n args s) p.template).map (Option.map p.behaviour)
  := by
  rw [applied_eq, ← firstMatch_filter, h, firstMatch]
  rcases Tree.capture (.call n args s) p.template with e | _ | captures
  · rfl
  · rfl
  · rfl

/-! ### Functions of two arguments -/

/-- The table has two patterns for a function: one for a pair that matches the templates `x` and
`y`, and one for two arguments that do.  They do the same with their captures. -/
def TakesPairs (table : Table ρ) (n : Text) (x y : Tree) : Prop :=
  ∃ paired curried : Pattern ρ,
    (table.patterns.filter fun p => p.template.isCallOf n 1) = [paired]
    ∧ (table.patterns.filter fun p => p.template.isCallOf n 2) = [curried]
    ∧ (paired.template == .call n [.tuple [x, y] .nowhere] .nowhere) = true
    ∧ (curried.template == .call n [x, y] .nowhere) = true
    ∧ paired.behaviour = curried.behaviour

/-- What is done with two arguments does not depend on how they are passed. -/
theorem TakesPairs.applied_eq {table : Table ρ} {n : Text} {x y : Tree}
    (h : table.TakesPairs n x y) (a b : Tree) (r s : Span) :
  table.applied (.call n [.tuple [a, b] r] s) = table.applied (.call n [a, b] s)
  := by
  obtain ⟨paired, curried, hpaired, hcurried, htemplate, htemplate', hbehaviour⟩ := h
  have hcapture : Tree.capture (.call n [.tuple [a, b] r] s) paired.template
      = Tree.capture (.call n [a, b] s) curried.template := by
    rw [Tree.capture_of_beq _ htemplate, Tree.capture_of_beq _ htemplate', Tree.capture_paired,
      Tree.capture_curried]
  rw [applied_of_filter hpaired, applied_of_filter hcurried, hcapture, hbehaviour]

end Table

/-! ### Reduction -/

namespace Registry

open Tracked

/-- What becomes of a call that is replaced, from what its function gives. -/
def replacement (call : Call) : Except MatchError (Option (Applied Tree)) → Tracked Tree
  | .error e => failEvaluation (.unmatchable e) e.span
  | .ok none => failEvaluation (.unmatched call.tree) call.span
  | .ok (some x) => do
    let result ← ofApplied call.span x
    return result.withSpan (result.span.orElse call.span)

/-- Both computations give the same tree, or else fail to evaluate a call at the same trail, with
the same span. -/
inductive Agree : Except CommandError Tree → Except CommandError Tree → Prop
  | result (t : Tree) : Agree (.ok t) (.ok t)
  | failure (trail : Trail) (cause cause' : EvaluationCause) (s : Span) :
    Agree (.error (.evaluation trail cause s)) (.error (.evaluation trail cause' s))

variable {registry : Registry} {n : Text} {s : Span}

/-- Applying a call of a function that computes is replacing it by what the table gives for it. -/
theorem applyCall_eq_replacement (hn : registry.reduces n = true) (args : List Tree) :
  registry.applyCall n args s
    = replacement ⟨n, args, s⟩ (registry.reductions.applied (.call n args s))
  := by
  rw [applyCall, if_pos hn, Table.applied]
  rcases registry.reductions.find (.call n args s) with e | _ | hit
  · rfl
  · rfl
  · rfl

theorem reduceList_pair (registry : Registry) (a b : Tree) (r : Span) (trail : Trail) :
  (registry.reduceList [.tuple [a, b] r]).result trail
    = (registry.reduceList [a, b]).result trail >>= fun reduced => .ok [.tuple reduced r]
  := by
  rw [result_reduceList, List.mapM_cons, List.mapM_nil, result_reduce_tuple]
  rcases (registry.reduceList [a, b]).result trail with e | reduced
  · rfl
  · rfl

section Agree

variable (hfaults : ¬registry.reductions.Yields (.error .missingCapture))

include hfaults

/-- Calls for which the table gives the same are applied with outcomes that agree. -/
theorem agree_applyCall (hn : registry.reduces n = true) {args args' : List Tree}
    (h : registry.reductions.applied (.call n args s)
      = registry.reductions.applied (.call n args' s)) (trail : Trail) :
  Agree ((registry.applyCall n args s).result trail) ((registry.applyCall n args' s).result trail)
  := by
  rw [applyCall_eq_replacement hn, applyCall_eq_replacement hn, ← h]
  rcases happlied : registry.reductions.applied (.call n args s) with e | _ | (⟨cause, r⟩ | _) | t
  · exact Agree.failure trail _ _ _
  · exact Agree.failure trail _ _ _
  · exact Agree.failure trail _ _ _
  · exact absurd (Table.yields_of_applied happlied) hfaults
  · exact Agree.result _

theorem agree_of_reduceList_eq_error {ts : List Tree} {trail : Trail} {e : CommandError}
    (h : (registry.reduceList ts).result trail = .error e) :
  Agree (.error e) (.error e)
  := by
  obtain ⟨before, site, after, -, -, hfails⟩ :=
    registry.failsFirst_of_reduceList (fun t _ => registry.failsFirst_of_reduce hfaults) h
  cases hfails with
  | intro _ _ _ => exact Agree.failure _ _ _ _

/-- Two arguments are reduced like a pair of them, and then the same is done with them. -/
theorem agree_reduce (hn : registry.reduces n = true) {x y : Tree}
    (hpairs : registry.reductions.TakesPairs n x y) (a b : Tree) (r : Span) (trail : Trail) :
  Agree ((registry.reduce (.call n [.tuple [a, b] r] s)).result trail)
    ((registry.reduce (.call n [a, b] s)).result trail)
  := by
  rw [result_reduce_call, result_reduce_call, reduceList_pair]
  rcases hargs : (registry.reduceList [a, b]).result (trail.enter ⟨utf8 "call", n⟩) with e | reduced
  · exact agree_of_reduceList_eq_error hfaults hargs
  · obtain ⟨a', b', rfl⟩ : ∃ a' b', reduced = [a', b'] := by
      have hlength := (registry.result_reduceList_eq_ok_iff.mp hargs).length_eq
      exact List.length_eq_two.mp hlength.symm
    exact agree_applyCall hfaults hn (hpairs.applied_eq a' b' r s) _

end Agree

/-- The operations on two numbers may be called with a pair or with two arguments.  Whatever trees
are given to them, the result is the same, or both calls cannot be evaluated for a reason that
concerns the same span. -/
theorem builtin_curried_like_paired
    (hn : n ∈ [utf8 "add", utf8 "sub", utf8 "mul", utf8 "div"]) (a b : Tree) (r s : Span)
    (trail : Trail) :
  let paired := (Registry.builtin.reduce (.call n [.tuple [a, b] r] s)).result trail
  let curried := (Registry.builtin.reduce (.call n [a, b] s)).result trail
  (∃ t, paired = .ok t ∧ curried = .ok t)
    ∨ ∃ inner cause cause' place, paired = .error (.evaluation inner cause place)
      ∧ curried = .error (.evaluation inner cause' place)
  := by
  intro paired curried
  have hreduces : Registry.builtin.reduces n = true := by
    revert n
    decide +kernel
  have hpairs : Registry.builtin.reductions.TakesPairs n
      (.wildcard .number .nowhere) (.wildcard .number .nowhere) := by
    simp only [List.mem_cons, List.not_mem_nil, or_false] at hn
    rcases hn with rfl | rfl | rfl | rfl
    · exact ⟨_, _, rfl, rfl, rfl, rfl, rfl⟩
    · exact ⟨_, _, rfl, rfl, rfl, rfl, rfl⟩
    · exact ⟨_, _, rfl, rfl, rfl, rfl, rfl⟩
    · exact ⟨_, _, rfl, rfl, rfl, rfl, rfl⟩
  have hagree : Agree paired curried :=
    agree_reduce Builtin.not_yields_missingCapture hreduces hpairs a b r trail
  clear_value paired curried
  cases hagree with
  | result t =>
    left
    exact ⟨t, rfl, rfl⟩
  | failure inner cause cause' place =>
    right
    exact ⟨inner, cause, cause', place, rfl, rfl⟩

/-- Neither `mul(3, point(1, 2))` nor `mul(3)(point(1, 2))` can be evaluated: drawing calls are
kept, and are no numbers. -/
theorem builtin_curried_like_paired_point :
  let s := Span.nowhere
  let point := Tree.call (utf8 "point") [.tuple [.number 1 s, .number 2 s] s] s
  let paired := Tree.call (utf8 "mul") [.tuple [.number 3 s, point] ⟨4, 18⟩] ⟨0, 19⟩
  let curried := Tree.call (utf8 "mul") [.number 3 s, point] ⟨0, 19⟩
  ∃ inner cause cause',
    (Registry.builtin.reduce paired).result [] = .error (.evaluation inner cause ⟨0, 19⟩)
    ∧ (Registry.builtin.reduce curried).result [] = .error (.evaluation inner cause' ⟨0, 19⟩)
  := by
  intro s point paired curried
  have hpaired : (Registry.builtin.reduce paired).result []
      = .error (.evaluation [⟨utf8 "call", utf8 "mul"⟩] (.unmatched paired) ⟨0, 19⟩) := rfl
  rcases builtin_curried_like_paired (n := utf8 "mul") (by decide) (.number 3 s) point
    ⟨4, 18⟩ ⟨0, 19⟩ [] with ⟨t, ht, -⟩ | ⟨inner, cause, cause', place, herror, herror'⟩
  · rw [hpaired] at ht
    cases ht
  · rw [hpaired] at herror
    cases herror
    exact ⟨_, _, cause', hpaired, herror'⟩

end Registry

end Sketch
