import Sketch.Figure.Render
import Sketch.Proofs.CurriedCalls

/-!
# The segments of curves

A curve is drawn from a tuple of numbers, which are read in pairs.  If they make up at least two
pairs, then it has one segment less than there are pairs, and segment `j` goes from pair `j` to
pair `j + 1` (`Registry.builtin_draws_segments`).  Otherwise the call cannot be evaluated.  In no
case is a number read that is not there.
-/

namespace Sketch

/-! ### Rendering -/

namespace Backend

variable {m : Type → Type} [Monad m] [LawfulMonad m] (backend : Backend m)

theorem renderAll_singleton (figure : Figure) :
  backend.renderAll [figure] = backend.render figure
  := by
  rw [renderAll, List.forM_eq_forM, List.forM_cons, List.forM_nil]
  apply bind_pure

end Backend

namespace Builtin

/-! ### From numbers to segments -/

/-- The segments join the points of which the given numbers are the coordinates, from each one to
the next. -/
structure Joins (v : List Number) (segments : List (Coordinates × Coordinates)) : Prop where
  count : segments.length = v.length / 2 - 1
  ends : ∀ j (_ : j + 1 < v.length / 2),
    segments[j]? = some ([v[2 * j], v[2 * j + 1]], [v[2 * j + 2], v[2 * j + 3]])
  linked : ∀ j p q, segments[j]? = some p → segments[j + 1]? = some q → p.2 = q.1

/-- The segments of a curve, from the numbers at every other position to those two positions
later. -/
def segments (v : List Number) : List (Coordinates × Coordinates) :=
  (List.range' 0 (v.length / 2 - 1) 2).map fun i => ((v.drop i).take 2, (v.drop (i + 2)).take 2)

theorem getElem?_segments {v : List Number} {j : Nat} {p : Coordinates × Coordinates}
    (h : (segments v)[j]? = some p) :
  p = ((v.drop (2 * j)).take 2, (v.drop (2 * j + 2)).take 2)
  := by
  rw [segments, List.getElem?_map] at h
  obtain ⟨i, hi, rfl⟩ := Option.map_eq_some_iff.mp h
  obtain ⟨hj, rfl⟩ := List.getElem?_eq_some_iff.mp hi
  rw [List.getElem_range', Nat.zero_add]

theorem joins_segments (v : List Number) :
  Joins v (segments v)
  := by
  constructor
  · rw [segments, List.length_map, List.length_range']
  · intro j h
    have hj : j < v.length / 2 - 1 := by omega
    rw [segments, List.getElem?_map, List.getElem?_range' hj, Option.map_some, Nat.zero_add,
      take_two_drop (by omega), take_two_drop (by omega)]
  · intro j p q hp hq
    rw [getElem?_segments hp, getElem?_segments hq]
    rfl

/-- The curve through the pairs has these segments. -/
theorem shapes_pairs (v : List Number) :
  (Figure.curve ((List.range' 0 (v.length / 2) 2).map fun i => (v.drop i).take 2)).shapes
    = (segments v).map fun segment => .line segment.1 segment.2
  := by
  rw [Figure.shapes, segments, List.map_map]
  apply List.ext_getElem
  · simp
  · intro j _ _
    simp [Nat.mul_add]

/-! ### The call -/

/-- A call with a tuple of numbers is a curve. -/
theorem applied_curve {items : List Tree} {v : List Number} (h : Tree.numbers? items = some v)
    (s r : Span) :
  Registry.builtin.drawings.applied (.call (utf8 "curve") [.tuple items s] r)
    = .ok (some (curve [.tuple v]))
  := by
  obtain ⟨p, hp, htemplate, hbehaviour⟩ : ∃ p : Pattern Figure,
      (Registry.builtin.drawings.patterns.filter
        fun p => p.template.isCallOf (utf8 "curve") 1) = [p]
      ∧ (p.template == .call (utf8 "curve") [.wildcard .tuple .nowhere] .nowhere) = true
      ∧ p.behaviour = curve := ⟨_, rfl, rfl, rfl⟩
  have hcapture : Tree.capture (.call (utf8 "curve") [.tuple items s] r) p.template
      = .ok (some [.tuple v]) := by
    rw [Tree.capture_of_beq _ htemplate, Tree.capture, Tree.captureList_singleton, Tree.capture, h]
    rfl
  rw [Table.applied_of_filter hp, hcapture, hbehaviour]
  rfl

end Builtin

namespace Registry

open Tracked

/-- What becomes of a call that is drawn, from what its function gives. -/
theorem result_draw_of_applied {registry : Registry} {n : Text} {args : List Tree} {s : Span}
    {x : Applied Figure} (h : registry.drawings.applied (.call n args s) = .ok (some x))
    (trail : Trail) :
  (registry.draw (.call n args s)).result trail
    = (ofApplied s x).result (trail.enter ⟨utf8 "drawing call", n⟩) >>= fun figure => .ok [figure]
  := by
  have hcall : (registry.drawCall n args s).result trail
      = (ofApplied s x).result (trail.enter ⟨utf8 "drawing call", n⟩) := by
    rw [Table.applied] at h
    rw [drawCall, result_inside]
    rcases hfind : registry.drawings.find (.call n args s) with e | _ | hit
    · rw [hfind] at h
      cases h
    · rw [hfind] at h
      cases h
    · rw [hfind] at h
      obtain rfl : hit.pattern.behaviour hit.captures = x := Option.some.inj (Except.ok.inj h)
      rfl
  rw [result_draw, Tree.calls, figureEach, List.mapM_cons, List.mapM_nil, figure, hcall]
  rfl

/-- A curve can be drawn exactly if there is an even number of numbers, and at least four.  Then it
is one figure, and its segments join the points that the numbers are the coordinates of.  These
segments are what is drawn.  Otherwise the evaluation of the call fails, and never because a number
is missing. -/
theorem builtin_draws_segments {items : List Tree} {v : List Number}
    (hitems : Tree.numbers? items = some v) (s r : Span) (trail : Trail) :
  let result := (Registry.builtin.draw (.call (utf8 "curve") [.tuple items s] r)).result trail
  ((∃ figures, result = .ok figures) ↔ v.length % 2 = 0 ∧ 4 ≤ v.length)
  ∧ (v.length % 2 = 0 ∧ 4 ≤ v.length → ∃ figure segments, Builtin.Joins v segments
    ∧ result = .ok [figure]
    ∧ figure.shapes = segments.map (fun segment => .line segment.1 segment.2)
    ∧ ∀ (m : Type → Type) [Monad m] [LawfulMonad m] (backend : Backend m),
      backend.renderAll [figure]
        = segments.forM fun segment => backend.drawLine segment.1 segment.2)
  ∧ (¬ (v.length % 2 = 0 ∧ 4 ≤ v.length) →
    result = .error (.evaluation (trail.enter ⟨utf8 "drawing call", utf8 "curve"⟩)
      (.fault (.unpairedCoordinates v.length)) r))
  ∧ result ≠ .error .missingCapture
  := by
  intro result
  have hresult : result = _ := result_draw_of_applied (Builtin.applied_curve hitems s r) trail
  rw [@Builtin.curve_eq [.tuple v] v rfl] at hresult
  clear_value result
  by_cases h : v.length % 2 = 0 ∧ 4 ≤ v.length
  · rw [if_pos h] at hresult
    obtain rfl : result = .ok [_] := hresult
    have hshapes := Builtin.shapes_pairs v
    generalize Figure.curve _ = figure at hshapes ⊢
    refine ⟨iff_of_true ⟨_, rfl⟩ h, ?_, fun hnot => absurd h hnot, ?_⟩
    · intro _
      use figure, Builtin.segments v, Builtin.joins_segments v, rfl, hshapes
      intro m _ _ backend
      rw [Backend.renderAll_singleton, Backend.render, hshapes, List.forM_eq_forM, List.forM_map]
      rfl
    · intro hmissing
      cases hmissing
  · rw [if_neg h] at hresult
    obtain rfl : result = .error _ := hresult
    refine ⟨iff_of_false ?_ h, fun hyes => absurd hyes h, fun _ => rfl, ?_⟩
    · rintro ⟨figures, hfigures⟩
      cases hfigures
    · intro hmissing
      cases hmissing

/-- A curve through three points has two segments. -/
theorem builtin_draws_segments_three :
  let items : List Tree := [0, 0, 1, 2, 3, 1].map fun x => .number x .nowhere
  Tree.numbers? items = some [0, 0, 1, 2, 3, 1]
  ∧ ∃ figure segments, Builtin.Joins [0, 0, 1, 2, 3, 1] segments
    ∧ (Registry.builtin.draw (.call (utf8 "curve") [.tuple items .nowhere] .nowhere)).result []
      = .ok [figure]
    ∧ figure.shapes = segments.map (fun segment => .line segment.1 segment.2)
  := by
  intro items
  have hitems : Tree.numbers? items = some [0, 0, 1, 2, 3, 1] := rfl
  obtain ⟨-, hdraws, -, -⟩ := builtin_draws_segments hitems .nowhere .nowhere []
  obtain ⟨figure, segments, hjoins, hresult, hshapes, -⟩ := hdraws (by decide)
  exact ⟨hitems, figure, segments, hjoins, hresult, hshapes⟩

end Registry

end Sketch
