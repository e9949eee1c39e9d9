import Sketch.Proofs.Results

/-!
# Figures collected up to an error

Collecting the figures of a tree draws its calls one after the other.  The first call that cannot
be drawn ends this, and the figures of the calls before it are kept, after those that were there at
the start.  Other calls are not drawn: the figures are the same in every registry that draws the
calls of the tree alike (`Registry.collect_congr`).
-/

namespace Sketch

namespace Registry

variable {registry : Registry}

open Tracked

/-! ### Calls drawn one after the other -/

/-- If there is no error, then each call has been drawn. -/
theorem Makes.forall₂ {trail : Trail} {calls : List Call} {made : List Figure}
    (h : registry.Makes trail calls made none) :
  List.Forall₂ (registry.DrawnAs trail) calls made
  := registry.figureEach_eq_ok_iff.mp h.figureEach_eq

/-- An error is that of a call, and all calls before this one have been drawn. -/
theorem Makes.exists_failed {trail : Trail} {calls : List Call} {made : List Figure}
    {e : CommandError} (h : registry.Makes trail calls made (some e)) :
  ∃ before call after, calls = before ++ call :: after
    ∧ List.Forall₂ (registry.DrawnAs trail) before made
    ∧ (registry.figure call).result trail = .error e
  := by
  generalize hsome : some e = error at h
  induction h with
  | done => cases hsome
  | @drawn call calls figure made error hcall _ ih =>
    obtain ⟨before, last, after, rfl, hbefore, hlast⟩ := ih hsome
    exact ⟨call :: before, last, after, rfl, List.Forall₂.cons hcall hbefore, hlast⟩
  | @failed call calls _ hcall =>
    obtain rfl := Option.some.inj hsome
    exact ⟨[], call, calls, rfl, List.Forall₂.nil, hcall⟩

/-! ### Only the calls of a tree are drawn -/

/-- If calls are drawn as the same figures one by one, or fail by errors that look alike, then
drawing one after the other makes the same figures, and ends with errors that look alike. -/
theorem Makes.alike {other : Registry} {δ : Type} {view : CommandError → δ} {trail : Trail}
    {calls calls' : List Call} {made made' : List Figure} {error error' : Option CommandError}
    (h : registry.Makes trail calls made error) (h' : other.Makes trail calls' made' error')
    (hcalls : List.Forall₂ (fun c d => ((registry.figure c).result trail).mapError view
      = ((other.figure d).result trail).mapError view) calls calls') :
  made = made' ∧ error.map view = error'.map view
  := by
  induction h generalizing calls' made' error' with
  | done =>
    cases hcalls
    cases h' with
    | done => exact ⟨rfl, rfl⟩
  | drawn hcall _ ih =>
    cases hcalls with
    | cons hfirst hrest =>
      rw [hcall] at hfirst
      cases h' with
      | drawn hcall' h' =>
        rw [hcall'] at hfirst
        obtain rfl := Except.ok.inj hfirst
        obtain ⟨rfl, herror⟩ := ih h' hrest
        exact ⟨rfl, herror⟩
      | failed hcall' =>
        rw [hcall'] at hfirst
        cases hfirst
  | failed hcall =>
    cases hcalls with
    | cons hfirst _ =>
      rw [hcall] at hfirst
      cases h' with
      | drawn hcall' _ =>
        rw [hcall'] at hfirst
        cases hfirst
      | failed hcall' =>
        rw [hcall'] at hfirst
        exact ⟨rfl, congrArg some (Except.error.inj hfirst)⟩

/-- Registries that draw the calls of a tree alike collect the same figures from it, whatever they
do with the calls inside of these calls. -/
theorem collect_congr {other : Registry} {t : Tree}
    (h : ∀ call ∈ t.calls, other.figure call = registry.figure call) :
  other.collect t = registry.collect t
  := by
  funext figures trail
  obtain ⟨made, error, hmakes, hrun⟩ := registry.addsFigures_collect t trail
  obtain ⟨made', error', hmakes', hrun'⟩ := other.addsFigures_collect t trail
  have hcalls : List.Forall₂ (fun c d => ((registry.figure c).result trail).mapError id
      = ((other.figure d).result trail).mapError id) t.calls t.calls := by
    rw [List.forall₂_same]
    intro call hcall
    rw [h call hcall]
  obtain ⟨rfl, herror⟩ := hmakes.alike hmakes' hcalls
  rw [Option.map_id, id, id] at herror
  rw [herror] at hrun
  exact (hrun' figures).trans (hrun figures).symm

variable (registry)

/-- Let a tree be collected, with some figures there before.  If all of its calls can be drawn, then
their figures are added in order.  If not, then the figures of the calls before the first one that
cannot be drawn are added, and the error is that of this call.  Drawing the tree gives all figures,
or the error.  Nothing else is drawn: only what the registry does with the calls of the tree
matters, and these are reached through tuples only. -/
theorem collect_figures_until_failure (t : Tree) (figures : List Figure) (trail : Trail) :
  ((∃ made, List.Forall₂ (registry.DrawnAs trail) t.calls made
      ∧ (registry.collect t figures).run trail = ((figures ++ made, none), trail)
      ∧ (registry.draw t).result trail = .ok made)
    ∨ ∃ before call after made e, t.calls = before ++ call :: after
      ∧ List.Forall₂ (registry.DrawnAs trail) before made
      ∧ (registry.figure call).result trail = .error e
      ∧ (registry.collect t figures).run trail = ((figures ++ made, some e), trail)
      ∧ (registry.draw t).result trail = .error e)
  ∧ ∀ other : Registry, (∀ call ∈ t.calls, other.figure call = registry.figure call) →
      other.collect t = registry.collect t ∧ other.draw t = registry.draw t
  := by
  constructor
  · obtain ⟨made, error, hmade, hrun⟩ := registry.addsFigures_collect t trail
    have hdraw : (registry.draw t).result trail = completed (made, error) := by
      rw [result, run_draw, hrun, List.nil_append]
    cases error with
    | none =>
      left
      exact ⟨made, hmade.forall₂, hrun figures, hdraw⟩
    | some e =>
      right
      obtain ⟨before, call, after, hcalls, hbefore, hcall⟩ := hmade.exists_failed
      exact ⟨before, call, after, made, e, hcalls, hbefore, hcall, hrun figures, hdraw⟩
  · intro other h
    have hcollect := collect_congr h
    use hcollect
    rw [draw, draw, hcollect]

end Registry

end Sketch
