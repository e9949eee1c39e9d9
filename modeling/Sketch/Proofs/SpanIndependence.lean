import Sketch.Proofs.Collection
import Sketch.Proofs.SpanErasure
import Sketch.Proofs.WrittenBack
import Sketch.Registry.Builtin

/-!
# Results do not depend on spans

Errors that are the same apart from their spans are of the same kind and have the same message:
messages are made of names, numbers and trails, and the commands in them are written without
spans.  So trees that are the same apart from their spans cannot be told apart by what they are
reduced to, by the figures that are collected from them, or by the errors that are reported
(`Registry.evaluation_ignores_spans`).
-/

namespace Sketch

/-! ### What is reported apart from spans -/

/-- The kinds of errors. -/
inductive ErrorKind where
  /-- The text is not a command. -/
  | unreadable (kind : ParseKind)
  /-- A call cannot be evaluated. -/
  | evaluation
  /-- No pattern is found for a call that is to be drawn. -/
  | undrawable
  /-- A call that is to be drawn must not be matched. -/
  | drawingUnmatchable
  /-- A function asks for a capture that does not exist. -/
  | missingCapture

namespace CommandError

/-- The kind of an error. -/
def kind : CommandError → ErrorKind
  | unreadable reason => .unreadable reason.kind
  | evaluation _ _ _ => .evaluation
  | undrawable _ => .undrawable
  | drawingUnmatchable _ _ => .drawingUnmatchable
  | missingCapture => .missingCapture

theorem kind_bare (e : CommandError) :
  e.bare.kind = e.kind
  := by
  cases e <;> rfl

end CommandError

theorem MatchError.detail_bare (e : MatchError) :
  e.bare.detail = e.detail
  := by
  cases e <;> rfl

theorem EvaluationCause.detail_bare (cause : EvaluationCause) :
  cause.bare.detail = cause.detail
  := by
  cases cause with
  | fault cause => rfl
  | unmatched call => rw [bare, detail, detail, Tree.command, Tree.commandWithin_bare, Tree.command]
  | unmatchable reason => rw [bare, detail, detail, reason.detail_bare]

namespace CommandError

/-- The text of an error does not depend on spans. -/
theorem detail_bare (e : CommandError) :
  e.bare.detail = e.detail
  := by
  cases e with
  | evaluation trail cause s => rw [bare, detail, detail, cause.detail_bare]
  | undrawable call =>
    rw [bare, detail, detail, Tree.command, Tree.commandWithin_bare, Tree.command]
  | drawingUnmatchable trail reason => rw [bare, detail, detail, reason.detail_bare]
  | _ => rfl

/-- Errors that are the same apart from their spans are of the same kind. -/
theorem kind_of_bare_eq {e e' : CommandError} (h : e.bare = e'.bare) :
  e.kind = e'.kind
  := by
  rw [← e.kind_bare, h, e'.kind_bare]

/-- Errors that are the same apart from their spans have the same message. -/
theorem message_of_bare_eq {e e' : CommandError} (h : e.bare = e'.bare) :
  e.message = e'.message
  := by
  rw [message, ← e.detail_bare, h, e'.detail_bare, message]

end CommandError

/-! ### Collecting figures -/

namespace Registry

variable (registry : Registry)

/-- The same figures are collected from both trees, and if an error ends this for one of them, then
an error of the same kind and with the same message ends it for the other one. -/
def CollectAlike (trail : Trail) (t u : Tree) : Prop :=
  ∀ figures, ∃ made error error',
    (registry.collect t figures).run trail = ((made, error), trail)
    ∧ (registry.collect u figures).run trail = ((made, error'), trail)
    ∧ error.map CommandError.kind = error'.map CommandError.kind
    ∧ error.map CommandError.message = error'.map CommandError.message

/-- Trees that are the same apart from their spans are collected alike. -/
theorem collectAlike_of_bare_eq {t u : Tree} (h : t.bare = u.bare) (trail : Trail) :
  registry.CollectAlike trail t u
  := by
  intro figures
  obtain ⟨made, error, hmakes, hrun⟩ := registry.addsFigures_collect t trail
  obtain ⟨made', error', hmakes', hrun'⟩ := registry.addsFigures_collect u trail
  have hcalls : t.calls.map Call.bare = u.calls.map Call.bare := by
    rw [← Tree.calls_bare, ← Tree.calls_bare, h]
  have halike : List.Forall₂ (fun c d =>
      ((registry.figure c).result trail).mapError CommandError.bare
        = ((registry.figure d).result trail).mapError CommandError.bare) t.calls u.calls := by
    apply forall₂_of_map_eq hcalls
    intro c _ d hcd
    rw [← spanless_id, ← spanless_id]
    apply registry.drawCall_of_bare_eq hcd
  obtain ⟨rfl, herror⟩ := hmakes.alike hmakes' halike
  refine ⟨figures ++ made, error, error', hrun figures, hrun' figures, ?_⟩
  cases error with
  | none =>
    obtain rfl := Option.map_eq_none_iff.mp herror.symm
    exact ⟨rfl, rfl⟩
  | some e =>
    obtain ⟨e', rfl, hbare⟩ := Option.map_eq_some_iff.mp herror.symm
    exact ⟨congrArg some (CommandError.kind_of_bare_eq hbare.symm),
      congrArg some (CommandError.message_of_bare_eq hbare.symm)⟩

/-- Let two trees be the same apart from their spans.  The same is collected from both.  If one of
them can be reduced, then so can the other one, the results are the same apart from their spans, and
the same is collected from these, too.  If not, then the errors are of the same kind and have the
same message. -/
theorem evaluation_ignores_spans {t u : Tree} (h : t.bare = u.bare) (trail : Trail) :
  registry.CollectAlike trail t u
    ∧ ((∃ r r', (registry.reduce t).result trail = .ok r
        ∧ (registry.reduce u).result trail = .ok r'
        ∧ r.bare = r'.bare ∧ registry.CollectAlike trail r r')
      ∨ ∃ e e', (registry.reduce t).result trail = .error e
        ∧ (registry.reduce u).result trail = .error e'
        ∧ e.kind = e'.kind ∧ e.message = e'.message)
  := by
  have hreduce := registry.reduce_of_bare_eq h trail
  constructor
  · exact registry.collectAlike_of_bare_eq h trail
  · rcases ht : (registry.reduce t).result trail with e | r
    · right
      rw [ht] at hreduce
      obtain ⟨e', hu, hbare⟩ := exists_error_of_spanless hreduce rfl
      exact ⟨e, e', rfl, hu, CommandError.kind_of_bare_eq hbare.symm,
        CommandError.message_of_bare_eq hbare.symm⟩
    · left
      obtain ⟨r', hu, hbare⟩ := exists_ok_of_spanless hreduce ht
      exact ⟨r, r', rfl, hu, hbare.symm, registry.collectAlike_of_bare_eq hbare.symm trail⟩

/-- Neither `mul(x)` nor the same call without spans can be evaluated.  The errors concern different
spans, but the message is the same. -/
theorem evaluation_ignores_spans_unmatched :
  let t := Tree.call (utf8 "mul") [.name (utf8 "x") ⟨4, 5⟩] ⟨0, 6⟩
  ∃ e e', (Registry.builtin.reduce t).result [] = .error e
    ∧ (Registry.builtin.reduce t.bare).result [] = .error e'
    ∧ e.span = ⟨0, 6⟩ ∧ e'.span = .nowhere
    ∧ e.kind = e'.kind ∧ e.message = e'.message
  := by
  intro t
  have ht : (Registry.builtin.reduce t).result []
      = .error (.evaluation [⟨utf8 "call", utf8 "mul"⟩] (.unmatched t) ⟨0, 6⟩) := rfl
  have hbare : (Registry.builtin.reduce t.bare).result []
      = .error (.evaluation [⟨utf8 "call", utf8 "mul"⟩] (.unmatched t.bare) .nowhere) := rfl
  obtain ⟨-, ⟨r, r', hr, -⟩ | ⟨e, e', he, he', hkind, hmessage⟩⟩ :=
    Registry.builtin.evaluation_ignores_spans (t := t) (u := t.bare) rfl []
  · rw [ht] at hr
    cases hr
  · rw [ht] at he
    rw [hbare] at he'
    cases he
    cases he'
    exact ⟨_, _, ht, hbare, rfl, rfl, hkind, hmessage⟩

end Registry

end Sketch
