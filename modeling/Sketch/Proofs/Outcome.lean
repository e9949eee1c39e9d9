import Sketch.Evaluation.Error

/-!
# Outcomes of computations in sequence

What computations in sequence succeed with, for computations that may fail and for those that
know the trail.
-/

namespace Sketch

section

variable {ε α β : Type}

/-- Two computations in sequence succeed exactly when the first does, and the second one does on
its result. -/
theorem bind_eq_ok_iff {x : Except ε α} {f : α → Except ε β} {b : β} :
  (x >>= f) = .ok b ↔ ∃ a, x = .ok a ∧ f a = .ok b
  := by
  cases x with
  | error e => simp [bind, Except.bind]
  | ok a => simp [bind, Except.bind]

/-- Two computations in sequence fail exactly when the first one does, or the second one does on the
result of the first. -/
theorem bind_eq_error_iff {x : Except ε α} {f : α → Except ε β} {e : ε} :
  (x >>= f) = .error e ↔ x = .error e ∨ ∃ a, x = .ok a ∧ f a = .error e
  := by
  cases x with
  | error e => simp [bind, Except.bind]
  | ok a => simp [bind, Except.bind]

/-- A computation that succeeds on each element of a list succeeds on the list. -/
theorem mapM_eq_ok {f : α → Except ε β} {g : α → β} {as : List α}
    (h : ∀ a ∈ as, f a = .ok (g a)) :
  as.mapM f = .ok (as.map g)
  := by
  induction as with
  | nil => rfl
  | cons a as ih =>
    rw [List.mapM_cons, h a List.mem_cons_self, ih fun b hb => h b (List.mem_cons_of_mem a hb)]
    rfl

/-- The result of a computation that succeeds has the first property, and the error of a
computation that fails has the second one. -/
def Ends (good : α → Prop) (bad : ε → Prop) : Except ε α → Prop
  | .ok a => good a
  | .error e => bad e

/-- What is known about the end of a computation may be weakened. -/
theorem Ends.mono {good good' : α → Prop} {bad bad' : ε → Prop} {x : Except ε α}
    (h : Ends good bad x) (hgood : ∀ a, good a → good' a) (hbad : ∀ e, bad e → bad' e) :
  Ends good' bad' x
  := by
  cases x with
  | error e => apply hbad e h
  | ok a => apply hgood a h

/-- How a computation ends follows from how its first step ends, and how its second step ends from
there. -/
theorem Ends.bind {good : α → Prop} {good' : β → Prop} {bad : ε → Prop} {x : Except ε α}
    {f : α → Except ε β} (hx : Ends good bad x) (hf : ∀ a, good a → Ends good' bad (f a)) :
  Ends good' bad (x >>= f)
  := by
  cases x with
  | error e => apply hx
  | ok a => apply hf a hx

/-- How a computation on a list ends follows from how it ends on each element. -/
theorem Ends.mapM {good : β → Prop} {bad : ε → Prop} {f : α → Except ε β}
    {as : List α} (h : ∀ a ∈ as, Ends good bad (f a)) :
  Ends (fun bs => ∀ b ∈ bs, good b) bad (as.mapM f)
  := by
  induction as with
  | nil => exact List.forall_mem_nil good
  | cons a as ih =>
    rw [List.mapM_cons]
    apply (h a List.mem_cons_self).bind
    intro b hb
    apply (ih fun c hc => h c (List.mem_cons_of_mem a hc)).bind
    intro bs hbs
    exact List.forall_mem_cons.mpr ⟨hb, hbs⟩

end

theorem run_stateM_bind {σ α β : Type} (x : StateM σ α) (f : α → StateM σ β) (s : σ) :
  (x >>= f).run s = (f (x.run s).1).run (x.run s).2
  := rfl

namespace Tracked

variable {α β : Type}

/-- An error during evaluation carries the trail at that moment, and leaves the trail as it is. -/
@[simp]
theorem run_failEvaluation (cause : EvaluationCause) (span : Span) (trail : Trail) :
  (failEvaluation cause span : Tracked α).run.run trail
    = (.error (.evaluation trail cause span), trail)
  := rfl

theorem run_bind (x : Tracked α) (f : α → Tracked β) (trail : Trail) :
  (x >>= f).run.run trail
    = (ExceptT.bindCont f (x.run.run trail).1).run (x.run.run trail).2
  := rfl

/-- After a first step that succeeds, the second one goes on with its value and its trail. -/
theorem run_bind_of_ok {x : Tracked α} {trail after : Trail} {a : α}
    (h : x.run.run trail = (.ok a, after)) (f : α → Tracked β) :
  (x >>= f).run.run trail = (f a).run.run after
  := by
  rw [run_bind, h]
  rfl

/-- After a first step that fails, there is no second one. -/
theorem run_bind_of_error {x : Tracked α} {trail after : Trail} {e : CommandError}
    (h : x.run.run trail = (.error e, after)) (f : α → Tracked β) :
  (x >>= f).run.run trail = (.error e, after)
  := by
  rw [run_bind, h]
  rfl

end Tracked

end Sketch
