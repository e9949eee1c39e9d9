import Sketch.Evaluation.Execute
import Sketch.Proofs.Outcome
import Mathlib.Data.List.Forall2

/-!
# Results at a trail

Evaluation leaves every call that it enters, whether it succeeds or fails.  So the trail after
it is the trail before it (`Tracked.Balanced`), and all that remains of a computation is its
result at a trail (`Tracked.result`).  Results of computations in sequence are results in
sequence, which turns reducing and drawing into equations between outcomes that may be errors.

Collecting the figures of a tree draws its calls one after the other.  `Registry.Makes` says what
becomes of a list of calls that are drawn in this way: the first call that cannot be drawn ends it,
and the figures of the calls before it are kept.  A tuple is collected like its items one by one,
and so a tree is collected like the list of its calls (`Registry.addsFigures_collect`).  All that is
said about drawing trees follows from this, by induction on lists of calls.  For instance, drawing a
tree makes the figures of its calls, in order (`Registry.result_draw`).
-/

namespace Sketch

/-- A computation succeeds on each element of a list exactly when there is a list of its results. -/
theorem mapM_eq_ok_iff {ε α β : Type} {f : α → Except ε β} {as : List α} {bs : List β} :
  as.mapM f = .ok bs ↔ List.Forall₂ (fun a b => f a = .ok b) as bs
  := by
  induction as generalizing bs with
  | nil =>
    rw [List.forall₂_nil_left_iff]
    constructor
    · intro h
      apply (Except.ok.inj h).symm
    · rintro rfl
      rfl
  | cons a as ih =>
    rw [List.mapM_cons]
    constructor
    · intro h
      obtain ⟨b, hb, h⟩ := bind_eq_ok_iff.mp h
      obtain ⟨rest, hrest, h⟩ := bind_eq_ok_iff.mp h
      obtain rfl := Except.ok.inj h
      exact List.Forall₂.cons hb (ih.mp hrest)
    · rintro (_ | ⟨hb, hrest⟩)
      rw [hb, ih.mpr hrest]
      rfl

/-- A computation fails on the elements of a list by failing on one of them, after it has succeeded
on all elements before that one. -/
theorem exists_of_mapM_eq_error {ε α β : Type} {f : α → Except ε β} {as : List α} {e : ε}
    (h : as.mapM f = .error e) :
  ∃ before a after, as = before ++ a :: after ∧ (∀ b ∈ before, ∃ r, f b = .ok r) ∧ f a = .error e
  := by
  induction as with
  | nil => cases h
  | cons a as ih =>
    rw [List.mapM_cons] at h
    rcases bind_eq_error_iff.mp h with ha | ⟨r, ha, h⟩
    · exact ⟨[], a, as, rfl, List.forall_mem_nil _, ha⟩
    · rcases bind_eq_error_iff.mp h with hrest | ⟨rs, -, h⟩
      · obtain ⟨before, c, after, rfl, hbefore, hc⟩ := ih hrest
        exact ⟨a :: before, c, after, rfl, List.forall_mem_cons.mpr ⟨⟨r, ha⟩, hbefore⟩, hc⟩
      · cases h

theorem exists_of_forall₂ {α β : Type} {R : α → β → Prop} {as : List α} {bs : List β}
    (h : List.Forall₂ R as bs) {b : β} (hb : b ∈ bs) :
  ∃ a ∈ as, R a b
  := by
  induction h with
  | nil => cases hb
  | @cons a c as bs hac _ ih =>
    rcases List.mem_cons.mp hb with rfl | hb
    · exact ⟨a, List.mem_cons_self, hac⟩
    · obtain ⟨a', ha', hab⟩ := ih hb
      exact ⟨a', List.mem_cons_of_mem a ha', hab⟩

/-! ### Balanced computations -/

namespace Tracked

variable {α β : Type}

/-- What a computation gives at a trail. -/
def result (x : Tracked α) (trail : Trail) : Except CommandError α := (x.run.run trail).1

/-- The trail after a computation is the trail before it. -/
def Balanced (x : Tracked α) : Prop := ∀ trail, (x.run.run trail).2 = trail

/-- A balanced computation gives its result, and the trail that it was given. -/
theorem Balanced.run_eq {x : Tracked α} (h : Balanced x) (trail : Trail) :
  x.run.run trail = (x.result trail, trail)
  := Prod.ext rfl (h trail)

theorem balanced_pure (a : α) :
  Balanced (pure a : Tracked α)
  := fun _ => rfl

/-- Balanced computations in sequence are balanced. -/
theorem Balanced.bind {x : Tracked α} {f : α → Tracked β} (hx : Balanced x)
    (hf : ∀ a, Balanced (f a)) :
  Balanced (x >>= f)
  := by
  intro trail
  have hrun := hx.run_eq trail
  rcases hresult : x.result trail with e | a
  · rw [hresult] at hrun
    rw [run_bind_of_error hrun]
  · rw [hresult] at hrun
    rw [run_bind_of_ok hrun]
    apply hf a

/-- A call that is entered is left. -/
theorem Balanced.inside {x : Tracked α} (h : Balanced x) (frame : Frame) :
  Balanced (inside frame x)
  := by
  intro trail
  rw [run_inside, h, Trail.leave_enter]

/-- Reporting an error leaves the trail as it is. -/
theorem balanced_failEvaluation (cause : EvaluationCause) (span : Span) :
  Balanced (failEvaluation cause span : Tracked α)
  := fun _ => rfl

/-- Reporting the outcome of a function leaves the trail as it is. -/
theorem balanced_ofApplied (span : Span) (x : Applied α) :
  Balanced (ofApplied span x)
  := by
  rcases x with failure | a
  · cases failure with
    | fault cause s => apply balanced_failEvaluation
    | missingCapture =>
      intro trail
      rfl
  · apply balanced_pure

@[simp]
theorem result_pure (a : α) (trail : Trail) :
  (pure a : Tracked α).result trail = .ok a
  := rfl

/-- The second of two computations in sequence starts at the trail that the first one starts at. -/
theorem result_bind {x : Tracked α} (hx : Balanced x) (f : α → Tracked β) (trail : Trail) :
  (x >>= f).result trail = x.result trail >>= fun a => (f a).result trail
  := by
  have hrun := hx.run_eq trail
  rcases hresult : x.result trail with e | a
  · rw [hresult] at hrun
    rw [result, run_bind_of_error hrun]
    rfl
  · rw [hresult] at hrun
    rw [result, run_bind_of_ok hrun]
    rfl

/-- What is computed inside of a frame is computed at the trail that is extended by this frame. -/
@[simp]
theorem result_inside (frame : Frame) (x : Tracked α) (trail : Trail) :
  (inside frame x).result trail = x.result (trail.enter frame)
  := rfl

end Tracked

namespace Registry

variable (registry : Registry)

open Tracked

/-! ### Reduction -/

/-- Applying a function leaves the trail as it is. -/
theorem balanced_applyCall (n : Text) (args : List Tree) (s : Span) :
  Balanced (registry.applyCall n args s)
  := by
  rw [applyCall]
  split
  · split
    · apply balanced_failEvaluation
    · apply balanced_failEvaluation
    · apply Balanced.bind (balanced_ofApplied s _)
      intro result
      apply balanced_pure
  · apply balanced_pure

theorem balanced_reduceList {ts : List Tree} (h : ∀ t ∈ ts, Balanced (registry.reduce t)) :
  Balanced (registry.reduceList ts)
  := by
  induction ts with
  | nil => apply balanced_pure
  | cons t ts ih =>
    rw [reduceList]
    apply Balanced.bind (h t List.mem_cons_self)
    intro reduced
    apply Balanced.bind (ih fun u hu => h u (List.mem_cons_of_mem t hu))
    intro rest
    apply balanced_pure

/-- Reducing a tree leaves the trail as it was, even if it fails. -/
theorem balanced_reduce (t : Tree) :
  Balanced (registry.reduce t)
  := by
  induction t using Tree.induction with
  | tuple items s ih =>
    rw [reduce]
    apply Balanced.bind (registry.balanced_reduceList ih)
    intro reduced
    apply balanced_pure
  | call n args s ih =>
    rw [reduce]
    apply Balanced.inside
    apply Balanced.bind (registry.balanced_reduceList ih)
    intro reduced
    apply balanced_applyCall
  | _ => apply balanced_pure

/-- A tuple is reduced by reducing its items, at the same trail. -/
theorem result_reduce_tuple (items : List Tree) (s : Span) (trail : Trail) :
  (registry.reduce (.tuple items s)).result trail
    = (registry.reduceList items).result trail >>= fun reduced => .ok (.tuple reduced s)
  := by
  rw [reduce, result_bind (registry.balanced_reduceList fun t _ => registry.balanced_reduce t)]
  rfl

/-- A call is reduced by reducing its arguments and then the call itself, both at a trail to which
the call is added. -/
theorem result_reduce_call (n : Text) (args : List Tree) (s : Span) (trail : Trail) :
  (registry.reduce (.call n args s)).result trail
    = (registry.reduceList args).result (trail.enter ⟨utf8 "call", n⟩) >>= fun reduced =>
        (registry.applyCall n reduced s).result (trail.enter ⟨utf8 "call", n⟩)
  := by
  rw [reduce, result_inside,
    result_bind (registry.balanced_reduceList fun t _ => registry.balanced_reduce t)]

/-- Trees are reduced one by one. -/
theorem result_reduceList (ts : List Tree) (trail : Trail) :
  (registry.reduceList ts).result trail = ts.mapM fun t => (registry.reduce t).result trail
  := by
  induction ts with
  | nil => rfl
  | cons t ts ih =>
    rw [reduceList, result_bind (registry.balanced_reduce t), List.mapM_cons, ← ih]
    congr 1
    funext reduced
    rw [result_bind (registry.balanced_reduceList fun t _ => registry.balanced_reduce t)]
    rfl

/-- Trees are reduced successfully if each of them is. -/
theorem result_reduceList_eq_ok_iff {ts rs : List Tree} {trail : Trail} :
  (registry.reduceList ts).result trail = .ok rs
    ↔ List.Forall₂ (fun t r => (registry.reduce t).result trail = .ok r) ts rs
  := by
  rw [result_reduceList, mapM_eq_ok_iff]

/-- What holds of each of the trees and what it is reduced to holds of trees that are reduced one by
one. -/
theorem forall₂_of_reduceList {R : Tree → Tree → Prop} {ts rs : List Tree} {trail : Trail}
    (h : ∀ t ∈ ts, ∀ r, (registry.reduce t).result trail = .ok r → R t r)
    (hrs : (registry.reduceList ts).result trail = .ok rs) :
  List.Forall₂ R ts rs
  := by
  rw [result_reduceList_eq_ok_iff] at hrs
  have hboth := (List.forall₂_and_left ts rs).mpr ⟨h, hrs⟩
  apply hboth.imp
  rintro t r ⟨hR, hr⟩
  apply hR r hr

end Registry

/-! ### Drawing -/

/-- The call of a function, as it is drawn. -/
structure Call where
  /-- The name of the function. -/
  name : Text
  /-- The arguments. -/
  args : List Tree
  /-- The span of the call. -/
  span : Span

mutual

/-- The calls of a tree that are reached through tuples, from left to right. -/
def Tree.calls : Tree → List Call
  | .tuple items _ => Tree.callsList items
  | .call n args s => [⟨n, args, s⟩]
  | _ => []

/-- The calls of trees that are reached through tuples. -/
def Tree.callsList : List Tree → List Call
  | [] => []
  | t :: ts => Tree.calls t ++ Tree.callsList ts

end

theorem Tree.callsList_eq_flatMap (ts : List Tree) :
  Tree.callsList ts = ts.flatMap Tree.calls
  := by
  induction ts with
  | nil => rfl
  | cons t ts ih => rw [Tree.callsList, ih, List.flatMap_cons]

namespace Registry

variable (registry : Registry)

open Tracked

/-- Making a figure leaves the trail as it is. -/
theorem balanced_drawCall (n : Text) (args : List Tree) (s : Span) :
  Balanced (registry.drawCall n args s)
  := by
  rw [drawCall]
  apply Balanced.inside
  rcases registry.drawings.find (.call n args s) with e | _ | hit
  · intro trail
    rfl
  · intro trail
    rfl
  · apply balanced_ofApplied

/-- Makes the figure of a call. -/
def figure (call : Call) : Tracked Figure := registry.drawCall call.name call.args call.span

/-! ### Calls drawn one after the other -/

/-- The call can be drawn, and the figure is what this makes. -/
abbrev DrawnAs (trail : Trail) (call : Call) (figure : Figure) : Prop :=
  (registry.figure call).result trail = .ok figure

/-- Drawing the calls from left to right makes the figures, and then ends with the error if there is
one. -/
inductive Makes (trail : Trail) : List Call → List Figure → Option CommandError → Prop
  | done : Makes trail [] [] none
  | drawn {call : Call} {calls : List Call} {figure : Figure} {made : List Figure}
      {error : Option CommandError} :
    registry.DrawnAs trail call figure → Makes trail calls made error →
      Makes trail (call :: calls) (figure :: made) error
  | failed {call : Call} {calls : List Call} {e : CommandError} :
    (registry.figure call).result trail = .error e → Makes trail (call :: calls) [] (some e)

variable {registry}

/-- If all calls of a list are drawn, then the calls that follow are drawn next. -/
theorem Makes.append {trail : Trail} {calls calls' : List Call} {made made' : List Figure}
    {error : Option CommandError} (h : registry.Makes trail calls made none)
    (h' : registry.Makes trail calls' made' error) :
  registry.Makes trail (calls ++ calls') (made ++ made') error
  := by
  generalize hnone : (none : Option CommandError) = first at h
  induction h with
  | done => apply h'
  | drawn hcall _ ih => apply Makes.drawn hcall (ih hnone)
  | failed _ => cases hnone

/-- After a call that cannot be drawn, nothing is drawn. -/
theorem Makes.append_of_error {trail : Trail} {calls : List Call} {made : List Figure}
    {e : CommandError} (h : registry.Makes trail calls made (some e)) (calls' : List Call) :
  registry.Makes trail (calls ++ calls') made (some e)
  := by
  generalize hsome : some e = error at h
  induction h with
  | done => cases hsome
  | drawn hcall _ ih => apply Makes.drawn hcall (ih hsome)
  | failed hcall => apply Makes.failed hcall

variable (registry)

/-! ### Collecting the figures of a tree -/

/-- The figures that are added to those there before, and the error that ends this, are those of the
given calls.  The trail is left as it was. -/
def AddsFigures (calls : List Call)
    (collecting : List Figure → StateM Trail (List Figure × Option CommandError)) : Prop :=
  ∀ trail, ∃ made error, registry.Makes trail calls made error
    ∧ ∀ figures, (collecting figures).run trail = ((figures ++ made, error), trail)

/-- A computation that adds nothing adds the figures of no calls. -/
theorem addsFigures_nothing :
  registry.AddsFigures [] fun figures => pure (figures, none)
  := by
  intro trail
  use [], none, Makes.done
  intro figures
  rw [List.append_nil]
  rfl

/-- A call adds its own figure. -/
theorem addsFigures_call (n : Text) (args : List Tree) (s : Span) :
  registry.AddsFigures [⟨n, args, s⟩] (registry.collect (.call n args s))
  := by
  intro trail
  have hrun := (registry.balanced_drawCall n args s).run_eq trail
  rcases hresult : (registry.drawCall n args s).result trail with e | figure
  · use [], some e, Makes.failed hresult
    intro figures
    rw [hresult] at hrun
    rw [collect, run_stateM_bind, hrun, List.append_nil]
    rfl
  · use [figure], none, Makes.drawn hresult Makes.done
    intro figures
    rw [hresult] at hrun
    rw [collect, run_stateM_bind, hrun]
    rfl

/-- If trees add the figures of their calls, then a list of trees adds those of all its calls. -/
theorem addsFigures_collectList {ts : List Tree}
    (h : ∀ t ∈ ts, registry.AddsFigures t.calls (registry.collect t)) :
  registry.AddsFigures (Tree.callsList ts) (registry.collectList ts)
  := by
  induction ts with
  | nil => apply addsFigures_nothing
  | cons t ts ih =>
    intro trail
    obtain ⟨made, error, hmade, hrun⟩ := h t List.mem_cons_self trail
    rw [Tree.callsList]
    -- What is collected from `t` decides whether the trees after it are looked at.
    cases error with
    | some e =>
      use made, some e, hmade.append_of_error (Tree.callsList ts)
      intro figures
      rw [collectList, run_stateM_bind, hrun]
      rfl
    | none =>
      have hrest := ih fun u hu => h u (List.mem_cons_of_mem t hu)
      obtain ⟨made', error, hmade', hrun'⟩ := hrest trail
      use made ++ made', error, hmade.append hmade'
      intro figures
      rw [collectList, run_stateM_bind, hrun, ← List.append_assoc]
      apply hrun'

/-- A tree is collected by drawing its calls, from left to right. -/
theorem addsFigures_collect (t : Tree) :
  registry.AddsFigures t.calls (registry.collect t)
  := by
  induction t using Tree.induction with
  | tuple items s ih =>
    rw [Tree.calls]
    apply registry.addsFigures_collectList ih
  | call n args s _ => apply addsFigures_call
  | _ => apply addsFigures_nothing

/-! ### Drawing a tree -/

/-- The figures that are collected, unless an error ends the collection. -/
def completed : List Figure × Option CommandError → Except CommandError (List Figure)
  | (figures, none) => .ok figures
  | (_, some e) => .error e

/-- A tree is drawn by collecting its figures. -/
theorem run_draw (t : Tree) (trail : Trail) :
  (registry.draw t).run.run trail
    = (completed ((registry.collect t []).run trail).1, ((registry.collect t []).run trail).2)
  := by
  rw [draw, ExceptT.run_mk, run_stateM_bind]
  rcases (registry.collect t []).run trail with ⟨⟨figures, _ | e⟩, after⟩
  · rfl
  · rfl

/-- Drawing a tree leaves the trail as it was, even if it fails. -/
theorem balanced_draw (t : Tree) :
  Balanced (registry.draw t)
  := by
  intro trail
  obtain ⟨made, error, -, hrun⟩ := registry.addsFigures_collect t trail
  rw [run_draw, hrun]

/-- Makes the figures of calls, one by one, until one of them cannot be drawn. -/
def figureEach (calls : List Call) (trail : Trail) : Except CommandError (List Figure) :=
  calls.mapM fun call => (registry.figure call).result trail

/-- The figures of calls in sequence are those of the first ones and then those of the others. -/
theorem figureEach_append (calls calls' : List Call) (trail : Trail) :
  registry.figureEach (calls ++ calls') trail
    = registry.figureEach calls trail >>= fun figures =>
        registry.figureEach calls' trail >>= fun rest => .ok (figures ++ rest)
  := by
  rw [figureEach, List.mapM_append]
  rfl

/-- Calls are drawn successfully if each of them is. -/
theorem figureEach_eq_ok_iff {calls : List Call} {trail : Trail} {figures : List Figure} :
  registry.figureEach calls trail = .ok figures
    ↔ List.Forall₂ (fun call figure => (registry.figure call).result trail = .ok figure)
      calls figures
  := by
  rw [figureEach, mapM_eq_ok_iff]

/-- The figures that calls make before an error are those of drawing the calls one by one. -/
theorem Makes.figureEach_eq {registry : Registry} {trail : Trail} {calls : List Call}
    {made : List Figure} {error : Option CommandError}
    (h : registry.Makes trail calls made error) :
  registry.figureEach calls trail = completed (made, error)
  := by
  induction h with
  | done => rfl
  | @drawn call calls figure made error hcall _ ih =>
    rw [figureEach] at ih
    rw [figureEach, List.mapM_cons, hcall, ih]
    cases error with
    | none => rfl
    | some e => rfl
  | @failed call calls e hcall =>
    rw [figureEach, List.mapM_cons, hcall]
    rfl

/-- Drawing a tree makes the figures of its calls. -/
theorem result_draw (t : Tree) (trail : Trail) :
  (registry.draw t).result trail = registry.figureEach t.calls trail
  := by
  obtain ⟨made, error, hmakes, hrun⟩ := registry.addsFigures_collect t trail
  rw [hmakes.figureEach_eq, result, run_draw, hrun]
  rfl

/-! ### Commands -/

theorem balanced_read (command : Text) :
  Balanced (Tree.read command)
  := by
  intro trail
  rw [Tree.read]
  split
  · rfl
  · rfl

/-- Running a command leaves the trail as it was, even if it fails. -/
theorem balanced_execute (command : Text) :
  Balanced (registry.execute command)
  := by
  apply Balanced.bind (balanced_read command)
  intro parsed
  apply Balanced.bind (registry.balanced_reduce parsed)
  intro reduced
  apply Balanced.bind (registry.balanced_draw reduced)
  intro figures
  apply balanced_pure

/-- A command is carried out by reading, reducing and drawing it at one and the same trail. -/
theorem result_execute (command : Text) (trail : Trail) :
  (registry.execute command).result trail
    = (Tree.read command).result trail >>= fun parsed =>
        (registry.reduce parsed).result trail >>= fun reduced =>
          registry.figureEach reduced.calls trail >>= fun figures =>
            .ok ⟨parsed, reduced, figures⟩
  := by
  rw [execute, result_bind (balanced_read command)]
  congr 1
  funext parsed
  rw [result_bind (registry.balanced_reduce parsed)]
  congr 1
  funext reduced
  rw [result_bind (registry.balanced_draw reduced), result_draw]
  rfl

/-- Reading a command is parsing it from its beginning, at any trail. -/
theorem result_read (command : Text) (trail : Trail) :
  (Tree.read command).result trail
    = match Tree.parse command 0 with
      | .ok tree => .ok tree
      | .error e => .error (.unreadable e)
  := by
  rw [Tree.read]
  cases Tree.parse command 0 with
  | ok tree => exact result_pure tree trail
  | error e => rfl

/-- The stages that a command goes through when it is carried out. -/
theorem result_execute_eq_ok_iff {command : Text} {trail : Trail} {o : Outcome} :
  (registry.execute command).result trail = .ok o
    ↔ Tree.parse command 0 = .ok o.parsed
      ∧ (registry.reduce o.parsed).result trail = .ok o.reduced
      ∧ registry.figureEach o.reduced.calls trail = .ok o.figures
  := by
  rw [result_execute, result_read]
  constructor
  · intro h
    obtain ⟨parsed, hparsed, h⟩ := bind_eq_ok_iff.mp h
    obtain ⟨reduced, hreduced, h⟩ := bind_eq_ok_iff.mp h
    obtain ⟨figures, hfigures, h⟩ := bind_eq_ok_iff.mp h
    obtain rfl := Except.ok.inj h
    split at hparsed
    · next hparse =>
      obtain rfl := Except.ok.inj hparsed
      exact ⟨hparse, hreduced, hfigures⟩
    · cases hparsed
  · rintro ⟨hparse, hreduced, hfigures⟩
    rw [hparse]
    refine bind_eq_ok_iff.mpr ⟨o.parsed, rfl, ?_⟩
    refine bind_eq_ok_iff.mpr ⟨o.reduced, hreduced, ?_⟩
    exact bind_eq_ok_iff.mpr ⟨o.figures, hfigures, rfl⟩

theorem result_figures (command : Text) (trail : Trail) :
  (registry.figures command).result trail
    = (registry.execute command).result trail >>= fun o => .ok o.figures
  := by
  have hexecute : ∀ x : Except CommandError Outcome × Trail,
      (ExceptT.bindCont (fun o : Outcome => (pure o.figures : Tracked _)) x.1 x.2).1
        = x.1 >>= fun o => .ok o.figures := by
    rintro ⟨e | o, after⟩
    · rfl
    · rfl
  apply hexecute

end Registry

end Sketch
