import Sketch.Proofs.Forms
import Sketch.Proofs.Results

/-!
# Checking commands by form

A signature says which functions compute trees, and which calls can be drawn, in terms of the
forms of arguments.  It checks trees without computing anything: `Signature.form?` is the form
that a tree has once it is reduced, and `Form.calls` are the calls that are then to be drawn.

A registry implements a signature if its tables do what the signature says
(`Registry.Implements`).  Reducing and drawing then goes as the check expects
(`Registry.Implements.conforms_reduce_draw`): with a result of the expected form if there is
one, with a mismatch otherwise, and in both cases possibly with a division by zero.
-/

namespace Sketch

/-! ### Signatures -/

/-- What is said about functions in terms of forms. -/
structure Signature where
  /-- The forms of what a function computes, if it is one that computes trees: there is such a form
  only for some arguments. -/
  computes : Text → Option (List Form → Option Form)
  /-- Whether a call with the given arguments can be drawn. -/
  draws : Text → List Form → Bool

namespace Signature

variable (σ : Signature)

/-- The form of a call after reduction.  Calls of functions that do not compute trees keep their
place. -/
def ofCall (n : Text) (args : List Form) : Option Form :=
  match σ.computes n with
  | some computed => computed args
  | none => some (.call n args)

mutual

/-- The form that a tree has when it is reduced, if it has one. -/
def form? : Tree → Option Form
  | .number _ _ => some .number
  | .name _ _ => some .name
  | .wildcard kind _ => some (.wildcard kind)
  | .tuple items _ => (formList? items).map .tuple
  | .call n args _ => (formList? args).bind (σ.ofCall n)

/-- The forms that trees have when they are reduced. -/
def formList? : List Tree → Option (List Form)
  | [] => some []
  | t :: ts => (form? t).bind fun f => (formList? ts).map fun fs => f :: fs

end

end Signature

mutual

/-- The calls in a form that are reached through tuples, with the forms of their arguments. -/
def Form.calls : Form → List (Text × List Form)
  | .tuple items => Form.callsList items
  | .call n args => [(n, args)]
  | _ => []

/-- The calls in a list of forms that are reached through tuples. -/
def Form.callsList : List Form → List (Text × List Form)
  | [] => []
  | f :: fs => Form.calls f ++ Form.callsList fs

end

/-- All calls of a form that are to be drawn can be drawn. -/
def Signature.Drawable (σ : Signature) (f : Form) : Prop :=
  ∀ c ∈ f.calls, σ.draws c.1 c.2 = true

/-- How many figures the given calls make, if all of them can be drawn. -/
def Signature.count? (σ : Signature) (calls : List (Text × List Form)) : Option Nat :=
  if calls.all fun c => σ.draws c.1 c.2 then some calls.length else none

/-- The figures of calls are counted if all of the calls can be drawn, and there is one figure for
each. -/
theorem Signature.count?_eq_some_iff {σ : Signature} {calls : List (Text × List Form)} {k : Nat} :
  σ.count? calls = some k ↔ (∀ c ∈ calls, σ.draws c.1 c.2 = true) ∧ k = calls.length
  := by
  rw [count?, Option.ite_none_right_eq_some, List.all_eq_true, Option.some_inj, eq_comm]

/-- The figures of calls are counted one call after the other. -/
theorem Signature.count?_cons (σ : Signature) (c : Text × List Form)
    (calls : List (Text × List Form)) :
  σ.count? (c :: calls) = if σ.draws c.1 c.2 then (σ.count? calls).map (· + 1) else none
  := by
  rw [count?, count?, List.all_cons, List.length_cons]
  cases σ.draws c.1 c.2 with
  | false => rfl
  | true =>
    rw [Bool.true_and, if_pos rfl, apply_ite (Option.map (· + 1))]
    rfl

/-- A call with the forms of its arguments. -/
def Call.form (call : Call) : Text × List Form := (call.name, call.args.map Tree.form)

theorem Form.callsList_eq_flatMap (fs : List Form) :
  Form.callsList fs = fs.flatMap Form.calls
  := by
  induction fs with
  | nil => rfl
  | cons f fs ih => rw [Form.callsList, ih, List.flatMap_cons]

/-- The calls of a tree have the forms that are the calls of its form. -/
theorem Tree.calls_form (t : Tree) :
  t.form.calls = t.calls.map Call.form
  := by
  induction t using Tree.induction with
  | tuple items s ih =>
    rw [form_tuple, Form.calls, Form.callsList_eq_flatMap, calls, callsList_eq_flatMap,
      List.flatMap_map, List.map_flatMap]
    exact List.flatMap_congr ih
  | call n args s _ =>
    rw [form_call]
    rfl
  | _ => rfl

/-! ### Outcomes that conform to what is expected -/

/-- Errors that are due to the form of a tree. -/
inductive CommandError.Mismatch : CommandError → Prop
  | unmatched {trail : Trail} {call : Tree} {span : Span} :
    Mismatch (.evaluation trail (.unmatched call) span)
  | unmatchable {trail : Trail} {reason : MatchError} {span : Span} :
    Mismatch (.evaluation trail (.unmatchable reason) span)
  | unpaired {trail : Trail} {count : Nat} {span : Span} :
    Mismatch (.evaluation trail (.fault (.unpairedCoordinates count)) span)
  | undrawable {call : Tree} : Mismatch (.undrawable call)
  | drawingUnmatchable {trail : Trail} {reason : MatchError} :
    Mismatch (.drawingUnmatchable trail reason)

section Conforms

variable {α β γ δ : Type}

/-- Results of functions conform to what is expected of their view: they are as expected, or there
is nothing to be expected and the function fails.  Divisions by zero are never expected. -/
inductive Applied.Conforms (view : α → β) (expected : Option β) : Applied α → Prop
  | result {a : α} : expected = some (view a) → Conforms view expected (.ok a)
  | divisionByZero : Conforms view expected (fails .divisionByZero)
  | unpaired {count : Nat} :
    expected = none → Conforms view expected (fails (.unpairedCoordinates count))

/-- Outcomes of commands that conform to what is expected of their view. -/
inductive Conforming (view : α → β) (expected : Option β) : Except CommandError α → Prop
  | result {a : α} : expected = some (view a) → Conforming view expected (.ok a)
  | divisionByZero {trail : Trail} {span : Span} :
    Conforming view expected (.error (.evaluation trail (.fault .divisionByZero) span))
  | mismatch {e : CommandError} :
    expected = none → e.Mismatch → Conforming view expected (.error e)

namespace Tracked

/-- At every trail, the outcome conforms to what is expected of its view. -/
def Conforms (view : α → β) (expected : Option β) (x : Tracked α) : Prop :=
  ∀ trail, Conforming view expected (x.run.run trail).1

variable {view : α → β} {expected : Option β}

theorem conforms_pure {a : α} (h : expected = some (view a)) :
  Conforms view expected (pure a : Tracked α)
  := by
  intro trail
  apply Conforming.result h

/-- Steps in sequence conform to what is expected of them in sequence. -/
theorem Conforms.bind {view' : γ → δ} {g : β → Option δ} {x : Tracked α} {f : α → Tracked γ}
    (hx : Conforms view expected x)
    (hf : ∀ a, expected = some (view a) → Conforms view' (g (view a)) (f a)) :
  Conforms view' (expected.bind g) (x >>= f)
  := by
  intro trail
  have hrun := hx trail
  rcases h : x.run.run trail with ⟨result, after⟩
  rw [h] at hrun
  cases hrun with
  | @result a ha =>
    rw [run_bind_of_ok h, ha]
    apply hf a ha after
  | divisionByZero =>
    rw [run_bind_of_error h]
    apply Conforming.divisionByZero
  | mismatch hnone hmismatch =>
    rw [run_bind_of_error h, hnone]
    apply Conforming.mismatch rfl hmismatch

/-- Changing the value of a computation changes what is expected of it in the same way. -/
theorem Conforms.map {view' : γ → δ} {g : β → δ} {x : Tracked α} {f : α → γ}
    (hx : Conforms view expected x) (hf : ∀ a, g (view a) = view' (f a)) :
  Conforms view' (expected.map g) (x >>= fun a => pure (f a))
  := by
  rw [Option.map_eq_bind]
  apply hx.bind
  intro a _
  apply conforms_pure
  rw [Function.comp, hf]

theorem Conforms.map_same {x : Tracked α} {f : α → α} (hx : Conforms view expected x)
    (hf : ∀ a, view (f a) = view a) :
  Conforms view expected (x >>= fun a => pure (f a))
  := by
  have h := hx.map (g := id) fun a => (hf a).symm
  rwa [Option.map_id, id] at h

/-- A frame around a computation does not change what is expected of it. -/
theorem Conforms.inside {x : Tracked α} (h : Conforms view expected x) (frame : Frame) :
  Conforms view expected (inside frame x)
  := by
  intro trail
  rw [run_inside]
  apply h

/-- An error of the kind that mismatches give is right where nothing is expected. -/
theorem conforms_failEvaluation {cause : EvaluationCause} {span : Span} (h : expected = none)
    (hcause : ∀ trail, (CommandError.evaluation trail cause span).Mismatch) :
  Conforms view expected (failEvaluation cause span : Tracked α)
  := by
  intro trail
  rw [run_failEvaluation]
  apply Conforming.mismatch h (hcause trail)

/-- Reporting the outcome of a function conforms to what is expected of the function. -/
theorem conforms_ofApplied {x : Applied α} (h : Applied.Conforms view expected x) (span : Span) :
  Conforms view expected (ofApplied span x)
  := by
  intro trail
  cases h with
  | result ha => apply Conforming.result ha
  | divisionByZero => apply Conforming.divisionByZero
  | unpaired hnone => apply Conforming.mismatch hnone .unpaired

end Tracked

end Conforms

/-! ### Tables that implement what a signature says -/

section Table

variable {ρ β : Type}

/-- A table does what is said about its functions: it only has templates that match by form, its
functions conform to what is expected of the arguments they are applied to, and all calls of
which something is expected match a template. -/
structure Table.Implements (table : Table ρ) (view : ρ → β)
    (expected : Text → List Form → Option β) : Prop where
  schematic : ∀ p ∈ table.patterns, p.template.Schematic
  applies : ∀ p ∈ table.patterns, ∀ n fs captures,
    Form.capture (.call n fs) p.template.form = some (captures.map Capture.form) →
      Applied.Conforms view (expected n fs) (p.behaviour captures)
  covers : ∀ n fs b, expected n fs = some b →
    ∃ p ∈ table.patterns, ∃ ks, Form.capture (.call n fs) p.template.form = some ks

variable {table : Table ρ} {view : ρ → β} {expected : Text → List Form → Option β}

/-- Only the forms of templates and what is done with captures matter. -/
theorem Table.Implements.of_entries {entries : List (Form × Behaviour ρ)}
    (hentries : table.patterns.map (fun p => (p.template.form, p.behaviour)) = entries)
    (schematic : ∀ p ∈ table.patterns, p.template.Schematic)
    (applies : ∀ entry ∈ entries, ∀ n fs captures,
      Form.capture (.call n fs) entry.1 = some (captures.map Capture.form) →
        Applied.Conforms view (expected n fs) (entry.2 captures))
    (covers : ∀ n fs b, expected n fs = some b →
      (entries.any fun entry => (Form.capture (.call n fs) entry.1).isSome) = true) :
  table.Implements view expected
  := by
  subst hentries
  constructor
  · apply schematic
  · intro p hp
    apply applies _ (List.mem_map_of_mem hp)
  · intro n fs b hb
    obtain ⟨_, hentry, hsome⟩ := List.any_eq_true.mp (covers n fs b hb)
    obtain ⟨p, hp, rfl⟩ := List.mem_map.mp hentry
    use p, hp
    apply Option.isSome_iff_exists.mp hsome

/-- The function that is found for a call does what is expected of the call. -/
theorem Table.Implements.conforms_find (h : table.Implements view expected) {n : Text}
    {args : List Tree} {span : Span} {hit : Hit ρ}
    (hfind : table.find (.call n args span) = .ok (some hit)) :
  Applied.Conforms view (expected n (args.map Tree.form)) (hit.pattern.behaviour hit.captures)
  := by
  obtain ⟨hmem, hcapture⟩ := search_hit hfind
  apply h.applies hit.pattern hmem
  rw [← Tree.form_call n args span, ← Tree.forms_capture _ (h.schematic _ hmem), hcapture]
  rfl

/-- Nothing is expected of a call for which no function is found. -/
theorem Table.Implements.eq_none (h : table.Implements view expected) {n : Text}
    {args : List Tree} (span : Span)
    (hfind : ∀ hit, table.find (.call n args span) ≠ .ok (some hit)) :
  expected n (args.map Tree.form) = none
  := by
  -- If something were expected, a template would match by form, and the call would be found.
  cases hb : expected n (args.map Tree.form) with
  | none => rfl
  | some b =>
    obtain ⟨p, hp, ks, hks⟩ := h.covers n _ b hb
    rw [← Tree.form_call n args span] at hks
    obtain ⟨hit, hhit⟩ := exists_find hp (h.schematic p hp) hks
    apply absurd hhit (hfind hit)

end Table

namespace Registry

/-- Both tables of a registry do what a signature says. -/
structure Implements (registry : Registry) (σ : Signature) : Prop where
  reduces : ∀ n, registry.reduces n = (σ.computes n).isSome
  reductions : registry.reductions.Implements Tree.form fun n fs => (σ.computes n).bind (· fs)
  drawings : registry.drawings.Implements (fun _ => ())
    fun n fs => if σ.draws n fs then some () else none

/-! ### Reduction -/

variable {registry : Registry} {σ : Signature}

/-- A call is applied as the signature says. -/
theorem Implements.conforms_applyCall (h : registry.Implements σ) (n : Text) (args : List Tree)
    (span : Span) :
  Tracked.Conforms Tree.form (σ.ofCall n (args.map Tree.form)) (registry.applyCall n args span)
  := by
  rw [applyCall, h.reduces]
  cases hn : σ.computes n with
  | none =>
    rw [Signature.ofCall, hn]
    apply Tracked.conforms_pure
    rw [Tree.form_call]
  | some computed =>
    have hexpected : σ.ofCall n (args.map Tree.form)
        = (σ.computes n).bind (· (args.map Tree.form)) := by
      rw [Signature.ofCall, hn, Option.bind_some]
    rw [hexpected, Option.isSome_some, if_pos rfl]
    split
    · next e hfind =>
      apply Tracked.conforms_failEvaluation
      · apply h.reductions.eq_none span
        simp [hfind]
      · intro trail
        apply CommandError.Mismatch.unmatchable
    · next hfind =>
      apply Tracked.conforms_failEvaluation
      · apply h.reductions.eq_none span
        simp [hfind]
      · intro trail
        apply CommandError.Mismatch.unmatched
    · next hit hfind =>
      have happlied := Tracked.conforms_ofApplied (h.reductions.conforms_find hfind) span
      apply happlied.map_same
      intro result
      apply Tree.form_withSpan

/-- If trees are reduced as the signature says, then so are lists of them. -/
theorem Implements.conforms_reduceList {ts : List Tree}
    (h : ∀ t ∈ ts, Tracked.Conforms Tree.form (σ.form? t) (registry.reduce t)) :
  Tracked.Conforms (List.map Tree.form) (σ.formList? ts) (registry.reduceList ts)
  := by
  induction ts with
  | nil => apply Tracked.conforms_pure (a := []) rfl
  | cons t ts ih =>
    rw [Signature.formList?, reduceList]
    apply (h t List.mem_cons_self).bind
    intro reduced _
    apply (ih fun u hu => h u (List.mem_cons_of_mem t hu)).map
    intro rest
    rfl

/-- Reducing a tree conforms to the form that is expected of the reduced tree. -/
theorem Implements.conforms_reduce (h : registry.Implements σ) (t : Tree) :
  Tracked.Conforms Tree.form (σ.form? t) (registry.reduce t)
  := by
  induction t using Tree.induction with
  | number x s => apply Tracked.conforms_pure (a := Tree.number x s) rfl
  | name n s => apply Tracked.conforms_pure (a := Tree.name n s) rfl
  | tuple items s ih =>
    rw [Signature.form?, reduce]
    apply (conforms_reduceList ih).map
    intro reduced
    rw [Tree.form_tuple]
  | call n args s ih =>
    rw [Signature.form?, reduce]
    apply Tracked.Conforms.inside
    apply (conforms_reduceList ih).bind
    intro reduced _
    apply h.conforms_applyCall
  | wildcard kind s => apply Tracked.conforms_pure (a := Tree.wildcard kind s) rfl

/-! ### Drawing -/

/-- A call is drawn as the signature says. -/
theorem Implements.conforms_drawCall (h : registry.Implements σ) (n : Text) (args : List Tree)
    (span : Span) :
  Tracked.Conforms (fun _ => ()) (if σ.draws n (args.map Tree.form) then some () else none)
    (registry.drawCall n args span)
  := by
  rw [drawCall]
  apply Tracked.Conforms.inside
  rcases hfind : registry.drawings.find (.call n args span) with e | _ | hit
  · intro trail
    apply Conforming.mismatch
    · apply h.drawings.eq_none span
      simp [hfind]
    · apply CommandError.Mismatch.drawingUnmatchable
  · intro trail
    apply Conforming.mismatch
    · apply h.drawings.eq_none span
      simp [hfind]
    · apply CommandError.Mismatch.undrawable
  · apply Tracked.conforms_ofApplied (h.drawings.conforms_find hfind)

/-- What is made of calls conforms to their number, if all of them can be drawn. -/
theorem Implements.conforming_completed (h : registry.Implements σ) {trail : Trail}
    {calls : List Call} {made : List Figure} {error : Option CommandError}
    (hmakes : registry.Makes trail calls made error) :
  Conforming List.length (σ.count? (calls.map Call.form)) (completed (made, error))
  := by
  have hdraws : ∀ call, Conforming (fun _ => ())
      (if σ.draws call.form.1 call.form.2 then some () else none)
      ((registry.figure call).result trail) := by
    intro call
    apply h.conforms_drawCall call.name call.args call.span trail
  induction hmakes with
  | done => exact Conforming.result rfl
  | @drawn call calls figure made error hcall _ ih =>
    have hdrawn := hdraws call
    rw [hcall] at hdrawn
    rw [List.map_cons, Signature.count?_cons]
    cases hdrawn with
    | result hdrawn =>
      rw [if_pos (Option.ite_none_right_eq_some.mp hdrawn).1]
      generalize σ.count? (calls.map Call.form) = expected at ih ⊢
      cases error with
      | none =>
        cases ih with
        | result hcount => exact Conforming.result (congrArg (Option.map (· + 1)) hcount)
      | some e =>
        cases ih with
        | divisionByZero => exact Conforming.divisionByZero
        | mismatch hnone he => exact Conforming.mismatch (congrArg (Option.map (· + 1)) hnone) he
  | @failed call calls e hcall =>
    have hfailed := hdraws call
    rw [hcall] at hfailed
    rw [List.map_cons, Signature.count?_cons]
    cases hfailed with
    | divisionByZero => exact Conforming.divisionByZero
    | mismatch hnone he =>
      apply Conforming.mismatch _ he
      rw [if_neg]
      intro hdrawn
      rw [if_pos hdrawn] at hnone
      cases hnone

/-- Drawing a tree conforms to the number of calls that are reached through tuples, if all of them
can be drawn. -/
theorem Implements.conforms_draw (h : registry.Implements σ) (t : Tree) :
  Tracked.Conforms List.length (σ.count? t.form.calls) (registry.draw t)
  := by
  intro trail
  obtain ⟨made, error, hmakes, hrun⟩ := registry.addsFigures_collect t trail
  rw [run_draw, hrun, Tree.calls_form]
  exact h.conforming_completed hmakes

/-- Reducing and drawing a tree conforms to the number of calls in the form of the reduced tree. -/
theorem Implements.conforms_reduce_draw (h : registry.Implements σ) (t : Tree) :
  Tracked.Conforms List.length ((σ.form? t).bind fun f => σ.count? f.calls)
    (registry.reduce t >>= registry.draw)
  := by
  apply (h.conforms_reduce t).bind
  intro reduced _
  apply h.conforms_draw reduced

end Registry

end Sketch
