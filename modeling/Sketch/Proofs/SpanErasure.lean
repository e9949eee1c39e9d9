import Sketch.Proofs.Results
import Sketch.Proofs.Trees

/-!
# Spans do not matter

Spans are carried along, and reported in errors.  Apart from that they have no influence: trees
that are the same without their spans are reduced to trees that are the same without their
spans, and drawn as the same figures, or else fail with the same errors apart from their spans.
-/

namespace Sketch

open Sketch.Tree (bare)

/-! ### Errors without spans -/

/-- The error without its span. -/
def MatchError.bare : MatchError → MatchError
  | wildcardInTree kind _ => wildcardInTree kind .nowhere
  | nameForWildcard n _ => nameForWildcard n .nowhere

/-- The cause without spans. -/
def EvaluationCause.bare : EvaluationCause → EvaluationCause
  | fault cause => fault cause
  | unmatched call => unmatched call.bare
  | unmatchable reason => unmatchable reason.bare

/-- The error without spans.  Positions of parse errors are kept. -/
def CommandError.bare : CommandError → CommandError
  | unreadable reason => unreadable reason
  | evaluation trail cause _ => evaluation trail cause.bare .nowhere
  | undrawable call => undrawable call.bare
  | drawingUnmatchable trail reason => drawingUnmatchable trail reason.bare
  | missingCapture => missingCapture

section Except

variable {α β γ δ : Type}

/-- An outcome without spans, where `view` takes them from the result. -/
def spanless (view : α → β) : Except CommandError α → Except CommandError β
  | .ok a => .ok (view a)
  | .error e => .error e.bare

/-- If nothing is taken from the result, only the error is looked at without spans. -/
theorem spanless_id (x : Except CommandError α) :
  spanless id x = x.mapError CommandError.bare
  := by
  cases x with
  | error e => rfl
  | ok a => rfl

/-- Two computations in sequence are the same apart from spans if both steps are. -/
theorem spanless_bind {view : α → β} {view' : γ → δ} {x y : Except CommandError α}
    {f g : α → Except CommandError γ} (h : spanless view x = spanless view y)
    (hfg : ∀ a b, view a = view b → spanless view' (f a) = spanless view' (g b)) :
  spanless view' (x >>= f) = spanless view' (y >>= g)
  := by
  rcases x with e | a
  · rcases y with e' | b
    · exact congrArg Except.error (Except.error.inj h)
    · cases h
  · rcases y with e' | b
    · cases h
    · exact hfg a b (Except.ok.inj h)

/-- Computations on the elements of lists are the same apart from spans if they are so one by
one. -/
theorem spanless_mapM {view : α → β} {f : γ → Except CommandError α} {cs ds : List γ}
    (h : List.Forall₂ (fun c d => spanless view (f c) = spanless view (f d)) cs ds) :
  spanless (List.map view) (cs.mapM f) = spanless (List.map view) (ds.mapM f)
  := by
  induction h with
  | nil => rfl
  | cons hfirst _ ih =>
    rw [List.mapM_cons, List.mapM_cons]
    apply spanless_bind hfirst
    intro a b hab
    apply spanless_bind ih
    intro as bs habs
    change Except.ok (view a :: as.map view) = Except.ok (view b :: bs.map view)
    rw [hab, habs]

/-- If one of two outcomes that are the same apart from spans succeeds, then so does the other
one. -/
theorem exists_ok_of_spanless {view : α → β} {x y : Except CommandError α} {a : α}
    (h : spanless view x = spanless view y) (hx : x = .ok a) :
  ∃ b, y = .ok b ∧ view b = view a
  := by
  subst hx
  rcases y with e | b
  · cases h
  · exact ⟨b, rfl, (Except.ok.inj h).symm⟩

/-- If one of two outcomes that are the same apart from spans fails, then so does the other one,
with an error that is the same apart from its spans. -/
theorem exists_error_of_spanless {view : α → β} {x y : Except CommandError α} {e : CommandError}
    (h : spanless view x = spanless view y) (hx : x = .error e) :
  ∃ e', y = .error e' ∧ e'.bare = e.bare
  := by
  subst hx
  rcases y with e' | b
  · exact ⟨e', rfl, (Except.error.inj h).symm⟩
  · cases h

/-- A relation that holds between elements with the same view holds one by one between lists with
the same views. -/
theorem forall₂_of_map_eq {view : α → β} {R : α → α → Prop} {as bs : List α}
    (h : as.map view = bs.map view) (hR : ∀ a ∈ as, ∀ b, view a = view b → R a b) :
  List.Forall₂ R as bs
  := by
  induction as generalizing bs with
  | nil =>
    rw [List.map_eq_nil_iff.mp h.symm]
    apply List.Forall₂.nil
  | cons a as ih =>
    obtain ⟨b, rest, rfl, hb, hrest⟩ := List.map_eq_cons_iff.mp h.symm
    apply List.Forall₂.cons
    · apply hR a List.mem_cons_self b hb.symm
    · apply ih hrest.symm
      intro c hc
      apply hR c (List.mem_cons_of_mem a hc)

end Except

/-! ### Matching -/

namespace Tree

/-- The span of the root is one of those that are forgotten. -/
@[simp]
theorem bare_withSpan (t : Tree) (s : Span) :
  (t.withSpan s).bare = t.bare
  := by
  cases t <;> rfl

/-- Numbers are taken from trees whatever their spans. -/
theorem numbers?_map_bare (items : List Tree) :
  numbers? (items.map bare) = numbers? items
  := by
  rw [numbers?, numbers?, List.mapM_map]
  congr 1
  funext t
  cases t <;> rfl

theorem andThen_mapError_bare (first second : Matched) :
  Matched.andThen (first.mapError MatchError.bare) (second.mapError MatchError.bare)
    = (first.andThen second).mapError MatchError.bare
  := by
  rcases first with e | _ | cs
  · rfl
  · rfl
  · rcases second with e | _ | ds
    · rfl
    · rfl
    · rfl

/-- If trees match alike with and without spans, then so do lists of them. -/
theorem captureList_map_bare {ts : List Tree}
    (h : ∀ t ∈ ts, ∀ p, t.bare.capture p = (t.capture p).mapError MatchError.bare)
    (ps : List Tree) :
  captureList (ts.map bare) ps = (captureList ts ps).mapError MatchError.bare
  := by
  induction ts generalizing ps with
  | nil => cases ps <;> rfl
  | cons t ts ih =>
    cases ps with
    | nil => rfl
    | cons p ps =>
      rw [List.map_cons, captureList, captureList, h t List.mem_cons_self,
        ih fun u hu => h u (List.mem_cons_of_mem t hu), andThen_mapError_bare]

/-- The spans of a tree do not matter for matching it, except in errors. -/
theorem capture_bare (t p : Tree) :
  t.bare.capture p = (t.capture p).mapError MatchError.bare
  := by
  induction t using Tree.induction generalizing p with
  | number x s =>
    cases p with
    | wildcard kind r => cases kind <;> rfl
    | _ => rfl
  | name n s => cases p <;> rfl
  | tuple items s ih =>
    rw [bare_tuple]
    cases p with
    | tuple ps r =>
      rw [capture, capture, captureList_map_bare ih, List.length_map]
      split
      · rfl
      · rfl
    | wildcard kind r =>
      cases kind with
      | number => rfl
      | tuple =>
        rw [capture, capture, numbers?_map_bare]
        rfl
    | _ => rfl
  | call n args s ih =>
    rw [bare_call]
    cases p with
    | call m ps r =>
      rw [capture, capture, captureList_map_bare ih, List.length_map]
      split
      · rfl
      · rfl
    | wildcard kind r => cases kind <;> rfl
    | _ => rfl
  | wildcard kind s => cases p <;> rfl

end Tree

namespace Table

variable {ρ : Type}

/-- A pattern is found for a tree whatever its spans, but for those in an error. -/
theorem search_bare (t : Tree) (i : Nat) (ps : List (Pattern ρ)) :
  search t.bare i ps = (search t i ps).mapError MatchError.bare
  := by
  induction ps generalizing i with
  | nil => rfl
  | cons p ps ih =>
    rw [search, search, Tree.capture_bare]
    rcases t.capture p.template with e | _ | captures
    · rfl
    · apply ih
    · rfl

/-- In a table, trees that are the same without spans are found at the same place, or cannot be
compared with its templates for the same reason. -/
theorem find_of_bare_eq (table : Table ρ) {t u : Tree} (h : t.bare = u.bare) :
  (∃ found, table.find t = .ok found ∧ table.find u = .ok found)
    ∨ ∃ e e', table.find t = .error e ∧ table.find u = .error e' ∧ e.bare = e'.bare
  := by
  have hfind : (table.find t).mapError MatchError.bare
      = (table.find u).mapError MatchError.bare := by
    rw [find, find, ← search_bare, ← search_bare, h]
  generalize table.find t = x at hfind ⊢
  generalize table.find u = y at hfind ⊢
  rcases x with e | found
  · rcases y with e' | found'
    · exact Or.inr ⟨e, e', rfl, rfl, Except.error.inj hfind⟩
    · cases hfind
  · rcases y with e' | found'
    · cases hfind
    · obtain rfl := Except.ok.inj hfind
      exact Or.inl ⟨found, rfl, rfl⟩

end Table

/-! ### Reducing and drawing -/

/-- The call without spans. -/
def Call.bare (c : Call) : Call := ⟨c.name, c.args.map Tree.bare, .nowhere⟩

/-- The calls that are drawn are the same apart from their spans. -/
theorem Tree.calls_bare (t : Tree) :
  t.bare.calls = t.calls.map Call.bare
  := by
  induction t using Tree.induction with
  | tuple items s ih =>
    rw [bare_tuple, calls, calls, callsList_eq_flatMap, callsList_eq_flatMap, List.map_flatMap,
      List.flatMap_map]
    exact List.flatMap_congr ih
  | call n args s ih =>
    rw [bare_call]
    rfl
  | _ => rfl

namespace Tracked

variable {α β : Type}

/-- The span that is given with the outcome of a function only shows in an error. -/
theorem spanless_ofApplied (view : α → β) (x : Applied α) (s s' : Span) (trail : Trail) :
  spanless view ((ofApplied s x).result trail) = spanless view ((ofApplied s' x).result trail)
  := by
  rcases x with failure | a
  · cases failure with
    | fault cause r => rfl
    | missingCapture => rfl
  · rfl

end Tracked

namespace Registry

variable (registry : Registry)

open Tracked

/-- Functions do not look at the spans of their arguments. -/
theorem applyCall_of_bare_eq (n : Text) {args args' : List Tree}
    (h : args.map bare = args'.map bare) (s s' : Span) (trail : Trail) :
  spanless bare ((registry.applyCall n args s).result trail)
    = spanless bare ((registry.applyCall n args' s').result trail)
  := by
  have hcall : (Tree.call n args s).bare = (Tree.call n args' s').bare := by
    rw [Tree.bare_call, Tree.bare_call, h]
  rw [applyCall, applyCall]
  split
  · rcases registry.reductions.find_of_bare_eq hcall with
      ⟨found, hfind, hfind'⟩ | ⟨e, e', hfind, hfind', hbare⟩
    · rw [hfind, hfind']
      rcases found with _ | hit
      · change Except.error (CommandError.evaluation trail (.unmatched _) _)
          = Except.error (.evaluation trail (.unmatched _) _)
        rw [hcall]
      · dsimp only
        rw [result_bind (balanced_ofApplied s _), result_bind (balanced_ofApplied s' _)]
        apply spanless_bind (spanless_ofApplied bare _ s s' trail)
        intro a b hab
        change Except.ok _ = Except.ok _
        rw [Tree.bare_withSpan, Tree.bare_withSpan, hab]
    · rw [hfind, hfind']
      change Except.error (CommandError.evaluation trail (.unmatchable e.bare) _)
        = Except.error (.evaluation trail (.unmatchable e'.bare) _)
      rw [hbare]
  · change Except.ok _ = Except.ok _
    rw [hcall]

theorem reduceList_of_bare_eq {ts us : List Tree} (trail : Trail)
    (h : List.Forall₂ (fun t u => spanless bare ((registry.reduce t).result trail)
      = spanless bare ((registry.reduce u).result trail)) ts us) :
  spanless (List.map bare) ((registry.reduceList ts).result trail)
    = spanless (List.map bare) ((registry.reduceList us).result trail)
  := by
  rw [result_reduceList, result_reduceList]
  apply spanless_mapM h

/-- Trees that are the same apart from their spans are reduced to such trees. -/
theorem reduce_of_bare_eq {t u : Tree} (h : t.bare = u.bare) (trail : Trail) :
  spanless bare ((registry.reduce t).result trail)
    = spanless bare ((registry.reduce u).result trail)
  := by
  induction t using Tree.induction generalizing u trail with
  | tuple items s ih =>
    cases u with
    | tuple us r =>
      rw [Tree.bare_tuple, Tree.bare_tuple] at h
      have hitems : items.map bare = us.map bare := (Tree.tuple.inj h).1
      rw [result_reduce_tuple, result_reduce_tuple]
      apply spanless_bind
      · apply registry.reduceList_of_bare_eq
        apply forall₂_of_map_eq hitems
        intro t ht u htu
        apply ih t ht htu
      · intro reduced reduced' hreduced
        change Except.ok _ = Except.ok _
        rw [Tree.bare_tuple, Tree.bare_tuple, hreduced]
    | call m us r =>
      rw [Tree.bare_tuple, Tree.bare_call] at h
      cases h
    | _ => cases h
  | call n args s ih =>
    cases u with
    | call m us r =>
      rw [Tree.bare_call, Tree.bare_call] at h
      obtain ⟨rfl, hargs, -⟩ := Tree.call.inj h
      rw [result_reduce_call, result_reduce_call]
      apply spanless_bind
      · apply registry.reduceList_of_bare_eq
        apply forall₂_of_map_eq hargs
        intro t ht u htu
        apply ih t ht htu
      · intro reduced reduced' hreduced
        apply registry.applyCall_of_bare_eq n hreduced
    | tuple us r =>
      rw [Tree.bare_tuple, Tree.bare_call] at h
      cases h
    | _ => cases h
  | _ =>
    cases u with
    | tuple us r =>
      rw [Tree.bare_tuple] at h
      cases h
    | call m us r =>
      rw [Tree.bare_call] at h
      cases h
    | _ => exact congrArg Except.ok h

/-- Calls that are the same apart from their spans are drawn as the same figure. -/
theorem drawCall_of_bare_eq {c d : Call} (h : c.bare = d.bare) (trail : Trail) :
  spanless id ((registry.figure c).result trail) = spanless id ((registry.figure d).result trail)
  := by
  obtain ⟨n, args, s⟩ := c
  obtain ⟨m, args', s'⟩ := d
  obtain ⟨rfl, hargs, -⟩ := Call.mk.inj h
  have hcall : (Tree.call n args s).bare = (Tree.call n args' s').bare := by
    rw [Tree.bare_call, Tree.bare_call, hargs]
  rw [figure, figure, drawCall, drawCall, result_inside, result_inside]
  rcases registry.drawings.find_of_bare_eq hcall with
    ⟨found, hfind, hfind'⟩ | ⟨e, e', hfind, hfind', hbare⟩
  · rw [hfind, hfind']
    rcases found with _ | hit
    · change Except.error (CommandError.undrawable _) = Except.error (.undrawable _)
      rw [hcall]
    · apply spanless_ofApplied
  · rw [hfind, hfind']
    change Except.error (CommandError.drawingUnmatchable _ e.bare)
      = Except.error (.drawingUnmatchable _ e'.bare)
    rw [hbare]

/-- Trees that are the same apart from their spans are drawn as the same figures. -/
theorem figureEach_of_bare_eq {t u : Tree} (h : t.bare = u.bare) (trail : Trail) :
  spanless id (registry.figureEach t.calls trail) = spanless id (registry.figureEach u.calls trail)
  := by
  have hcalls : t.calls.map Call.bare = u.calls.map Call.bare := by
    rw [← Tree.calls_bare, ← Tree.calls_bare, h]
  have heach := spanless_mapM
    (forall₂_of_map_eq hcalls fun c _ d hcd => registry.drawCall_of_bare_eq hcd trail)
  rwa [List.map_id_fun] at heach

end Registry

end Sketch
