import Sketch.Proofs.BuiltinForms
import Sketch.Proofs.Reduction

/-!
# What becomes of a call

A call with reduced arguments is kept, computed, or fails, and a call that is drawn gives a
figure or fails.  These are the only steps of evaluation at which anything happens, so what holds
of whole commands follows from the lists of cases given here (`Registry.Becomes` and
`Registry.Gives`).

The functions that are always there compute a number or a pair of numbers, whatever they are
applied to (`Tree.IsValue`).
-/

namespace Sketch

/-! ### Values -/

/-- A number, or a pair of numbers. -/
inductive Tree.IsValue : Tree → Prop
  | number (x : Number) (s : Span) : IsValue (.number x s)
  | pair (x y : Number) (r r' s : Span) : IsValue (.tuple [.number x r, .number y r'] s)

/-- Only numbers have the form of a number. -/
theorem Tree.form_eq_number_iff {t : Tree} :
  t.form = .number ↔ ∃ x s, t = .number x s
  := by
  cases t <;> simp [form]

/-- Only tuples have the form of a tuple, and their items have the forms of its items. -/
theorem Tree.form_eq_tuple_iff {t : Tree} {fs : List Form} :
  t.form = .tuple fs ↔ ∃ items s, t = .tuple items s ∧ items.map form = fs
  := by
  cases t <;> simp [form, formList_eq_map]

/-- Numbers and pairs of numbers are values. -/
theorem Tree.isValue_of_form {t : Tree}
    (h : t.form = .number ∨ t.form = .tuple [.number, .number]) :
  t.IsValue
  := by
  rcases h with h | h
  · obtain ⟨x, s, rfl⟩ := form_eq_number_iff.mp h
    apply IsValue.number
  · obtain ⟨items, s, rfl, hitems⟩ := form_eq_tuple_iff.mp h
    obtain ⟨t, rest, rfl, ht, hrest⟩ := List.map_eq_cons_iff.mp hitems
    obtain ⟨u, rest', rfl, hu, hnil⟩ := List.map_eq_cons_iff.mp hrest
    obtain rfl := List.map_eq_nil_iff.mp hnil
    obtain ⟨x, r, rfl⟩ := form_eq_number_iff.mp ht
    obtain ⟨y, r', rfl⟩ := form_eq_number_iff.mp hu
    apply IsValue.pair

/-- Whatever a function computes is a value. -/
theorem Builtin.computed_form {n : Text} {fs : List Form} {f : Form}
    (h : (Signature.builtin.computes n).bind (· fs) = some f) :
  f = .number ∨ f = .tuple [.number, .number]
  := by
  obtain ⟨computed, hcomputed, hf⟩ := Option.bind_eq_some_iff.mp h
  rcases computes_eq_some hcomputed with ⟨-, rfl⟩ | ⟨-, rfl⟩ | ⟨-, rfl⟩ | ⟨-, rfl⟩
  · unfold Signature.ofTwoNumbers at hf
    split at hf <;> simp_all
  · unfold Signature.ofNumber at hf
    split at hf <;> simp_all
  · unfold Signature.ofNumbers at hf
    split at hf <;> simp_all
  · unfold Signature.ofTwoPoints at hf
    split at hf <;> simp_all

theorem Tree.IsValue.withSpan {t : Tree} (h : t.IsValue) (s : Span) :
  (t.withSpan s).IsValue
  := by
  cases h with
  | number x r => apply IsValue.number
  | pair x y r r' _ => apply IsValue.pair

/-- Functions compute values.  They fail by faults that name no span. -/
theorem Builtin.ends_of_yields {x : Applied Tree} (h : Registry.builtin.reductions.Yields x) :
  Ends Tree.IsValue
    (fun failure => failure = .fault .divisionByZero .nowhere
      ∨ ∃ count, failure = .fault (.unpairedCoordinates count) .nowhere) x
  := by
  obtain ⟨n, args, s, hit, hfind, rfl⟩ := h
  have hconforms := implements_builtin.reductions.conforms_find hfind
  generalize hit.pattern.behaviour hit.captures = x at hconforms ⊢
  cases hconforms with
  | result hform => exact Tree.isValue_of_form (computed_form hform)
  | divisionByZero =>
    left
    rfl
  | @unpaired count _ =>
    right
    use count

/-- Functions ask only for captures that exist. -/
theorem Builtin.not_yields_missingCapture :
  ¬Registry.builtin.reductions.Yields (.error .missingCapture)
  := by
  intro hyields
  rcases ends_of_yields hyields with h | ⟨count, h⟩
  · cases h
  · cases h

namespace Registry

/-! ### Calls with reduced arguments -/

/-- What can become of a call whose arguments are reduced. -/
inductive Becomes (n : Text) (args : List Tree) (s : Span) (trail : Trail) :
    Except CommandError Tree → Prop
  | kept : Registry.builtin.reduces n = false → Becomes n args s trail (.ok (.call n args s))
  | computed {r : Tree} :
    Registry.builtin.reduces n = true → r.IsValue → Becomes n args s trail (.ok r)
  | fault {cause : Fault} : Becomes n args s trail (.error (.evaluation trail (.fault cause) s))
  | unmatched :
    Becomes n args s trail (.error (.evaluation trail (.unmatched (.call n args s)) s))
  | unmatchable {e : MatchError} :
    Registry.builtin.reductions.find (.call n args s) = .error e →
      Becomes n args s trail (.error (.evaluation trail (.unmatchable e) e.span))

/-- Every call that is applied becomes what is said about it, at every trail. -/
theorem becomes_applyCall (n : Text) (args : List Tree) (s : Span) (trail : Trail) :
  Becomes n args s trail ((Registry.builtin.applyCall n args s).result trail)
  := by
  have happlies := Registry.builtin.applies_applyCall n args s
  generalize Registry.builtin.applyCall n args s = x at happlies ⊢
  cases happlies with
  | kept hn => exact Becomes.kept hn
  | @computed hit r hn hfind hr =>
    have hvalue := Builtin.ends_of_yields ⟨n, args, s, hit, hfind, hr⟩
    exact Becomes.computed hn (hvalue.withSpan _)
  | refused _ hrefuses =>
    cases hrefuses with
    | unmatchable hfind => exact Becomes.unmatchable hfind
    | unmatched _ => exact Becomes.unmatched
    | @fault hit cause r hfind hfault =>
      obtain hfault | ⟨count, hfault⟩ :=
        Builtin.ends_of_yields ⟨n, args, s, hit, hfind, hfault⟩
      · cases hfault
        exact Becomes.fault
      · cases hfault
        exact Becomes.fault
  | missingCapture hyields => exact absurd hyields Builtin.not_yields_missingCapture

/-! ### Calls that are drawn -/

/-- What can become of a call that is drawn. -/
inductive Gives (n : Text) (args : List Tree) (s : Span) : Except CommandError Figure → Prop
  | figure {figure : Figure} {hit : Hit Figure} :
    Registry.builtin.drawings.find (.call n args s) = .ok (some hit) →
      hit.pattern.behaviour hit.captures = .ok figure → Gives n args s (.ok figure)
  | fault {trail : Trail} {cause : Fault} :
    Gives n args s (.error (.evaluation trail (.fault cause) s))
  | undrawable : Gives n args s (.error (.undrawable (.call n args s)))
  | unmatchable {trail : Trail} {e : MatchError} :
    Registry.builtin.drawings.find (.call n args s) = .error e →
      Gives n args s (.error (.drawingUnmatchable trail e))

/-- Every call that is drawn gives what is said about it, at every trail. -/
theorem gives_drawCall (n : Text) (args : List Tree) (s : Span) (trail : Trail) :
  Gives n args s ((Registry.builtin.drawCall n args s).result trail)
  := by
  rw [drawCall, Tracked.result_inside]
  rcases hfind : Registry.builtin.drawings.find (.call n args s) with e | _ | hit
  · exact Gives.unmatchable hfind
  · exact Gives.undrawable
  · have happlied := Builtin.implements_builtin.drawings.conforms_find hfind
    dsimp only
    cases hx : hit.pattern.behaviour hit.captures with
    | ok figure => exact Gives.figure hfind hx
    | error failure =>
      rw [hx] at happlied
      cases happlied with
      | divisionByZero => exact Gives.fault
      | unpaired _ => exact Gives.fault

end Registry

end Sketch
