import Sketch.Proofs.Signatures
import Sketch.Registry.Builtin

/-!
# The forms of commands that can be drawn

The functions that are always there compute and draw by form, except that a division may fail.
`Signature.builtin` says for which forms of arguments they do, and `Registry.builtin` implements
it.  So whether a command can be drawn, and into how many figures, can be read off its tree
without any arithmetic, up to divisions by zero.
-/

namespace Sketch

namespace Signature

/-! ### The signature -/

/-- Two numbers, as a pair or one by one, give a number. -/
def ofTwoNumbers : List Form → Option Form
  | [.tuple [.number, .number]] => some .number
  | [.number, .number] => some .number
  | _ => none

/-- One number gives a number. -/
def ofNumber : List Form → Option Form
  | [.number] => some .number
  | _ => none

/-- A tuple of numbers gives a number. -/
def ofNumbers : List Form → Option Form
  | [.tuple items] => if items.all Form.isNumber then some .number else none
  | _ => none

/-- Two points of the plane give a point of the plane. -/
def ofTwoPoints : List Form → Option Form
  | [.tuple [.tuple [.number, .number], .tuple [.number, .number]]] =>
    some (.tuple [.number, .number])
  | _ => none

/-- Whether the argument of a call is a point of the plane or of space. -/
def isPoint : List Form → Bool
  | [.tuple [.number, .number]] => true
  | [.tuple [.number, .number, .number]] => true
  | _ => false

/-- Whether the argument of a call is made of two points of the plane. -/
def isSegment : List Form → Bool
  | [.tuple [.tuple [.number, .number], .tuple [.number, .number]]] => true
  | _ => false

/-- Whether the argument of a call is made of the coordinates of at least two points of the
plane. -/
def isPath : List Form → Bool
  | [.tuple items] => items.all Form.isNumber && 4 ≤ items.length && items.length % 2 = 0
  | _ => false

/-- The signature of the functions that are always there. -/
def builtin : Signature where
  computes n :=
    if n ∈ [utf8 "add", utf8 "sub", utf8 "mul", utf8 "div"] then some ofTwoNumbers
    else if n = utf8 "neg" then some ofNumber
    else if n = utf8 "sum" then some ofNumbers
    else if n = utf8 "mid" then some ofTwoPoints
    else none
  draws n args :=
    if n = utf8 "point" then isPoint args
    else if n = utf8 "line" then isSegment args
    else if n = utf8 "curve" then isPath args
    else false

end Signature

namespace Builtin

open Form (wildcard)

/-! ### Templates and what they do -/

/-- The form of a template for two numbers that are given as a pair. -/
def paired (n : Text) : Form := .call n [.tuple [.wildcard .number, .wildcard .number]]

/-- The form of a template for two numbers that are given one by one. -/
def curried (n : Text) : Form := .call n [.wildcard .number, .wildcard .number]

/-- The form of a template for two points of the plane. -/
def segment (n : Text) : Form :=
  .call n [.tuple [.tuple [.wildcard .number, .wildcard .number],
    .tuple [.wildcard .number, .wildcard .number]]]

/-- The forms of the templates of functions that compute trees, with what these functions do. -/
theorem reductions_eq :
  Registry.builtin.reductions.patterns.map (fun p => (p.template.form, p.behaviour))
    = [ (paired (utf8 "add"), binary fun x y => .ok (x + y)),
        (curried (utf8 "add"), binary fun x y => .ok (x + y)),
        (paired (utf8 "sub"), binary fun x y => .ok (x - y)),
        (curried (utf8 "sub"), binary fun x y => .ok (x - y)),
        (paired (utf8 "mul"), binary fun x y => .ok (x * y)),
        (curried (utf8 "mul"), binary fun x y => .ok (x * y)),
        (paired (utf8 "div"), binary divide),
        (curried (utf8 "div"), binary divide),
        (.call (utf8 "neg") [.wildcard .number], negate),
        (.call (utf8 "sum") [.wildcard .tuple], sum),
        (segment (utf8 "mid"), midpoint) ]
  := rfl

/-- The forms of the templates of functions that make figures, with what these functions do. -/
theorem drawings_eq :
  Registry.builtin.drawings.patterns.map (fun p => (p.template.form, p.behaviour))
    = [ (paired (utf8 "point"), point 2),
        (.call (utf8 "point")
          [.tuple [.wildcard .number, .wildcard .number, .wildcard .number]], point 3),
        (segment (utf8 "line"), line),
        (.call (utf8 "curve") [.wildcard .tuple], curve) ]
  := rfl

/-- An operation on two numbers fails only if it divides by zero. -/
def Arithmetical (operation : Number → Number → Applied Number) : Prop :=
  ∀ x y, (∃ z, operation x y = .ok z) ∨ operation x y = fails .divisionByZero

theorem arithmetical_ok (f : Number → Number → Number) :
  Arithmetical fun x y => .ok (f x y)
  := by
  intro x y
  left
  use f x y

/-- Division gives a number, or fails because of a division by zero. -/
theorem arithmetical_divide :
  Arithmetical divide
  := by
  intro x y
  rw [divide]
  split
  · right
    rfl
  · left
    use x / y

/-- An operation on two numbers gives a number, or divides by zero. -/
theorem conforms_binary {operation : Number → Number → Applied Number} (h : Arithmetical operation)
    (x y : Number) :
  Applied.Conforms Tree.form (some .number) (binary operation [.number x, .number y])
  := by
  have hbinary : binary operation [.number x, .number y]
      = operation x y >>= fun z => .ok (number z) := rfl
  rw [hbinary]
  rcases h x y with ⟨z, hz⟩ | hz
  · rw [hz]
    apply Applied.Conforms.result (a := number z) rfl
  · rw [hz]
    apply Applied.Conforms.divisionByZero

/-- Two elements from a position on. -/
theorem take_two_drop {values : List Number} {i : Nat} (h : i + 1 < values.length) :
  (values.drop i).take 2 = [values[i], values[i + 1]]
  := by
  rw [List.drop_eq_getElem_cons (Nat.lt_of_succ_lt h), List.drop_eq_getElem_cons h]
  rfl

/-- The point at a position has the two coordinates from there on, if there are two. -/
theorem pointAt_eq {values : List Number} {i : Nat} (h : i + 1 < values.length) :
  pointAt values i = .ok ((values.drop i).take 2)
  := by
  have hi : i < values.length := Nat.lt_of_succ_lt h
  rw [take_two_drop h]
  simp only [pointAt, numberAt, List.getElem?_eq_getElem hi, List.getElem?_eq_getElem h]
  rfl

/-- An even number of coordinates makes up pairs, and no position is out of range. -/
theorem pairs_eq {values : List Number} (h : values.length % 2 = 0) :
  pairs values
    = .ok ((List.range' 0 (values.length / 2) 2).map fun i => (values.drop i).take 2)
  := by
  have hcount : (values.length + 1) / 2 = values.length / 2 := by omega
  rw [pairs, hcount]
  apply mapM_eq_ok
  intro i hi
  obtain ⟨j, hj, rfl⟩ := List.mem_range'.mp hi
  apply pointAt_eq
  omega

/-- A curve is made from an even number of numbers, of which there are at least four. -/
theorem curve_eq {captures : Captures} {xs : List Number} (h : captures.tuple 0 = .ok xs) :
  curve captures
    = if xs.length % 2 = 0 ∧ 4 ≤ xs.length then
        .ok (.curve ((List.range' 0 (xs.length / 2) 2).map fun i => (xs.drop i).take 2))
      else fails (.unpairedCoordinates xs.length)
  := by
  have hcurve : curve captures
      = if xs.length < 4 ∨ xs.length % 2 ≠ 0 then fails (.unpairedCoordinates xs.length)
        else pairs xs >>= Figure.join := by
    rw [curve, h]
    rfl
  rw [hcurve]
  by_cases hlength : xs.length % 2 = 0 ∧ 4 ≤ xs.length
  · rw [if_neg (by omega), if_pos hlength, pairs_eq hlength.1]
    change Figure.join _ = _
    rw [Figure.join, List.length_map, List.length_range', if_neg (by omega)]
  · rw [if_pos (by omega), if_neg hlength]

/-- A curve conforms to what is expected of the number of its coordinates. -/
theorem conforms_curve (xs : List Number) :
  Applied.Conforms (fun _ => ())
    (if 4 ≤ xs.length ∧ xs.length % 2 = 0 then some () else none) (curve [.tuple xs])
  := by
  have hcurve := @curve_eq [.tuple xs] xs rfl
  rw [hcurve]
  split
  · next h =>
    rw [if_pos h.symm]
    apply Applied.Conforms.result rfl
  · next h =>
    rw [if_neg fun hlength => h hlength.symm]
    apply Applied.Conforms.unpaired rfl

/-! ### Reductions implement the signature -/

/-- The names of operations on two numbers. -/
def operations : List Text := [utf8 "add", utf8 "sub", utf8 "mul", utf8 "div"]

theorem computes_of_mem_operations {n : Text} (h : n ∈ operations) :
  Signature.builtin.computes n = some Signature.ofTwoNumbers
  := if_pos h

/-- What a pattern computes conforms to what the signature expects of the calls that match it. -/
def Computes (entry : Form × Behaviour Tree) : Prop :=
  ∀ n fs captures, Form.capture (.call n fs) entry.1 = some (captures.map Capture.form) →
    Applied.Conforms Tree.form ((Signature.builtin.computes n).bind (· fs)) (entry.2 captures)

section Binary

variable {n : Text} (hn : n ∈ operations) {operation : Number → Number → Applied Number}
  (h : Arithmetical operation)

include hn h

/-- Only the forms that a template for two numbers matches matter. -/
theorem computes_two {template : Form}
    (htemplate : ∀ {m fs ks}, Form.capture (.call m fs) template = some ks →
      n = m ∧ Signature.ofTwoNumbers fs = some .number ∧ [.number, .number] = ks) :
  Computes (template, binary operation)
  := by
  intro m fs captures hcapture
  obtain ⟨rfl, hfs, hforms⟩ := htemplate hcapture
  obtain ⟨x, y, rfl⟩ : ∃ x y, captures = [.number x, .number y] := by
    simpa [List.map_eq_cons_iff] using hforms.symm
  rw [computes_of_mem_operations hn, Option.bind_some, hfs]
  apply conforms_binary h

/-- An operation on two numbers computes a number from a pair. -/
theorem computes_paired :
  Computes (paired n, binary operation)
  := by
  apply computes_two hn h
  intro m fs ks hcapture
  obtain ⟨rfl, rfl, hks⟩ : n = m ∧ fs = [.tuple [.number, .number]]
      ∧ [.number, .number] = ks := by
    simpa [paired] using hcapture
  use rfl, rfl

/-- An operation on two numbers computes a number from two arguments, too. -/
theorem computes_curried :
  Computes (curried n, binary operation)
  := by
  apply computes_two hn h
  intro m fs ks hcapture
  obtain ⟨rfl, rfl, hks⟩ : n = m ∧ fs = [.number, .number] ∧ [.number, .number] = ks := by
    simpa [curried] using hcapture
  use rfl, rfl

end Binary

theorem computes_negate :
  Computes (.call (utf8 "neg") [.wildcard .number], negate)
  := by
  intro n fs captures hcapture
  obtain ⟨rfl, rfl, hforms⟩ : utf8 "neg" = n ∧ fs = [.number]
      ∧ [.number] = captures.map Capture.form := by
    simpa using hcapture
  obtain ⟨x, rfl⟩ : ∃ x, captures = [.number x] := by
    simpa [List.map_eq_cons_iff] using hforms.symm
  apply Applied.Conforms.result (a := number (-x)) rfl

theorem computes_sum :
  Computes (.call (utf8 "sum") [.wildcard .tuple], sum)
  := by
  intro n fs captures hcapture
  obtain ⟨rfl, items, rfl, hitems, hforms⟩ : utf8 "sum" = n ∧ ∃ items, fs = [.tuple items]
      ∧ items.all Form.isNumber = true ∧ [.tuple items] = captures.map Capture.form := by
    simpa using hcapture
  obtain ⟨xs, rfl, rfl⟩ : ∃ xs, captures = [.tuple xs]
      ∧ items = List.replicate xs.length .number := by
    simpa [List.map_eq_cons_iff] using hforms.symm
  refine Applied.Conforms.result (a := number (xs.foldl (· + ·) 0)) ?_
  apply if_pos hitems

/-- The midpoint of two points of the plane is a pair of numbers. -/
theorem computes_midpoint :
  Computes (segment (utf8 "mid"), midpoint)
  := by
  intro n fs captures hcapture
  obtain ⟨rfl, rfl, hforms⟩ : utf8 "mid" = n
      ∧ fs = [.tuple [.tuple [.number, .number], .tuple [.number, .number]]]
      ∧ [.number, .number, .number, .number] = captures.map Capture.form := by
    simpa [segment] using hcapture
  obtain ⟨x₁, y₁, x₂, y₂, rfl⟩ : ∃ x₁ y₁ x₂ y₂,
      captures = [.number x₁, .number y₁, .number x₂, .number y₂] := by
    simpa [List.map_eq_cons_iff] using hforms.symm
  apply Applied.Conforms.result
    (a := Tree.tuple [number ((x₁ + x₂) / 2), number ((y₁ + y₂) / 2)] .nowhere) rfl

/-- The functions that compute something, with what is expected of them. -/
theorem computes_eq_some {n : Text} {computed : List Form → Option Form}
    (h : Signature.builtin.computes n = some computed) :
  (n ∈ operations ∧ computed = Signature.ofTwoNumbers)
    ∨ (n = utf8 "neg" ∧ computed = Signature.ofNumber)
    ∨ (n = utf8 "sum" ∧ computed = Signature.ofNumbers)
    ∨ (n = utf8 "mid" ∧ computed = Signature.ofTwoPoints)
  := by
  simp only [Signature.builtin] at h
  grind [operations]

/-- Two numbers are expected as a pair, or as two arguments. -/
theorem ofTwoNumbers_eq_some {fs : List Form} {f : Form}
    (h : Signature.ofTwoNumbers fs = some f) :
  fs = [.tuple [.number, .number]] ∨ fs = [.number, .number]
  := by
  unfold Signature.ofTwoNumbers at h
  split at h
  · left
    rfl
  · right
    rfl
  · cases h

/-- The functions that compute trees do what is said about them. -/
theorem implements_reductions :
  Registry.builtin.reductions.Implements Tree.form
    fun n fs => (Signature.builtin.computes n).bind (· fs)
  := by
  apply Table.Implements.of_entries reductions_eq
  · decide +kernel
  · change ∀ entry ∈ _, Computes entry
    have hadd : utf8 "add" ∈ operations := by decide
    have hsub : utf8 "sub" ∈ operations := by decide
    have hmul : utf8 "mul" ∈ operations := by decide
    have hdiv : utf8 "div" ∈ operations := by decide
    simp only [List.forall_mem_cons]
    exact ⟨computes_paired hadd (arithmetical_ok _), computes_curried hadd (arithmetical_ok _),
      computes_paired hsub (arithmetical_ok _), computes_curried hsub (arithmetical_ok _),
      computes_paired hmul (arithmetical_ok _), computes_curried hmul (arithmetical_ok _),
      computes_paired hdiv arithmetical_divide, computes_curried hdiv arithmetical_divide,
      computes_negate, computes_sum, computes_midpoint, List.forall_mem_nil _⟩
  · intro n fs f hexpected
    obtain ⟨computed, hcomputed, hf⟩ := Option.bind_eq_some_iff.mp hexpected
    obtain ⟨hn, rfl⟩ | ⟨rfl, rfl⟩ | ⟨rfl, rfl⟩ | ⟨rfl, rfl⟩ := computes_eq_some hcomputed
    · rcases ofTwoNumbers_eq_some hf with rfl | rfl
      · clear hexpected hcomputed hf
        revert n
        decide
      · clear hexpected hcomputed hf
        revert n
        decide
    · unfold Signature.ofNumber at hf
      split at hf
      · rfl
      · cases hf
    · unfold Signature.ofNumbers at hf
      split at hf
      · next items =>
        split at hf
        · next hitems =>
          apply List.any_eq_true.mpr
          use (.call (utf8 "sum") [.wildcard .tuple], sum)
          simp [Form.capture, Form.captureList, hitems]
        · cases hf
      · cases hf
    · unfold Signature.ofTwoPoints at hf
      split at hf
      · rfl
      · cases hf

/-- The functions that compute trees are those of which something is expected. -/
theorem reduces_builtin (n : Text) :
  Registry.builtin.reduces n = (Signature.builtin.computes n).isSome
  := by
  have hreductions : Registry.builtin.reductions.names
      = operations ++ [utf8 "neg", utf8 "sum", utf8 "mid"] := by decide +kernel
  have hdrawings : Registry.builtin.drawings.names
      = [utf8 "point", utf8 "line", utf8 "curve"] := by decide +kernel
  rw [Registry.reduces, Table.hasName, Table.hasName, hreductions, hdrawings]
  by_cases hn : n ∈ operations ++ [utf8 "neg", utf8 "sum", utf8 "mid"]
  · revert n
    decide
  · have hcomputes : Signature.builtin.computes n = none := by
      cases h : Signature.builtin.computes n with
      | none => rfl
      | some computed =>
        have := computes_eq_some h
        simp only [List.mem_append, List.mem_cons, List.not_mem_nil] at hn
        grind
    have hcontains : (operations ++ [utf8 "neg", utf8 "sum", utf8 "mid"]).contains n = false := by
      rw [List.contains_eq_mem, decide_eq_false hn]
    rw [hcomputes, hcontains, Bool.and_false, Option.isSome_none]

/-! ### Drawings implement the signature -/

/-- What a pattern draws conforms to what the signature says about the calls that match it. -/
def Draws (entry : Form × Behaviour Figure) : Prop :=
  ∀ n fs captures, Form.capture (.call n fs) entry.1 = some (captures.map Capture.form) →
    Applied.Conforms (fun _ => ()) (if Signature.builtin.draws n fs then some () else none)
      (entry.2 captures)

theorem draws_planePoint :
  Draws (paired (utf8 "point"), point 2)
  := by
  intro n fs captures hcapture
  obtain ⟨rfl, rfl, hforms⟩ : utf8 "point" = n ∧ fs = [.tuple [.number, .number]]
      ∧ [.number, .number] = captures.map Capture.form := by
    simpa [paired] using hcapture
  obtain ⟨x, y, rfl⟩ : ∃ x y, captures = [.number x, .number y] := by
    simpa [List.map_eq_cons_iff] using hforms.symm
  apply Applied.Conforms.result (a := Figure.point [x, y]) rfl

theorem draws_spacePoint :
  Draws (.call (utf8 "point")
    [.tuple [.wildcard .number, .wildcard .number, .wildcard .number]], point 3)
  := by
  intro n fs captures hcapture
  obtain ⟨rfl, rfl, hforms⟩ : utf8 "point" = n ∧ fs = [.tuple [.number, .number, .number]]
      ∧ [.number, .number, .number] = captures.map Capture.form := by
    simpa using hcapture
  obtain ⟨x, y, z, rfl⟩ : ∃ x y z, captures = [.number x, .number y, .number z] := by
    simpa [List.map_eq_cons_iff] using hforms.symm
  apply Applied.Conforms.result (a := Figure.point [x, y, z]) rfl

theorem draws_line :
  Draws (segment (utf8 "line"), line)
  := by
  intro n fs captures hcapture
  obtain ⟨rfl, rfl, hforms⟩ : utf8 "line" = n
      ∧ fs = [.tuple [.tuple [.number, .number], .tuple [.number, .number]]]
      ∧ [.number, .number, .number, .number] = captures.map Capture.form := by
    simpa [segment] using hcapture
  obtain ⟨x₁, y₁, x₂, y₂, rfl⟩ : ∃ x₁ y₁ x₂ y₂,
      captures = [.number x₁, .number y₁, .number x₂, .number y₂] := by
    simpa [List.map_eq_cons_iff] using hforms.symm
  apply Applied.Conforms.result (a := Figure.line [x₁, y₁] [x₂, y₂]) rfl

theorem draws_curve :
  Draws (.call (utf8 "curve") [.wildcard .tuple], curve)
  := by
  intro n fs captures hcapture
  obtain ⟨rfl, items, rfl, hitems, hforms⟩ : utf8 "curve" = n ∧ ∃ items, fs = [.tuple items]
      ∧ items.all Form.isNumber = true ∧ [.tuple items] = captures.map Capture.form := by
    simpa using hcapture
  obtain ⟨xs, rfl, rfl⟩ : ∃ xs, captures = [.tuple xs]
      ∧ items = List.replicate xs.length .number := by
    simpa [List.map_eq_cons_iff] using hforms.symm
  have hdraws : Signature.builtin.draws (utf8 "curve")
      [.tuple (List.replicate xs.length .number)]
        = decide (4 ≤ xs.length ∧ xs.length % 2 = 0) := by
    trans Signature.isPath [.tuple (List.replicate xs.length .number)]
    · rfl
    · rw [Signature.isPath, hitems, List.length_replicate, Bool.true_and, Bool.decide_and]
  have hconforms := conforms_curve xs
  simpa [hdraws] using hconforms

/-- The calls that can be drawn are points, lines and curves. -/
theorem draws_cases {n : Text} {fs : List Form} (h : Signature.builtin.draws n fs = true) :
  (n = utf8 "point" ∧ Signature.isPoint fs = true)
    ∨ (n = utf8 "line" ∧ Signature.isSegment fs = true)
    ∨ (n = utf8 "curve" ∧ Signature.isPath fs = true)
  := by
  simp only [Signature.builtin] at h
  grind

/-- The functions that make figures do what is said about them. -/
theorem implements_drawings :
  Registry.builtin.drawings.Implements (fun _ => ())
    fun n fs => if Signature.builtin.draws n fs then some () else none
  := by
  apply Table.Implements.of_entries drawings_eq
  · decide +kernel
  · change ∀ entry ∈ _, Draws entry
    simp only [List.forall_mem_cons]
    exact ⟨draws_planePoint, draws_spacePoint, draws_line, draws_curve, List.forall_mem_nil _⟩
  · intro n fs _ hexpected
    have hdraws : Signature.builtin.draws n fs = true := by
      by_contra hfalse
      simp [hfalse] at hexpected
    obtain ⟨rfl, hpoint⟩ | ⟨rfl, hsegment⟩ | ⟨rfl, hpath⟩ := draws_cases hdraws
    · unfold Signature.isPoint at hpoint
      split at hpoint
      · rfl
      · rfl
      · cases hpoint
    · unfold Signature.isSegment at hsegment
      split at hsegment
      · rfl
      · cases hsegment
    · unfold Signature.isPath at hpath
      split at hpath
      · next items =>
        simp only [Bool.and_eq_true] at hpath
        apply List.any_eq_true.mpr
        use (.call (utf8 "curve") [.wildcard .tuple], curve)
        simp [Form.capture, Form.captureList, hpath.1.1]
      · cases hpath

/-- The functions that are always there do what is said about them. -/
theorem implements_builtin :
  Registry.builtin.Implements Signature.builtin
  := by
  constructor
  · apply reduces_builtin
  · apply implements_reductions
  · apply implements_drawings

end Builtin

/-- A tree is reduced and drawn only if it has a form all of whose calls can be drawn.  If it has,
each of these calls gives a figure, unless there is a division by zero.  Functions never miss a
capture, and are never given a capture of the wrong kind. -/
theorem Registry.builtin_draws_by_form (t : Tree) (trail : Trail) :
  let result := ((Registry.builtin.reduce t >>= Registry.builtin.draw).run.run trail).1
  ((∃ figures, result = .ok figures) →
    ∃ f, Signature.builtin.form? t = some f ∧ Signature.builtin.Drawable f)
  ∧ (∀ f, Signature.builtin.form? t = some f → Signature.builtin.Drawable f →
    (∃ figures, result = .ok figures ∧ figures.length = f.calls.length)
    ∨ ∃ inner span, result = .error (.evaluation inner (.fault .divisionByZero) span))
  ∧ Fault.divisionByZero.detail = utf8 "Cannot divide by zero"
  ∧ result ≠ .error .missingCapture
  ∧ ∀ inner cause span, result = .error (.evaluation inner (.fault cause) span) →
    cause = .divisionByZero ∨ ∃ count, cause = .unpairedCoordinates count
  := by
  intro result
  have hresult : Conforming List.length _ result :=
    Builtin.implements_builtin.conforms_reduce_draw t trail
  clear_value result
  refine ⟨?_, ?_, rfl, ?_, ?_⟩
  · rintro ⟨figures, rfl⟩
    cases hresult with
    | result hcount =>
      obtain ⟨f, hf, hcount⟩ := Option.bind_eq_some_iff.mp hcount
      use f, hf
      apply (Signature.count?_eq_some_iff.mp hcount).1
  · intro f hf hdrawable
    rw [hf, Option.bind_some, Signature.count?_eq_some_iff.mpr ⟨hdrawable, rfl⟩] at hresult
    cases hresult with
    | @result figures hcount =>
      left
      use figures, rfl
      apply (Option.some.inj hcount).symm
    | @divisionByZero inner span =>
      right
      use inner, span
    | mismatch hnone => cases hnone
  · rintro rfl
    cases hresult with
    | mismatch _ hmismatch => cases hmismatch
  · rintro inner cause span rfl
    cases hresult with
    | divisionByZero =>
      left
      rfl
    | mismatch _ hmismatch =>
      cases hmismatch with
      | @unpaired _ count =>
        right
        use count

end Sketch
