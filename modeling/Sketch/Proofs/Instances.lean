import Sketch.Proofs.Forms

/-!
# Instances of templates

`Tree.instantiate` replaces the wildcards of a template by captures, in the order in which they
stand there.  There must be one capture for each wildcard, and it must be of the right kind
(`Tree.isSome_instantiate_iff`).

Matching is the inverse of this: a tree matches a template exactly if it is equal to an instance
of the template, and what is captured is what makes up this instance
(`Tree.capture_inverts_instantiate`).  Both walk through the template from left to right, and
each wildcard takes the first of the captures that are left over by those before it.
-/

namespace Sketch

namespace Capture

/-- The kind of the wildcards that can stand for a capture. -/
def kind : Capture → Wildcard
  | number _ => .number
  | tuple _ => .tuple

/-- A capture as a tree, with the given span throughout. -/
def tree (s : Span) : Capture → Tree
  | number x => .number x s
  | tuple xs => .tuple (xs.map fun x => .number x s) s

end Capture

namespace Matched

/-- Two matches in sequence succeed if both do, and the captures are put together. -/
theorem andThen_iff {first second : Matched} {captures : Captures} :
  first.andThen second = .ok (some captures)
    ↔ ∃ cs ds, first = .ok (some cs) ∧ second = .ok (some ds) ∧ cs ++ ds = captures
  := by
  rcases first with e | _ | cs
  · simp [andThen]
  · simp [andThen]
  · rcases second with e | _ | ds
    · simp [andThen]
    · simp [andThen]
    · simp [andThen]

/-- The match succeeds, and finds what is equal to the given captures, without those in `rest` at
their end. -/
def Finds (captures rest : Captures) (matched : Matched) : Prop :=
  ∃ found used, matched = .ok (some found) ∧ captures = used ++ rest
    ∧ List.Forall₂ (fun c d => (c == d) = true) found used

/-- What is found by two matches in sequence is what the first one and then the second one finds. -/
theorem Finds.andThen {first second : Matched} {captures middle rest : Captures}
    (hfirst : Finds captures middle first) (hsecond : Finds middle rest second) :
  Finds captures rest (first.andThen second)
  := by
  obtain ⟨found, used, hfound, rfl, hequal⟩ := hfirst
  obtain ⟨found', used', hfound', rfl, hequal'⟩ := hsecond
  refine ⟨found ++ found', used ++ used', ?_, ?_, List.rel_append hequal hequal'⟩
  · apply andThen_iff.mpr ⟨found, found', hfound, hfound', rfl⟩
  · rw [List.append_assoc]

theorem finds_nothing (captures : Captures) :
  Finds captures captures (.ok (some []))
  := ⟨[], [], rfl, rfl, .nil⟩

end Matched

namespace Tree

/-! ### Templates with captures filled in -/

mutual

/-- The template with its wildcards replaced by captures, in order, and the captures that are left
over. -/
def fill : (template : Tree) → Captures → Option (Tree × Captures)
  | wildcard kind s, c :: rest => if c.kind = kind then some (c.tree s, rest) else none
  | wildcard _ _, [] => none
  | tuple items s, captures => do
    let (filled, rest) ← fillList items captures
    return (tuple filled s, rest)
  | call n args s, captures => do
    let (filled, rest) ← fillList args captures
    return (call n filled s, rest)
  | leaf, captures => some (leaf, captures)

/-- Templates with their wildcards replaced by captures, from left to right, and the captures that
are left over. -/
def fillList : (templates : List Tree) → Captures → Option (List Tree × Captures)
  | [], captures => some ([], captures)
  | u :: us, captures => do
    let (filled, rest) ← fill u captures
    let (others, rest) ← fillList us rest
    return (filled :: others, rest)

end

/-- The template with its wildcards replaced by the given captures, if these are as many as there
are wildcards and of the same kinds. -/
def instantiate (template : Tree) (captures : Captures) : Option Tree :=
  match template.fill captures with
  | some (t, []) => some t
  | _ => none

/-- The kind of a wildcard. -/
def wildcard? : Tree → Option Wildcard
  | wildcard kind _ => some kind
  | _ => none

/-- The wildcards of a template, in order. -/
def wildcards (template : Tree) : List Wildcard := template.nodes.filterMap wildcard?

section Fill

variable {u v : Tree} {us vs : List Tree} {captures rest : Captures}

theorem instantiate_eq_some_iff :
  u.instantiate captures = some v ↔ u.fill captures = some (v, [])
  := by
  rw [instantiate]
  rcases u.fill captures with _ | ⟨w, _ | ⟨c, cs⟩⟩
  · simp
  · simp
  · simp

/-- A wildcard is filled by the next capture, which has to be of its kind. -/
theorem fill_wildcard_iff {kind : Wildcard} {s : Span} :
  (wildcard kind s).fill captures = some (v, rest)
    ↔ ∃ c, c.kind = kind ∧ c.tree s = v ∧ captures = c :: rest
  := by
  cases captures with
  | nil => simp [fill]
  | cons c after => simp [fill]

/-- A tuple is filled by filling its items. -/
theorem fill_tuple_iff {s : Span} :
  (tuple us s).fill captures = some (v, rest)
    ↔ ∃ vs, fillList us captures = some (vs, rest) ∧ tuple vs s = v
  := by
  rw [fill]
  rcases fillList us captures with _ | ⟨ws, after⟩
  · simp
  · simp [and_comm]

/-- A call is filled by filling its arguments. -/
theorem fill_call_iff {n : Text} {s : Span} :
  (call n us s).fill captures = some (v, rest)
    ↔ ∃ vs, fillList us captures = some (vs, rest) ∧ call n vs s = v
  := by
  rw [fill]
  rcases fillList us captures with _ | ⟨ws, after⟩
  · simp
  · simp [and_comm]

/-- Templates are filled from left to right, each with the captures that are left by those before
it. -/
theorem fillList_cons_iff :
  fillList (u :: us) captures = some (vs, rest)
    ↔ ∃ w middle ws, u.fill captures = some (w, middle)
      ∧ fillList us middle = some (ws, rest) ∧ w :: ws = vs
  := by
  rw [fillList]
  rcases u.fill captures with _ | ⟨w, middle⟩
  · simp
  · rcases hrest : fillList us middle with _ | ⟨ws, after⟩
    · simp [hrest]
    · simp [hrest, and_comm]

end Fill

/-! ### Captures that can be filled in -/

/-- The wildcards of a tree are that at its root and those of its children. -/
theorem wildcards_eq (t : Tree) :
  t.wildcards = t.wildcard?.toList ++ t.children.flatMap wildcards
  := filterMap_nodes wildcard? t

/-- If templates can be filled by captures of the right kinds, then so can lists of them. -/
theorem exists_fillList_iff {us : List Tree}
    (h : ∀ u ∈ us, ∀ captures rest, (∃ v, u.fill captures = some (v, rest))
      ↔ ∃ used, captures = used ++ rest ∧ used.map Capture.kind = u.wildcards)
    (captures rest : Captures) :
  (∃ vs, fillList us captures = some (vs, rest))
    ↔ ∃ used, captures = used ++ rest ∧ used.map Capture.kind = us.flatMap wildcards
  := by
  induction us generalizing captures with
  | nil => simp [fillList]
  | cons u us ih =>
    have hfirst := h u List.mem_cons_self
    have hrest := ih fun w hw => h w (List.mem_cons_of_mem u hw)
    rw [List.flatMap_cons]
    constructor
    · rintro ⟨vs, hvs⟩
      obtain ⟨w, middle, ws, hw, hws, -⟩ := fillList_cons_iff.mp hvs
      obtain ⟨used, rfl, hused⟩ := (hfirst captures middle).mp ⟨w, hw⟩
      obtain ⟨used', rfl, hused'⟩ := (hrest middle).mp ⟨ws, hws⟩
      use used ++ used'
      rw [List.append_assoc, List.map_append, hused, hused']
      exact ⟨rfl, rfl⟩
    · rintro ⟨used, rfl, hused⟩
      obtain ⟨first, others, rfl, hfirst', hothers⟩ := List.map_eq_append_iff.mp hused
      obtain ⟨w, hw⟩ := (hfirst _ (others ++ rest)).mpr ⟨first, rfl, hfirst'⟩
      obtain ⟨ws, hws⟩ := (hrest _).mpr ⟨others, rfl, hothers⟩
      use w :: ws
      rw [List.append_assoc]
      apply fillList_cons_iff.mpr ⟨w, others ++ rest, ws, hw, hws, rfl⟩

/-- A template takes one capture for each of its wildcards. -/
theorem exists_fill_iff (u : Tree) (captures rest : Captures) :
  (∃ v, u.fill captures = some (v, rest))
    ↔ ∃ used, captures = used ++ rest ∧ used.map Capture.kind = u.wildcards
  := by
  induction u using Tree.induction generalizing captures rest with
  | number x s => simp [fill, wildcards_eq, wildcard?, children]
  | name n s => simp [fill, wildcards_eq, wildcard?, children]
  | tuple items s ih =>
    rw [wildcards_eq]
    apply Iff.trans _ (exists_fillList_iff ih captures rest)
    simp [fill_tuple_iff]
  | call n args s ih =>
    rw [wildcards_eq]
    apply Iff.trans _ (exists_fillList_iff ih captures rest)
    simp [fill_call_iff]
  | wildcard kind s =>
    rw [wildcards_eq]
    simp only [fill_wildcard_iff]
    constructor
    · rintro ⟨v, c, hkind, -, rfl⟩
      use [c], rfl
      rw [List.map_singleton, hkind]
      rfl
    · rintro ⟨used, rfl, hused⟩
      obtain ⟨c, rfl, hkind⟩ := List.map_eq_singleton_iff.mp hused
      exact ⟨c.tree s, c, hkind, rfl, rfl⟩

/-- A template can be instantiated by the captures that are of the same kinds as its wildcards. -/
theorem isSome_instantiate_iff (u : Tree) (captures : Captures) :
  (u.instantiate captures).isSome = true ↔ captures.map Capture.kind = u.wildcards
  := by
  rw [Option.isSome_iff_exists]
  simp only [instantiate_eq_some_iff, exists_fill_iff, List.append_nil]
  simp

/-! ### Matching gives an instance -/

theorem length_eq_of_captureList {ts us : List Tree} {captures : Captures}
    (h : captureList ts us = .ok (some captures)) :
  ts.length = us.length
  := by
  induction ts generalizing us captures with
  | nil =>
    cases us with
    | nil => rfl
    | cons u us => cases h
  | cons t ts ih =>
    cases us with
    | nil => cases h
    | cons u us =>
      rw [captureList] at h
      obtain ⟨_, _, -, hrest, -⟩ := Matched.andThen_iff.mp h
      rw [List.length_cons, List.length_cons, ih hrest]

/-- Tuples match if their items match one by one. -/
theorem capture_tuple_iff {ts us : List Tree} {r s : Span} {captures : Captures} :
  (tuple ts r).capture (tuple us s) = .ok (some captures)
    ↔ captureList ts us = .ok (some captures)
  := by
  rw [capture]
  split
  · apply Iff.rfl
  · next hlength =>
    constructor
    · intro h
      cases h
    · intro h
      apply absurd (length_eq_of_captureList h) hlength

/-- Calls match if their names are the same and their arguments match one by one. -/
theorem capture_call_iff {m n : Text} {ts us : List Tree} {r s : Span} {captures : Captures} :
  (call m ts r).capture (call n us s) = .ok (some captures)
    ↔ n = m ∧ captureList ts us = .ok (some captures)
  := by
  simp only [capture, Bool.and_eq_true, beq_iff_eq, decide_eq_true_eq]
  split
  · next h =>
    rw [iff_and_self]
    intro _
    apply h.1
  · next h =>
    constructor
    · intro h
      cases h
    · rintro ⟨hname, hargs⟩
      apply absurd ⟨hname, length_eq_of_captureList hargs⟩ h

/-- A tuple of numbers is equal to the capture of its numbers. -/
theorem sameList_of_numbers? {items : List Tree} {xs : List Number} (h : numbers? items = some xs)
    (hitems : ∀ t ∈ items, t.isNaN = false) (s : Span) :
  sameList (xs.map fun x => number x s) items = true
  := by
  induction items generalizing xs with
  | nil =>
    cases h
    rfl
  | cons t items ih =>
    rw [numbers?_cons] at h
    obtain ⟨x, hx, h⟩ := Option.bind_eq_some_iff.mp h
    obtain ⟨ys, hys, rfl⟩ := Option.map_eq_some_iff.mp h
    have hrest := ih hys fun u hu => hitems u (List.mem_cons_of_mem t hu)
    cases t with
    | number y r =>
      cases hx
      have hself : same (number x s) (number x r) = true :=
        Number.beq_self_iff.mpr (hitems _ List.mem_cons_self)
      rw [List.map_cons, sameList, hself, hrest]
      rfl
    | _ => cases hx

/-- Trees that are equal to numbers are numbers, and equal to these. -/
theorem numbers?_of_sameList {items : List Tree} {xs : List Number} {s : Span}
    (h : sameList (xs.map fun x => number x s) items = true) :
  ∃ ys, numbers? items = some ys ∧ (ys == xs) = true
  := by
  induction items generalizing xs with
  | nil =>
    cases xs with
    | nil => exact ⟨[], rfl, rfl⟩
    | cons x xs => cases h
  | cons t items ih =>
    cases xs with
    | nil => cases h
    | cons x xs =>
      rw [List.map_cons, sameList, Bool.and_eq_true] at h
      obtain ⟨ys, hys, hyxs⟩ := ih h.2
      cases t with
      | number y r =>
        have hyx : (y == x) = true := by
          rw [BEq.comm]
          apply h.1
        use y :: ys
        rw [numbers?_cons, hys, List.cons_beq_cons, hyx, hyxs]
        exact ⟨rfl, rfl⟩
      | _ => apply absurd h.1 Bool.false_ne_true

/-- If captures of trees fill the templates again, then so do those of lists of trees. -/
theorem fillList_of_captureList {ts us : List Tree} {captures : Captures}
    (h : ∀ t ∈ ts, ∀ u captures, t.capture u = .ok (some captures) →
      ∀ rest, ∃ v, u.fill (captures ++ rest) = some (v, rest) ∧ (v == t) = true)
    (hcapture : captureList ts us = .ok (some captures)) (rest : Captures) :
  ∃ vs, fillList us (captures ++ rest) = some (vs, rest) ∧ sameList vs ts = true
  := by
  induction ts generalizing us captures with
  | nil =>
    cases us with
    | nil =>
      cases hcapture
      exact ⟨[], rfl, rfl⟩
    | cons u us => cases hcapture
  | cons t ts ih =>
    cases us with
    | nil => cases hcapture
    | cons u us =>
      rw [captureList] at hcapture
      obtain ⟨cs, ds, hcs, hds, rfl⟩ := Matched.andThen_iff.mp hcapture
      obtain ⟨w, hw, hwt⟩ := h t List.mem_cons_self u cs hcs (ds ++ rest)
      obtain ⟨ws, hws, hwts⟩ := ih (fun v hv => h v (List.mem_cons_of_mem t hv)) hds
      use w :: ws
      rw [List.append_assoc, sameList, hwts, Bool.and_true]
      exact ⟨fillList_cons_iff.mpr ⟨w, ds ++ rest, ws, hw, hws, rfl⟩, hwt⟩

/-- A tree that matches a template is equal to the template with its captures filled in. -/
theorem fill_of_capture {t u : Tree} (ht : t.NaNFree) {captures : Captures}
    (h : t.capture u = .ok (some captures)) (rest : Captures) :
  ∃ v, u.fill (captures ++ rest) = some (v, rest) ∧ (v == t) = true
  := by
  induction t using Tree.induction generalizing u captures rest with
  | number x s =>
    cases u with
    | number y r =>
      rw [capture] at h
      split at h
      · next hyx =>
        cases h
        exact ⟨number y r, rfl, hyx⟩
      · cases h
    | wildcard kind r =>
      cases kind with
      | number =>
        -- a number that is captured is compared with itself
        cases h
        exact ⟨number x r, rfl, Number.beq_self_iff.mpr (ht _ List.mem_cons_self)⟩
      | tuple => cases h
    | _ => cases h
  | name n s =>
    cases u with
    | name m r =>
      rw [capture] at h
      split at h
      · next hmn =>
        cases h
        exact ⟨name m r, rfl, hmn⟩
      · cases h
    | _ => cases h
  | tuple items s ih =>
    cases u with
    | tuple us r =>
      obtain ⟨vs, hvs, hsame⟩ := fillList_of_captureList
        (fun t hmem u captures => ih t hmem (ht.of_mem_children hmem))
        (capture_tuple_iff.mp h) rest
      exact ⟨tuple vs r, fill_tuple_iff.mpr ⟨vs, hvs, rfl⟩, hsame⟩
    | wildcard kind r =>
      cases kind with
      | number => cases h
      | tuple =>
        rw [capture] at h
        obtain ⟨xs, hxs, rfl⟩ := Option.map_eq_some_iff.mp (Except.ok.inj h)
        have hitems : ∀ t ∈ items, t.isNaN = false := by
          intro t hmem
          apply ht.of_mem_children hmem
          rw [nodes_eq]
          apply List.mem_cons_self
        exact ⟨(Capture.tuple xs).tree r, rfl, sameList_of_numbers? hxs hitems r⟩
    | _ => cases h
  | call n args s ih =>
    cases u with
    | call m us r =>
      obtain ⟨rfl, hargs⟩ := capture_call_iff.mp h
      obtain ⟨vs, hvs, hsame⟩ := fillList_of_captureList
        (fun t hmem u captures => ih t hmem (ht.of_mem_children hmem)) hargs rest
      use call m vs r, fill_call_iff.mpr ⟨vs, hvs, rfl⟩
      rw [call_beq, hsame, beq_self_eq_true]
      rfl
    | _ => cases h
  | wildcard kind s => cases h

/-! ### Instances match -/

/-- If what fills the templates is captured again, then so is what fills lists of them. -/
theorem captureList_of_fillList {us : List Tree}
    (h : ∀ u ∈ us, ∀ t v captures rest, u.fill captures = some (v, rest) → (v == t) = true →
      (t.capture u).Finds captures rest)
    {ts vs : List Tree} {captures rest : Captures}
    (hfill : fillList us captures = some (vs, rest)) (hsame : sameList vs ts = true) :
  (captureList ts us).Finds captures rest
  := by
  induction us generalizing ts vs captures with
  | nil =>
    cases hfill
    cases ts with
    | nil => apply Matched.finds_nothing
    | cons t ts => cases hsame
  | cons u us ih =>
    obtain ⟨w, middle, ws, hw, hws, rfl⟩ := fillList_cons_iff.mp hfill
    cases ts with
    | nil => cases hsame
    | cons t ts =>
      rw [sameList, Bool.and_eq_true] at hsame
      rw [captureList]
      apply (h u List.mem_cons_self t w _ _ hw hsame.1).andThen
      apply ih (fun v hv => h v (List.mem_cons_of_mem u hv)) hws hsame.2

/-- A tree that is equal to the template with captures filled in matches the template, and its
captures are equal to these. -/
theorem capture_of_fill {t u v : Tree} {captures rest : Captures}
    (h : u.fill captures = some (v, rest)) (hsame : (v == t) = true) :
  (t.capture u).Finds captures rest
  := by
  induction u using Tree.induction generalizing t v captures rest with
  | number y s =>
    cases h
    cases t with
    | number x r =>
      rw [number_beq] at hsame
      rw [capture, hsame]
      apply Matched.finds_nothing
    | _ => apply absurd hsame Bool.false_ne_true
  | name m s =>
    cases h
    cases t with
    | name n r =>
      rw [name_beq] at hsame
      rw [capture, hsame]
      apply Matched.finds_nothing
    | _ => apply absurd hsame Bool.false_ne_true
  | tuple us s ih =>
    obtain ⟨vs, hvs, rfl⟩ := fill_tuple_iff.mp h
    cases t with
    | tuple ts r =>
      obtain ⟨found, used, hfound, hused⟩ :=
        captureList_of_fillList (fun u hu t v captures rest => ih u hu) hvs hsame
      exact ⟨found, used, capture_tuple_iff.mpr hfound, hused⟩
    | _ => apply absurd hsame Bool.false_ne_true
  | call m us s ih =>
    obtain ⟨vs, hvs, rfl⟩ := fill_call_iff.mp h
    cases t with
    | call n ts r =>
      rw [call_beq, Bool.and_eq_true, beq_iff_eq] at hsame
      obtain ⟨found, used, hfound, hused⟩ :=
        captureList_of_fillList (fun u hu t v captures rest => ih u hu) hvs hsame.2
      exact ⟨found, used, capture_call_iff.mpr ⟨hsame.1, hfound⟩, hused⟩
    | _ => apply absurd hsame Bool.false_ne_true
  | wildcard kind s =>
    obtain ⟨c, rfl, rfl, rfl⟩ := fill_wildcard_iff.mp h
    cases c with
    | number x =>
      cases t with
      | number y r =>
        refine ⟨[.number y], [.number x], rfl, rfl, .cons ?_ .nil⟩
        change (y == x) = true
        rw [BEq.comm]
        apply hsame
      | _ => apply absurd hsame Bool.false_ne_true
    | tuple xs =>
      cases t with
      | tuple items r =>
        obtain ⟨ys, hys, hequal⟩ := numbers?_of_sameList hsame
        refine ⟨[.tuple ys], [.tuple xs], ?_, rfl, .cons hequal .nil⟩
        change Except.ok ((numbers? items).map fun zs => [Capture.tuple zs]) = _
        rw [hys]
        rfl
      | _ => apply absurd hsame Bool.false_ne_true

/-- Matching is the inverse of instantiating.  The captures of a tree that matches a template make
up an instance of the template that is equal to the tree; and captures that make up such an
instance are equal to those of the tree, which matches the template.  A template has an instance
for each list of captures of the same kinds as its wildcards. -/
theorem capture_inverts_instantiate (t u : Tree) (ht : t.NaNFree) :
  (∀ captures, t.capture u = .ok (some captures) →
      ∃ v, u.instantiate captures = some v ∧ (v == t) = true)
    ∧ (∀ captures v, u.instantiate captures = some v → (v == t) = true →
      ∃ found, t.capture u = .ok (some found)
        ∧ List.Forall₂ (fun c d => (c == d) = true) found captures)
    ∧ ∀ captures, (u.instantiate captures).isSome = true
      ↔ captures.map Capture.kind = u.wildcards
  := by
  refine ⟨?_, ?_, u.isSome_instantiate_iff⟩
  · intro captures h
    obtain ⟨v, hv, hsame⟩ := fill_of_capture ht h []
    rw [List.append_nil] at hv
    exact ⟨v, instantiate_eq_some_iff.mpr hv, hsame⟩
  · intro captures v hv hsame
    obtain ⟨found, used, hfound, hused, hequal⟩ :=
      capture_of_fill (instantiate_eq_some_iff.mp hv) hsame
    rw [List.append_nil] at hused
    rw [hused]
    exact ⟨found, hfound, hequal⟩

theorem capture_inverts_instantiate_nested :
  let s := Span.nowhere
  let t := call (utf8 "f") [tuple [number 1 s, tuple [number 2 s, number 3 s] s, number 0 s] s] s
  let u := call (utf8 "f") [tuple [wildcard .number s, wildcard .tuple s, number (-0) s] s] s
  let captures := [.number 1, .tuple [2, 3]]
  (∃ v, u.instantiate captures = some v ∧ (v == t) = true)
    ∧ ∃ found, t.capture u = .ok (some found)
      ∧ List.Forall₂ (fun c d => (c == d) = true) found captures
  := by
  intro s t u captures
  have ht : t.NaNFree := by decide
  obtain ⟨hsound, hcomplete, -⟩ := capture_inverts_instantiate t u ht
  obtain ⟨v, hv, hsame⟩ := hsound captures rfl
  exact ⟨⟨v, hv, hsame⟩, hcomplete captures v hv hsame⟩

end Tree

end Sketch
