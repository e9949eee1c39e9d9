import Sketch.Proofs.NumberNaturality
import Sketch.Proofs.Reduction
import Sketch.Proofs.SpanErasure
import Sketch.Proofs.StableTexts
import Sketch.Proofs.WrittenBack

/-!
# Reduced trees are commands

The reduced tree of a command, written as a command, draws figures with the same texts, provided
that its numbers are written without an exponent.

Values that take the place of a call are regular, and their brackets are nested no deeper than
those of the call, so the reduced tree can be read back.  It is settled: it has no call that is
reduced, so reducing it again changes nothing.  Its numbers may lose digits when it is written, but
keep their texts.
-/

namespace Sketch

open Text

/-! ### Settled trees -/

namespace Tree

/-- The root of a tree is not a call that is reduced. -/
def isSettled : Tree → Bool
  | call n _ _ => !Registry.builtin.reduces n
  | _ => true

/-- No call in the tree is reduced. -/
def Settled (t : Tree) : Prop := ∀ m ∈ t.nodes, m.isSettled = true

/-- A tree is settled if its root and all its children are. -/
theorem settled_iff {t : Tree} :
  t.Settled ↔ t.isSettled = true ∧ ∀ c ∈ t.children, c.Settled
  := Registry.builtin.settled_iff

/-- Whether a tree is settled does not depend on its numbers. -/
theorem settled_mapNumbers (f : Number → Number) {t : Tree} (h : t.Settled) :
  (t.mapNumbers f).Settled
  := by
  induction t using Tree.induction with
  | tuple items s ih =>
    rw [settled_iff, mapNumbers_tuple, children, List.forall_mem_map]
    use rfl
    intro c hc
    apply ih c hc ((settled_iff.mp h).2 c hc)
  | call n args s ih =>
    rw [settled_iff, mapNumbers_call, children, List.forall_mem_map]
    use (settled_iff.mp h).1
    intro c hc
    apply ih c hc ((settled_iff.mp h).2 c hc)
  | _ => exact List.forall_mem_singleton.mpr rfl

/-! ### Values -/

theorem IsValue.regular {t : Tree} (h : t.IsValue) :
  t.Regular
  := by
  have hnumber : ∀ x s, (Tree.number x s).Regular := fun x s => List.forall_mem_singleton.mpr rfl
  cases h with
  | number x s => apply hnumber
  | pair x y r r' s =>
    rw [regular_tuple_iff, List.forall_mem_cons, List.forall_mem_singleton]
    exact ⟨Nat.le_refl 2, hnumber x r, hnumber y r'⟩

theorem IsValue.settled {t : Tree} (h : t.IsValue) :
  t.Settled
  := by
  have hnumber : ∀ x s, (Tree.number x s).Settled := fun x s => List.forall_mem_singleton.mpr rfl
  cases h with
  | number x s => apply hnumber
  | pair x y r r' s =>
    rw [settled_iff, children, List.forall_mem_cons, List.forall_mem_singleton]
    exact ⟨rfl, hnumber x r, hnumber y r'⟩

/-- A value needs brackets at most as an item of a tuple. -/
theorem IsValue.nesting_le {t : Tree} (h : t.IsValue) :
  (t.commandWithin false).nesting = 0 ∧ (t.commandWithin true).nesting ≤ 1
  := by
  have hfalse : (t.commandWithin false).nesting ≤ 0 := by
    cases h with
    | number x s => rw [nesting_number]
    | pair x y r r' s =>
      rw [nesting_tuple_le (IsValue.pair x y r r' s).regular, List.forall_mem_cons,
        List.forall_mem_singleton, nesting_number, nesting_number]
      exact ⟨Nat.le_refl 0, Nat.le_refl 0⟩
  have hbounds := h.regular.nesting_bounds
  omega

/-- The brackets of a call are nested. -/
theorem nesting_call_pos {n : Text} {args : List Tree} {s : Span} (h : (call n args s).Regular)
    (inTuple : Bool) :
  0 < ((call n args s).commandWithin inTuple).nesting
  := by
  obtain ⟨⟨-, hone⟩, -⟩ := regular_call_iff.mp h
  obtain ⟨t, rest, rfl⟩ := List.exists_cons_of_length_pos hone
  by_contra hzero
  have hargs := (nesting_call_le h inTuple 0).mp (Nat.le_of_not_lt hzero)
  exact Nat.not_lt_zero _ (hargs t List.mem_cons_self)

/-! ### Reduction -/

/-- The second tree is regular and settled, and its brackets are nested no deeper than those of the
first one. -/
structure Simplifies (t r : Tree) : Prop where
  regular : r.Regular
  settled : r.Settled
  nesting : ∀ inTuple, (r.commandWithin inTuple).nesting ≤ (t.commandWithin inTuple).nesting

/-- A tuple is simplified by simplifying its items. -/
theorem simplifies_tuple {items reduced : List Tree} {s : Span} (h : (tuple items s).Regular)
    (hreduced : List.Forall₂ Simplifies items reduced) :
  Simplifies (tuple items s) (tuple reduced s)
  := by
  have hregular : (tuple reduced s).Regular := by
    rw [regular_tuple_iff, ← hreduced.length_eq]
    use (regular_tuple_iff.mp h).1
    intro r hr
    obtain ⟨t, -, htr⟩ := exists_of_forall₂ hreduced hr
    apply htr.regular
  have hnesting : ((tuple reduced s).commandWithin false).nesting
      ≤ ((tuple items s).commandWithin false).nesting := by
    rw [nesting_tuple_le hregular]
    intro r hr
    obtain ⟨t, ht, htr⟩ := exists_of_forall₂ hreduced hr
    apply (htr.nesting true).trans
    apply (nesting_tuple_le h _).mp (Nat.le_refl _) t ht
  constructor
  · apply hregular
  · rw [settled_iff]
    use rfl
    intro r hr
    obtain ⟨t, -, htr⟩ := exists_of_forall₂ hreduced hr
    apply htr.settled
  · intro inTuple
    cases inTuple with
    | false => apply hnesting
    | true =>
      rw [nesting_bracketed_tuple h, nesting_bracketed_tuple hregular]
      apply Nat.add_le_add_right hnesting

/-- A call that is kept is simplified by simplifying its arguments. -/
theorem simplifies_call {n : Text} {args reduced : List Tree} {s : Span}
    (h : (call n args s).Regular) (hreduced : List.Forall₂ Simplifies args reduced)
    (hn : Registry.builtin.reduces n = false) :
  Simplifies (call n args s) (call n reduced s)
  := by
  have hregular : (call n reduced s).Regular := by
    rw [regular_call_iff, ← hreduced.length_eq]
    use (regular_call_iff.mp h).1
    intro r hr
    obtain ⟨t, -, htr⟩ := exists_of_forall₂ hreduced hr
    apply htr.regular
  constructor
  · apply hregular
  · rw [settled_iff, isSettled, hn]
    use rfl
    intro r hr
    obtain ⟨t, -, htr⟩ := exists_of_forall₂ hreduced hr
    apply htr.settled
  · intro inTuple
    rw [nesting_call_le hregular]
    intro r hr
    obtain ⟨t, ht, htr⟩ := exists_of_forall₂ hreduced hr
    apply (htr.nesting false).trans_lt
    apply (nesting_call_le h inTuple _).mp (Nat.le_refl _) t ht

/-- A value simplifies every regular call. -/
theorem IsValue.simplifies {n : Text} {args : List Tree} {s : Span} {r : Tree} (hr : r.IsValue)
    (h : (call n args s).Regular) :
  Simplifies (call n args s) r
  := by
  constructor
  · apply hr.regular
  · apply hr.settled
  · intro inTuple
    have hpos := nesting_call_pos h inTuple
    obtain ⟨hfalse, htrue⟩ := hr.nesting_le
    cases inTuple with
    | false => omega
    | true => omega

/-- A tree that is regular and settled simplifies itself. -/
theorem simplifies_self {t : Tree} (h : t.Regular) (hsettled : t.Settled) :
  Simplifies t t
  := ⟨h, hsettled, fun _ => Nat.le_refl _⟩

end Tree

namespace Registry

open Sketch.Tree

/-- Reduction simplifies regular trees. -/
theorem simplifies_reduce {t r : Tree} (h : t.Regular) {trail : Trail}
    (hr : (Registry.builtin.reduce t).result trail = .ok r) :
  Simplifies t r
  := by
  induction t using Tree.induction generalizing r trail with
  | tuple items s ih =>
    rw [result_reduce_tuple] at hr
    obtain ⟨reduced, hreduced, hr⟩ := bind_eq_ok_iff.mp hr
    obtain rfl := Except.ok.inj hr
    apply simplifies_tuple h
    apply Registry.builtin.forall₂_of_reduceList _ hreduced
    intro t ht r hr
    apply ih t ht ((regular_tuple_iff.mp h).2 t ht) hr
  | call n args s ih =>
    rw [result_reduce_call] at hr
    obtain ⟨reduced, hreduced, hr⟩ := bind_eq_ok_iff.mp hr
    have hbecomes := becomes_applyCall n reduced s (trail.enter ⟨utf8 "call", n⟩)
    rw [hr] at hbecomes
    cases hbecomes with
    | kept hn =>
      apply simplifies_call h _ hn
      apply Registry.builtin.forall₂_of_reduceList _ hreduced
      intro t ht r hr
      apply ih t ht ((regular_call_iff.mp h).2 t ht) hr
    | computed _ hvalue => apply hvalue.simplifies h
  | _ =>
    obtain rfl := Except.ok.inj hr
    exact simplifies_self h (List.forall_mem_singleton.mpr rfl)

/-- A settled tree is reduced to itself. -/
theorem reduce_settled {t : Tree} (h : t.Settled) (trail : Trail) :
  (Registry.builtin.reduce t).result trail = .ok t
  := by
  rw [Registry.builtin.reduce_of_settled h]
  rfl

end Registry

/-! ### Numbers that are written as literals -/

/-- A number is written in the same way after it is read again. -/
theorem numberText_rereading (x : Number) :
  numberText (rereading x) = numberText x
  := by
  rw [rereading]
  split
  · next h =>
    obtain ⟨w, hw, htext⟩ := exists_readNumber?_numberText h
    rw [hw]
    exact htext
  · rfl

namespace Tree

/-- The numbers of the tree are written as literals. -/
def WritesLiterals (t : Tree) : Prop :=
  ∀ x s, number x s ∈ t.nodes → isPlainNumber (numberText x) = true

theorem WritesLiterals.legible {t : Tree} (h : t.WritesLiterals) :
  t.Legible
  := by
  intro x s hx
  obtain ⟨w, hw, -⟩ := exists_readNumber?_numberText (h x s hx)
  exact ⟨h x s hx, Option.isSome_iff_exists.mpr ⟨w, hw⟩⟩

end Tree

/-! ### Carrying out what is reduced -/

namespace Registry

open Sketch.Tree

/-- Settled trees that are the same without spans give the same figures. -/
theorem figures_of_bare_eq {command : Text} {u t : Tree} (hparse : Tree.parse command 0 = .ok u)
    (hbare : u.bare = t.bare) (ht : t.Settled) {trail : Trail} {figures : List Figure}
    (hfigures : Registry.builtin.figureEach t.calls trail = .ok figures) :
  (Registry.builtin.figures command).result trail = .ok figures
  := by
  obtain ⟨v, hv, hvbare⟩ := exists_ok_of_spanless
    (Registry.builtin.reduce_of_bare_eq hbare.symm trail) (reduce_settled ht trail)
  obtain ⟨figures', hfigures', rfl⟩ := exists_ok_of_spanless
    (Registry.builtin.figureEach_of_bare_eq hvbare.symm trail) hfigures
  have hexecute : (Registry.builtin.execute command).result trail = .ok ⟨u, v, figures'⟩ :=
    Registry.builtin.result_execute_eq_ok_iff.mpr ⟨hparse, hv, hfigures'⟩
  rw [result_figures, hexecute]
  rfl

/-- The reduced tree of a command whose numbers are written as literals is, written as a command,
carried out as well, and draws figures with the same texts. -/
theorem figures_of_reduced_command {command : Text} {trail : Trail} {o : Outcome}
    (h : (Registry.builtin.execute command).result trail = .ok o)
    (hliterals : ∀ x s, .number x s ∈ o.reduced.nodes → isPlainNumber (numberText x) = true) :
  ∃ figures, (Registry.builtin.figures o.reduced.command).result trail = .ok figures
    ∧ figures.map Figure.text = o.figures.map Figure.text
  := by
  obtain ⟨hparse, hreduce, hfigures⟩ := Registry.builtin.result_execute_eq_ok_iff.mp h
  obtain ⟨hregular, hnesting⟩ := regular_of_parse hparse
  have hsimplifies := simplifies_reduce hregular hreduce
  have hliterals : o.reduced.WritesLiterals := hliterals
  obtain ⟨u, hu, hbare⟩ := parse_command_reread hsimplifies.regular hliterals.legible
    ((hsimplifies.nesting false).trans hnesting)
  use o.figures.map (Figure.map rereading)
  constructor
  · apply figures_of_bare_eq hu hbare (settled_mapNumbers rereading hsimplifies.settled)
    apply figureEach_mapNumbers rereading hfigures
  · rw [List.map_map]
    apply List.map_congr_left
    intro figure _
    apply Figure.text_map numberText_rereading

/-- The quotient in `point(div(1, 3), 2)` loses digits when it is written. -/
theorem figures_of_reduced_command_quotient :
  ∃ o figures, (Registry.builtin.execute (utf8 "point(div(1, 3), 2)")).result [] = .ok o
    ∧ o.reduced.command = utf8 "point(0.333333333333, 2)"
    ∧ (Registry.builtin.figures o.reduced.command).result [] = .ok figures
    ∧ figures.map Figure.text = o.figures.map Figure.text
  := by
  let parsed := call (utf8 "point")
    [tuple [call (utf8 "div") [tuple [number 1 ⟨10, 11⟩, number 3 ⟨13, 14⟩] ⟨10, 14⟩] ⟨6, 15⟩,
      number 2 ⟨17, 18⟩] ⟨6, 18⟩] ⟨0, 19⟩
  let reduced := call (utf8 "point")
    [tuple [number (1 / 3) ⟨6, 15⟩, number 2 ⟨17, 18⟩] ⟨6, 18⟩] ⟨0, 19⟩
  let o : Outcome := ⟨parsed, reduced, [.point [1 / 3, 2]]⟩
  have hexecute : (Registry.builtin.execute (utf8 "point(div(1, 3), 2)")).result [] = .ok o := rfl
  have hliterals : ∀ x s, .number x s ∈ o.reduced.nodes →
      isPlainNumber (numberText x) = true := by
    intro x s hx
    have hnumbers : x = 1 / 3 ∧ s = ⟨6, 15⟩ ∨ x = 2 ∧ s = ⟨17, 18⟩ := by
      simpa [o, reduced, nodes, nodesList] using hx
    rcases hnumbers with ⟨rfl, -⟩ | ⟨rfl, -⟩
    · rfl
    · rfl
  obtain ⟨figures, hfigures, htexts⟩ := figures_of_reduced_command hexecute hliterals
  exact ⟨o, figures, hexecute, rfl, hfigures, htexts⟩

end Registry

end Sketch
