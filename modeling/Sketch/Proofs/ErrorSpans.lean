import Sketch.Proofs.CallOutcomes
import Sketch.Proofs.Positions

/-!
# Errors point into their commands

Whatever goes wrong with a command, the error names a place in it.  A command that cannot be read
is rejected at a position in it, or at its end.  Any other error has the span of a node of the
tree that was read.

Reduction puts trees without a span into the reduced tree, but these are values.  Errors only ever
concern names, wildcards and calls (`Tree.isSymbol`), and those that are left after reduction come
from the command.
-/

namespace Sketch

/-! ### Symbols -/

namespace Tree

/-- Whether a tree is a name, a wildcard or a call. -/
def isSymbol : Tree → Bool
  | number _ _ | tuple _ _ => false
  | name _ _ | wildcard _ _ | call _ _ _ => true

/-- The spans of all names, wildcards and calls of a tree have a property. -/
def SymbolsIn (P : Span → Prop) (t : Tree) : Prop := ∀ m ∈ t.nodes, m.isSymbol = true → P m.span

/-- The spans of the symbols of a tree have a property if that of the root does, where it is one,
and those in the children do. -/
theorem symbolsIn_iff {P : Span → Prop} {t : Tree} :
  SymbolsIn P t ↔ (t.isSymbol = true → P t.span) ∧ ∀ c ∈ t.children, SymbolsIn P c
  := forall_nodes (fun m => m.isSymbol = true → P m.span) t

/-- There are no symbols in a value. -/
theorem IsValue.symbolsIn {t : Tree} (h : t.IsValue) (P : Span → Prop) :
  SymbolsIn P t
  := by
  intro m hm hsymbol
  have hmem : ∀ m ∈ t.nodes, m.isSymbol = false := by
    cases h with
    | number x s => exact List.forall_mem_singleton.mpr rfl
    | pair x y r r' s => simp [nodes, nodesList, isSymbol]
  rw [hmem m hm] at hsymbol
  cases hsymbol

/-! ### Matching -/

variable {P : Span → Prop}

/-- Matching a tree, or trees, fails only at a span with the given property. -/
abbrev FailsIn {α : Type} (P : Span → Prop) : Except MatchError α → Prop :=
  Ends (fun _ => True) fun e => P e.span

/-- Matches in sequence fail at such spans only if both do. -/
theorem failsIn_andThen {first second : Matched} (hfirst : FailsIn P first)
    (hsecond : FailsIn P second) :
  FailsIn P (first.andThen second)
  := by
  rcases first with e | _ | cs
  · exact hfirst
  · trivial
  · rcases second with e | _ | ds
    · exact hsecond
    · trivial
    · trivial

/-- If matches of trees fail at such spans only, then so do those of lists of them. -/
theorem failsIn_captureList {ts : List Tree} (h : ∀ t ∈ ts, ∀ p, FailsIn P (t.capture p))
    (ps : List Tree) :
  FailsIn P (captureList ts ps)
  := by
  induction ts generalizing ps with
  | nil => cases ps <;> trivial
  | cons t ts ih =>
    cases ps with
    | nil => trivial
    | cons p ps =>
      rw [captureList]
      apply failsIn_andThen (h t List.mem_cons_self p)
      apply ih fun u hu => h u (List.mem_cons_of_mem t hu)

/-- A tree must not be matched because of one of its symbols. -/
theorem SymbolsIn.failsIn_capture {t : Tree} (h : SymbolsIn P t) (p : Tree) :
  FailsIn P (t.capture p)
  := by
  induction t using Tree.induction generalizing p with
  | number x s =>
    cases p with
    | wildcard kind r => cases kind <;> trivial
    | _ => trivial
  | name n s =>
    cases p with
    | wildcard kind r => exact (symbolsIn_iff.mp h).1 rfl
    | _ => trivial
  | tuple items s ih =>
    cases p with
    | wildcard kind r => cases kind <;> trivial
    | tuple ps r =>
      rw [capture]
      split
      · apply failsIn_captureList
        intro c hc q
        apply ih c hc ((symbolsIn_iff.mp h).2 c hc) q
      · trivial
    | _ => trivial
  | call n args s ih =>
    cases p with
    | wildcard kind r => cases kind <;> trivial
    | call m ps r =>
      rw [capture]
      split
      · apply failsIn_captureList
        intro c hc q
        apply ih c hc ((symbolsIn_iff.mp h).2 c hc) q
      · trivial
    | _ => trivial
  | wildcard kind s => cases p <;> exact (symbolsIn_iff.mp h).1 rfl

/-- The search fails only at spans that the symbols of the tree have. -/
theorem SymbolsIn.failsIn_search {ρ : Type} {t : Tree} (h : SymbolsIn P t) (i : Nat)
    (ps : List (Pattern ρ)) :
  FailsIn P (Table.search t i ps)
  := by
  induction ps generalizing i with
  | nil => trivial
  | cons p ps ih =>
    have hp := h.failsIn_capture p.template
    rw [Table.search]
    generalize t.capture p.template = x at hp ⊢
    rcases x with e | _ | captures
    · exact hp
    · apply ih
    · trivial

theorem SymbolsIn.span_of_find {ρ : Type} {t : Tree} (h : SymbolsIn P t) {table : Table ρ}
    {e : MatchError} (hfind : table.find t = .error e) :
  P e.span
  := by
  have hfails := h.failsIn_search 0 table.patterns
  rw [Table.find] at hfind
  rw [hfind] at hfails
  exact hfails

end Tree

/-! ### Evaluation -/

namespace CommandError

/-- Whether an error concerns the evaluation or the drawing of a call. -/
def concernsCall : CommandError → Bool
  | evaluation _ _ _ | undrawable _ | drawingUnmatchable _ _ => true
  | unreadable _ | missingCapture => false

/-- The error concerns a call, and its span has the given property. -/
def Concerns (P : Span → Prop) (e : CommandError) : Prop := e.concernsCall = true ∧ P e.span

end CommandError

namespace Registry

open Sketch.Tree CommandError

variable {P : Span → Prop}

/-- If the spans of the symbols of a call have a property, then so have those of what the call
becomes, and that of an error, which concerns a call. -/
theorem ends_applyCall {n : Text} {args : List Tree} {s : Span} (h : SymbolsIn P (.call n args s))
    (trail : Trail) :
  Ends (SymbolsIn P) (Concerns P) ((Registry.builtin.applyCall n args s).result trail)
  := by
  have hs : P s := (symbolsIn_iff.mp h).1 rfl
  have hbecomes := becomes_applyCall n args s trail
  generalize (Registry.builtin.applyCall n args s).result trail = x at hbecomes ⊢
  cases hbecomes with
  | kept _ => exact h
  | computed _ hvalue => exact hvalue.symbolsIn P
  | fault => exact ⟨rfl, hs⟩
  | unmatched => exact ⟨rfl, hs⟩
  | unmatchable hfind => exact ⟨rfl, h.span_of_find hfind⟩

/-- The symbols that are left after reduction, and the errors that reduction ends with, have spans
of symbols from before. -/
theorem ends_reduce {t : Tree} (h : SymbolsIn P t) (trail : Trail) :
  Ends (SymbolsIn P) (Concerns P) ((Registry.builtin.reduce t).result trail)
  := by
  induction t using Tree.induction generalizing trail with
  | tuple items s ih =>
    rw [result_reduce_tuple, result_reduceList]
    have hitems := Ends.mapM fun c hc => ih c hc ((symbolsIn_iff.mp h).2 c hc) trail
    apply hitems.bind
    intro reduced hreduced
    exact symbolsIn_iff.mpr ⟨nofun, hreduced⟩
  | call n args s ih =>
    rw [result_reduce_call, result_reduceList]
    have hargs := Ends.mapM fun c hc =>
      ih c hc ((symbolsIn_iff.mp h).2 c hc) (trail.enter ⟨utf8 "call", n⟩)
    apply hargs.bind
    intro reduced hreduced
    apply ends_applyCall
    exact symbolsIn_iff.mpr ⟨(symbolsIn_iff.mp h).1, hreduced⟩
  | _ => exact h

theorem ends_drawCall {n : Text} {args : List Tree} {s : Span} (h : SymbolsIn P (.call n args s))
    (trail : Trail) :
  Ends (fun _ => True) (Concerns P) ((Registry.builtin.drawCall n args s).result trail)
  := by
  have hs : P s := (symbolsIn_iff.mp h).1 rfl
  have hgives := gives_drawCall n args s trail
  generalize (Registry.builtin.drawCall n args s).result trail = x at hgives ⊢
  cases hgives with
  | figure _ _ => trivial
  | fault => exact ⟨rfl, hs⟩
  | undrawable => exact ⟨rfl, hs⟩
  | unmatchable hfind => exact ⟨rfl, h.span_of_find hfind⟩

theorem symbolsIn_of_mem_calls {t : Tree} (h : SymbolsIn P t) :
  ∀ c ∈ t.calls, SymbolsIn P (.call c.name c.args c.span)
  := by
  induction t using Tree.induction with
  | tuple items s ih =>
    intro c hc
    rw [calls, callsList_eq_flatMap] at hc
    obtain ⟨item, hitem, hc⟩ := List.mem_flatMap.mp hc
    apply ih item hitem ((symbolsIn_iff.mp h).2 item hitem) c hc
  | call n args s _ => exact List.forall_mem_singleton.mpr h
  | _ => exact List.forall_mem_nil _

/-- An error in drawing the calls of a tree concerns a call, at a span that has the property of the
symbols of the tree. -/
theorem ends_figureEach {t : Tree} (h : SymbolsIn P t) (trail : Trail) :
  Ends (fun _ => True) (Concerns P) (Registry.builtin.figureEach t.calls trail)
  := by
  have heach := Ends.mapM fun c hc => ends_drawCall (symbolsIn_of_mem_calls h c hc) trail
  apply heach.mono
  · intro _ _
    trivial
  · intro e he
    exact he

/-- Evaluation of a tree that is read ends with figures, or with an error at a symbol of the
tree. -/
theorem ends_execute {command : Text} {t : Tree} (hparse : Tree.parse command 0 = .ok t)
    (h : SymbolsIn P t) (trail : Trail) :
  Ends (fun _ => True) (Concerns P) ((Registry.builtin.execute command).result trail)
  := by
  rw [result_execute, result_read, hparse]
  apply (ends_reduce h trail).bind
  intro reduced hreduced
  apply (ends_figureEach hreduced trail).bind
  intro figures _
  trivial

/-- Every failure points into its command.  A command that cannot be read is rejected at one of its
bytes, or at its end.  Any other error concerns a call, and has the span of a node of the tree
that was read; the span is not empty and lies in the command. -/
theorem builtin_error_points_into_command {command : Text}
    (hlength : command.length < UInt32.size - 1) {trail : Trail} {e : CommandError}
    (h : (Registry.builtin.execute command).result trail = .error e) :
  (∃ reason, Tree.parse command 0 = .error reason ∧ e = .unreadable reason
    ∧ reason.position.toNat ≤ command.length
    ∧ e.span.start.toNat = reason.position.toNat
    ∧ e.span.stop.toNat = reason.position.toNat + 1)
  ∨ ∃ t, Tree.parse command 0 = .ok t ∧ e.concernsCall = true
    ∧ (∃ m ∈ t.nodes, e.span = m.span)
    ∧ e.span.isPlaced = true
    ∧ e.span.start.toNat < e.span.stop.toNat ∧ e.span.stop.toNat ≤ command.length
  := by
  have hread := readsWithin_parse command 0
  rw [Nat.zero_add] at hread
  rcases hparse : Tree.parse command 0 with reason | t
  · left
    rw [result_execute, result_read, hparse] at h
    obtain rfl := Except.error.inj h
    rw [hparse] at hread
    obtain ⟨hposition, hstart, hstop⟩ := hread.span_within hlength
    exact ⟨reason, rfl, rfl, hposition, hstart, hstop⟩
  · right
    have hsymbols : SymbolsIn (fun s => ∃ m ∈ t.nodes, s = m.span) t := by
      intro m hm _
      exact ⟨m, hm, rfl⟩
    have hends := ends_execute hparse hsymbols trail
    rw [h] at hends
    obtain ⟨hconcerns, m, hm, hspan⟩ := hends
    rw [hparse] at hread
    obtain ⟨hplaced, -, hstart, hstop⟩ := (hread.nodes m hm).span_within hlength
    use t, rfl, hconcerns, ⟨m, hm, hspan⟩
    rw [hspan]
    exact ⟨hplaced, hstart, hstop⟩

/-- In `point(neg(1), x)` a name stands where a number is needed, and the error points at it. -/
theorem builtin_error_points_at_name :
  ∃ e : CommandError, (Registry.builtin.execute (utf8 "point(neg(1), x)")).result [] = .error e
    ∧ e.span = ⟨14, 15⟩
    ∧ ∃ t, Tree.parse (utf8 "point(neg(1), x)") 0 = .ok t ∧ ∃ m ∈ t.nodes, e.span = m.span
  := by
  have hlength : (utf8 "point(neg(1), x)").length < UInt32.size - 1 := by decide
  have herror : (Registry.builtin.execute (utf8 "point(neg(1), x)")).result []
      = .error (.drawingUnmatchable (Trail.enter [] ⟨utf8 "drawing call", utf8 "point"⟩)
        (.nameForWildcard (utf8 "x") ⟨14, 15⟩)) := rfl
  refine ⟨_, herror, rfl, ?_⟩
  rcases builtin_error_points_into_command hlength herror with
    ⟨reason, -, hreason, -⟩ | ⟨t, hparse, -, hnode, -⟩
  · cases hreason
  · exact ⟨t, hparse, hnode⟩

end Registry

end Sketch
