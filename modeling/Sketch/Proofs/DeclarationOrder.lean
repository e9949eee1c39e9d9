import Sketch.Number.Arithmetic
import Sketch.Proofs.Registration
import Mathlib.Data.List.Perm.Basic

/-!
# Patterns may be declared in any order

What a declaration declares does not depend on the registry.  Two entries conflict if they are for
the same table and have equal templates, or if they are for different tables and have the same name;
this is symmetric (`Entry.Compatible`).  Declarations are all accepted exactly if each one declares
an entry that the registry accepts, and no two of these entries conflict
(`Registry.declareAll_eq_iff`).  This does not depend on the order of the declarations.
-/

namespace Sketch

namespace Entry

/-- Two entries may be in the same registry: their templates differ if they are for the same table,
and their names differ if they are not. -/
def Compatible : Entry → Entry → Prop
  | reduction p, reduction q => (p.template == q.template) = false
  | drawing p, drawing q => (p.template == q.template) = false
  | reduction p, drawing q => p.name ≠ q.name
  | drawing p, reduction q => p.name ≠ q.name

/-- Which of two compatible entries comes first does not matter. -/
theorem Compatible.symm {e f : Entry} (h : e.Compatible f) :
  f.Compatible e
  := by
  cases e with
  | reduction p =>
    cases f with
    | reduction q =>
      change (q.template == p.template) = false
      rw [Tree.beq_comm]
      apply h
    | drawing q => apply Ne.symm h
  | drawing p =>
    cases f with
    | reduction q => apply Ne.symm h
    | drawing q =>
      change (q.template == p.template) = false
      rw [Tree.beq_comm]
      apply h

end Entry

namespace Table

variable {ρ : Type}

/-- A name is missing after an insertion if it was missing before and is not that of the pattern. -/
theorem hasName_insert_eq_false_iff (table : Table ρ) (p : Pattern ρ) (n : Text) :
  (table.insert p).hasName n = false ↔ table.hasName n = false ∧ p.name ≠ n
  := by
  rw [← Bool.not_eq_true, hasName_insert, not_or, Bool.not_eq_true]

/-- A template is missing after an insertion if it was missing before and is not that of the
pattern. -/
theorem hasTemplate_insert_eq_false_iff (table : Table ρ) (p : Pattern ρ) (t : Tree) :
  (table.insert p).hasTemplate t = false
    ↔ table.hasTemplate t = false ∧ (p.template == t) = false
  := by
  rw [← Bool.or_eq_false_iff]
  simp [hasTemplate, insert]

/-- The names of a table are known from its patterns, in whatever order they are. -/
theorem Consistent.hasName_eq_of_perm {table table' : Table ρ} (h : table.Consistent)
    (h' : table'.Consistent) (hperm : table.patterns.Perm table'.patterns) (n : Text) :
  table.hasName n = table'.hasName n
  := by
  rw [Bool.eq_iff_iff, h.names, h'.names]
  simp only [hperm.mem_iff]

end Table

namespace Registry

/-- After an entry is there, those entries are accepted that were accepted before and do not
conflict with it. -/
theorem accepts_insert_iff (registry : Registry) (e f : Entry) :
  (registry.insert e).Accepts f ↔ registry.Accepts f ∧ e.Compatible f
  := by
  cases e with
  | reduction p =>
    cases f with
    | reduction q =>
      simp only [insert, Accepts, Table.Accepts, Table.hasTemplate_insert_eq_false_iff,
        Entry.Compatible, and_assoc]
    | drawing q =>
      simp only [insert, Accepts, Table.Accepts, Table.hasName_insert_eq_false_iff,
        Entry.Compatible, and_right_comm]
  | drawing p =>
    cases f with
    | reduction q =>
      simp only [insert, Accepts, Table.Accepts, Table.hasName_insert_eq_false_iff,
        Entry.Compatible, and_right_comm]
    | drawing q =>
      simp only [insert, Accepts, Table.Accepts, Table.hasTemplate_insert_eq_false_iff,
        Entry.Compatible, and_assoc]

/-! ### Entries in sequence -/

/-- The registry with more entries. -/
def insertAll (registry : Registry) (es : List Entry) : Registry := es.foldl insert registry

/-- Inserting entries appends the patterns among them that are for the table of functions that
compute. -/
theorem reductions_insertAll (registry : Registry) (es : List Entry) :
  (registry.insertAll es).reductions.patterns
    = registry.reductions.patterns ++ es.filterMap Entry.reduction?
  := by
  induction es generalizing registry with
  | nil => simp [insertAll]
  | cons e es ih =>
    rw [insertAll, List.foldl_cons, ← insertAll, ih]
    cases e with
    | reduction p => simp [insert, Table.insert, Entry.reduction?]
    | drawing p => rfl

/-- Inserting entries appends the patterns among them that are for the table of functions that
draw. -/
theorem drawings_insertAll (registry : Registry) (es : List Entry) :
  (registry.insertAll es).drawings.patterns
    = registry.drawings.patterns ++ es.filterMap Entry.drawing?
  := by
  induction es generalizing registry with
  | nil => simp [insertAll]
  | cons e es ih =>
    rw [insertAll, List.foldl_cons, ← insertAll, ih]
    cases e with
    | reduction p => rfl
    | drawing p => simp [insert, Table.insert, Entry.drawing?]

/-- Declarations are all accepted exactly if each of them declares an entry that the registry
accepts, and no two of these entries conflict. -/
theorem declareAll_eq_iff {registry final : Registry} {ds : List Declaration} :
  registry.declareAll ds = (final, none)
    ↔ ∃ es, List.Forall₂ Entry.DeclaredBy ds es ∧ (∀ e ∈ es, registry.Accepts e)
      ∧ es.Pairwise Entry.Compatible ∧ registry.insertAll es = final
  := by
  induction ds generalizing registry with
  | nil =>
    constructor
    · intro h
      exact ⟨[], .nil, nofun, .nil, (Prod.ext_iff.mp h).1⟩
    · rintro ⟨es, hdeclared, -, -, rfl⟩
      cases hdeclared
      rfl
  | cons d ds ih =>
    rw [declareAll]
    constructor
    · intro h
      obtain ⟨e, hdeclared, haccepts, hd⟩ | ⟨reason, hd⟩ := registry.declare_cases d
      · rw [hd] at h
        obtain ⟨es, hdeclareds, hrest, hpairwise, rfl⟩ := ih.mp h
        -- what the extended registry accepts, the registry accepts, and it does not conflict
        have hrest' := fun f hf => (accepts_insert_iff registry e f).mp (hrest f hf)
        refine ⟨e :: es, .cons hdeclared hdeclareds, ?_, ?_, rfl⟩
        · apply List.forall_mem_cons.mpr ⟨haccepts, fun f hf => (hrest' f hf).1⟩
        · apply List.pairwise_cons.mpr ⟨fun f hf => (hrest' f hf).2, hpairwise⟩
      · rw [hd] at h
        cases h
    · rintro ⟨_, hdeclareds, haccepts, hpairwise, rfl⟩
      cases hdeclareds with
      | @cons _ e _ es hdeclared hdeclareds =>
        obtain ⟨hfirst, hothers⟩ := List.forall_mem_cons.mp haccepts
        obtain ⟨hcompatible, hpairwise⟩ := List.pairwise_cons.mp hpairwise
        rw [declare_of_accepts hdeclared hfirst]
        apply ih.mpr
        refine ⟨es, hdeclareds, ?_, hpairwise, rfl⟩
        intro f hf
        apply (accepts_insert_iff registry e f).mpr ⟨hothers f hf, hcompatible f hf⟩

/-! ### Permuted declarations -/

/-- A consistent registry stays so, even if one of the declarations is an error. -/
theorem Consistent.declareAll {registry : Registry} (h : registry.Consistent)
    (ds : List Declaration) :
  (registry.declareAll ds).1.Consistent
  := by
  induction ds generalizing registry with
  | nil => apply h
  | cons d ds ih =>
    have hextended := h.declare d
    rw [Registry.declareAll]
    generalize registry.declare d = outcome at hextended ⊢
    obtain ⟨extended, _ | reason⟩ := outcome
    · apply ih hextended
    · apply hextended

/-- If declarations are all accepted in one order, they are all accepted in every order, and the two
tables hold the same patterns, up to their order. -/
theorem declareAll_in_any_order {ds ds' : List Declaration} (hperm : ds.Perm ds')
    {registry : Registry} (h : empty.declareAll ds = (registry, none)) :
  ∃ registry', empty.declareAll ds' = (registry', none)
    ∧ registry.reductions.patterns.Perm registry'.reductions.patterns
    ∧ registry.drawings.patterns.Perm registry'.drawings.patterns
    ∧ (∀ n, registry.reductions.hasName n = registry'.reductions.hasName n)
    ∧ ∀ n, registry.drawings.hasName n = registry'.drawings.hasName n
  := by
  obtain ⟨es, hdeclared, haccepts, hcompatible, hinsert⟩ := declareAll_eq_iff.mp h
  -- the entries are permuted in the same way as the declarations
  obtain ⟨es', hdeclared', hentries⟩ := List.perm_comp_forall₂ hperm.symm hdeclared
  have h' : empty.declareAll ds' = (empty.insertAll es', none) := by
    apply declareAll_eq_iff.mpr
    refine ⟨es', hdeclared', ?_, ?_, rfl⟩
    · intro e he
      apply haccepts e (hentries.mem_iff.mp he)
    · apply hcompatible.perm hentries.symm
      intro e f
      apply Entry.Compatible.symm
  have hreductions : registry.reductions.patterns.Perm
      (empty.insertAll es').reductions.patterns := by
    rw [← hinsert, reductions_insertAll, reductions_insertAll]
    apply (hentries.symm.filterMap _).append_left
  have hdrawings : registry.drawings.patterns.Perm
      (empty.insertAll es').drawings.patterns := by
    rw [← hinsert, drawings_insertAll, drawings_insertAll]
    apply (hentries.symm.filterMap _).append_left
  have hconsistent := consistent_empty.declareAll ds
  have hconsistent' := consistent_empty.declareAll ds'
  rw [h] at hconsistent
  rw [h'] at hconsistent'
  refine ⟨empty.insertAll es', h', hreductions, hdrawings, ?_, ?_⟩
  · apply hconsistent.reductions.hasName_eq_of_perm hconsistent'.reductions hreductions
  · apply hconsistent.drawings.hasName_eq_of_perm hconsistent'.drawings hdrawings

/-- Two patterns of one function and a pattern of another one may also be declared in reverse. -/
theorem declareAll_in_any_order_reversed :
  let double : Behaviour Tree := fun captures => do
    let x ← captures.number 0
    return .number (x + x) .nowhere
  let dot : Behaviour Figure := fun captures => do
    let x ← captures.number 0
    return .point [x, 0]
  let ds : List Declaration := [.reduction (utf8 "double(\x7b\x7d)") (some double),
    .drawing (utf8 "dot(\x7b\x7d, 0)") (some dot),
    .reduction (utf8 "double(\x7b\x7d)(0)") (some double)]
  (empty.declareAll ds).2.isNone = true ∧ (empty.declareAll ds.reverse).2.isNone = true
    ∧ (empty.declareAll ds).1.reductions.patterns.length = 2
    ∧ (empty.declareAll ds).1.reductions.patterns.Perm
      (empty.declareAll ds.reverse).1.reductions.patterns
  := by
  intro double dot ds
  have h : empty.declareAll ds = ((empty.declareAll ds).1, none) := rfl
  obtain ⟨registry', h', hreductions, -⟩ := declareAll_in_any_order ds.reverse_perm.symm h
  rw [h']
  exact ⟨rfl, rfl, rfl, hreductions⟩

end Registry

end Sketch
