import Sketch.Proofs.Outcome
import Sketch.Proofs.Trees
import Sketch.Registry.Basic

/-!
# Declaring patterns one after the other

Declarations are tried one after the other, and those that are refused are passed over.  Whatever
is declared, the two tables of a registry that starts out empty stay consistent: no name belongs
to both of them, the templates of each table are calls that differ from each other, and the names
of a table are those of its patterns.  The patterns of each table are those of the accepted
declarations, in the order of the declarations.

What a declaration declares does not depend on the registry: it is an entry, a pattern for one of
the two tables (`Entry.DeclaredBy`).  The registry accepts an entry if the template differs from
those of its table, and the name does not belong to the other table (`Registry.Accepts`).
Everything follows from what one declaration does (`Registry.declare_cases`): the registry comes
back with the entry, if it accepts it, and as it was otherwise.
-/

namespace Sketch

/-! ### Consistent tables -/

namespace Table

variable {ρ : Type}

/-- The templates of a table are calls, no two of them are equal, and its names are those of its
patterns. -/
structure Consistent (table : Table ρ) : Prop where
  call : ∀ p ∈ table.patterns, ∃ args span, p.template = .call p.name args span
  distinct : table.patterns.Pairwise fun p q =>
    (p.template == q.template) = false ∧ (q.template == p.template) = false
  names : ∀ n, table.hasName n = true ↔ ∃ p ∈ table.patterns, p.name = n

theorem consistent_empty :
  (Table.empty : Table ρ).Consistent
  := by
  constructor
  · simp [Table.empty]
  · apply List.Pairwise.nil
  · simp [Table.empty, hasName]

/-- A table has the names that it had before and that of the pattern which is inserted. -/
theorem hasName_insert (table : Table ρ) (p : Pattern ρ) (n : Text) :
  (table.insert p).hasName n = true ↔ table.hasName n = true ∨ p.name = n
  := by
  rw [hasName, insert]
  split
  · next h =>
    constructor
    · intro hn
      left
      apply hn
    · rintro (hn | rfl)
      · apply hn
      · apply h
  · simp only [hasName, List.contains_iff_mem, List.mem_append, List.mem_singleton, @eq_comm _ n]

/-- A table stays consistent if the template of the pattern is a call of its name and is not there
yet. -/
theorem Consistent.insert {table : Table ρ} (h : table.Consistent) {p : Pattern ρ}
    (hcall : ∃ args span, p.template = .call p.name args span)
    (hnew : table.hasTemplate p.template = false) :
  (table.insert p).Consistent
  := by
  constructor
  · intro q hq
    rcases List.mem_append.mp hq with hq | hq
    · apply h.call q hq
    · rw [List.mem_singleton.mp hq]
      apply hcall
  · apply List.pairwise_append.mpr
    refine ⟨h.distinct, List.pairwise_singleton _ p, ?_⟩
    intro q hq r hr
    rw [List.mem_singleton.mp hr]
    have hne : (q.template == p.template) = false := by
      simpa using List.any_eq_false.mp hnew q hq
    use hne
    rw [Tree.beq_comm]
    apply hne
  · intro n
    rw [hasName_insert, h.names]
    simp [Table.insert, or_and_right, exists_or]

end Table

/-! ### Entries -/

/-- A declaration with the given template and behaviour declares a pattern: it says what the pattern
does, and its template is read as the call that is the template of the pattern. -/
structure Pattern.DeclaredBy {ρ : Type} (template : Text) (behaviour : Option (Behaviour ρ))
    (p : Pattern ρ) : Prop where
  behaviour : behaviour = some p.behaviour
  read : Tree.parse template 0 = .ok p.template
  call : ∃ args span, p.template = .call p.name args span

/-- A pattern may enter the table `own`: the other table does not have its name, and its own table
does not have its template. -/
def Table.Accepts {ρ τ : Type} (own : Table ρ) (other : Table τ) (p : Pattern ρ) : Prop :=
  other.hasName p.name = false ∧ own.hasTemplate p.template = false

/-- A pattern for one of the tables of a registry. -/
inductive Entry where
  /-- A pattern of a function that computes a tree. -/
  | reduction (pattern : Pattern Tree)
  /-- A pattern of a function that makes a figure. -/
  | drawing (pattern : Pattern Figure)

namespace Entry

/-- The pattern, if it belongs to a function that computes a tree. -/
def reduction? : Entry → Option (Pattern Tree)
  | reduction p => some p
  | drawing _ => none

/-- The pattern, if it belongs to a function that makes a figure. -/
def drawing? : Entry → Option (Pattern Figure)
  | reduction _ => none
  | drawing p => some p

/-- What a declaration declares. -/
inductive DeclaredBy : Declaration → Entry → Prop
  /-- The declaration of a pattern of a function that computes a tree. -/
  | reduction {template : Text} {behaviour : Option (Behaviour Tree)} {p : Pattern Tree} :
    p.DeclaredBy template behaviour → DeclaredBy (.reduction template behaviour) (.reduction p)
  /-- The declaration of a pattern of a function that makes a figure. -/
  | drawing {template : Text} {behaviour : Option (Behaviour Figure)} {p : Pattern Figure} :
    p.DeclaredBy template behaviour → DeclaredBy (.drawing template behaviour) (.drawing p)

end Entry

namespace Registry

/-- The registry with one more entry. -/
def insert (registry : Registry) : Entry → Registry
  | .reduction p => { registry with reductions := registry.reductions.insert p }
  | .drawing p => { registry with drawings := registry.drawings.insert p }

/-- An entry may enter its table. -/
def Accepts (registry : Registry) : Entry → Prop
  | .reduction p => registry.reductions.Accepts registry.drawings p
  | .drawing p => registry.drawings.Accepts registry.reductions p

/-! ### One declaration -/

/-- A declaration is accepted with the pattern that it declares, if the tables accept this
pattern. -/
theorem accept_eq_ok_iff {ρ τ : Type} {role otherRole : Role} {own : Table ρ} {other : Table τ}
    {template : Text} {behaviour : Option (Behaviour ρ)} {p : Pattern ρ} :
  accept role otherRole own other.hasName template behaviour = .ok p
    ↔ p.DeclaredBy template behaviour ∧ own.Accepts other p
  := by
  constructor
  · intro h
    unfold accept at h
    split at h
    · cases h
    · split at h
      · cases h
      · next name args span hread =>
        dsimp only at h
        split at h
        · cases h
        · next hfree =>
          split at h
          · cases h
          · next hnew =>
            obtain rfl := Except.ok.inj h
            refine ⟨⟨rfl, hread, args, span, rfl⟩, ?_, ?_⟩
            · simpa using hfree
            · simpa using hnew
      · cases h
  · rintro ⟨⟨rfl, hread, args, span, hcall⟩, hfree, hnew⟩
    obtain ⟨name, tree, behaviour⟩ := p
    dsimp only at hread hcall hfree hnew
    subst hcall
    simp [accept, hread, hfree, hnew]

/-- A declaration of an entry that may enter its table adds it. -/
theorem declare_of_accepts {registry : Registry} {d : Declaration} {e : Entry}
    (hdeclared : Entry.DeclaredBy d e) (haccepts : registry.Accepts e) :
  registry.declare d = (registry.insert e, none)
  := by
  cases hdeclared with
  | reduction hp => rw [declare, accept_eq_ok_iff.mpr ⟨hp, haccepts⟩, insert]
  | drawing hp => rw [declare, accept_eq_ok_iff.mpr ⟨hp, haccepts⟩, insert]

/-- A declaration adds the entry that it declares, if that may enter its table.  Otherwise it is
refused, and the registry comes back as it was. -/
theorem declare_cases (registry : Registry) (d : Declaration) :
  (∃ e, Entry.DeclaredBy d e ∧ registry.Accepts e ∧ registry.declare d = (registry.insert e, none))
    ∨ ∃ reason, registry.declare d = (registry, some reason)
  := by
  cases d with
  | reduction template behaviour =>
    rw [declare]
    cases h : accept .reduction .drawing registry.reductions registry.drawings.hasName template
        behaviour with
    | ok p =>
      obtain ⟨hp, haccepts⟩ := accept_eq_ok_iff.mp h
      exact Or.inl ⟨.reduction p, .reduction hp, haccepts, rfl⟩
    | error reason => exact Or.inr ⟨reason, rfl⟩
  | drawing template behaviour =>
    rw [declare]
    cases h : accept .drawing .reduction registry.drawings registry.reductions.hasName template
        behaviour with
    | ok p =>
      obtain ⟨hp, haccepts⟩ := accept_eq_ok_iff.mp h
      exact Or.inl ⟨.drawing p, .drawing hp, haccepts, rfl⟩
    | error reason => exact Or.inr ⟨reason, rfl⟩

/-! ### Consistent registries -/

/-- Both tables are consistent, and no name belongs to both of them. -/
structure Consistent (registry : Registry) : Prop where
  reductions : registry.reductions.Consistent
  drawings : registry.drawings.Consistent
  disjoint : ∀ n, registry.reductions.hasName n = true → registry.drawings.hasName n = false

/-- The registry without any functions is consistent. -/
theorem consistent_empty :
  empty.Consistent
  := by
  constructor
  · apply Table.consistent_empty
  · apply Table.consistent_empty
  · intro n _
    rfl

/-- A registry stays consistent if an entry that it accepts is added. -/
theorem Consistent.insert {registry : Registry} (h : registry.Consistent) {d : Declaration}
    {e : Entry} (hdeclared : Entry.DeclaredBy d e) (haccepts : registry.Accepts e) :
  (registry.insert e).Consistent
  := by
  cases hdeclared with
  | @reduction _ _ p hp =>
    obtain ⟨hfree, hnew⟩ := haccepts
    constructor
    · apply h.reductions.insert hp.call hnew
    · apply h.drawings
    · intro n hn
      rcases (Table.hasName_insert _ p n).mp hn with hn | rfl
      · apply h.disjoint n hn
      · apply hfree
  | @drawing _ _ p hp =>
    obtain ⟨hfree, hnew⟩ := haccepts
    constructor
    · apply h.reductions
    · apply h.drawings.insert hp.call hnew
    · intro n hn
      change registry.reductions.hasName n = true at hn
      change (registry.drawings.insert p).hasName n = false
      rw [← Bool.not_eq_true, Table.hasName_insert]
      rintro (hdrawing | rfl)
      · rw [h.disjoint n hn] at hdrawing
        cases hdrawing
      · rw [hfree] at hn
        cases hn

/-- A registry stays consistent whatever is declared. -/
theorem Consistent.declare {registry : Registry} (h : registry.Consistent) (d : Declaration) :
  (registry.declare d).1.Consistent
  := by
  obtain ⟨e, hdeclared, haccepts, hd⟩ | ⟨reason, hd⟩ := registry.declare_cases d
  · rw [hd]
    apply h.insert hdeclared haccepts
  · rw [hd]
    apply h

/-- The patterns of each table are those that the given declarations declare for it, in the order
of the declarations. -/
def Records (registry : Registry) (ds : List Declaration) : Prop :=
  ∃ es, List.Forall₂ Entry.DeclaredBy ds es
    ∧ registry.reductions.patterns = es.filterMap Entry.reduction?
    ∧ registry.drawings.patterns = es.filterMap Entry.drawing?

/-- A registry that records declarations records one more when its entry is inserted. -/
theorem Records.insert {registry : Registry} {ds : List Declaration} (h : registry.Records ds)
    {d : Declaration} {e : Entry} (hdeclared : Entry.DeclaredBy d e) :
  (registry.insert e).Records (ds ++ [d])
  := by
  obtain ⟨es, hes, hreductions, hdrawings⟩ := h
  refine ⟨es ++ [e], List.rel_append hes (.cons hdeclared .nil), ?_, ?_⟩
  · rw [List.filterMap_append, ← hreductions]
    cases e with
    | reduction p => rfl
    | drawing p => exact (List.append_nil _).symm
  · rw [List.filterMap_append, ← hdrawings]
    cases e with
    | reduction p => exact (List.append_nil _).symm
    | drawing p => rfl

/-! ### Declarations in sequence -/

/-- The registry after a declaration is tried. -/
def attempt (registry : Registry) (d : Declaration) : Registry := (registry.declare d).1

/-- Why a declaration that is tried is refused, if it is. -/
def refusal (registry : Registry) (d : Declaration) : Option RegistrationError :=
  (registry.declare d).2

/-- The registry after declarations are tried one after the other. -/
def attemptAll (registry : Registry) : List Declaration → Registry
  | [] => registry
  | d :: ds => (registry.attempt d).attemptAll ds

/-- The declarations that are accepted when they are tried one after the other. -/
def accepted (registry : Registry) : List Declaration → List Declaration
  | [] => []
  | d :: ds =>
    if (registry.refusal d).isNone then d :: (registry.attempt d).accepted ds
    else (registry.attempt d).accepted ds

/-- Those of the declarations that are accepted keep their order. -/
theorem accepted_sublist (registry : Registry) (ds : List Declaration) :
  (registry.accepted ds).Sublist ds
  := by
  induction ds generalizing registry with
  | nil => apply List.Sublist.refl
  | cons d ds ih =>
    rw [accepted]
    split
    · apply (ih _).cons_cons
    · apply (ih _).cons

/-- A declaration that is refused changes nothing. -/
theorem attempt_of_refusal {registry : Registry} {d : Declaration} {reason : RegistrationError}
    (h : registry.refusal d = some reason) :
  registry.attempt d = registry
  := by
  rw [refusal] at h
  rw [attempt]
  obtain ⟨e, -, -, hd⟩ | ⟨reason, hd⟩ := registry.declare_cases d
  · rw [hd] at h
    cases h
  · rw [hd]

/-- A declaration is not refused exactly if the registry accepts an entry that it declares. -/
theorem refusal_eq_none_iff {registry : Registry} {d : Declaration} :
  registry.refusal d = none ↔ ∃ e, Entry.DeclaredBy d e ∧ registry.Accepts e
  := by
  rw [refusal]
  constructor
  · intro h
    obtain ⟨e, hdeclared, haccepts, -⟩ | ⟨reason, hd⟩ := registry.declare_cases d
    · exact ⟨e, hdeclared, haccepts⟩
    · rw [hd] at h
      cases h
  · rintro ⟨e, hdeclared, haccepts⟩
    rw [declare_of_accepts hdeclared haccepts]

/-- A consistent registry stays so, whatever is declared. -/
theorem Consistent.attemptAll {registry : Registry} (h : registry.Consistent)
    (ds : List Declaration) :
  (registry.attemptAll ds).Consistent
  := by
  induction ds generalizing registry with
  | nil => apply h
  | cons d ds ih => apply ih (h.declare d)

/-- A registry records just those of the declarations that it accepts. -/
theorem Records.attemptAll {registry : Registry} {before : List Declaration}
    (h : registry.Records before) (ds : List Declaration) :
  (registry.attemptAll ds).Records (before ++ registry.accepted ds)
  := by
  induction ds generalizing registry before with
  | nil =>
    rw [accepted, List.append_nil]
    apply h
  | cons d ds ih =>
    rw [accepted, Registry.attemptAll, refusal, attempt]
    obtain ⟨e, hdeclared, -, hd⟩ | ⟨reason, hd⟩ := registry.declare_cases d
    · rw [hd, Option.isNone_none, if_pos rfl, List.append_cons]
      apply ih (h.insert hdeclared)
    · rw [hd, Option.isNone_some, if_neg Bool.false_ne_true]
      apply ih h

/-- After declarations are tried one after the other on the empty registry, its tables are
consistent and hold the patterns of the accepted declarations in their order.  One more
declaration is accepted exactly if it declares an entry that may enter its table; otherwise it
changes nothing. -/
theorem consistent_after_attempts (ds : List Declaration) :
  let registry := empty.attemptAll ds
  registry.Consistent
  ∧ registry.Records (empty.accepted ds)
  ∧ (empty.accepted ds).Sublist ds
  ∧ (∀ d, registry.refusal d = none ↔ ∃ e, Entry.DeclaredBy d e ∧ registry.Accepts e)
  ∧ ∀ d reason, registry.refusal d = some reason → registry.attempt d = registry
  := by
  have hrecords : empty.Records [] := ⟨[], .nil, rfl, rfl⟩
  intro registry
  refine ⟨?_, ?_, ?_, ?_, ?_⟩
  · apply consistent_empty.attemptAll
  · apply hrecords.attemptAll
  · apply accepted_sublist
  · intro d
    apply refusal_eq_none_iff
  · intro d reason h
    apply attempt_of_refusal h

end Registry

end Sketch
