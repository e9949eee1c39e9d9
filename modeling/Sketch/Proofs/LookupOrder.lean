import Sketch.Proofs.EqualTemplates
import Sketch.Registry.Builtin
import Mathlib.Data.List.Perm.Basic

/-!
# The order of patterns

A table is searched from the first pattern to the last one, and both a match and an error end the
search.  In general the order of the patterns matters, therefore.  It does not if no tree can be
decided by two of them, except by the same error (`Table.firstMatch_perm`).

`Tree.apart` is a check on two templates that is enough for this, whatever the tree
(`Tree.apart_capture`).  It finds the first place where the templates require different trees: up
to that place they are equal, so they have the same outcome, and at that place one of them does
not match.  The templates of the functions that are always there pass this check two by two.
-/

namespace Sketch

/-- What is found in a table, without its index. -/
def Hit.found {ρ : Type} (hit : Hit ρ) : Pattern ρ × Captures := (hit.pattern, hit.captures)

namespace Table

variable {ρ : Type}

/-! ### The first match -/

/-- The first of the given patterns that a tree matches, and the captures. -/
def firstMatch (tree : Tree) :
    List (Pattern ρ) → Except MatchError (Option (Pattern ρ × Captures))
  | [] => .ok none
  | p :: ps =>
    match tree.capture p.template with
    | .error e => .error e
    | .ok (some captures) => .ok (some (p, captures))
    | .ok none => firstMatch tree ps

/-- The search gives the first match, with an index. -/
theorem map_found_search (t : Tree) (i : Nat) (ps : List (Pattern ρ)) :
  (search t i ps).map (Option.map Hit.found) = firstMatch t ps
  := by
  induction ps generalizing i with
  | nil => rfl
  | cons p ps ih =>
    rw [search, firstMatch]
    rcases t.capture p.template with e | _ | captures
    · rfl
    · apply ih
    · rfl

/-- What is found in a table is the first match among its patterns. -/
theorem map_found_find (table : Table ρ) (t : Tree) :
  (table.find t).map (Option.map Hit.found) = firstMatch t table.patterns
  := map_found_search t 0 table.patterns

end Table

/-! ### Patterns that do not get in each other's way -/

/-- One of two matches fails without an error, or both end with the same error. -/
def Matched.Apart (first second : Matched) : Prop :=
  first = .ok none ∨ second = .ok none ∨ ∃ e, first = .error e ∧ second = .error e

/-- Which of two matches comes first does not matter for their being apart. -/
theorem Matched.Apart.symm {first second : Matched} (h : first.Apart second) :
  second.Apart first
  := by
  rcases h with h | h | ⟨e, h, h'⟩
  · exact Or.inr (Or.inl h)
  · exact Or.inl h
  · exact Or.inr (Or.inr ⟨e, h', h⟩)

namespace Table

variable {ρ : Type}

/-- The first two patterns may be swapped if they are apart for the tree. -/
theorem firstMatch_swap {t : Tree} {p q : Pattern ρ}
    (h : (t.capture p.template).Apart (t.capture q.template)) (ps : List (Pattern ρ)) :
  firstMatch t (p :: q :: ps) = firstMatch t (q :: p :: ps)
  := by
  simp only [firstMatch]
  rcases h with h | h | ⟨e, h, h'⟩
  · rw [h]
  · rw [h]
  · rw [h, h']

/-- The order of patterns does not matter for a tree whose matches with them are apart. -/
theorem firstMatch_perm {t : Tree} {ps qs : List (Pattern ρ)} (hperm : ps.Perm qs)
    (h : ps.Pairwise fun p q => (t.capture p.template).Apart (t.capture q.template)) :
  firstMatch t ps = firstMatch t qs
  := by
  induction hperm with
  | nil => rfl
  | @cons p ps qs _ ih =>
    have hrest := ih (List.pairwise_cons.mp h).2
    rw [firstMatch, firstMatch, hrest]
  | swap p q ps =>
    apply firstMatch_swap
    apply (List.pairwise_cons.mp h).1 p List.mem_cons_self
  | trans hperm _ ih ih' =>
    apply (ih h).trans (ih' _)
    apply hperm.pairwise h
    intro p q hpq
    apply hpq.symm

end Table

/-! ### Templates that do not get in each other's way -/

namespace Tree

mutual

/-- Whether two templates are seen to be apart, whatever tree is matched against them. -/
def apart : Tree → Tree → Bool
  | wildcard kind _, wildcard kind' _ => kind != kind'
  | wildcard .number _, tuple _ _ | tuple _ _, wildcard .number _ => true
  | tuple ps _, tuple qs _ => ps.length != qs.length || apartList ps qs
  | call m ps _, call n qs _ => m != n || ps.length != qs.length || apartList ps qs
  | _, _ => false

/-- Whether two lists of templates are equal up to templates that are apart. -/
def apartList : List Tree → List Tree → Bool
  | p :: ps, q :: qs => apart p q || p == q && apartList ps qs
  | _, _ => false

end

/-- Matches are apart if their first steps are. -/
theorem apart_andThen_left {first first' : Matched} (h : first.Apart first')
    (second second' : Matched) :
  (first.andThen second).Apart (first'.andThen second')
  := by
  rcases h with rfl | rfl | ⟨e, rfl, rfl⟩
  · exact Or.inl rfl
  · exact Or.inr (Or.inl rfl)
  · exact Or.inr (Or.inr ⟨e, rfl, rfl⟩)

/-- Matches with the same first step are apart if their second steps are. -/
theorem apart_andThen_right (first : Matched) {second second' : Matched}
    (h : second.Apart second') :
  (first.andThen second).Apart (first.andThen second')
  := by
  rcases first with e | _ | captures
  · exact Or.inr (Or.inr ⟨e, rfl, rfl⟩)
  · exact Or.inl rfl
  · rcases h with rfl | rfl | ⟨e, rfl, rfl⟩
    · exact Or.inl rfl
    · exact Or.inr (Or.inl rfl)
    · exact Or.inr (Or.inr ⟨e, rfl, rfl⟩)

/-- If templates that pass the check are apart for trees, then so are lists of them. -/
theorem apartList_captureList {ts ps qs : List Tree}
    (h : ∀ t ∈ ts, ∀ p q, apart p q = true → (capture t p).Apart (capture t q))
    (hapart : apartList ps qs = true) :
  (captureList ts ps).Apart (captureList ts qs)
  := by
  induction ts generalizing ps qs with
  | nil =>
    cases ps with
    | nil => cases hapart
    | cons p ps => exact Or.inl rfl
  | cons t ts ih =>
    cases ps with
    | nil => exact Or.inl rfl
    | cons p ps =>
      cases qs with
      | nil => exact Or.inr (Or.inl rfl)
      | cons q qs =>
        rw [apartList, Bool.or_eq_true, Bool.and_eq_true] at hapart
        rw [captureList, captureList]
        rcases hapart with hfirst | ⟨hequal, hrest⟩
        · exact apart_andThen_left (h t List.mem_cons_self p q hfirst) _ _
        · rw [capture_of_beq t hequal]
          exact apart_andThen_right _ (ih (fun u hu => h u (List.mem_cons_of_mem t hu)) hrest)

/-- Wildcards of different kinds are apart, whatever the tree. -/
theorem apart_wildcards (t : Tree) {kind kind' : Wildcard} (h : kind ≠ kind') (r s : Span) :
  (t.capture (wildcard kind r)).Apart (t.capture (wildcard kind' s))
  := by
  cases t with
  | number x _ =>
    cases kind with
    | number =>
      cases kind' with
      | number => exact absurd rfl h
      | tuple => exact Or.inr (Or.inl rfl)
    | tuple => exact Or.inl rfl
  | name n _ => exact Or.inr (Or.inr ⟨_, rfl, rfl⟩)
  | tuple items _ =>
    cases kind with
    | number => exact Or.inl rfl
    | tuple =>
      cases kind' with
      | number => exact Or.inr (Or.inl rfl)
      | tuple => exact absurd rfl h
  | call n args _ => cases kind <;> exact Or.inl rfl
  | wildcard kind _ => exact Or.inr (Or.inr ⟨_, rfl, rfl⟩)

/-- The wildcard for a number and a tuple are apart, whatever the tree. -/
theorem apart_number_tuple (t : Tree) (ps : List Tree) (r s : Span) :
  (t.capture (wildcard .number r)).Apart (t.capture (tuple ps s))
  := by
  cases t with
  | tuple items _ => exact Or.inl rfl
  | wildcard kind _ => exact Or.inr (Or.inr ⟨_, rfl, rfl⟩)
  | _ => exact Or.inr (Or.inl rfl)

/-- Templates for tuples are apart if their items are, one after the other. -/
theorem apart_tuples {t : Tree} {ps qs : List Tree}
    (ih : ∀ c ∈ t.children, ∀ p q, apart p q = true → (capture c p).Apart (capture c q))
    (h : (ps.length != qs.length || apartList ps qs) = true) (r s : Span) :
  (t.capture (tuple ps r)).Apart (t.capture (tuple qs s))
  := by
  cases t with
  | tuple items _ =>
    rw [capture, capture]
    split
    · next hps =>
      split
      · next hqs =>
        rw [← hps, hqs, bne_self_eq_false, Bool.false_or] at h
        apply apartList_captureList ih h
      · exact Or.inr (Or.inl rfl)
    · exact Or.inl rfl
  | wildcard kind _ => exact Or.inr (Or.inr ⟨_, rfl, rfl⟩)
  | _ => exact Or.inl rfl

/-- Templates for calls are apart if their functions are different ones, or if their arguments are
apart, one after the other. -/
theorem apart_calls {t : Tree} {m n : Text} {ps qs : List Tree}
    (ih : ∀ c ∈ t.children, ∀ p q, apart p q = true → (capture c p).Apart (capture c q))
    (h : (m != n || ps.length != qs.length || apartList ps qs) = true) (r s : Span) :
  (t.capture (call m ps r)).Apart (t.capture (call n qs s))
  := by
  cases t with
  | call k args _ =>
    rw [capture, capture]
    split
    · next hps =>
      split
      · next hqs =>
        simp only [Bool.and_eq_true, beq_iff_eq, decide_eq_true_eq] at hps hqs
        rw [hps.1, hqs.1, ← hps.2, hqs.2, bne_self_eq_false, bne_self_eq_false, Bool.false_or,
          Bool.false_or] at h
        apply apartList_captureList ih h
      · exact Or.inr (Or.inl rfl)
    · exact Or.inl rfl
  | wildcard kind _ => exact Or.inr (Or.inr ⟨_, rfl, rfl⟩)
  | _ => exact Or.inl rfl

/-- Templates that are seen to be apart are apart for every tree. -/
theorem apart_capture (t : Tree) {p q : Tree} (h : apart p q = true) :
  (t.capture p).Apart (t.capture q)
  := by
  induction t using induction_children generalizing p q with
  | h t ih =>
    have hchildren : ∀ c ∈ t.children, ∀ p q, apart p q = true →
      (capture c p).Apart (capture c q) := fun c hc p q => ih c hc
    unfold apart at h
    split at h
    · exact apart_wildcards t (bne_iff_ne.mp h) _ _
    · exact apart_number_tuple t _ _ _
    · exact (apart_number_tuple t _ _ _).symm
    · exact apart_tuples hchildren h _ _
    · exact apart_calls hchildren h _ _
    · cases h

end Tree

namespace Table

variable {ρ : Type}

/-- Any two templates of the table are seen to be apart. -/
def Unambiguous (table : Table ρ) : Prop :=
  table.patterns.Pairwise fun p q => p.template.apart q.template = true

/-- The order of the patterns of an unambiguous table does not matter. -/
theorem Unambiguous.find_perm {table other : Table ρ} (h : table.Unambiguous)
    (hperm : other.patterns.Perm table.patterns) (t : Tree) :
  (other.find t).map (Option.map Hit.found) = (table.find t).map (Option.map Hit.found)
  := by
  rw [map_found_find, map_found_find]
  symm
  apply firstMatch_perm hperm.symm
  apply List.Pairwise.imp _ h
  intro p q hpq
  apply t.apart_capture hpq

end Table

namespace Registry

/-- Whatever a tree is looked up in the tables of the functions that are always there, it does not
matter in which order their patterns are tried: the same pattern is found with the same captures,
or none is found, or the tree must not be matched for the same reason and because of the same
span. -/
theorem builtin_find_in_any_order {reductions : Table Tree} {drawings : Table Figure}
    (hreductions : reductions.patterns.Perm Registry.builtin.reductions.patterns)
    (hdrawings : drawings.patterns.Perm Registry.builtin.drawings.patterns) (t : Tree) :
  (reductions.find t).map (Option.map Hit.found)
      = (Registry.builtin.reductions.find t).map (Option.map Hit.found)
    ∧ (drawings.find t).map (Option.map Hit.found)
      = (Registry.builtin.drawings.find t).map (Option.map Hit.found)
  := by
  have hunambiguous : Registry.builtin.reductions.Unambiguous
      ∧ Registry.builtin.drawings.Unambiguous := by
    unfold Table.Unambiguous
    decide +kernel
  constructor
  · exact hunambiguous.1.find_perm hreductions t
  · exact hunambiguous.2.find_perm hdrawings t

/-- From last to first, the point in space is found before the point of the plane is tried. -/
theorem builtin_find_in_reverse_order :
  let reductions : Table Tree := ⟨Registry.builtin.reductions.patterns.reverse, []⟩
  let drawings : Table Figure := ⟨Registry.builtin.drawings.patterns.reverse, []⟩
  let s := Span.nowhere
  let t := Tree.call (utf8 "point") [.tuple [.number 1 s, .number 2 s, .number 3 s] s] s
  reductions.patterns.Perm Registry.builtin.reductions.patterns
    ∧ drawings.patterns.Perm Registry.builtin.drawings.patterns
    ∧ (reductions.find t).map (Option.map Hit.found)
      = (Registry.builtin.reductions.find t).map (Option.map Hit.found)
    ∧ (drawings.find t).map (Option.map Hit.found)
      = (Registry.builtin.drawings.find t).map (Option.map Hit.found)
  := by
  intro reductions drawings s t
  have hreductions : reductions.patterns.Perm Registry.builtin.reductions.patterns :=
    List.reverse_perm _
  have hdrawings : drawings.patterns.Perm Registry.builtin.drawings.patterns :=
    List.reverse_perm _
  exact ⟨hreductions, hdrawings, builtin_find_in_any_order hreductions hdrawings t⟩

end Registry

end Sketch
