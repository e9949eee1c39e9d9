import Sketch.Proofs.Instances

/-!
# The first conflict decides a match

A tree and a template are walked together from left to right, each pair of subtrees before the
pairs below it (`Tree.walk`).  The walk goes on below a pair only if both are tuples of the same
length, or calls of the same function with the same number of arguments.

Some pairs agree and all others are conflicts (`Tree.agrees`).  The tree matches the template if
there is no conflict on the walk, and otherwise the first conflict alone decides whether this is
an error, and which one (`Tree.capture_decided_by_first_conflict`).
-/

namespace Sketch

namespace Tree

/-! ### Walking through a tree and a template -/

/-- Whether the members of two trees can be compared one by one: both are tuples of the same length,
or calls of the same function with the same number of arguments. -/
def opens : (tree template : Tree) → Bool
  | tuple ts _, tuple us _ => ts.length == us.length
  | call m ts _, call n us _ => m == n && ts.length == us.length
  | _, _ => false

/-- Whether a leaf of a template stands for a tree: they are equal numbers or equal names, or the
leaf is a wildcard and the tree is what it stands for. -/
def fits : (tree template : Tree) → Bool
  | number x _, number y _ => x == y
  | name m _, name n _ => m == n
  | number _ _, wildcard .number _ => true
  | tuple items _, wildcard .tuple _ => items.all fun t => t.number?.isSome
  | _, _ => false

/-- Whether a tree and a template agree at their roots. -/
def agrees (tree template : Tree) : Bool := tree.opens template || tree.fits template

mutual

/-- The pairs of subtrees that are met when a tree and a template are walked together. -/
def walk : (tree template : Tree) → List (Tree × Tree)
  | tuple items s, u =>
    (tuple items s, u) :: if (tuple items s).opens u then walkList items u.children else []
  | call n args s, u =>
    (call n args s, u) :: if (call n args s).opens u then walkList args u.children else []
  | leaf, u => [(leaf, u)]

/-- The pairs of subtrees that are met when trees and templates are walked together, one after the
other. -/
def walkList : (trees templates : List Tree) → List (Tree × Tree)
  | t :: ts, u :: us => walk t u ++ walkList ts us
  | _, _ => []

end

/-- Whether a tree and a template do not agree at their roots. -/
def isConflict (pair : Tree × Tree) : Bool := !pair.1.agrees pair.2

/-- The name that a tree consists of, if it is not called. -/
def name? : Tree → Option Text
  | name n _ => some n
  | _ => none

end Tree

/-! ### Matches that are decided by a conflict -/

namespace Matched

/-- What becomes of a match because of a conflict. -/
def ofConflict : Tree × Tree → Matched
  | (.wildcard kind s, _) => .error (.wildcardInTree kind s)
  | (.name n s, .wildcard _ _) => .error (.nameForWildcard n s)
  | _ => .ok none

/-- A match succeeds if there is no conflict, and if there is one, the match is decided by it. -/
def DecidedBy (matched : Matched) : Option (Tree × Tree) → Prop
  | none => ∃ captures, matched = .ok (some captures)
  | some conflict => matched = ofConflict conflict

/-- At a conflict there is no match, or there is an error. -/
theorem ofConflict_cases (conflict : Tree × Tree) :
  ofConflict conflict = .ok none ∨ ∃ e, ofConflict conflict = .error e
  := by
  rw [ofConflict.eq_def]
  split
  · right
    exact ⟨_, rfl⟩
  · right
    exact ⟨_, rfl⟩
  · left
    rfl

/-- Of two matches one after the other, the first one with a conflict decides. -/
theorem DecidedBy.andThen {first second : Matched} {conflict conflict' : Option (Tree × Tree)}
    (hfirst : first.DecidedBy conflict) (hsecond : second.DecidedBy conflict') :
  (first.andThen second).DecidedBy (conflict.or conflict')
  := by
  cases conflict with
  | some pair =>
    obtain rfl : first = ofConflict pair := hfirst
    change Matched.andThen _ _ = ofConflict pair
    rcases ofConflict_cases pair with h | ⟨e, h⟩
    · rw [h]
      rfl
    · rw [h]
      rfl
  | none =>
    obtain ⟨cs, rfl⟩ := hfirst
    cases conflict' with
    | some pair =>
      obtain rfl : second = ofConflict pair := hsecond
      change Matched.andThen _ _ = ofConflict pair
      rcases ofConflict_cases pair with h | ⟨e, h⟩
      · rw [h]
        rfl
      · rw [h]
        rfl
    | none =>
      obtain ⟨ds, rfl⟩ := hsecond
      exact ⟨cs ++ ds, rfl⟩

end Matched

namespace Tree

open Matched

/-- Where the members of two trees can be compared, the walk goes on to them. -/
theorem walk_of_opens {t u : Tree} (h : t.opens u = true) :
  t.walk u = (t, u) :: walkList t.children u.children
  := by
  cases t with
  | tuple items s => rw [walk, if_pos h, children]
  | call n args s => rw [walk, if_pos h, children]
  | _ => cases h

/-- Where the members of two trees cannot be compared, the walk ends. -/
theorem walk_of_not_opens {t u : Tree} (h : t.opens u = false) :
  t.walk u = [(t, u)]
  := by
  cases t with
  | tuple items s => rw [walk, h, if_neg Bool.false_ne_true]
  | call n args s => rw [walk, h, if_neg Bool.false_ne_true]
  | _ => rfl

theorem length_children_of_opens {t u : Tree} (h : t.opens u = true) :
  t.children.length = u.children.length
  := by
  cases t with
  | tuple ts r =>
    cases u with
    | tuple us s => exact beq_iff_eq.mp h
    | _ => cases h
  | call m ts r =>
    cases u with
    | call n us s => exact beq_iff_eq.mp (Bool.and_eq_true_iff.mp h).2
    | _ => cases h
  | _ => cases h

/-- Where the members of a tree and a template can be compared, these decide the match. -/
theorem capture_of_opens {t u : Tree} (h : t.opens u = true) :
  t.capture u = captureList t.children u.children
  := by
  have hlength := length_children_of_opens h
  cases t with
  | tuple ts r =>
    cases u with
    | tuple us s => exact if_pos hlength
    | _ => cases h
  | call m ts r =>
    cases u with
    | call n us s =>
      have hname : (n == m) = true := by
        rw [BEq.comm]
        exact (Bool.and_eq_true_iff.mp h).1
      exact if_pos (Bool.and_eq_true_iff.mpr ⟨hname, decide_eq_true hlength⟩)
    | _ => cases h
  | _ => cases h

/-- The first conflict of trees that are compared member by member is one of their members. -/
theorem find?_walk_of_opens {t u : Tree} (h : t.opens u = true) :
  (t.walk u).find? isConflict = (walkList t.children u.children).find? isConflict
  := by
  have hagrees : isConflict (t, u) = false := by
    rw [isConflict, agrees, h]
    rfl
  rw [walk_of_opens h, List.find?_cons_of_neg]
  rw [hagrees]
  exact Bool.false_ne_true

/-- Whether all items are numbers is whether their numbers can be taken. -/
theorem all_number? (items : List Tree) :
  (items.all fun t => t.number?.isSome) = (numbers? items).isSome
  := by
  rw [isSome_numbers?, List.all_map]
  congr 1
  funext t
  cases t <;> rfl

/-- A tree and a template whose members are not compared match if they agree. -/
theorem decidedBy_capture_of_not_opens {t u : Tree} (h : t.opens u = false) :
  (t.capture u).DecidedBy ((t.walk u).find? isConflict)
  := by
  have hfind : (t.walk u).find? isConflict = if t.fits u then none else some (t, u) := by
    rw [walk_of_not_opens h, List.find?_singleton, isConflict, agrees, h, Bool.false_or]
    cases t.fits u with
    | true => rfl
    | false => rfl
  rw [hfind]
  cases t with
  | number x s =>
    cases u with
    | number y r =>
      rw [capture, fits, BEq.comm]
      cases x == y with
      | true => exact ⟨[], rfl⟩
      | false => rfl
    | wildcard kind r =>
      cases kind with
      | number => exact ⟨[.number x], rfl⟩
      | tuple => rfl
    | _ => rfl
  | name n s =>
    cases u with
    | name m r =>
      rw [capture, fits, BEq.comm]
      cases n == m with
      | true => exact ⟨[], rfl⟩
      | false => rfl
    | _ => rfl
  | tuple items s =>
    cases u with
    | tuple us r =>
      rw [opens, beq_eq_false_iff_ne] at h
      rw [capture, if_neg h]
      rfl
    | wildcard kind r =>
      cases kind with
      | number => rfl
      | tuple =>
        rw [capture, fits, all_number?]
        cases numbers? items with
        | none => rfl
        | some xs => exact ⟨[.tuple xs], rfl⟩
    | _ => rfl
  | call n args s =>
    cases u with
    | call m us r =>
      have hopens : (m == n && decide (args.length = us.length)) = false := by
        rw [BEq.comm]
        exact h
      rw [capture, hopens]
      rfl
    | wildcard kind r => cases kind <;> rfl
    | _ => rfl
  | wildcard kind s => cases u <;> rfl

/-- If matches of trees are decided by the first conflict, then so are those of lists of the same
length. -/
theorem decidedBy_captureList {ts us : List Tree}
    (h : ∀ t ∈ ts, ∀ u, (t.capture u).DecidedBy ((t.walk u).find? isConflict))
    (hlength : ts.length = us.length) :
  (captureList ts us).DecidedBy ((walkList ts us).find? isConflict)
  := by
  induction ts generalizing us with
  | nil =>
    obtain rfl := List.length_eq_zero_iff.mp hlength.symm
    exact ⟨[], rfl⟩
  | cons t ts ih =>
    cases us with
    | nil => cases hlength
    | cons u us =>
      rw [captureList, walkList, List.find?_append]
      apply (h t List.mem_cons_self u).andThen
      apply ih (fun v hv => h v (List.mem_cons_of_mem t hv)) (Nat.succ.inj hlength)

/-- If the matches of all members are decided by their first conflicts, then so is the match of the
whole tree. -/
theorem decidedBy_capture_of_children (t : Tree)
    (h : ∀ c ∈ t.children, ∀ u, (c.capture u).DecidedBy ((c.walk u).find? isConflict)) (u : Tree) :
  (t.capture u).DecidedBy ((t.walk u).find? isConflict)
  := by
  cases hopens : t.opens u with
  | false => apply decidedBy_capture_of_not_opens hopens
  | true =>
    rw [capture_of_opens hopens, find?_walk_of_opens hopens]
    apply decidedBy_captureList h (length_children_of_opens hopens)

/-- A match is decided by the first conflict on the walk. -/
theorem decidedBy_capture (t u : Tree) :
  (t.capture u).DecidedBy ((t.walk u).find? isConflict)
  := by
  induction t using Tree.induction generalizing u with
  | tuple items s ih => apply decidedBy_capture_of_children (tuple items s) ih
  | call n args s ih => apply decidedBy_capture_of_children (call n args s) ih
  | _ => apply decidedBy_capture_of_not_opens rfl

/-- A tree matches a template exactly if they agree at every pair on the walk.  Otherwise the first
conflict on the walk decides, whatever comes after it.  It is an error if the tree has a wildcard
there, or a name where the template has a wildcard; in all other cases the tree does not match. -/
theorem capture_decided_by_first_conflict (t u : Tree) :
  ((∃ captures, t.capture u = .ok (some captures)) ↔ ∀ p ∈ t.walk u, p.1.agrees p.2 = true)
    ∧ ∀ before i v after, t.walk u = before ++ (i, v) :: after →
      (∀ p ∈ before, p.1.agrees p.2 = true) → i.agrees v = false →
        (∀ kind, t.capture u = .error (.wildcardInTree kind i.span) ↔ i.wildcard? = some kind)
        ∧ (∀ n, t.capture u = .error (.nameForWildcard n i.span)
          ↔ i.name? = some n ∧ v.wildcard?.isSome = true)
        ∧ (t.capture u = .ok none
          ↔ i.wildcard? = none ∧ (i.name? = none ∨ v.wildcard? = none))
  := by
  have hdecided := decidedBy_capture t u
  constructor
  · have hnone : (t.walk u).find? isConflict = none
        ↔ ∀ p ∈ t.walk u, p.1.agrees p.2 = true := by
      simp [isConflict]
    rw [← hnone]
    cases hconflict : (t.walk u).find? isConflict with
    | none =>
      rw [hconflict] at hdecided
      exact iff_of_true hdecided rfl
    | some pair =>
      rw [hconflict] at hdecided
      have hcapture : t.capture u = ofConflict pair := hdecided
      rw [hcapture]
      apply iff_of_false _ nofun
      rintro ⟨captures, hcaptures⟩
      rcases ofConflict_cases pair with h | ⟨e, h⟩
      · rw [h] at hcaptures
        cases hcaptures
      · rw [h] at hcaptures
        cases hcaptures
  · intro before i v after hwalk hbefore hconflict
    have hfirst : (t.walk u).find? isConflict = some (i, v) := by
      rw [List.find?_eq_some_iff_append]
      refine ⟨?_, before, after, hwalk, ?_⟩
      · rw [isConflict, hconflict]
        rfl
      · intro p hp
        rw [isConflict, hbefore p hp]
        rfl
    rw [hfirst] at hdecided
    have hcapture : t.capture u = ofConflict (i, v) := hdecided
    rw [hcapture]
    cases i with
    | wildcard kind s => simp [ofConflict, span, wildcard?, name?]
    | name n s => cases v <;> simp [ofConflict, span, wildcard?, name?]
    | _ => simp [ofConflict, wildcard?, name?]

/-- The name in the second item is met before the wildcard in the third one. -/
theorem capture_decided_by_first_conflict_name :
  let s := Span.nowhere
  let items := tuple [number 1 s, name (utf8 "x") ⟨5, 6⟩, wildcard .number s] s
  let templates := tuple [wildcard .number s, wildcard .tuple s, number 2 s] s
  (call (utf8 "f") [items] s).capture (call (utf8 "f") [templates] s)
    = .error (.nameForWildcard (utf8 "x") ⟨5, 6⟩)
  := by
  intro s items templates
  have hdecided := (capture_decided_by_first_conflict
      (call (utf8 "f") [items] s) (call (utf8 "f") [templates] s)).2
    [(call (utf8 "f") [items] s, call (utf8 "f") [templates] s), (items, templates),
      (number 1 s, wildcard .number s)]
    (name (utf8 "x") ⟨5, 6⟩) (wildcard .tuple s) [(wildcard .number s, number 2 s)] rfl
    (by decide) rfl
  exact (hdecided.2.1 (utf8 "x")).mpr ⟨rfl, rfl⟩

end Tree

end Sketch
