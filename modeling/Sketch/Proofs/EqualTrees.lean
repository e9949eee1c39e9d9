import Sketch.Proofs.EqualTemplates
import Sketch.Proofs.Forms

/-!
# Matching respects equality

Equality `==` of trees is symmetric and transitive.  It is not reflexive: a tree is equal to itself
exactly if all its numbers are (`Tree.beq_self_iff`).  Equal trees may differ in their spans and in
the signs of zeros, and a match cannot tell them apart but for that.  Equal templates match alike
(`Tree.capture_of_beq`).  Equal trees match a template with captures that are equal one by one, or
both do not match it, or both fail with an error of the same kind and the same message
(`Tree.equivalent_capture`).
-/

namespace Sketch

namespace Tree

/-! ### Equality of trees -/

/-- If equal trees are equal to the same trees, then so are lists of them. -/
theorem sameList_congr {ts us : List Tree}
    (h : ∀ t ∈ ts, ∀ u v, (t == u) = true → (t == v) = (u == v))
    (hsame : sameList ts us = true) (vs : List Tree) :
  sameList ts vs = sameList us vs
  := by
  rw [sameList_iff] at hsame
  induction hsame generalizing vs with
  | nil => rfl
  | @cons t u ts us htu _ ih =>
    cases vs with
    | nil => rfl
    | cons v vs =>
      have hfirst : same t v = same u v := h t List.mem_cons_self u v htu
      have hrest := ih (fun w hw => h w (List.mem_cons_of_mem t hw)) vs
      rw [sameList, sameList, hfirst, hrest]

/-- Equal trees are equal to the same trees. -/
theorem beq_congr {t u : Tree} (h : (t == u) = true) (v : Tree) :
  (t == v) = (u == v)
  := by
  induction t using Tree.induction generalizing u v with
  | number x r =>
    cases u with
    | number y s =>
      rw [number_beq] at h
      cases v with
      | number z _ => rw [number_beq, number_beq, BEq.congr_left h]
      | _ => rfl
    | _ => cases h
  | name m r =>
    cases u with
    | name n s =>
      rw [name_beq] at h
      obtain rfl := eq_of_beq h
      cases v <;> rfl
    | _ => cases h
  | tuple ts r ih =>
    cases u with
    | tuple us s =>
      cases v with
      | tuple vs _ => exact sameList_congr (fun t ht u v hu => ih t ht hu v) h vs
      | _ => rfl
    | _ => cases h
  | call m ts r ih =>
    cases u with
    | call n us s =>
      rw [call_beq, Bool.and_eq_true] at h
      obtain ⟨hname, hargs⟩ := h
      obtain rfl := eq_of_beq hname
      cases v with
      | call _ vs _ =>
        rw [call_beq, call_beq, sameList_congr (fun t ht u v hu => ih t ht hu v) hargs]
      | _ => rfl
    | _ => cases h
  | wildcard kind r =>
    cases u with
    | wildcard kind' s =>
      rw [wildcard_beq] at h
      obtain rfl := eq_of_beq h
      cases v <;> rfl
    | _ => cases h

instance : PartialEquivBEq Tree where
  symm {t u} h := by
    rw [beq_comm]
    apply h
  trans {t u v} htu huv := by
    rw [beq_congr htu]
    apply huv

/-- A list of trees is equal to itself if each of its members is. -/
theorem sameList_self_iff (ts : List Tree) :
  sameList ts ts = true ↔ ∀ t ∈ ts, (t == t) = true
  := by
  rw [sameList_iff, List.forall₂_same]

/-- A tree is equal to itself exactly if all its numbers are. -/
theorem beq_self_iff (t : Tree) :
  (t == t) = true ↔ t.NaNFree
  := by
  induction t using Tree.induction with
  | number x s =>
    rw [number_beq, Number.beq_self_iff]
    simp [NaNFree, nodes, isNaN]
  | name n s => simp [name_beq, NaNFree, nodes, isNaN]
  | tuple items s ih =>
    rw [tuple_beq, sameList_self_iff, NaNFree, forall_nodes]
    simp only [isNaN, children, true_and]
    exact forall₂_congr ih
  | call n args s ih =>
    rw [call_beq, beq_self_eq_true, Bool.true_and, sameList_self_iff, NaNFree, forall_nodes]
    simp only [isNaN, children, true_and]
    exact forall₂_congr ih
  | wildcard kind s => simp [wildcard_beq, NaNFree, nodes, isNaN]

end Tree

/-! ### Matches that come out alike -/

/-- The kinds of errors of matching. -/
inductive MatchErrorKind where
  /-- The tree has a wildcard. -/
  | wildcardInTree
  /-- A name stands in the place of a wildcard. -/
  | nameForWildcard

/-- The kind of an error. -/
def MatchError.kind : MatchError → MatchErrorKind
  | wildcardInTree _ _ => .wildcardInTree
  | nameForWildcard _ _ => .nameForWildcard

namespace Matched

/-- Two matches come out alike: both succeed, with captures that are equal one by one, or both do
not succeed, or both fail with an error of the same kind and the same message. -/
inductive Equivalent : Matched → Matched → Prop
  /-- Both succeed. -/
  | captured {cs ds : Captures} (h : List.Forall₂ (fun c d => (c == d) = true) cs ds) :
    Equivalent (.ok (some cs)) (.ok (some ds))
  /-- Both do not succeed. -/
  | unmatched : Equivalent (.ok none) (.ok none)
  /-- Both fail. -/
  | failed {e e' : MatchError} (hkind : e.kind = e'.kind) (hmessage : e.message = e'.message) :
    Equivalent (.error e) (.error e')

/-- Matches in sequence are equivalent if they are so step by step. -/
theorem Equivalent.andThen {first first' second second' : Matched}
    (hfirst : Equivalent first first') (hsecond : Equivalent second second') :
  Equivalent (first.andThen second) (first'.andThen second')
  := by
  cases hfirst with
  | captured hcaptures =>
    cases hsecond with
    | captured hcaptures' => exact .captured (List.rel_append hcaptures hcaptures')
    | unmatched => exact .unmatched
    | failed hkind hmessage => exact .failed hkind hmessage
  | unmatched => exact .unmatched
  | failed hkind hmessage => exact .failed hkind hmessage

/-- Two leaves that are compared with equal results. -/
theorem equivalent_ite {b b' : Bool} (h : b = b') :
  Equivalent (.ok (if b then some [] else none)) (.ok (if b' then some [] else none))
  := by
  cases h
  cases b with
  | true => exact .captured .nil
  | false => exact .unmatched

end Matched

/-! ### Equal trees -/

namespace Tree

open Matched

/-- The numbers of equal trees are equal, if there are any. -/
theorem rel_numbers? {ts us : List Tree} (h : sameList ts us = true) :
  Option.Rel (fun xs ys => (xs == ys) = true) (numbers? ts) (numbers? us)
  := by
  rw [sameList_iff] at h
  induction h with
  | nil => exact .some rfl
  | @cons t u ts us htu _ ih =>
    rw [numbers?_cons, numbers?_cons]
    cases t with
    | number x r =>
      cases u with
      | number y s =>
        change Option.Rel _ ((numbers? ts).map fun xs => x :: xs)
          ((numbers? us).map fun ys => y :: ys)
        generalize numbers? ts = xs, numbers? us = ys at ih ⊢
        cases ih with
        | none => exact .none
        | some hrest =>
          apply Option.Rel.some
          rw [List.cons_beq_cons, hrest, Bool.and_true]
          exact htu
      | _ => cases htu
    | _ =>
      cases u with
      | number y s => cases htu
      | _ => exact .none

/-- If equal trees match alike, then so do equal lists of them. -/
theorem equivalent_captureList {ts us : List Tree}
    (h : ∀ t ∈ ts, ∀ u v, (t == u) = true → Equivalent (t.capture v) (u.capture v))
    (hsame : sameList ts us = true) (vs : List Tree) :
  Equivalent (captureList ts vs) (captureList us vs)
  := by
  rw [sameList_iff] at hsame
  induction hsame generalizing vs with
  | nil =>
    cases vs with
    | nil => exact .captured .nil
    | cons v vs => exact .unmatched
  | @cons t u ts us htu _ ih =>
    cases vs with
    | nil => exact .unmatched
    | cons v vs =>
      rw [captureList, captureList]
      apply Equivalent.andThen
      · apply h t List.mem_cons_self u v htu
      · apply ih fun w hw => h w (List.mem_cons_of_mem t hw)

/-- Equal trees match a template alike. -/
theorem equivalent_capture {t u : Tree} (h : (t == u) = true) (v : Tree) :
  Equivalent (t.capture v) (u.capture v)
  := by
  induction t using Tree.induction generalizing u v with
  | number x r =>
    cases u with
    | number y s =>
      rw [number_beq] at h
      cases v with
      | number z _ => exact equivalent_ite (BEq.congr_right h)
      | wildcard kind _ =>
        cases kind with
        | number => exact .captured (.cons h .nil)
        | tuple => exact .unmatched
      | _ => exact .unmatched
    | _ => cases h
  | name m r =>
    cases u with
    | name n s =>
      rw [name_beq] at h
      obtain rfl := eq_of_beq h
      cases v with
      | name _ _ => exact equivalent_ite rfl
      | wildcard _ _ => exact .failed rfl rfl
      | _ => exact .unmatched
    | _ => cases h
  | tuple ts r ih =>
    cases u with
    | tuple us s =>
      rw [tuple_beq] at h
      cases v with
      | tuple vs _ =>
        have hlength : ts.length = us.length := ((sameList_iff ts us).mp h).length_eq
        rw [capture, capture, hlength]
        split
        · exact equivalent_captureList (fun t ht u v hu => ih t ht hu v) h vs
        · exact .unmatched
      | wildcard kind _ =>
        cases kind with
        | number => exact .unmatched
        | tuple =>
          have hrel := rel_numbers? h
          rw [capture, capture]
          generalize numbers? ts = xs, numbers? us = ys at hrel ⊢
          cases hrel with
          | none => exact .unmatched
          | some hnumbers => exact .captured (.cons hnumbers .nil)
      | _ => exact .unmatched
    | _ => cases h
  | call m ts r ih =>
    cases u with
    | call n us s =>
      rw [call_beq, Bool.and_eq_true] at h
      obtain ⟨hname, hargs⟩ := h
      obtain rfl := eq_of_beq hname
      cases v with
      | call _ vs _ =>
        have hlength : ts.length = us.length := ((sameList_iff ts us).mp hargs).length_eq
        rw [capture, capture, hlength]
        split
        · exact equivalent_captureList (fun t ht u v hu => ih t ht hu v) hargs vs
        · exact .unmatched
      | wildcard kind _ => cases kind <;> exact .unmatched
      | _ => exact .unmatched
    | _ => cases h
  | wildcard kind r =>
    cases u with
    | wildcard kind' s =>
      rw [wildcard_beq] at h
      obtain rfl := eq_of_beq h
      cases v <;> exact .failed rfl rfl
    | _ => cases h

/-- Equality of trees is symmetric and transitive, and reflexive exactly on trees without NaN.
Matching respects it: equal templates are matched with the same outcome, and equal trees match a
template with captures that are equal one by one, or both do not match it, or both fail with an
error of the same kind and the same message. -/
theorem matching_respects_equality :
  (∀ t u : Tree, (t == u) = true → (u == t) = true)
    ∧ (∀ t u v : Tree, (t == u) = true → (u == v) = true → (t == v) = true)
    ∧ (∀ t : Tree, (t == t) = true ↔ t.NaNFree)
    ∧ (∀ t u v : Tree, (u == v) = true → t.capture u = t.capture v)
    ∧ ∀ t u v : Tree, (t == u) = true → Equivalent (t.capture v) (u.capture v)
  := by
  refine ⟨?_, ?_, beq_self_iff, ?_, ?_⟩
  · intro t u h
    apply BEq.symm h
  · intro t u v htu huv
    apply BEq.trans htu huv
  · intro t u v h
    apply t.capture_of_beq h
  · intro t u v h
    apply equivalent_capture h

/-- The trees of `f(0, -0)` and of `f(-0, 0)` are equal, and a match cannot tell them apart. -/
theorem matching_respects_equality_zeros :
  let t := call (utf8 "f") [number 0 ⟨2, 3⟩, number (-0) ⟨5, 7⟩] ⟨0, 8⟩
  let u := call (utf8 "f") [number (-0) ⟨2, 4⟩, number 0 ⟨6, 7⟩] ⟨0, 8⟩
  let v := call (utf8 "f") [wildcard .number .nowhere, wildcard .number .nowhere] .nowhere
  (t == u) = true ∧ (u == t) = true ∧ (t == t) = true
    ∧ t.capture v = .ok (some [.number 0, .number (-0)])
    ∧ u.capture v = .ok (some [.number (-0), .number 0])
    ∧ Equivalent (t.capture v) (u.capture v)
    ∧ t.capture t = .ok (some []) ∧ t.capture t = t.capture u
  := by
  intro t u v
  obtain ⟨hsymm, htrans, -, htemplate, htree⟩ := matching_respects_equality
  have h : (t == u) = true := by decide +kernel
  have h' := hsymm t u h
  exact ⟨h, h', htrans t u t h h', rfl, rfl, htree t u v h, rfl, htemplate t t u h⟩

end Tree

end Sketch
