import Sketch.Proofs.Trees
import Sketch.Template.Match

/-!
# Equal templates match alike

Templates that are equal, written `==`, match the same trees, capture the same, and fail by the
same errors (`Tree.capture_of_beq`).  They may still differ in their spans, and in the signs of
zeros.
-/

namespace Sketch

namespace Tree

/-- Wildcards are equal if they are of the same kind. -/
theorem wildcard_beq (kind kind' : Wildcard) (r s : Span) :
  (wildcard kind r == wildcard kind' s) = (kind == kind')
  := rfl

/-- If equal templates match alike, then so do equal lists of them. -/
theorem captureList_of_sameList {us vs : List Tree}
    (h : ∀ u ∈ us, ∀ t v, (u == v) = true → capture t u = capture t v)
    (hsame : sameList us vs = true) (ts : List Tree) :
  captureList ts us = captureList ts vs
  := by
  rw [sameList_iff] at hsame
  induction hsame generalizing ts with
  | nil => rfl
  | @cons u v us vs huv _ ih =>
    cases ts with
    | nil => rfl
    | cons t ts =>
      rw [captureList, captureList, h u List.mem_cons_self t v huv,
        ih fun w hw => h w (List.mem_cons_of_mem u hw)]

/-- Equal templates match alike. -/
theorem capture_of_beq (t : Tree) {u v : Tree} (h : (u == v) = true) :
  t.capture u = t.capture v
  := by
  induction u using Tree.induction generalizing t v with
  | number y r =>
    cases v with
    | number z s =>
      rw [number_beq] at h
      cases t with
      | number x _ => rw [capture, capture, BEq.congr_left h]
      | _ => rfl
    | _ => cases h
  | name m r =>
    cases v with
    | name n s =>
      rw [name_beq] at h
      obtain rfl := eq_of_beq h
      cases t <;> rfl
    | _ => cases h
  | tuple us r ih =>
    cases v with
    | tuple vs s =>
      rw [tuple_beq] at h
      cases t with
      | tuple ts _ =>
        have hlength : us.length = vs.length := ((sameList_iff us vs).mp h).length_eq
        rw [capture, capture, captureList_of_sameList (fun u hu t v => ih u hu t) h, hlength]
      | _ => rfl
    | _ => cases h
  | call m us r ih =>
    cases v with
    | call n vs s =>
      rw [call_beq, Bool.and_eq_true] at h
      obtain ⟨hname, hargs⟩ := h
      obtain rfl := eq_of_beq hname
      cases t with
      | call _ ts _ =>
        have hlength : us.length = vs.length := ((sameList_iff us vs).mp hargs).length_eq
        rw [capture, capture, captureList_of_sameList (fun u hu t v => ih u hu t) hargs, hlength]
      | _ => rfl
    | _ => cases h
  | wildcard kind r =>
    cases v with
    | wildcard kind' s =>
      rw [wildcard_beq] at h
      obtain rfl := eq_of_beq h
      cases t <;> cases kind <;> rfl
    | _ => cases h

end Tree

end Sketch
