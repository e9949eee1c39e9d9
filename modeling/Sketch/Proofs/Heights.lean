import Sketch.Proofs.CallOutcomes
import Sketch.Proofs.Conflicts
import Sketch.Proofs.Recognition
import Mathlib.Order.Bounds.Basic

/-!
# Heights of trees

The height of a tree is the number of nodes on its longest branch, that is, on a path from its
root down to a leaf (`Tree.isGreatest_height`).

A pair of brackets adds at most two levels to the tree of a command: a call, and the tuple that
is its argument.  The items of a tuple are no tuples themselves unless they stand in brackets.
Therefore the height of a tree is bounded by the nesting of its command
(`Tree.height_of_command`), and the limit on nesting is a limit on heights.

Reduction does not make a tree higher.  A call that is replaced matches a template, so it is at
least as high as the template (`Tree.height_le_of_capture`), and no function computes anything
that is higher than that.
-/

namespace Sketch

namespace Tree

open Grammar Text

/-! ### Heights and branches -/

mutual

/-- The number of nodes on the longest branch of a tree. -/
def height : Tree → Nat
  | tuple items _ => heightList items + 1
  | call _ args _ => heightList args + 1
  | _ => 1

/-- The height of the highest one of the trees, and zero if there are none. -/
def heightList : List Tree → Nat
  | [] => 0
  | t :: ts => max (height t) (heightList ts)

end

/-- A path from the root of a tree down to a leaf. -/
inductive Branch : Tree → List Tree → Prop
  | leaf {t : Tree} : t.children = [] → Branch t [t]
  | through {t c : Tree} {path : List Tree} :
    c ∈ t.children → Branch c path → Branch t (t :: path)

/-- A tree is one higher than the highest of its children. -/
theorem height_eq (t : Tree) :
  t.height = heightList t.children + 1
  := by
  cases t <;> rfl

theorem heightList_le_iff {ts : List Tree} {n : Nat} :
  heightList ts ≤ n ↔ ∀ t ∈ ts, t.height ≤ n
  := by
  induction ts with
  | nil => exact iff_of_true (Nat.zero_le n) (List.forall_mem_nil _)
  | cons t ts ih => rw [heightList, Nat.max_le, ih, List.forall_mem_cons]

theorem height_le_succ_iff {t : Tree} {n : Nat} :
  t.height ≤ n + 1 ↔ ∀ c ∈ t.children, c.height ≤ n
  := by
  rw [height_eq, Nat.add_le_add_iff_right, heightList_le_iff]

theorem exists_height_eq_heightList {ts : List Tree} (h : ts ≠ []) :
  ∃ t ∈ ts, t.height = heightList ts
  := by
  induction ts with
  | nil => exact absurd rfl h
  | cons t ts ih =>
    rw [heightList]
    rcases Nat.le_total (heightList ts) t.height with hle | hle
    · exact ⟨t, List.mem_cons_self, (Nat.max_eq_left hle).symm⟩
    · rw [Nat.max_eq_right hle]
      cases ts with
      | nil => exact ⟨t, List.mem_cons_self, Nat.le_antisymm hle (Nat.zero_le _)⟩
      | cons u us =>
        obtain ⟨v, hv, hheight⟩ := ih (List.cons_ne_nil u us)
        exact ⟨v, List.mem_cons_of_mem t hv, hheight⟩

/-- No branch of a tree is longer than the tree is high. -/
theorem Branch.length_le {t : Tree} {path : List Tree} (h : t.Branch path) :
  path.length ≤ t.height
  := by
  induction h with
  | leaf _ =>
    rw [height_eq, List.length_singleton]
    apply Nat.le_add_left
  | @through t c path hc _ ih =>
    have hchild : c.height ≤ heightList t.children := heightList_le_iff.mp (Nat.le_refl _) c hc
    rw [height_eq, List.length_cons]
    apply Nat.succ_le_succ (ih.trans hchild)

/-- There is a branch as long as the tree is high. -/
theorem exists_branch (t : Tree) :
  ∃ path, t.Branch path ∧ path.length = t.height
  := by
  induction t using induction_children with
  | h t ih =>
    rw [height_eq]
    by_cases hleaf : t.children = []
    · rw [hleaf]
      exact ⟨[t], Branch.leaf hleaf, rfl⟩
    · obtain ⟨c, hc, hheight⟩ := exists_height_eq_heightList hleaf
      obtain ⟨path, hpath, hlength⟩ := ih c hc
      use t :: path, Branch.through hc hpath
      rw [List.length_cons, hlength, hheight]

/-- The height of a tree is the length of its longest branch. -/
theorem isGreatest_height (t : Tree) :
  IsGreatest {n | ∃ path, t.Branch path ∧ path.length = n} t.height
  := by
  constructor
  · exact exists_branch t
  · rintro n ⟨path, hpath, rfl⟩
    exact hpath.length_le

/-- Trees that are no higher one by one are no higher together. -/
theorem heightList_mono {ts us : List Tree}
    (h : List.Forall₂ (fun t u => t.height ≤ u.height) ts us) :
  heightList ts ≤ heightList us
  := by
  induction h with
  | nil => apply Nat.le_refl
  | cons htu _ ih =>
    rw [heightList, heightList, Nat.max_le]
    exact ⟨htu.trans (Nat.le_max_left _ _), ih.trans (Nat.le_max_right _ _)⟩

/-- Only what is below the roots of two trees counts when their heights are compared. -/
theorem height_mono {t u : Tree}
    (h : List.Forall₂ (fun c d => c.height ≤ d.height) t.children u.children) :
  t.height ≤ u.height
  := by
  rw [height_eq, height_eq]
  apply Nat.succ_le_succ (heightList_mono h)

@[simp]
theorem height_withSpan (t : Tree) (s : Span) :
  (t.withSpan s).height = t.height
  := by
  rw [height_eq, children_withSpan, ← height_eq]

@[simp]
theorem height_bare (t : Tree) :
  t.bare.height = t.height
  := by
  induction t using induction_children with
  | h t ih =>
    apply eq_of_forall_ge_iff
    intro n
    cases n with
    | zero => simp [height_eq]
    | succ n =>
      rw [height_le_succ_iff, height_le_succ_iff, children_bare, List.forall_mem_map]
      apply forall₂_congr
      intro c hc
      rw [ih c hc]

/-! ### Heights of commands -/

mutual

/-- A command is at most two levels higher than twice the nesting of its brackets. -/
theorem height_of_command :
  ∀ {s : Text} {t : Tree}, Command s t → t.height ≤ 2 * s.nesting + 2
  | _, _, .item h => (height_of_item h).trans (Nat.le_succ _)
  | _, _, .tuple h _ => height_le_succ_iff.mpr (height_of_items h)

theorem height_of_items :
  ∀ {s : Text} {ts : List Tree}, Items s ts → ∀ t ∈ ts, t.height ≤ 2 * s.nesting + 1
  | _, _, .last h => List.forall_mem_singleton.mpr (height_of_item h)
  | _, _, .more h hs => by
    rw [nesting_append h.balanced, nesting_other (by decide), List.forall_mem_cons]
    constructor
    · have hfirst := height_of_item h
      omega
    · intro t ht
      have hrest := height_of_items hs t ht
      omega

/-- An item is lower than a command may be, since it is a tuple only if it stands in brackets. -/
theorem height_of_item :
  ∀ {s : Text} {t : Tree}, Item s t → t.height ≤ 2 * s.nesting + 1
  | _, _, .primary hu h hv => by
    have hheight := height_of_primary h
    rw [nesting_append ((Balanced.of_forall hu.noBrackets).append h.balanced),
      nesting_append (Balanced.of_forall hu.noBrackets)]
    omega

theorem height_of_primary :
  ∀ {s : Text} {t : Tree}, Primary s t → t.height ≤ 2 * s.nesting + 1
  | _, _, .wildcard _ => Nat.le_add_left _ _
  | _, _, .number _ _ => Nat.le_add_left _ _
  | _, _, .name _ => Nat.le_add_left _ _
  | _, _, .bracketed h => by
    have hheight := height_of_command h
    rw [nesting_bracketed h.balanced]
    omega
  | _, _, .call hn hu hs => by
    rw [height_le_succ_iff, nesting_append
      ((Balanced.of_forall (IsWord.of_isName hn).noBrackets).append
        (Balanced.of_forall hu.noBrackets))]
    intro t ht
    have harg := height_of_groups hs t ht
    omega

theorem height_of_groups :
  ∀ {s : Text} {ts : List Tree}, Groups s ts → ∀ t ∈ ts, t.height ≤ 2 * s.nesting
  | _, _, .last h => by
    rw [nesting_bracketed h.balanced, List.forall_mem_singleton]
    apply height_of_command h
  | _, _, .more h hu hs => by
    rw [nesting_append (h.balanced.bracketed.append (Balanced.of_forall hu.noBrackets)),
      nesting_append h.balanced.bracketed, nesting_bracketed h.balanced, List.forall_mem_cons]
    constructor
    · have hfirst := height_of_command h
      omega
    · intro t ht
      have hrest := height_of_groups hs t ht
      omega

end

/-! ### Trees that match a template -/

theorem forall₂_of_captureList {ts us : List Tree} {captures : Captures}
    (h : captureList ts us = .ok (some captures)) :
  List.Forall₂ (fun t u => ∃ captured, t.capture u = .ok (some captured)) ts us
  := by
  induction ts generalizing us captures with
  | nil =>
    cases us with
    | nil => exact List.Forall₂.nil
    | cons u us => cases h
  | cons t ts ih =>
    cases us with
    | nil => cases h
    | cons u us =>
      rw [captureList] at h
      obtain ⟨captured, rest, hfirst, hrest, -⟩ := Matched.andThen_iff.mp h
      exact List.Forall₂.cons ⟨captured, hfirst⟩ (ih hrest)

/-- A template that is matched without looking at its members has none. -/
theorem children_eq_nil_of_capture {t u : Tree} {captures : Captures} (hopens : t.opens u = false)
    (h : t.capture u = .ok (some captures)) :
  u.children = []
  := by
  cases u with
  | tuple us s =>
    cases t with
    | tuple ts r =>
      rw [opens, beq_eq_false_iff_ne] at hopens
      rw [capture, if_neg hopens] at h
      cases h
    | _ => cases h
  | call n us s =>
    cases t with
    | call m ts r =>
      obtain ⟨rfl, hargs⟩ := capture_call_iff.mp h
      rw [opens, length_eq_of_captureList hargs, beq_self_eq_true, beq_self_eq_true] at hopens
      cases hopens
    | _ => cases h
  | _ => rfl

/-- A tree that matches a template is at least as high as the template. -/
theorem height_le_of_capture {t u : Tree} {captures : Captures}
    (h : t.capture u = .ok (some captures)) :
  u.height ≤ t.height
  := by
  induction t using induction_children generalizing u captures with
  | h t ih =>
    cases hopens : t.opens u with
    | false =>
      rw [height_eq, children_eq_nil_of_capture hopens h, height_eq]
      apply Nat.succ_le_succ (Nat.zero_le _)
    | true =>
      rw [capture_of_opens hopens] at h
      have hmembers := (List.forall₂_and_left _ _).mpr ⟨ih, forall₂_of_captureList h⟩
      apply height_mono
      apply List.Forall₂.flip
      apply hmembers.imp
      rintro c d ⟨hc, captured, hcaptured⟩
      apply hc hcaptured

end Tree

/-! ### Reduced trees -/

namespace Registry

open Tracked

/-- No function of the registry computes a tree that is higher than the template of the call which
this tree replaces. -/
def Lowers (registry : Registry) : Prop :=
  ∀ call hit r, registry.reductions.find (Call.tree call) = .ok (some hit) →
    hit.pattern.behaviour hit.captures = .ok r → r.height ≤ hit.pattern.template.height

/-- A reduced tree is not higher than the tree that it was reduced from. -/
theorem Lowers.height_reduce {registry : Registry} (h : registry.Lowers) {t r : Tree}
    {trail : Trail} (hr : (registry.reduce t).result trail = .ok r) :
  r.height ≤ t.height
  := by
  induction t using Tree.induction generalizing r trail with
  | tuple items s ih =>
    rw [result_reduce_tuple] at hr
    obtain ⟨reduced, hreduced, hr⟩ := bind_eq_ok_iff.mp hr
    obtain rfl := Except.ok.inj hr
    apply Tree.height_mono
    apply List.Forall₂.flip
    apply registry.forall₂_of_reduceList (fun t ht r => ih t ht) hreduced
  | call n args s ih =>
    rw [result_reduce_call] at hr
    obtain ⟨reduced, hreduced, hr⟩ := bind_eq_ok_iff.mp hr
    have hargs : (Call.tree ⟨n, reduced, s⟩).height ≤ (Tree.call n args s).height := by
      apply Tree.height_mono
      apply List.Forall₂.flip
      apply registry.forall₂_of_reduceList (fun t ht r => ih t ht) hreduced
    have happlies := registry.applies_applyCall n reduced s
    generalize registry.applyCall n reduced s = x at happlies hr
    cases happlies with
    | kept _ =>
      obtain rfl := Except.ok.inj hr
      exact hargs
    | @computed hit computed _ hfind hcomputed =>
      obtain rfl := Except.ok.inj hr
      rw [Tree.height_withSpan]
      calc computed.height
        _ ≤ hit.pattern.template.height := h _ hit computed hfind hcomputed
        _ ≤ (Call.tree ⟨n, reduced, s⟩).height :=
          Tree.height_le_of_capture (Table.search_hit hfind).2
        _ ≤ (Tree.call n args s).height := hargs
    | refused _ _ => cases hr
    | missingCapture _ => cases hr
  | _ =>
    obtain rfl := Except.ok.inj hr
    apply Nat.le_refl

/-- The functions that are always there compute numbers and pairs of numbers, from calls with at
least one argument. -/
theorem lowers_builtin :
  Registry.builtin.Lowers
  := by
  intro call hit r hfind hr
  have htemplate : ∀ p ∈ Registry.builtin.reductions.patterns, 2 ≤ p.template.height := by
    decide +kernel
  have hvalue : r.IsValue :=
    Builtin.ends_of_yields ⟨call.name, call.args, call.span, hit, hfind, hr⟩
  have hheight : r.height ≤ 2 := by
    cases hvalue with
    | number x s => exact Nat.le_succ 1
    | pair x y s s' s'' => exact Nat.le_refl 2
  apply hheight.trans (htemplate _ (Table.search_hit hfind).1)

end Registry

namespace Tree

open Grammar Text

/-- Whatever the length of a text, no branch of the tree that is read from it has more than
`2 * 256 + 2` nodes.  Reducing this tree does not make it higher. -/
theorem parse_height_bounded {text : Text} {offset : Nat} {t : Tree}
    (h : parse text offset = .ok t) :
  (∀ path, t.Branch path → path.length ≤ 514)
    ∧ ∀ trail r, (Registry.builtin.reduce t).result trail = .ok r → r.height ≤ t.height
  := by
  constructor
  · obtain ⟨hcommand, hnesting⟩ :=
      (parseWith_parseInner_iff maxNesting offset text t.bare).mp ⟨t, h, rfl⟩
    have hheight : t.height ≤ 2 * text.nesting + 2 := by
      rw [← height_bare]
      apply height_of_command hcommand
    intro path hpath
    have hlimit : text.nesting ≤ 256 := hnesting
    have hlength := hpath.length_le
    omega
  · intro trail r hr
    apply Registry.lowers_builtin.height_reduce hr

/-- The command `f(f(…f(x,x)…,x),x)` with the given number of nested brackets. -/
def tower : Nat → Text
  | 0 => utf8 "x,x"
  | k + 1 => utf8 "f(" ++ tower k ++ utf8 "),x"

/-- Each pair of brackets of a tower adds two levels to the tree. -/
theorem exists_command_tower (k : Nat) :
  ∃ t, Command (tower k) t ∧ (tower k).nesting = k ∧ t.height = 2 * k + 2
  := by
  have hname : Primary (utf8 "x") (name (utf8 "x") .nowhere) := Primary.name rfl
  induction k with
  | zero =>
    have hitems := Items.more hname.item (Items.last hname.item)
    exact ⟨_, Command.tuple hitems (Nat.le_refl 2), rfl, rfl⟩
  | succ k ih =>
    obtain ⟨t, ht, hnesting, hheight⟩ := ih
    have htower : tower (k + 1)
        = utf8 "f" ++ [] ++ Text.bracketed (tower k) ++ Byte.comma :: utf8 "x" := by
      have hopening : utf8 "f(" = utf8 "f" ++ [Byte.openBracket] := rfl
      have hclosing : utf8 "),x" = Byte.closeBracket :: Byte.comma :: utf8 "x" := rfl
      simp [tower, Text.bracketed, hopening, hclosing]
    have hcall := Primary.call (n := utf8 "f") rfl Blanks.nil (Groups.last ht)
    have hitems := Items.more hcall.item (Items.last hname.item)
    rw [htower]
    refine ⟨_, Command.tuple hitems (Nat.le_refl 2), ?_, ?_⟩
    · have hf : ∀ b ∈ utf8 "f" ++ [], Byte.isBracket b = false := List.forall_mem_singleton.mpr rfl
      have hx : nesting (Byte.comma :: utf8 "x") = 0 := rfl
      rw [nesting_append hcall.balanced, nesting_append (Balanced.of_forall hf),
        nesting_bracketed ht.balanced, nesting_of_forall hf, hx, hnesting]
      omega
    · simp only [height, heightList]
      omega

/-- The tower with as many nested brackets as there may be has a branch of this length. -/
theorem parse_height_bounded_tower :
  ∃ t path, parse (tower 256) 0 = .ok t ∧ t.Branch path ∧ path.length = 514
    ∧ (∀ path, t.Branch path → path.length ≤ 514)
    ∧ ∀ trail r, (Registry.builtin.reduce t).result trail = .ok r → r.height ≤ t.height
  := by
  obtain ⟨b, hcommand, hnesting, hheight⟩ := exists_command_tower 256
  obtain ⟨t, ht, rfl⟩ :=
    (parseWith_parseInner_iff maxNesting 0 _ b).mpr ⟨hcommand, Nat.le_of_eq hnesting⟩
  obtain ⟨path, hpath, hlength⟩ := exists_branch t
  rw [height_bare] at hheight
  exact ⟨t, path, ht, hpath, hlength.trans hheight, parse_height_bounded ht⟩

end Tree

end Sketch
