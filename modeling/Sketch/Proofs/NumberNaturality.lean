import Sketch.Proofs.CallOutcomes

/-!
# Drawing is natural in the numbers

Which template a call matches depends on its form, and drawing passes the numbers that are
captured on to the coordinates of a figure.  So if the numbers of a tree are changed, then the
coordinates of its figures are changed in the same way (`Registry.figureEach_mapNumbers`).
-/

namespace Sketch

/-! ### Changing numbers -/

variable (f : Number → Number)

/-- The capture with each number `x` replaced by `f x`. -/
def Capture.map : Capture → Capture
  | number x => number (f x)
  | tuple xs => tuple (xs.map f)

/-- The figure with each coordinate `x` replaced by `f x`. -/
def Figure.map : Figure → Figure
  | point p => point (p.map f)
  | line p q => line (p.map f) (q.map f)
  | curve ps => curve (ps.map (List.map f))

/-- The call with each number `x` replaced by `f x`. -/
def Call.mapNumbers (c : Call) : Call := ⟨c.name, c.args.map (Tree.mapNumbers f), c.span⟩

/-- Changing the numbers of a tree changes those of its calls. -/
theorem Tree.calls_mapNumbers (t : Tree) :
  (t.mapNumbers f).calls = t.calls.map (Call.mapNumbers f)
  := by
  induction t using Tree.induction with
  | tuple items s ih =>
    rw [mapNumbers_tuple, calls, calls, callsList_eq_flatMap, callsList_eq_flatMap,
      List.map_flatMap, List.flatMap_map]
    exact List.flatMap_congr ih
  | call n args s ih =>
    rw [mapNumbers_call]
    rfl
  | _ => rfl

/-- Figures whose coordinates have the same texts have the same text. -/
theorem Figure.text_map {f : Number → Number} (h : ∀ x, numberText (f x) = numberText x)
    (figure : Figure) :
  (figure.map f).text = figure.text
  := by
  have hnumbers : ∀ xs : List Number, numbersText (xs.map f) = numbersText xs := by
    intro xs
    rw [numbersText, numbersText, List.map_map]
    congr 3
    funext x
    apply h x
  cases figure with
  | point p => rw [map, text, text, hnumbers]
  | line p q => rw [map, text, text, hnumbers, hnumbers]
  | curve ps =>
    rw [map, text, text, List.map_map]
    congr 4
    funext p
    apply hnumbers p

/-! ### Matching -/

/-- The outcome of matching with the numbers that are captured changed. -/
def Matched.map : Matched → Matched := Except.map (Option.map (List.map (Capture.map f)))

/-- The numbers that two matches in sequence capture are changed match by match. -/
theorem Matched.map_andThen (first second : Matched) :
  (first.andThen second).map f = (first.map f).andThen (second.map f)
  := by
  rcases first with e | _ | cs
  · rfl
  · rfl
  · rcases second with e | _ | ds
    · rfl
    · rfl
    · change Except.ok (some ((cs ++ ds).map (Capture.map f))) = _
      rw [List.map_append]
      rfl

namespace Tree

/-- Changing numbers and then taking them is taking them and then changing them. -/
theorem numbers?_map_mapNumbers (items : List Tree) :
  numbers? (items.map (mapNumbers f)) = (numbers? items).map (List.map f)
  := by
  induction items with
  | nil => rfl
  | cons t items ih =>
    rw [List.map_cons, numbers?_cons, numbers?_cons, ih]
    cases t with
    | number x s =>
      cases numbers? items with
      | none => rfl
      | some xs => rfl
    | _ => rfl

/-- If the numbers of trees can be changed before or after a match, then so can those of lists. -/
theorem captureList_map_mapNumbers {ts : List Tree}
    (h : ∀ t ∈ ts, ∀ p : Tree, p.Schematic → (t.mapNumbers f).capture p = (t.capture p).map f)
    {ps : List Tree} (hps : ∀ p ∈ ps, p.Schematic) :
  captureList (ts.map (mapNumbers f)) ps = (captureList ts ps).map f
  := by
  induction ts generalizing ps with
  | nil => cases ps <;> rfl
  | cons t ts ih =>
    cases ps with
    | nil => rfl
    | cons p ps =>
      rw [List.map_cons, captureList, captureList, Matched.map_andThen,
        h t List.mem_cons_self p (hps p List.mem_cons_self),
        ih (fun u hu => h u (List.mem_cons_of_mem t hu))
          (fun q hq => hps q (List.mem_cons_of_mem p hq))]

/-- If the numbers of a tree are changed, then the captured numbers are changed in the same way. -/
theorem capture_mapNumbers (t : Tree) {p : Tree} (hp : p.Schematic) :
  (t.mapNumbers f).capture p = (t.capture p).map f
  := by
  induction t using Tree.induction generalizing p with
  | number x s =>
    cases p with
    | number y r => cases hp (number y r) List.mem_cons_self
    | wildcard kind r => cases kind <;> rfl
    | _ => rfl
  | name n s =>
    cases p with
    | name m r => cases hp (name m r) List.mem_cons_self
    | _ => rfl
  | tuple items s ih =>
    rw [mapNumbers_tuple]
    cases p with
    | tuple ps r =>
      have hps : ∀ q ∈ ps, q.Schematic := fun q hq => hp.of_mem_children hq
      rw [capture, capture, captureList_map_mapNumbers f (fun u hu q hq => ih u hu hq) hps,
        List.length_map]
      split
      · rfl
      · rfl
    | wildcard kind r =>
      cases kind with
      | number => rfl
      | tuple =>
        rw [capture, capture, numbers?_map_mapNumbers]
        cases numbers? items with
        | none => rfl
        | some xs => rfl
    | _ => rfl
  | call n args s ih =>
    rw [mapNumbers_call]
    cases p with
    | call m ps r =>
      have hps : ∀ q ∈ ps, q.Schematic := fun q hq => hp.of_mem_children hq
      rw [capture, capture, captureList_map_mapNumbers f (fun u hu q hq => ih u hu hq) hps,
        List.length_map]
      split
      · rfl
      · rfl
    | wildcard kind r => cases kind <;> rfl
    | _ => rfl
  | wildcard kind s => cases p <;> rfl

end Tree

/-- The same pattern is found after the numbers of the tree are changed, and captures the changed
ones. -/
theorem Table.search_mapNumbers {ρ : Type} {t : Tree} {ps : List (Pattern ρ)}
    (hps : ∀ p ∈ ps, p.template.Schematic) {i : Nat} {hit : Hit ρ}
    (h : search t i ps = .ok (some hit)) :
  search (t.mapNumbers f) i ps
    = .ok (some ⟨hit.index, hit.pattern, hit.captures.map (Capture.map f)⟩)
  := by
  induction ps generalizing i with
  | nil => cases h
  | cons p ps ih =>
    have hcapture := Tree.capture_mapNumbers f t (hps p List.mem_cons_self)
    rw [search] at h ⊢
    rw [hcapture]
    generalize t.capture p.template = m at h
    rcases m with e | _ | captures
    · cases h
    · apply ih (fun q hq => hps q (List.mem_cons_of_mem p hq)) h
    · obtain rfl := Option.some.inj (Except.ok.inj h)
      rfl

/-! ### What is drawn -/

namespace Captures

variable {captures : Captures} {i : Nat}

theorem number_map {x : Number} (h : captures.number i = .ok x) :
  number (captures.map (Capture.map f)) i = .ok (f x)
  := by
  rw [number, get] at h ⊢
  rw [List.getElem?_map]
  cases hc : captures[i]? with
  | none =>
    rw [hc] at h
    cases h
  | some c =>
    rw [hc] at h
    cases c with
    | number y =>
      obtain rfl := Except.ok.inj h
      rfl
    | tuple ys => cases h

theorem tuple_map {xs : List Number} (h : captures.tuple i = .ok xs) :
  tuple (captures.map (Capture.map f)) i = .ok (xs.map f)
  := by
  rw [tuple, get] at h ⊢
  rw [List.getElem?_map]
  cases hc : captures[i]? with
  | none =>
    rw [hc] at h
    cases h
  | some c =>
    rw [hc] at h
    cases c with
    | number y => cases h
    | tuple ys =>
      obtain rfl := Except.ok.inj h
      rfl

end Captures

namespace Builtin

/-- If the captured numbers are changed, then the coordinates of the figure are changed in the same
way. -/
def Natural (behaviour : Behaviour Figure) : Prop :=
  ∀ captures figure, behaviour captures = .ok figure →
    behaviour (captures.map (Capture.map f)) = .ok (figure.map f)

/-- The coordinates that are captured are changed one by one. -/
theorem coordinates_map {captures : Captures} {indices : List Nat} {p : Coordinates}
    (h : coordinates captures indices = .ok p) :
  coordinates (captures.map (Capture.map f)) indices = .ok (p.map f)
  := by
  rw [coordinates, mapM_eq_ok_iff] at h ⊢
  rw [List.forall₂_map_right_iff]
  apply h.imp
  intro i x hx
  apply Captures.number_map f hx

theorem natural_point (dimension : Nat) :
  Natural f (point dimension)
  := by
  intro captures figure h
  obtain ⟨p, hp, h⟩ := bind_eq_ok_iff.mp h
  obtain rfl := Except.ok.inj h
  apply bind_eq_ok_iff.mpr
  exact ⟨p.map f, coordinates_map f hp, rfl⟩

theorem natural_line :
  Natural f line
  := by
  intro captures figure h
  obtain ⟨p, hp, h⟩ := bind_eq_ok_iff.mp h
  obtain ⟨q, hq, h⟩ := bind_eq_ok_iff.mp h
  obtain rfl := Except.ok.inj h
  apply bind_eq_ok_iff.mpr
  use p.map f, coordinates_map f hp
  apply bind_eq_ok_iff.mpr
  exact ⟨q.map f, coordinates_map f hq, rfl⟩

theorem natural_curve :
  Natural f curve
  := by
  intro captures figure h
  obtain ⟨xs, hxs, -⟩ := bind_eq_ok_iff.mp h
  rw [curve_eq hxs] at h
  rw [curve_eq (Captures.tuple_map f hxs), List.length_map]
  split at h
  · next hlength =>
    obtain rfl := Except.ok.inj h
    rw [if_pos hlength]
    simp only [Figure.map, List.map_map, Function.comp_def, List.map_take, List.map_drop]
  · cases h

/-- All figures that can be drawn have coordinates which change with the numbers of the call. -/
theorem natural_drawings :
  ∀ p ∈ Registry.builtin.drawings.patterns, Natural f p.behaviour
  := by
  have hentries : ∀ entry ∈ Registry.builtin.drawings.patterns.map
      (fun p => (p.template.form, p.behaviour)), Natural f entry.2 := by
    rw [drawings_eq]
    simp only [List.forall_mem_cons, List.not_mem_nil, false_implies, implies_true, and_true]
    exact ⟨natural_point f 2, natural_point f 3, natural_line f, natural_curve f⟩
  intro p hp
  apply hentries _ (List.mem_map_of_mem hp)

end Builtin

namespace Registry

/-- A call with changed numbers has the figure with changed coordinates. -/
theorem figure_mapNumbers {c : Call} {trail : Trail} {figure : Figure}
    (h : (Registry.builtin.figure c).result trail = .ok figure) :
  (Registry.builtin.figure (c.mapNumbers f)).result trail = .ok (figure.map f)
  := by
  obtain ⟨n, args, s⟩ := c
  have hgives := gives_drawCall n args s trail
  rw [Registry.figure] at h
  dsimp only at h
  rw [h] at hgives
  cases hgives with
  | @figure _ hit hfind hbehaviour =>
    have hschematic := Builtin.implements_builtin.drawings.schematic
    have hmem := (Table.search_hit hfind).1
    have hfind' := Table.search_mapNumbers f hschematic hfind
    rw [Tree.mapNumbers_call, ← Table.find] at hfind'
    have hnatural := Builtin.natural_drawings f hit.pattern hmem _ _ hbehaviour
    rw [Registry.figure, Call.mapNumbers, drawCall, Tracked.result_inside, hfind']
    dsimp only
    rw [hnatural]
    rfl

/-- If the numbers of a tree are changed, then the coordinates of its figures are changed in the
same way. -/
theorem figureEach_mapNumbers {t : Tree} {trail : Trail} {figures : List Figure}
    (h : Registry.builtin.figureEach t.calls trail = .ok figures) :
  Registry.builtin.figureEach (t.mapNumbers f).calls trail = .ok (figures.map (Figure.map f))
  := by
  rw [figureEach_eq_ok_iff] at h ⊢
  rw [Tree.calls_mapNumbers, List.forall₂_map_left_iff, List.forall₂_map_right_iff]
  apply h.imp
  intro c figure hfigure
  apply figure_mapNumbers f hfigure

end Registry

end Sketch
