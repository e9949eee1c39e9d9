import Sketch.Proofs.Trees
import Sketch.Registry.Basic

/-!
# Forms of trees

The form of a tree is what remains when the values of numbers and the names that are not called
are forgotten.  Templates that are made of calls, tuples and wildcards only match by form: whether
a tree matches such a template, and the forms of what the wildcards capture, can be computed from
the form of the tree (`Tree.forms_capture`).

A tree that matches by form can be compared with every template without an error.  Therefore a
table of such templates finds a pattern for a call as soon as one of its templates matches by form
(`Table.exists_find`).
-/

namespace Sketch

/-- Forms of trees. -/
inductive Form where
  /-- A number. -/
  | number
  /-- A name that is not called. -/
  | name
  /-- A wildcard. -/
  | wildcard (kind : Wildcard)
  /-- Items separated by commas. -/
  | tuple (items : List Form)
  /-- The call of a function. -/
  | call (name : Text) (args : List Form)

namespace Form

/-- Whether a form is that of numbers. -/
def isNumber : Form → Bool
  | number => true
  | _ => false

theorem isNumber_iff {f : Form} :
  f.isNumber = true ↔ f = number
  := by
  cases f <;> simp [isNumber]

mutual

/-- Matches a form against the form of a template.  The captures are forms, too. -/
def capture : (form template : Form) → Option (List Form)
  | number, wildcard .number => some [number]
  | tuple items, wildcard .tuple => if items.all isNumber then some [tuple items] else none
  | tuple items, tuple templates => captureList items templates
  | call m args, call n templates => if n == m then captureList args templates else none
  | _, _ => none

/-- Matches forms against the forms of templates. -/
def captureList : (forms templates : List Form) → Option (List Form)
  | [], [] => some []
  | f :: fs, p :: ps =>
    (capture f p).bind fun captured => (captureList fs ps).map fun rest => captured ++ rest
  | _, _ => none

end

section Capture

variable {f : Form} {fs ks : List Form}

/-- The wildcard for one number matches a number, and captures it. -/
@[simp]
theorem capture_number_iff :
  capture f (wildcard .number) = some ks ↔ f = number ∧ [number] = ks
  := by
  cases f <;> simp [capture]

/-- The wildcard for a tuple of numbers matches a tuple of numbers, and captures it. -/
@[simp]
theorem capture_numbers_iff :
  capture f (wildcard .tuple) = some ks
    ↔ ∃ items, f = tuple items ∧ items.all isNumber = true ∧ [tuple items] = ks
  := by
  cases f <;> simp [capture]

/-- A template that is a tuple matches tuples of which the items match one by one. -/
@[simp]
theorem capture_tuple_iff {ps : List Form} :
  capture f (tuple ps) = some ks ↔ ∃ items, f = tuple items ∧ captureList items ps = some ks
  := by
  cases f <;> simp [capture]

/-- A template that is a call matches calls of the same name of which the arguments match one by
one. -/
@[simp]
theorem capture_call_iff {m n : Text} {ps : List Form} :
  capture (call m fs) (call n ps) = some ks ↔ n = m ∧ captureList fs ps = some ks
  := by
  simp [capture]

@[simp]
theorem captureList_nil_iff :
  captureList fs [] = some ks ↔ fs = [] ∧ [] = ks
  := by
  cases fs <;> simp [captureList]

/-- Forms match templates one by one, and what they capture is put together. -/
@[simp]
theorem captureList_cons_iff {p : Form} {ps : List Form} :
  captureList fs (p :: ps) = some ks
    ↔ ∃ f rest, fs = f :: rest ∧ ∃ captured, capture f p = some captured
      ∧ ∃ captured', captureList rest ps = some captured' ∧ captured ++ captured' = ks
  := by
  cases fs <;> simp [captureList, Option.bind_eq_some_iff]

end Capture

/-- Forms that match templates one by one are as many as these. -/
theorem length_eq_of_captureList {fs ps ks : List Form} (h : captureList fs ps = some ks) :
  fs.length = ps.length
  := by
  induction fs generalizing ps ks with
  | nil =>
    cases ps with
    | nil => rfl
    | cons p ps => cases h
  | cons f fs ih =>
    cases ps with
    | nil => cases h
    | cons p ps =>
      obtain ⟨_, -, h⟩ := Option.bind_eq_some_iff.mp h
      obtain ⟨_, hrest, -⟩ := Option.map_eq_some_iff.mp h
      rw [List.length_cons, List.length_cons, ih hrest]

/-- If forms match templates one by one, then each of them matches some template. -/
theorem exists_capture_of_captureList {fs ps ks : List Form} (h : captureList fs ps = some ks) :
  ∀ f ∈ fs, ∃ p captured, capture f p = some captured
  := by
  induction fs generalizing ps ks with
  | nil => simp
  | cons f fs ih =>
    cases ps with
    | nil => cases h
    | cons p ps =>
      obtain ⟨captured, hf, h⟩ := Option.bind_eq_some_iff.mp h
      obtain ⟨_, hrest, -⟩ := Option.map_eq_some_iff.mp h
      rw [List.forall_mem_cons]
      constructor
      · use p, captured
      · apply ih hrest

end Form

/-- The form of the trees that a capture comes from. -/
def Capture.form : Capture → Form
  | number _ => .number
  | tuple xs => .tuple (List.replicate xs.length .number)

/-- Only the capture of one number has the form of a number. -/
@[simp]
theorem Capture.form_eq_number_iff {c : Capture} :
  c.form = .number ↔ ∃ x, c = .number x
  := by
  cases c <;> simp [form]

/-- Only the capture of a tuple has the form of a tuple, which then is one of numbers. -/
@[simp]
theorem Capture.form_eq_tuple_iff {c : Capture} {items : List Form} :
  c.form = .tuple items ↔ ∃ xs, c = .tuple xs ∧ items = List.replicate xs.length .number
  := by
  cases c <;> simp [form, eq_comm]

/-- The forms that are captured by a successful match. -/
def Matched.forms : Matched → Option (List Form)
  | .ok (some captures) => some (captures.map Capture.form)
  | _ => none

/-- The forms of two matches in sequence are those of the first one and then those of the second
one. -/
theorem Matched.forms_andThen (first second : Matched) :
  (first.andThen second).forms
    = first.forms.bind fun captured => second.forms.map fun rest => captured ++ rest
  := by
  rcases first with e | _ | cs
  · rfl
  · rfl
  · rcases second with e | _ | ds
    · rfl
    · rfl
    · simp [Matched.andThen, Matched.forms]

/-- A match has forms exactly if it succeeds, and they are those of the captures. -/
theorem Matched.forms_eq_some_iff {m : Matched} {ks : List Form} :
  m.forms = some ks ↔ ∃ captures, m = .ok (some captures) ∧ captures.map Capture.form = ks
  := by
  rcases m with e | _ | cs <;> simp [Matched.forms]

namespace Tree

/-! ### Trees and their forms -/

mutual

/-- The form of a tree. -/
def form : Tree → Form
  | number _ _ => .number
  | name _ _ => .name
  | tuple items _ => .tuple (formList items)
  | call n args _ => .call n (formList args)
  | wildcard kind _ => .wildcard kind

/-- The forms of trees. -/
def formList : List Tree → List Form
  | [] => []
  | t :: ts => form t :: formList ts

end

theorem formList_eq_map (ts : List Tree) :
  formList ts = ts.map form
  := by
  induction ts with
  | nil => rfl
  | cons t ts ih => rw [formList, ih, List.map_cons]

theorem form_tuple (items : List Tree) (s : Span) :
  (tuple items s).form = .tuple (items.map form)
  := by
  rw [form, formList_eq_map]

theorem form_call (n : Text) (args : List Tree) (s : Span) :
  (call n args s).form = .call n (args.map form)
  := by
  rw [form, formList_eq_map]

/-- The span of a tree is no part of its form. -/
@[simp]
theorem form_withSpan (t : Tree) (s : Span) :
  (t.withSpan s).form = t.form
  := by
  cases t <;> rfl

/-! ### Matching by form -/

/-- Whether a tree is a number or a name. -/
def isConcrete : Tree → Bool
  | number _ _ | name _ _ => true
  | _ => false

/-- A template is schematic if it has no numbers, and no names that are not called. -/
abbrev Schematic (p : Tree) : Prop := ∀ m ∈ p.nodes, m.isConcrete = false

/-- The parts of a schematic template are schematic. -/
theorem Schematic.of_mem_children {p c : Tree} (h : p.Schematic) (hc : c ∈ p.children) :
  c.Schematic
  := ((forall_nodes _ p).mp h).2 c hc

theorem numbers?_cons (t : Tree) (ts : List Tree) :
  numbers? (t :: ts) = t.number?.bind fun x => (numbers? ts).map fun xs => x :: xs
  := by
  rw [numbers?, List.mapM_cons, ← numbers?]
  cases t.number? with
  | none => rfl
  | some x =>
    cases numbers? ts with
    | none => rfl
    | some xs => rfl

/-- Numbers have the form of numbers. -/
theorem form_of_numbers? {items : List Tree} {xs : List Number} (h : numbers? items = some xs) :
  items.map form = List.replicate xs.length .number
  := by
  induction items generalizing xs with
  | nil =>
    cases h
    rfl
  | cons t items ih =>
    rw [numbers?_cons] at h
    obtain ⟨x, hx, h⟩ := Option.bind_eq_some_iff.mp h
    obtain ⟨ys, hys, rfl⟩ := Option.map_eq_some_iff.mp h
    cases t with
    | number y s => rw [List.map_cons, ih hys, List.length_cons, List.replicate_succ, form]
    | _ => cases hx

/-- Whether trees are all numbers is told by their forms. -/
theorem isSome_numbers? (items : List Tree) :
  (numbers? items).isSome = (items.map form).all Form.isNumber
  := by
  induction items with
  | nil => rfl
  | cons t items ih =>
    rw [numbers?_cons, List.map_cons, List.all_cons, ← ih]
    cases t with
    | number x s => simp [number?, form, Form.isNumber]
    | _ => rfl

/-- If the forms of trees tell how they match templates, then they do so for lists of trees. -/
theorem forms_captureList {ts us : List Tree}
    (h : ∀ t ∈ ts, ∀ u ∈ us, (t.capture u).forms = t.form.capture u.form) :
  (captureList ts us).forms = Form.captureList (ts.map form) (us.map form)
  := by
  induction ts generalizing us with
  | nil =>
    cases us with
    | nil => rfl
    | cons u us => rfl
  | cons t ts ih =>
    cases us with
    | nil => rfl
    | cons u us =>
      have hfirst := h t List.mem_cons_self u List.mem_cons_self
      have hrest := ih fun v hv w hw =>
        h v (List.mem_cons_of_mem t hv) w (List.mem_cons_of_mem u hw)
      rw [captureList, Matched.forms_andThen, hfirst, hrest, List.map_cons, List.map_cons,
        Form.captureList]

/-- Trees match schematic templates by form. -/
theorem forms_capture (t : Tree) {p : Tree} (hp : p.Schematic) :
  (t.capture p).forms = t.form.capture p.form
  := by
  have of_lengths : ∀ {ts us : List Tree},
      (captureList ts us).forms = Form.captureList (ts.map form) (us.map form) →
        Matched.forms (if ts.length = us.length then captureList ts us else .ok none)
          = Form.captureList (ts.map form) (us.map form) := by
    intro ts us h
    split
    · apply h
    · next hlength =>
      cases hcapture : Form.captureList (ts.map form) (us.map form) with
      | none => rfl
      | some ks =>
        have := Form.length_eq_of_captureList hcapture
        simp only [List.length_map] at this
        apply absurd this hlength
  induction t using Tree.induction generalizing p with
  | number x s =>
    cases p with
    | number y r => cases hp _ List.mem_cons_self
    | wildcard kind r => cases kind <;> rfl
    | _ => rfl
  | name n s =>
    cases p with
    | name m r => cases hp _ List.mem_cons_self
    | _ => rfl
  | tuple items s ih =>
    cases p with
    | tuple us r =>
      rw [form_tuple, form_tuple, capture, Form.capture]
      apply of_lengths
      apply forms_captureList
      intro t ht u hu
      apply ih t ht (hp.of_mem_children hu)
    | wildcard kind r =>
      cases kind with
      | number => rfl
      | tuple =>
        rw [form_tuple, capture, form, Form.capture, ← isSome_numbers?]
        cases hxs : numbers? items with
        | none => rfl
        | some xs =>
          rw [form_of_numbers? hxs]
          rfl
    | _ => rfl
  | call n args s ih =>
    cases p with
    | call m us r =>
      rw [form_call, form_call, capture, Form.capture]
      by_cases hname : (m == n) = true
      · simp only [hname, Bool.true_and, decide_eq_true_eq, if_true]
        apply of_lengths
        apply forms_captureList
        intro t ht u hu
        apply ih t ht (hp.of_mem_children hu)
      · simp [hname, Matched.forms]
    | wildcard kind r => cases kind <;> rfl
    | _ => rfl
  | wildcard kind s => rfl

/-- If trees are compared with templates without an error, then so are lists of them. -/
theorem exists_captureList {ts : List Tree} (h : ∀ t ∈ ts, ∀ q, ∃ m, t.capture q = .ok m)
    (us : List Tree) :
  ∃ m, captureList ts us = .ok m
  := by
  induction ts generalizing us with
  | nil =>
    cases us with
    | nil => use some []; rfl
    | cons u us => use none; rfl
  | cons t ts ih =>
    cases us with
    | nil => use none; rfl
    | cons u us =>
      obtain ⟨first, hfirst⟩ := h t List.mem_cons_self u
      obtain ⟨rest, hrest⟩ := ih (fun v hv => h v (List.mem_cons_of_mem t hv)) us
      rw [captureList, hfirst, hrest]
      cases first with
      | none => use none; rfl
      | some cs =>
        cases rest with
        | none => use none; rfl
        | some ds => use some (cs ++ ds); rfl

/-- A tree that matches some template by form can be compared with every template. -/
theorem exists_capture (t : Tree) {f : Form} {ks : List Form} (h : t.form.capture f = some ks)
    (q : Tree) :
  ∃ m, t.capture q = .ok m
  := by
  -- Neither names nor wildcards match by form, so none is met in `t`.
  induction t using Tree.induction generalizing f ks q with
  | number x s =>
    cases q with
    | wildcard kind r => cases kind <;> exact ⟨_, rfl⟩
    | _ => exact ⟨_, rfl⟩
  | name n s => cases f <;> cases h
  | tuple items s ih =>
    have hitems : ∀ f ∈ items.map form, ∃ p captured, Form.capture f p = some captured := by
      rw [form_tuple] at h
      cases f with
      | tuple ps => apply Form.exists_capture_of_captureList h
      | wildcard kind =>
        cases kind with
        | number => cases h
        | tuple =>
          rw [Form.capture] at h
          split at h
          · next hall =>
            intro f hf
            rw [Form.isNumber_iff.mp (List.all_eq_true.mp hall f hf)]
            use .wildcard .number, [.number]
            rfl
          · cases h
      | _ => cases h
    have hlist := exists_captureList fun t ht =>
      have ⟨_, _, hcapture⟩ := hitems t.form (List.mem_map_of_mem ht)
      ih t ht hcapture
    cases q with
    | tuple us r =>
      rw [capture]
      split
      · apply hlist
      · use none
    | wildcard kind r => cases kind <;> exact ⟨_, rfl⟩
    | _ => exact ⟨_, rfl⟩
  | call n args s ih =>
    have hargs : ∀ f ∈ args.map form, ∃ p captured, Form.capture f p = some captured := by
      rw [form_call] at h
      cases f with
      | call m ps =>
        rw [Form.capture] at h
        split at h
        · apply Form.exists_capture_of_captureList h
        · cases h
      | _ => cases h
    have hlist := exists_captureList fun t ht =>
      have ⟨_, _, hcapture⟩ := hargs t.form (List.mem_map_of_mem ht)
      ih t ht hcapture
    cases q with
    | call m us r =>
      rw [capture]
      split
      · apply hlist
      · use none
    | wildcard kind r => cases kind <;> exact ⟨_, rfl⟩
    | _ => exact ⟨_, rfl⟩
  | wildcard kind s => cases f <;> cases h

end Tree

/-! ### Finding patterns -/

namespace Table

variable {ρ : Type} {t : Tree}

/-- A pattern that is found is one of the table, and the tree matches it. -/
theorem search_hit {i : Nat} {ps : List (Pattern ρ)} {hit : Hit ρ}
    (h : search t i ps = .ok (some hit)) :
  hit.pattern ∈ ps ∧ t.capture hit.pattern.template = .ok (some hit.captures)
  := by
  induction ps generalizing i with
  | nil => cases h
  | cons p ps ih =>
    rw [search] at h
    split at h
    · cases h
    · next captures hcapture =>
      cases h
      exact ⟨List.mem_cons_self, hcapture⟩
    · obtain ⟨hmem, hcapture⟩ := ih h
      exact ⟨List.mem_cons_of_mem p hmem, hcapture⟩

/-- If a tree matches one of the patterns, and none of them gives an error, then a pattern is
found. -/
theorem exists_search {ps : List (Pattern ρ)} (hok : ∀ p ∈ ps, ∃ m, t.capture p.template = .ok m)
    {p : Pattern ρ} (hp : p ∈ ps) {captures : Captures}
    (h : t.capture p.template = .ok (some captures)) (i : Nat) :
  ∃ hit, search t i ps = .ok (some hit)
  := by
  induction ps generalizing i with
  | nil => cases hp
  | cons q ps ih =>
    obtain ⟨m, hm⟩ := hok q List.mem_cons_self
    rw [search, hm]
    cases m with
    | some captures => exact ⟨_, rfl⟩
    | none =>
      apply ih fun p hp => hok p (List.mem_cons_of_mem q hp)
      rcases List.mem_cons.mp hp with rfl | hp
      · rw [h] at hm
        cases hm
      · apply hp

/-- A tree that matches one of the templates of a table by form is found there. -/
theorem exists_find {table : Table ρ} {p : Pattern ρ} (hp : p ∈ table.patterns)
    (hschematic : p.template.Schematic) {ks : List Form}
    (h : t.form.capture p.template.form = some ks) :
  ∃ hit, table.find t = .ok (some hit)
  := by
  have hforms := Tree.forms_capture t hschematic
  rw [h] at hforms
  obtain ⟨captures, hcapture, -⟩ := Matched.forms_eq_some_iff.mp hforms
  apply exists_search (fun q _ => t.exists_capture h q.template) hp hcapture

end Table

end Sketch
