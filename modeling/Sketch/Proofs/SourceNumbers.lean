import Mathlib.Algebra.Group.Nat.Defs
import Mathlib.Data.Finset.Card
import Sketch.Source.Library

/-!
# The numbers of sources

Sources that are added to a library one after the other are numbered by the order in which their
names first occur.  The index and the list of sources are kept in step by this
(`Library.Catalogues`): the index knows the names of the sources that were added and no others, and
gives each name the position of its source.

So numbers are stable (`Library.numbers_are_stable`): what is asked by a number that was handed out
is answered by the first source of that name, whatever is added later, and no other number is
known.
-/

namespace Sketch

/-! ### First occurrences -/

section FirstOccurrences

variable {α β : Type} [BEq α] [LawfulBEq α] [BEq β] [LawfulBEq β]

theorem eraseDups_concat (as : List α) (a : α) :
  (as ++ [a]).eraseDups = if a ∈ as then as.eraseDups else as.eraseDups ++ [a]
  := by
  rw [List.eraseDups_append, List.cons_removeAll, List.nil_removeAll]
  by_cases h : a ∈ as
  · simp [h]
  · simp [h, List.eraseDups_cons]

theorem nodup_eraseDups (as : List α) :
  as.eraseDups.Nodup
  := by
  induction as using List.reverseRecOn with
  | nil => exact List.nodup_nil
  | append_singleton as a ih =>
    rw [eraseDups_concat]
    split
    · exact ih
    · next h =>
      rw [← List.mem_eraseDups] at h
      rw [← List.concat_eq_append]
      exact ih.concat h

/-- A map that keeps the members of a list apart keeps their first occurrences. -/
theorem eraseDups_map {f : α → β} {as : List α}
    (h : ∀ a ∈ as, ∀ b ∈ as, f a = f b → a = b) :
  (as.map f).eraseDups = as.eraseDups.map f
  := by
  induction as using List.reverseRecOn with
  | nil => rfl
  | append_singleton as a ih =>
    have hmem : f a ∈ as.map f ↔ a ∈ as := by
      constructor
      · intro hf
        obtain ⟨b, hb, hba⟩ := List.mem_map.mp hf
        rwa [← h b (List.mem_append_left _ hb) a List.mem_concat_self hba]
      · exact List.mem_map_of_mem
    rw [List.map_append, List.map_singleton, eraseDups_concat, eraseDups_concat,
      ih fun b hb c hc => h b (List.mem_append_left _ hb) c (List.mem_append_left _ hc)]
    simp only [hmem]
    split
    · rfl
    · rw [List.map_append, List.map_singleton]

/-- Members of a list that are numbered by their first occurrences get the numbers from zero on, in
this order. -/
theorem eraseDups_map_idxOf (as : List α) :
  (as.map fun a => as.eraseDups.idxOf a).eraseDups = List.range as.eraseDups.length
  := by
  rw [eraseDups_map]
  · apply List.ext_getElem
    · rw [List.length_map, List.length_range]
    · intro i hi _
      rw [List.getElem_map, List.getElem_range, (nodup_eraseDups as).idxOf_getElem]
  · intro a ha b _ hab
    rw [← List.mem_eraseDups] at ha
    exact (List.idxOf_inj ha).mp hab

theorem length_eraseDups [DecidableEq α] (as : List α) :
  as.eraseDups.length = as.toFinset.card
  := by
  rw [← List.toFinset_card_of_nodup (nodup_eraseDups as)]
  congr 1
  ext a
  rw [List.mem_toFinset, List.mem_toFinset, List.mem_eraseDups]

end FirstOccurrences

namespace Library

/-- Adds sources, one after the other, and lists the numbers that are returned. -/
def addAll (library : Library) : List Source → Library × List Id
  | [] => (library, [])
  | source :: rest =>
    let first := library.add source
    let others := first.1.addAll rest
    (others.1, first.2 :: others.2)

/-- Sources that are added in sequence get their numbers in sequence. -/
theorem addAll_append (library : Library) (added later : List Source) :
  library.addAll (added ++ later)
    = (((library.addAll added).1.addAll later).1,
        (library.addAll added).2 ++ ((library.addAll added).1.addAll later).2)
  := by
  induction added generalizing library with
  | nil => rfl
  | cons source added ih =>
    rw [List.cons_append, addAll, addAll, ih]
    rfl

/-! ### The index and the sources in step -/

/-- The names of the given sources, each once, in the order in which they first occur. -/
def namesOf (added : List Source) : List Text := (added.map Source.name).eraseDups

theorem mem_namesOf {added : List Source} {name : Text} :
  name ∈ namesOf added ↔ name ∈ added.map Source.name
  := List.mem_eraseDups

theorem nodup_namesOf (added : List Source) :
  (namesOf added).Nodup
  := nodup_eraseDups _

theorem name_mem_namesOf {added : List Source} {source : Source} (h : source ∈ added) :
  source.name ∈ namesOf added
  := mem_namesOf.mpr (List.mem_map_of_mem h)

/-- A source with a new name adds this name after the others. -/
theorem namesOf_concat (added : List Source) (source : Source) :
  namesOf (added ++ [source])
    = if source.name ∈ namesOf added then namesOf added else namesOf added ++ [source.name]
  := by
  simp only [mem_namesOf]
  rw [namesOf, List.map_append, List.map_singleton, eraseDups_concat, namesOf]

/-- The names that come later follow those that came first. -/
theorem exists_namesOf_append (added later : List Source) :
  ∃ names, namesOf (added ++ later) = namesOf added ++ names
  := by
  rw [namesOf, List.map_append, List.eraseDups_append, ← namesOf]
  exact ⟨_, rfl⟩

theorem length_namesOf_le (added : List Source) :
  (namesOf added).length ≤ added.length
  := by
  rw [namesOf, length_eraseDups, ← List.length_map Source.name]
  apply List.toFinset_card_le

/-- The number of a name: the position at which it first occurs among the names of the given
sources. -/
def numberOf (added : List Source) (name : Text) : Id := .ofNat ((namesOf added).idxOf name)

/-- What a library holds, and which numbers have been returned, after the given sources have been
added to it. -/
structure Catalogues (added : List Source) (library : Library) (ids : List Id) : Prop where
  names : library.sources.map Source.name = namesOf added
  first : ∀ name, library.sources.find? (·.name == name) = added.find? (·.name == name)
  index : ∀ name, library.index.lookup name
    = if name ∈ namesOf added then some (numberOf added name) else none
  ids : ids = added.map fun source => numberOf added source.name

theorem catalogues_empty :
  Catalogues [] empty []
  := ⟨rfl, fun _ => rfl, fun _ => rfl, rfl⟩

/-- The number of a name does not change when a source is added. -/
theorem numberOf_concat {added : List Source} {name : Text} (h : name ∈ namesOf added)
    (source : Source) :
  numberOf (added ++ [source]) name = numberOf added name
  := by
  rw [numberOf, numberOf, namesOf_concat]
  split
  · rfl
  · rw [List.idxOf_append_of_mem h]

theorem map_numberOf_concat (added : List Source) (source : Source) :
  (added ++ [source]).map (fun s => numberOf (added ++ [source]) s.name)
    = (added.map fun s => numberOf added s.name) ++ [numberOf (added ++ [source]) source.name]
  := by
  rw [List.map_append, List.map_singleton]
  congr 1
  apply List.map_congr_left
  intro s hs
  apply numberOf_concat (name_mem_namesOf hs)

/-- The first source of a name stays the first one if a source of a known name is added. -/
theorem find?_concat_known {added : List Source} {source : Source}
    (h : source.name ∈ namesOf added) (name : Text) :
  (added ++ [source]).find? (·.name == name) = added.find? (·.name == name)
  := by
  rw [List.find?_append]
  cases hfind : added.find? (·.name == name) with
  | some first => rfl
  | none =>
    rw [List.find?_eq_none] at hfind
    obtain ⟨earlier, hearlier, hname⟩ := List.mem_map.mp (mem_namesOf.mp h)
    have hne : ¬ (source.name == name) = true := by
      rw [← hname]
      apply hfind earlier hearlier
    rw [Option.none_or, List.find?_singleton, if_neg hne]

variable {added : List Source} {library : Library} {ids : List Id}

/-- A source of a known name changes nothing. -/
theorem Catalogues.add_known (h : Catalogues added library ids) {source : Source}
    (hknown : source.name ∈ namesOf added) :
  Catalogues (added ++ [source]) (library.add source).1 (ids ++ [(library.add source).2])
  := by
  have hnames : namesOf (added ++ [source]) = namesOf added := by
    rw [namesOf_concat, if_pos hknown]
  have hnumber : numberOf (added ++ [source]) = numberOf added := by
    funext name
    rw [numberOf, numberOf, hnames]
  have hlookup : library.index.lookup source.name = some (numberOf added source.name) := by
    rw [h.index, if_pos hknown]
  have hadd : library.add source = (library, numberOf added source.name) := by
    simp only [add, hlookup]
  rw [hadd]
  constructor
  · rw [hnames, h.names]
  · intro name
    rw [find?_concat_known hknown, h.first]
  · intro name
    rw [hnames, hnumber, h.index]
  · rw [map_numberOf_concat, hnumber, ← h.ids]

/-- A source of a new name comes last, and gets the next number. -/
theorem Catalogues.add_new (h : Catalogues added library ids) {source : Source}
    (hnew : source.name ∉ namesOf added) :
  Catalogues (added ++ [source]) (library.add source).1 (ids ++ [(library.add source).2])
  := by
  have hnames : namesOf (added ++ [source]) = namesOf added ++ [source.name] := by
    rw [namesOf_concat, if_neg hnew]
  have hnumber : numberOf (added ++ [source]) source.name = .ofNat library.sources.length := by
    rw [numberOf, hnames, List.idxOf_append_of_notMem hnew, List.idxOf_cons_self, Nat.add_zero,
      ← h.names, List.length_map]
  have hlookup : library.index.lookup source.name = none := by
    rw [h.index, if_neg hnew]
  have hadd : library.add source
      = (⟨library.sources ++ [source],
          (source.name, numberOf (added ++ [source]) source.name) :: library.index⟩,
        numberOf (added ++ [source]) source.name) := by
    simp only [add, hlookup, hnumber]
  rw [hadd]
  constructor
  · rw [hnames, List.map_append, h.names, List.map_singleton]
  · intro name
    rw [List.find?_append, List.find?_append, h.first]
  · intro name
    rw [List.lookup_cons, hnames]
    by_cases hname : name = source.name
    · rw [hname, beq_self_eq_true, if_pos List.mem_concat_self]
    · have hmem : name ∈ namesOf added ++ [source.name] ↔ name ∈ namesOf added := by
        rw [List.mem_append, List.mem_singleton, or_iff_left hname]
      rw [beq_eq_false_iff_ne.mpr hname, h.index]
      by_cases hknown : name ∈ namesOf added
      · rw [if_pos hknown, if_pos (hmem.mpr hknown), numberOf_concat hknown]
      · rw [if_neg hknown, if_neg (mt hmem.mp hknown)]
  · rw [map_numberOf_concat, ← h.ids]

/-- A library that catalogues the sources added to it does so after one more is added. -/
theorem Catalogues.add (h : Catalogues added library ids) (source : Source) :
  Catalogues (added ++ [source]) (library.add source).1 (ids ++ [(library.add source).2])
  := by
  by_cases hknown : source.name ∈ namesOf added
  · apply h.add_known hknown
  · apply h.add_new hknown

/-- The index and the sources are in step after any number of additions. -/
theorem catalogues_addAll (added : List Source) :
  Catalogues added (empty.addAll added).1 (empty.addAll added).2
  := by
  induction added using List.reverseRecOn with
  | nil => exact catalogues_empty
  | append_singleton added source ih =>
    rw [addAll_append]
    exact ih.add source

/-! ### What is answered -/

/-- The source that is found by the number of a name is the first one of that name. -/
theorem Catalogues.getElem?_idxOf (h : Catalogues added library ids) (name : Text) :
  library.sources[(namesOf added).idxOf name]? = added.find? (·.name == name)
  := by
  rw [← h.first, List.find?_eq_getElem?_findIdx, ← h.names, List.idxOf, List.findIdx_map]
  rfl

/-- The number of a name is its place in the order of first appearance, if there are not too
many. -/
theorem toNat_numberOf (hlength : added.length < 2 ^ 32) {name : Text}
    (hname : name ∈ namesOf added) :
  (numberOf added name).toNat = (namesOf added).idxOf name
  := by
  rw [numberOf, UInt32.toNat_ofNat_of_lt']
  apply (List.idxOf_lt_length_of_mem hname).trans
  apply (length_namesOf_le added).trans_lt hlength

/-- Whatever is asked by a number is answered from the given source, or rejected. -/
structure Responds (library : Library) (id : Id) (found : Except Rejection Source) : Prop where
  name : library.name id = found.map Source.name
  contents : library.contents id = found.map Source.contents
  lineCount : library.lineCount id = found.map Source.lineCount
  lineText : ∀ k, library.lineText id k = found.map fun source => source.lineText k
  column : ∀ k span, library.column id k span
    = found.map fun source => (source.line k).column span
  excerpt : ∀ k span, library.excerpt id k span
    = found.map fun source => (source.line k).excerpt span

theorem responds_get (library : Library) (id : Id) :
  library.Responds id (library.get id)
  := ⟨rfl, rfl, rfl, fun _ => rfl, fun _ _ => rfl, fun _ _ => rfl⟩

/-- A number that was returned stands for the first source of its name, whatever is added later. -/
theorem get_numberOf (hlength : added.length < 2 ^ 32) {name : Text} {first : Source}
    (hfirst : added.find? (·.name == name) = some first) (later : List Source) :
  (empty.addAll (added ++ later)).1.get (numberOf added name) = .ok first
  := by
  have hname : name ∈ namesOf added := by
    have heq := List.find?_some hfirst
    rw [← eq_of_beq heq]
    exact name_mem_namesOf (List.mem_of_find?_eq_some hfirst)
  have hsource := (catalogues_addAll (added ++ later)).getElem?_idxOf name
  obtain ⟨names, hnames⟩ := exists_namesOf_append added later
  rw [hnames, List.idxOf_append_of_mem hname, ← toNat_numberOf hlength hname, List.find?_append,
    hfirst, Option.some_or] at hsource
  simp only [get, hsource]

/-- A number that was not returned is not known. -/
theorem Catalogues.get_unknown (h : Catalogues added library ids) {id : Id} (hid : id ∉ ids) :
  library.get id = .error .unknownId
  := by
  have hlength : library.sources.length ≤ id.toNat := by
    by_contra hlt
    have hlt : id.toNat < (namesOf added).length := by
      rw [← h.names, List.length_map]
      exact Nat.lt_of_not_le hlt
    apply hid
    obtain ⟨source, hsource, hname⟩ := List.mem_map.mp (mem_namesOf.mp (List.getElem_mem hlt))
    rw [h.ids, List.mem_map]
    use source, hsource
    rw [numberOf, hname, (nodup_namesOf added).idxOf_getElem, UInt32.ofNat_toNat]
  simp only [get, List.getElem?_eq_none hlength]

/-- The numbers that are returned, each where it is returned first, are those from zero on. -/
theorem Catalogues.eraseDups_ids (h : Catalogues added library ids)
    (hlength : added.length < 2 ^ 32) :
  (ids.map UInt32.toNat).eraseDups = List.range (added.map Source.name).toFinset.card
  := by
  have hids : ids.map UInt32.toNat
      = (added.map Source.name).map fun name => (added.map Source.name).eraseDups.idxOf name := by
    rw [h.ids, List.map_map, List.map_map]
    apply List.map_congr_left
    intro source hsource
    apply toNat_numberOf hlength (name_mem_namesOf hsource)
  rw [hids, eraseDups_map_idxOf, length_eraseDups]

/-- Sources are numbered from zero on by the order in which their names first occur, and a name
keeps the number that it gets first.  What is asked by such a number is answered by the first source
of that name, whatever is added later.  All other numbers are rejected. -/
theorem numbers_are_stable (added : List Source) (hlength : added.length < 2 ^ 32) :
  let library := (empty.addAll added).1
  let ids := (empty.addAll added).2
  (library.sources.map Source.name).Nodup
  ∧ (ids.map UInt32.toNat).eraseDups = List.range (added.map Source.name).toFinset.card
  ∧ (∀ i (hi : i < added.length), ∃ id first,
    ids[i]? = some id
    ∧ ids[added.findIdx (·.name == added[i].name)]? = some id
    ∧ added.find? (·.name == added[i].name) = some first
    ∧ ∀ later, (empty.addAll (added ++ later)).1.Responds id (.ok first))
  ∧ ∀ id ∉ ids, library.Responds id (.error .unknownId)
  := by
  intro library ids
  have hcatalogues : Catalogues added library ids := catalogues_addAll added
  refine ⟨?_, hcatalogues.eraseDups_ids hlength, ?_, ?_⟩
  · rw [hcatalogues.names]
    apply nodup_namesOf
  · intro i hi
    have hfind : ∃ source ∈ added, (source.name == added[i].name) = true :=
      ⟨added[i], List.getElem_mem hi, beq_self_eq_true _⟩
    obtain ⟨first, hfirst⟩ := Option.isSome_iff_exists.mp (List.find?_isSome.mpr hfind)
    have hindex := List.findIdx_lt_length_of_exists hfind
    have hname := List.findIdx_getElem (w := hindex)
    use numberOf added added[i].name, first
    refine ⟨?_, ?_, hfirst, ?_⟩
    · rw [hcatalogues.ids, List.getElem?_map, List.getElem?_eq_getElem hi, Option.map_some]
    · rw [hcatalogues.ids, List.getElem?_map, List.getElem?_eq_getElem hindex, Option.map_some,
        eq_of_beq hname]
    · intro later
      rw [← get_numberOf hlength hfirst later]
      apply responds_get
  · intro id hid
    rw [← hcatalogues.get_unknown hid]
    apply responds_get

/-- A second source of the same name is not kept. -/
theorem numbers_are_stable_renewed :
  let added : List Source := [⟨utf8 "a", utf8 "point(1, 2)"⟩, ⟨utf8 "b", []⟩, ⟨utf8 "a", utf8 "x"⟩]
  added.length < 2 ^ 32
  ∧ (∀ later, (empty.addAll (added ++ later)).1.contents 0 = .ok (utf8 "point(1, 2)"))
  ∧ (empty.addAll added).1.name 2 = .error .unknownId
  := by
  intro added
  have hlength : added.length < 2 ^ 32 := by decide
  obtain ⟨-, -, hanswers, hrejects⟩ := numbers_are_stable added hlength
  refine ⟨hlength, ?_, (hrejects 2 (by decide)).name⟩
  obtain ⟨id, first, hid, -, hfirst, hresponds⟩ := hanswers 2 (by decide)
  obtain rfl : 0 = id := Option.some.inj hid
  obtain rfl : added[0] = first := Option.some.inj hfirst
  intro later
  exact (hresponds later).contents

end Library

end Sketch
