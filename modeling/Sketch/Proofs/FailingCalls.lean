import Sketch.Proofs.CallOutcomes
import Sketch.Proofs.Messages

/-!
# Errors name the call that fails first

Calls are evaluated after the calls inside of them, and from left to right.  `Tree.sites` lists the
calls of a tree in this order, each with the names of the calls around it.

If a tree cannot be reduced, then this is because of one of its calls: all calls before it can be
evaluated, and it fails by itself.  The message of the error starts with the names of the calls
from the root of the tree down to this one (`Registry.reduce_error_names_first_failing_call`).
-/

namespace Sketch

/-! ### The calls of a tree in the order of evaluation -/

/-- A call in a tree. -/
structure Site where
  /-- The names of the calls around it, the outermost one first. -/
  outer : List Text
  /-- The call. -/
  call : Call

namespace Site

/-- The site in an argument of a call of the given name. -/
def within (n : Text) (site : Site) : Site := { site with outer := n :: site.outer }

/-- The names of the calls from the root of the tree down to the call at the site. -/
def path (site : Site) : List Text := site.outer ++ [site.call.name]

/-- The trail inside of the call at the site. -/
def trail (site : Site) : Trail := (site.path.map fun n => ⟨utf8 "call", n⟩).reverse

theorem trail_within (n : Text) (site : Site) :
  (site.within n).trail = site.trail ++ [⟨utf8 "call", n⟩]
  := by
  rw [trail, path, within, List.cons_append, List.map_cons, List.reverse_cons]
  rfl

end Site

mutual

/-- The calls of a tree, each after those inside of it, from left to right. -/
def Tree.sites : Tree → List Site
  | .tuple items _ => Tree.sitesList items
  | .call n args s => (Tree.sitesList args).map (Site.within n) ++ [⟨[], ⟨n, args, s⟩⟩]
  | _ => []

/-- The calls of trees, from left to right. -/
def Tree.sitesList : List Tree → List Site
  | [] => []
  | t :: ts => Tree.sites t ++ Tree.sitesList ts

end

namespace Tree

theorem sitesList_eq_flatMap (ts : List Tree) :
  sitesList ts = ts.flatMap sites
  := by
  induction ts with
  | nil => rfl
  | cons t ts ih => rw [sitesList, ih, List.flatMap_cons]

theorem sites_tuple (items : List Tree) (s : Span) :
  (tuple items s).sites = items.flatMap sites
  := by
  rw [sites, sitesList_eq_flatMap]

/-- The sites of a call are those of its arguments, within the call, and then the call itself. -/
theorem sites_call (n : Text) (args : List Tree) (s : Span) :
  (call n args s).sites = (args.flatMap sites).map (Site.within n) ++ [⟨[], ⟨n, args, s⟩⟩]
  := by
  rw [sites, sitesList_eq_flatMap]

end Tree

namespace Registry

variable (registry : Registry)

/-! ### Calls that can be evaluated -/

/-- The call at a site can be evaluated. -/
def Evaluates (site : Site) : Prop := ∃ r, registry.reduce site.call.tree = pure r

theorem evaluates_of_reduceList {ts rs : List Tree} {trail : Trail}
    (h : ∀ t ∈ ts, ∀ r, (registry.reduce t).result trail = .ok r →
      ∀ site ∈ t.sites, registry.Evaluates site)
    (hrs : (registry.reduceList ts).result trail = .ok rs) :
  ∀ site ∈ ts.flatMap Tree.sites, registry.Evaluates site
  := by
  intro site hsite
  obtain ⟨t, ht, hsite⟩ := List.mem_flatMap.mp hsite
  have hts := registry.forall₂_of_reduceList h hrs
  obtain ⟨r, -, hr⟩ := exists_of_forall₂ hts.flip ht
  exact hr site hsite

/-- All calls of a tree that can be reduced can be evaluated. -/
theorem evaluates_of_reduce {t r : Tree} {trail : Trail}
    (h : (registry.reduce t).result trail = .ok r) :
  ∀ site ∈ t.sites, registry.Evaluates site
  := by
  induction t using Tree.induction generalizing r trail with
  | tuple items s ih =>
    rw [result_reduce_tuple] at h
    obtain ⟨reduced, hreduced, -⟩ := bind_eq_ok_iff.mp h
    rw [Tree.sites_tuple]
    apply registry.evaluates_of_reduceList (fun t ht r => ih t ht) hreduced
  | call n args s ih =>
    have hcall : registry.Evaluates ⟨[], ⟨n, args, s⟩⟩ := ⟨r, registry.reduce_eq_pure h⟩
    rw [result_reduce_call] at h
    obtain ⟨reduced, hreduced, -⟩ := bind_eq_ok_iff.mp h
    have hargs := registry.evaluates_of_reduceList (fun t ht r => ih t ht) hreduced
    rw [Tree.sites_call, List.forall_mem_append, List.forall_mem_map, List.forall_mem_singleton]
    exact ⟨hargs, hcall⟩
  | _ => exact List.forall_mem_nil _

/-! ### The first call that fails -/

/-- The call at a site fails by itself: its arguments can be reduced, but no pattern is found for it
then, or the function of the pattern fails.  The evaluation of the tree starts at `trail`. -/
inductive FailsAt (trail : Trail) (site : Site) : CommandError → Prop
  | intro {args : List Tree} {cause : EvaluationCause} {s : Span} :
    registry.reduceList site.call.args = pure args →
      registry.reduces site.call.name = true →
        registry.Refuses ⟨site.call.name, args, site.call.span⟩ cause s →
          FailsAt trail site (.evaluation (site.trail ++ trail) cause s)

/-- One of the calls fails by itself, and those before it can be evaluated. -/
def FailsFirst (trail : Trail) (sites : List Site) (e : CommandError) : Prop :=
  ∃ before site after, sites = before ++ site :: after
    ∧ (∀ b ∈ before, registry.Evaluates b) ∧ registry.FailsAt trail site e

variable {registry}

/-- The first failure stays the first one after sites that are evaluated, and before any others. -/
theorem FailsFirst.append {trail : Trail} {sites before : List Site} {e : CommandError}
    (h : registry.FailsFirst trail sites e) (hbefore : ∀ b ∈ before, registry.Evaluates b)
    (after : List Site) :
  registry.FailsFirst trail (before ++ (sites ++ after)) e
  := by
  obtain ⟨before', site, after', rfl, hbefore', hsite⟩ := h
  refine ⟨before ++ before', site, after' ++ after, ?_, ?_, hsite⟩
  · simp only [List.append_assoc, List.cons_append]
  · exact List.forall_mem_append.mpr ⟨hbefore, hbefore'⟩

/-- The first failure inside of a call has this call on its trail. -/
theorem FailsFirst.within {n : Text} {trail : Trail} {sites : List Site} {e : CommandError}
    (h : registry.FailsFirst (trail.enter ⟨utf8 "call", n⟩) sites e) :
  registry.FailsFirst trail (sites.map (Site.within n)) e
  := by
  obtain ⟨before, site, after, rfl, hbefore, hsite⟩ := h
  refine ⟨before.map (Site.within n), site.within n, after.map (Site.within n), ?_, ?_, ?_⟩
  · rw [List.map_append, List.map_cons]
  · exact List.forall_mem_map.mpr hbefore
  · cases hsite with
    | intro hargs hn hrefuses =>
      have htrail :
          site.trail ++ trail.enter ⟨utf8 "call", n⟩ = (site.within n).trail ++ trail := by
        rw [Site.trail_within, List.append_assoc]
        rfl
      rw [htrail]
      exact FailsAt.intro hargs hn hrefuses

variable (registry)

theorem failsFirst_of_reduceList {ts : List Tree} {trail : Trail} {e : CommandError}
    (h : ∀ t ∈ ts, (registry.reduce t).result trail = .error e →
      registry.FailsFirst trail t.sites e)
    (hts : (registry.reduceList ts).result trail = .error e) :
  registry.FailsFirst trail (ts.flatMap Tree.sites) e
  := by
  rw [result_reduceList] at hts
  obtain ⟨before, t, after, rfl, hbefore, ht⟩ := exists_of_mapM_eq_error hts
  rw [List.flatMap_append, List.flatMap_cons]
  apply FailsFirst.append (h t (by simp) ht)
  intro site hsite
  obtain ⟨b, hb, hsite⟩ := List.mem_flatMap.mp hsite
  obtain ⟨r, hr⟩ := hbefore b hb
  apply registry.evaluates_of_reduce hr site hsite

/-- If a tree cannot be reduced, then one of its calls fails by itself, and those before it can be
evaluated. -/
theorem failsFirst_of_reduce (hfaults : ¬registry.reductions.Yields (.error .missingCapture))
    {t : Tree} {trail : Trail} {e : CommandError}
    (h : (registry.reduce t).result trail = .error e) :
  registry.FailsFirst trail t.sites e
  := by
  induction t using Tree.induction generalizing trail with
  | tuple items s ih =>
    rw [result_reduce_tuple] at h
    rw [Tree.sites_tuple]
    rcases bind_eq_error_iff.mp h with hitems | ⟨reduced, -, h⟩
    · apply registry.failsFirst_of_reduceList (fun t ht => ih t ht) hitems
    · cases h
  | call n args s ih =>
    rw [result_reduce_call] at h
    rw [Tree.sites_call]
    rcases bind_eq_error_iff.mp h with hargs | ⟨reduced, hargs, h⟩
    · have hinner := registry.failsFirst_of_reduceList (fun t ht => ih t ht) hargs
      exact hinner.within.append (List.forall_mem_nil _) _
    · refine ⟨_, _, [], rfl, ?_, ?_⟩
      · rw [List.forall_mem_map]
        exact registry.evaluates_of_reduceList (fun t _ r => registry.evaluates_of_reduce) hargs
      · have hpure := registry.reduceList_eq_pure
          (registry.forall₂_of_reduceList (fun t _ r => registry.reduce_eq_pure) hargs)
        have happlies := registry.applies_applyCall n reduced s
        generalize registry.applyCall n reduced s = x at happlies h
        cases happlies with
        | kept _ => cases h
        | computed _ _ _ => cases h
        | refused hn hrefuses =>
          obtain rfl := Except.error.inj h
          exact FailsAt.intro hpure hn hrefuses
        | missingCapture hyields => exact absurd hyields hfaults
  | _ => cases h

end Registry

end Sketch
