import Intcode.Amplifier.Ordering
import Mathlib.Data.List.Perm.Basic

/-!
# Arrangements

The orderings of a list are its items taken in the orderings of their places. The orderings of the
places are all rearrangements of them in lexicographic order, each of them once.
-/

namespace Intcode.Amplifier

variable {α β : Type} {n : Nat}

/-- The items in these places, one after the other. -/
def arrange (xs : List α) (places : List Nat) : List α := places.filterMap fun i => xs[i]?

section Picks

theorem perm_of_mem_picks {x : α} {rest xs : List α} (h : (x, rest) ∈ picks xs) :
    (x :: rest).Perm xs := by
  induction xs generalizing x rest with
  | nil => cases h
  | cons y ys ih =>
    simp only [picks, List.mem_cons, List.mem_map, Prod.mk.injEq] at h
    obtain ⟨rfl, rfl⟩ | ⟨⟨z, zs⟩, hz, rfl, rfl⟩ := h
    · exact List.Perm.refl _
    · have hperm := ih hz
      exact (List.Perm.swap y z zs).trans (hperm.cons y)

theorem length_of_mem_picks {x : α} {rest xs : List α} (h : (x, rest) ∈ picks xs)
    (hlength : xs.length = n + 1) : rest.length = n := by
  have hl := (perm_of_mem_picks h).length_eq
  rw [List.length_cons, hlength] at hl
  exact Nat.succ.inj hl

theorem exists_mem_picks {x : α} {xs : List α} (h : x ∈ xs) : ∃ rest, (x, rest) ∈ picks xs := by
  induction xs with
  | nil => cases h
  | cons y ys ih =>
    rcases List.mem_cons.mp h with rfl | hx
    · exact ⟨ys, by simp [picks]⟩
    · obtain ⟨rest, hrest⟩ := ih hx
      refine ⟨y :: rest, ?_⟩
      simp only [picks, List.mem_cons, List.mem_map]
      exact Or.inr ⟨(x, rest), hrest, rfl⟩

theorem sublist_of_mem_picks {x : α} {rest xs : List α} (h : (x, rest) ∈ picks xs) :
    rest.Sublist xs := by
  induction xs generalizing x rest with
  | nil => cases h
  | cons y ys ih =>
    simp only [picks, List.mem_cons, List.mem_map, Prod.mk.injEq] at h
    obtain ⟨rfl, rfl⟩ | ⟨⟨z, zs⟩, hz, rfl, rfl⟩ := h
    · exact List.sublist_cons_self x rest
    · exact (ih hz).cons_cons y

theorem map_fst_picks (xs : List α) : (picks xs).map Prod.fst = xs := by
  induction xs with
  | nil => rfl
  | cons x xs ih =>
    have hfst : ((picks xs).map fun p => (p.1, x :: p.2)).map Prod.fst = xs := by
      rw [List.map_map]
      exact ih
    exact congrArg (List.cons x) hfst

theorem picks_map (f : α → β) (xs : List α) :
    picks (xs.map f) = (picks xs).map fun p => (f p.1, p.2.map f) := by
  induction xs with
  | nil => rfl
  | cons x xs ih => simp [picks, ih]

end Picks

theorem orderingsOf_map (f : α → β) (n : Nat) (xs : List α) :
    orderingsOf n (xs.map f) = (orderingsOf n xs).map (List.map f) := by
  induction n generalizing xs with
  | zero => rfl
  | succ n ih =>
    simp [orderingsOf, picks_map, List.flatMap_map, List.map_flatMap, ih, Function.comp_def]

theorem orderings_map (f : α → β) (xs : List α) :
    orderings (xs.map f) = (orderings xs).map (List.map f) := by
  rw [orderings, List.length_map, orderingsOf_map, orderings]

theorem orderings_eq_map_arrange (xs : List α) :
    orderings xs = (orderings (List.range xs.length)).map (arrange xs) := by
  have hitems : xs.map some = (List.range xs.length).map fun i => xs[i]? := by
    apply List.ext_getElem?
    intro i
    by_cases hi : i < xs.length <;> simp [hi]
  have horders := congrArg (fun os => (orderings os).map (List.filterMap id)) hitems
  simp only [orderings_map, List.map_map] at horders
  have hsome : List.filterMap id ∘ List.map some = (id : List α → List α) := by
    funext o
    simp
  have harrange : List.filterMap id ∘ List.map (fun i => xs[i]?) = arrange xs := by
    funext places
    simp [arrange, List.filterMap_map]
  rw [hsome, harrange, List.map_id] at horders
  exact horders

theorem mem_orderingsOf {o xs : List α} (h : xs.length = n) :
    o ∈ orderingsOf n xs ↔ o.Perm xs := by
  induction n generalizing o xs with
  | zero =>
    obtain rfl := List.eq_nil_of_length_eq_zero h
    simp [orderingsOf]
  | succ n ih =>
    simp only [orderingsOf, List.mem_flatMap, List.mem_map]
    constructor
    · rintro ⟨⟨x, rest⟩, hpick, t, ht, rfl⟩
      have hlength := length_of_mem_picks hpick h
      exact (((ih hlength).mp ht).cons x).trans (perm_of_mem_picks hpick)
    · intro hperm
      cases o with
      | nil =>
        have hl := hperm.length_eq
        rw [h] at hl
        cases hl
      | cons x t =>
        obtain ⟨rest, hpick⟩ := exists_mem_picks (hperm.subset List.mem_cons_self)
        have hrest := perm_of_mem_picks hpick
        have hlength := length_of_mem_picks hpick h
        have htail : t.Perm rest := (List.perm_cons x).mp (hperm.trans hrest.symm)
        exact ⟨(x, rest), hpick, t, (ih hlength).mpr htail, rfl⟩

theorem mem_orderings {o xs : List α} : o ∈ orderings xs ↔ o.Perm xs := mem_orderingsOf rfl

theorem pairwise_orderingsOf {xs : List Nat} (n : Nat) (h : xs.Pairwise (· < ·)) :
    (orderingsOf n xs).Pairwise (· < ·) := by
  induction n generalizing xs with
  | zero => exact List.pairwise_singleton _ _
  | succ n ih =>
    rw [orderingsOf, List.pairwise_flatMap]
    constructor
    · rintro ⟨x, rest⟩ hpick
      have hrest := ih (h.sublist (sublist_of_mem_picks hpick))
      rw [List.pairwise_map]
      exact hrest.imp fun hlt => List.cons_lt_cons_iff.mpr (Or.inr ⟨rfl, hlt⟩)
    · have hfirst : (picks xs).Pairwise fun a b => a.1 < b.1 := by
        rw [← List.pairwise_map, map_fst_picks]
        exact h
      refine hfirst.imp fun {a b} hlt u hu v hv => ?_
      obtain ⟨t, -, rfl⟩ := List.mem_map.mp hu
      obtain ⟨t', -, rfl⟩ := List.mem_map.mp hv
      exact List.cons_lt_cons_iff.mpr (Or.inl hlt)

theorem pairwise_orderings_range (n : Nat) :
    (orderings (List.range n)).Pairwise (· < ·) :=
  pairwise_orderingsOf _ List.pairwise_lt_range

theorem exists_places_of_split {xs o : List α} {before after : List (List α)}
    (h : orderings xs = before ++ o :: after) :
    ∃ places, places.Perm (List.range xs.length) ∧ arrange xs places = o ∧
      ∀ earlier, earlier.Perm (List.range xs.length) → earlier < places →
        arrange xs earlier ∈ before := by
  rw [orderings_eq_map_arrange] at h
  obtain ⟨a, rest, hsplit, rfl, hrest⟩ := List.map_eq_append_iff.mp h
  obtain ⟨places, b, rfl, ho, -⟩ := List.map_eq_cons_iff.mp hrest
  have hsorted := pairwise_orderings_range xs.length
  have hmem : ∀ p, p.Perm (List.range xs.length) ↔ p ∈ a ++ places :: b := by
    intro p
    rw [← mem_orderings, hsplit]
  rw [hsplit, List.pairwise_append, List.pairwise_cons] at hsorted
  refine ⟨places, (hmem places).mpr (by simp), ho, fun earlier hearlier hlt => ?_⟩
  rcases List.mem_append.mp ((hmem earlier).mp hearlier) with ha | hb
  · exact List.mem_map_of_mem ha
  · rcases List.mem_cons.mp hb with rfl | hb
    · exact absurd hlt (List.lt_irrefl _)
    · exact absurd hlt (List.lt_asymm (hsorted.2.1.1 earlier hb))

theorem exists_split_of_places {xs : List α} {places : List Nat}
    (h : places.Perm (List.range xs.length)) :
    ∃ before after, orderings xs = before ++ arrange xs places :: after ∧
      ∀ o ∈ before, ∃ earlier, earlier.Perm (List.range xs.length) ∧ earlier < places ∧
        arrange xs earlier = o := by
  obtain ⟨a, b, hsplit⟩ := List.append_of_mem (mem_orderings.mpr h)
  have hsorted := pairwise_orderings_range xs.length
  rw [hsplit, List.pairwise_append] at hsorted
  refine ⟨a.map (arrange xs), b.map (arrange xs), ?_, fun o ho => ?_⟩
  · rw [orderings_eq_map_arrange, hsplit, List.map_append, List.map_cons]
  · obtain ⟨earlier, hearlier, rfl⟩ := List.mem_map.mp ho
    have hmem : earlier ∈ orderings (List.range xs.length) := by
      rw [hsplit]
      exact List.mem_append_left _ hearlier
    exact ⟨earlier, mem_orderings.mp hmem, hsorted.2.2 earlier hearlier places (by simp), rfl⟩

end Intcode.Amplifier
