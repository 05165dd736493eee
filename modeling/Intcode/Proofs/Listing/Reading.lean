import Intcode.Proofs.Listing.Layout

/-!
# Reading by layouts

The reader takes as much as it can at every token and never goes back. On a layout it takes exactly
one part after the other, and whatever it has taken is part of a layout.
-/

namespace Intcode.Listing

open Text (isBlank)

variable {cs ds rest : List Char} {v : Int} {vs : List Int} {n : Nat}

theorem value_eq_ofDigitChars (ds : List Char) : value ds = Nat.ofDigitChars 10 ds 0 := by
  rw [Nat.ofDigitChars_eq_foldl]
  rfl

theorem natural?_append (hne : ds ≠ []) (hd : ∀ c ∈ ds, c.isDigit) (hr : Stops Char.isDigit rest) :
    natural? (ds ++ rest) = some (value ds, rest) := by
  unfold natural?
  rw [takeWhile_append hd hr, dropWhile_append hd hr]
  cases ds with
  | nil => exact absurd rfl hne
  | cons d ds => rfl

theorem eq_append_of_natural? (h : natural? cs = some (n, rest)) :
    ∃ ds, ds ≠ [] ∧ (∀ c ∈ ds, c.isDigit) ∧ cs = ds ++ rest ∧ n = value ds ∧
      Stops Char.isDigit rest := by
  unfold natural? at h
  split at h
  · cases h
  · next hne =>
    cases h
    refine ⟨cs.takeWhile Char.isDigit, hne, fun c hc => List.mem_takeWhile_imp hc, ?_, rfl, ?_⟩
    · exact List.takeWhile_append_dropWhile.symm
    · exact stops_dropWhile Char.isDigit cs

theorem integer?_append (i : Literal) (hr : Stops Char.isDigit rest) :
    integer? (i.text ++ rest) = some (i.value, rest) := by
  have hn := natural?_append i.ne_nil i.isDigit hr
  obtain ⟨c, cs, hd, hc⟩ := i.digits_eq_cons
  cases hs : i.sign with
  | plus | minus =>
    simp [Literal.text, hs, Sign.text, integer?, hn, Literal.value, value_eq_ofDigitChars]
  | absent =>
    have hplus : c ≠ '+' := Literal.ne_of_isDigit hc (by decide)
    have hminus : c ≠ '-' := Literal.ne_of_isDigit hc (by decide)
    simp only [Literal.text, hs, Sign.text, List.nil_append, Literal.value,
      ← value_eq_ofDigitChars]
    rw [hd] at hn ⊢
    rw [List.cons_append] at hn ⊢
    unfold integer?
    split
    · next h => exact absurd (List.cons.inj h).1 hminus
    · next h => exact absurd (List.cons.inj h).1 hplus
    · rw [hn]
      rfl

theorem eq_append_of_integer? (h : integer? cs = some (v, rest)) :
    ∃ i : Literal, cs = i.text ++ rest ∧ i.value = v ∧ Stops Char.isDigit rest := by
  unfold integer? at h
  split at h
  all_goals
    obtain ⟨⟨n, r⟩, hn, he⟩ := Option.map_eq_some_iff.mp h
    cases he
    obtain ⟨ds, hne, hd, rfl, rfl, hr⟩ := eq_append_of_natural? hn
    rw [value_eq_ofDigitChars]
  · exact ⟨⟨.minus, ds, hne, hd⟩, rfl, rfl, hr⟩
  · exact ⟨⟨.plus, ds, hne, hd⟩, rfl, rfl, hr⟩
  · exact ⟨⟨.absent, ds, hne, hd⟩, rfl, rfl, hr⟩

theorem first?_append {lead : List Char} (hlead : ∀ c ∈ lead, isBlank c) (i : Literal)
    (hr : Stops Char.isDigit rest) : first? (lead ++ (i.text ++ rest)) = some (i.value, rest) := by
  rw [first?, dropWhile_append hlead (i.stops_isBlank_text rest), integer?_append i hr]

theorem eq_append_of_first? (h : first? cs = some (v, rest)) :
    ∃ lead : List Char, (∀ c ∈ lead, isBlank c) ∧ ∃ i : Literal,
      cs = lead ++ (i.text ++ rest) ∧ i.value = v ∧ Stops Char.isDigit rest := by
  obtain ⟨i, hi, hv, hr⟩ := eq_append_of_integer? h
  refine ⟨cs.takeWhile isBlank, fun c hc => List.mem_takeWhile_imp hc, i, ?_, hv, hr⟩
  rw [← hi, List.takeWhile_append_dropWhile]

theorem IsGap.cases {s : List Char} (h : IsGap s) :
    (∀ c ∈ s, isBlank c) ∨
      ∃ a b, s = a ++ ',' :: b ∧ (∀ c ∈ a, isBlank c) ∧ ∀ c ∈ b, isBlank c := by
  by_cases hcomma : ',' ∈ s
  · right
    obtain ⟨a, b, rfl⟩ := List.append_of_mem hcomma
    obtain ⟨hall, hcount⟩ := h
    simp only [List.count_append, List.count_cons_self] at hcount
    have ha : ',' ∉ a := List.count_eq_zero.mp (by omega)
    have hb : ',' ∉ b := List.count_eq_zero.mp (by omega)
    refine ⟨a, b, rfl, fun c hc => ?_, fun c hc => ?_⟩
    · exact (hall c (by simp [hc])).resolve_right fun he => ha (he ▸ hc)
    · exact (hall c (by simp [hc])).resolve_right fun he => hb (he ▸ hc)
  · left
    intro c hc
    exact (h.1 c hc).resolve_right fun he => hcomma (he ▸ hc)

theorem isGap_of_blank {s : List Char} (h : ∀ c ∈ s, isBlank c) : IsGap s := by
  refine ⟨fun c hc => Or.inl (h c hc), ?_⟩
  have hcomma : ',' ∉ s := fun hc => absurd (h ',' hc) (by decide)
  simp [List.count_eq_zero.mpr hcomma]

theorem isGap_comma {a b : List Char} (ha : ∀ c ∈ a, isBlank c) (hb : ∀ c ∈ b, isBlank c) :
    IsGap (a ++ ',' :: b) := by
  have hca : ',' ∉ a := fun hc => absurd (ha ',' hc) (by decide)
  have hcb : ',' ∉ b := fun hc => absurd (hb ',' hc) (by decide)
  constructor
  · intro c hc
    rcases List.mem_append.mp hc with hc | hc
    · exact Or.inl (ha c hc)
    · rcases List.mem_cons.mp hc with rfl | hc
      · exact Or.inr rfl
      · exact Or.inl (hb c hc)
  · simp [List.count_eq_zero.mpr hca, List.count_eq_zero.mpr hcb]

theorem next?_of_stops (h : Stops (fun c => isBlank c || c == ',') rest) {a : List Char}
    (ha : ∀ c ∈ a, isBlank c) : next? (a ++ rest) = integer? rest := by
  have hblank : Stops isBlank rest := fun c hc => (Bool.or_eq_false_iff.mp (h c hc)).1
  unfold next?
  rw [dropWhile_append ha hblank]
  split
  · next hc =>
    have hcomma := h ',' (by simp)
    cases hcomma
  · rfl

theorem next?_of_comma {a : List Char} (ha : ∀ c ∈ a, isBlank c) :
    next? (a ++ ',' :: rest) = first? rest := by
  have hcomma : Stops isBlank (',' :: rest) := stops_cons.mpr (by decide)
  unfold next?
  rw [dropWhile_append ha hcomma]
  rfl

theorem next?_append (x : Item) (hr : Stops Char.isDigit rest) :
    next? (x.text ++ rest) = some (x.integer.value, rest) := by
  rw [Item.text, List.append_assoc]
  obtain hblank | ⟨a, b, hgap, ha, hb⟩ := x.isGap.cases
  · rw [next?_of_stops (x.integer.stops_text rest) hblank]
    exact integer?_append x.integer hr
  · rw [hgap, List.append_assoc, List.cons_append, next?_of_comma ha]
    exact first?_append hb x.integer hr

theorem eq_append_of_next? (hcs : Stops Char.isDigit cs) (h : next? cs = some (v, rest)) :
    ∃ x : Item, cs = x.text ++ rest ∧ x.integer.value = v ∧ Stops Char.isDigit rest := by
  have hlead : ∀ c ∈ cs.takeWhile isBlank, isBlank c := fun c hc => List.mem_takeWhile_imp hc
  have hsplit := List.takeWhile_append_dropWhile (p := isBlank) (l := cs)
  unfold next? at h
  split at h
  · next r hc =>
    obtain ⟨lead, hb, i, rfl, hv, hr⟩ := eq_append_of_first? h
    have hgap := isGap_comma hlead hb
    refine ⟨⟨cs.takeWhile isBlank ++ ',' :: lead, i, hgap, fun hnil => ?_⟩, ?_, hv, hr⟩
    · simp at hnil
    · rw [hc] at hsplit
      refine hsplit.symm.trans ?_
      simp only [Item.text, List.append_assoc, List.cons_append]
  · obtain ⟨i, hi, hv, hr⟩ := eq_append_of_integer? h
    rw [hi] at hsplit
    refine ⟨⟨cs.takeWhile isBlank, i, isGap_of_blank hlead, fun hnil => ?_⟩, ?_, hv, hr⟩
    · -- A literal without a gap and without a sign would have continued the digits before it.
      intro hs
      obtain ⟨c, ds, hd, hc⟩ := i.digits_eq_cons
      rw [hnil, List.nil_append] at hsplit
      rw [← hsplit, Literal.text, hs, hd] at hcs
      rw [stops_cons.mp hcs] at hc
      cases hc
    · rw [Item.text, List.append_assoc, hsplit]

theorem more_of_next? (h : next? cs = some (v, rest)) :
    more cs = (v :: (more rest).1, (more rest).2) := by
  rw [more]
  split
  · next h' =>
    rw [h] at h'
    cases h'
    rfl
  · next h' =>
    rw [h] at h'
    cases h'

theorem more_of_none (h : next? cs = none) : more cs = ([], cs) := by
  rw [more]
  split
  · next h' =>
    rw [h] at h'
    cases h'
  · rfl

theorem next?_of_blank (h : ∀ c ∈ cs, isBlank c) : next? cs = none := by
  have hs := next?_of_stops (stops_nil (p := fun c => isBlank c || c == ',')) h
  rw [List.append_nil] at hs
  rw [hs]
  rfl

theorem more_append_of_none (xs : List Item) (hstop : Stops Char.isDigit rest)
    (hnext : next? rest = none) :
    more (xs.flatMap Item.text ++ rest) = (xs.map fun x => x.integer.value, rest) := by
  induction xs with
  | nil => exact more_of_none hnext
  | cons x xs ih =>
    have hitems := stops_isDigit_items xs hstop
    rw [List.flatMap_cons, List.append_assoc, more_of_next? (next?_append x hitems), ih]
    rfl

theorem more_append (xs : List Item) (h : ∀ c ∈ rest, isBlank c) :
    more (xs.flatMap Item.text ++ rest) = (xs.map fun x => x.integer.value, rest) :=
  more_append_of_none xs (stops_isDigit_of_blank h) (next?_of_blank h)

theorem eq_append_of_more (hcs : Stops Char.isDigit cs) :
    ∃ xs : List Item, cs = xs.flatMap Item.text ++ (more cs).2 ∧
      xs.map (fun x => x.integer.value) = (more cs).1 := by
  induction hn : cs.length using Nat.strong_induction_on generalizing cs with
  | _ n ih =>
    cases hnext : next? cs with
    | none =>
      rw [more_of_none hnext]
      exact ⟨[], rfl, rfl⟩
    | some found =>
      obtain ⟨v, rest⟩ := found
      obtain ⟨x, hx, hv, hr⟩ := eq_append_of_next? hcs hnext
      have hlt := next?_length_lt hnext
      obtain ⟨xs, hxs, hvs⟩ := ih rest.length (hn ▸ hlt) hr rfl
      rw [more_of_next? hnext]
      refine ⟨x :: xs, ?_, ?_⟩
      · rw [List.flatMap_cons, List.append_assoc, ← hxs]
        exact hx
      · rw [List.map_cons, hv, hvs]

theorem readExpanded_of_none (h : first? cs = none) :
    readExpanded cs = .error ⟨.ofRest cs (cs.dropWhile isBlank), .integer⟩ := by
  simp only [readExpanded, h]

theorem readExpanded_of_some (h : first? cs = some (v, rest)) :
    readExpanded cs = match (more rest).2.dropWhile isBlank with
      | [] => .ok (v :: (more rest).1)
      | last => .error ⟨.ofRest cs last, .endOfText⟩ := by
  cases hend : (more rest).2.dropWhile isBlank <;> simp only [readExpanded, h, hend]

theorem readExpanded_eq_ok_of_some (h : first? cs = some (v, rest)) :
    readExpanded cs = .ok vs ↔ vs = v :: (more rest).1 ∧ ∀ c ∈ (more rest).2, isBlank c := by
  rw [readExpanded_of_some h]
  cases hend : (more rest).2.dropWhile isBlank with
  | nil =>
    have hblank := List.dropWhile_eq_nil_iff.mp hend
    constructor
    · intro h
      cases h
      exact ⟨rfl, hblank⟩
    · rintro ⟨rfl, -⟩
      rfl
  | cons c ds =>
    constructor
    · intro h
      cases h
    · rintro ⟨-, hblank⟩
      rw [List.dropWhile_eq_nil_iff.mpr hblank] at hend
      cases hend

theorem readExpanded_eq_ok_iff : readExpanded cs = .ok vs ↔
    ∃ v rest, first? cs = some (v, rest) ∧ vs = v :: (more rest).1 ∧
      ∀ c ∈ (more rest).2, isBlank c := by
  cases hfirst : first? cs with
  | none =>
    rw [readExpanded_of_none hfirst]
    simp
  | some found =>
    obtain ⟨v, rest⟩ := found
    rw [readExpanded_eq_ok_of_some hfirst]
    constructor
    · rintro ⟨rfl, hblank⟩
      exact ⟨v, rest, rfl, rfl, hblank⟩
    · rintro ⟨_, _, h, rfl, hblank⟩
      cases h
      exact ⟨rfl, hblank⟩

theorem readExpanded_eq_ok_iff_layout :
    readExpanded cs = .ok vs ↔ ∃ l : Layout, l.text = cs ∧ l.values = vs := by
  rw [readExpanded_eq_ok_iff]
  constructor
  · rintro ⟨v, rest, hfirst, rfl, htrail⟩
    obtain ⟨lead, hlead, i, hcs, hv, hr⟩ := eq_append_of_first? hfirst
    obtain ⟨xs, hxs, hvs⟩ := eq_append_of_more hr
    refine ⟨⟨lead, i, xs, (more rest).2, hlead, htrail⟩, ?_, ?_⟩
    · rw [Layout.text, ← hxs, hcs]
    · rw [Layout.values, hv, hvs]
  · rintro ⟨l, rfl, rfl⟩
    have hstop := stops_isDigit_items l.items (stops_isDigit_of_blank l.blank_trail)
    have hmore := more_append l.items l.blank_trail
    refine ⟨l.first.value, _, first?_append l.blank_lead l.first hstop, ?_, ?_⟩
    · rw [hmore]
      rfl
    · rw [hmore]
      exact l.blank_trail

end Intcode.Listing
