import Intcode.Amplifier.Phases
import Intcode.Proofs.Listing.Grammar

/-!
# Phase settings that are listings

Phase settings are split at their commas before a numeral is read, a listing is read from token to
token and needs no commas. Neither accepts all that the other one does. Main statement: phase
settings are read from a listing exactly if a comma stands between every two of its integers, and
then they are the integers of the listing.
-/

namespace Intcode

open Text (isBlank isSpace decimalDigit?)
open Listing (Stops Literal Item Layout Sign)

namespace Text.Numeral

variable {p : Char → Bool} {lead body rest ds : List Char} {c : Char}

theorem trim_append (hlead : ∀ c ∈ lead, p c) (hfirst : Stops p (body ++ rest))
    (hlast : Stops p body.reverse) :
    trim p (lead ++ (body ++ rest)) = body ++ (rest.reverse.dropWhile p).reverse := by
  rw [trim, Listing.dropWhile_append hlead hfirst, List.reverse_append, List.dropWhile_append]
  split
  · next hempty =>
    rw [List.isEmpty_iff.mp hempty, Listing.dropWhile_of_stops hlast, List.reverse_reverse,
      List.reverse_nil, List.append_nil]
  · rw [List.reverse_append, List.reverse_reverse]

theorem digits_cons_of_isDigit (h : c.isDigit) (n : Nat) (cs : List Char) :
    digits n (c :: cs) = digits (10 * n + (c.toNat - '0'.toNat)) cs := by
  have hne : c ≠ '_' := Literal.ne_of_isDigit h (by decide)
  rw [digits, decimalDigit?_of_isDigit h]
  intro c' cs' hc
  exact absurd hc hne

theorem digits_append (hd : ∀ c ∈ ds, c.isDigit) (n : Nat) (rest : List Char) :
    digits n (ds ++ rest) = digits (Nat.ofDigitChars 10 ds n) rest := by
  rw [Nat.ofDigitChars_eq_foldl]
  induction ds generalizing n with
  | nil => rfl
  | cons d ds ih =>
    rw [List.cons_append, digits_cons_of_isDigit (hd d (by simp)),
      ih fun c hc => hd c (List.mem_cons_of_mem d hc)]
    rfl

theorem magnitude?_append (hne : ds ≠ []) (hd : ∀ c ∈ ds, c.isDigit) (rest : List Char) :
    magnitude? (ds ++ rest) = digits (Nat.ofDigitChars 10 ds 0) rest := by
  obtain ⟨c, cs, rfl⟩ := List.exists_cons_of_ne_nil hne
  have hc : c.isDigit := hd c List.mem_cons_self
  have hdigits := digits_append hd 0 rest
  rw [List.cons_append, digits_cons_of_isDigit hc, Nat.mul_zero, Nat.zero_add] at hdigits
  rw [← hdigits, List.cons_append, magnitude?, decimalDigit?_of_isDigit hc]

theorem digits_of_foreign (hc : decimalDigit? c = none) (hne : c ≠ '_') (n : Nat)
    (cs : List Char) : digits n (c :: cs) = none := by
  rw [digits, hc]
  intro c' cs' h
  exact absurd h hne

theorem signed?_text_append (i : Literal) (rest : List Char) :
    ∃ f : Nat → Int, signed? (i.text ++ rest) =
      (digits (Nat.ofDigitChars 10 i.digits 0) rest).map f ∧
      f (Nat.ofDigitChars 10 i.digits 0) = i.value := by
  have hmagnitude := magnitude?_append i.ne_nil i.isDigit rest
  obtain ⟨c, cs, hd, hc⟩ := i.digits_eq_cons
  cases hs : i.sign with
  | plus =>
    refine ⟨Int.ofNat, ?_, by simp [Literal.value, hs]⟩
    rw [← hmagnitude, Literal.text, hs]
    rfl
  | minus =>
    refine ⟨fun n => -(n : Int), ?_, by simp [Literal.value, hs]⟩
    rw [← hmagnitude, Literal.text, hs]
    show signed? ('-' :: (i.digits ++ rest)) = _
    rw [signed?]
    cases magnitude? (i.digits ++ rest) <;> rfl
  | absent =>
    refine ⟨Int.ofNat, ?_, by simp [Literal.value, hs]⟩
    have hplus : c ≠ '+' := Literal.ne_of_isDigit hc (by decide)
    have hminus : c ≠ '-' := Literal.ne_of_isDigit hc (by decide)
    rw [← hmagnitude, Literal.text, hs, Sign.text, List.nil_append, hd, List.cons_append]
    unfold signed?
    split
    · next h => exact absurd (List.cons.inj h).1 hminus
    · next h => exact absurd (List.cons.inj h).1 hplus
    · rfl

end Text.Numeral

namespace Listing

theorem Literal.stops_isSpace_text (i : Literal) (rest : List Char) :
    Stops isSpace (i.text ++ rest) := by
  obtain ⟨c, cs, hd, hc⟩ := i.digits_eq_cons
  cases hs : i.sign with
  | absent => simpa [text, hs, hd, Sign.text, stops_cons] using Text.isSpace_of_isDigit hc
  | plus | minus =>
    rw [text, hs]
    exact stops_cons.mpr (by decide)

theorem Literal.stops_isSpace_reverse (i : Literal) (before : List Char) :
    Stops isSpace (before ++ i.text).reverse := by
  obtain ⟨c, cs, hc⟩ := List.exists_cons_of_ne_nil (mt List.reverse_eq_nil_iff.mp i.ne_nil)
  have hdigit : c.isDigit := i.isDigit c (List.mem_reverse.mp (hc ▸ List.mem_cons_self))
  rw [List.reverse_append, text, List.reverse_append, hc]
  exact stops_cons.mpr (Text.isSpace_of_isDigit hdigit)

theorem Item.exists_foreign (x : Item) (h : ∀ c ∈ x.gap, isBlank c) (rest : List Char) :
    ∃ c cs, x.text ++ rest = c :: cs ∧ decimalDigit? c = none ∧ c ≠ '_' := by
  cases hg : x.gap with
  | cons c cs =>
    have hc := h c (by simp [hg])
    refine ⟨c, cs ++ (x.integer.text ++ rest), by simp [text, hg], ?_⟩
    simp only [isBlank, Bool.or_eq_true, beq_iff_eq] at hc
    rcases hc with ((rfl | rfl) | rfl) | rfl <;> decide
  | nil =>
    cases hs : x.integer.sign with
    | absent => exact absurd hs (x.apart hg)
    | plus =>
      refine ⟨'+', x.integer.digits ++ rest, ?_, by decide⟩
      simp [text, hg, Literal.text, hs, Sign.text]
    | minus =>
      refine ⟨'-', x.integer.digits ++ rest, ?_, by decide⟩
      simp [text, hg, Literal.text, hs, Sign.text]

variable {lead trail : List Char} {items : List Item}

theorem Literal.read?_text (i : Literal) (hlead : ∀ c ∈ lead, isBlank c)
    (htrail : ∀ c ∈ trail, isBlank c) :
    Text.Numeral.read? (lead ++ (i.text ++ trail)) = some i.value := by
  have hspace : ∀ c ∈ lead, isSpace c := fun c hc => Text.isSpace_of_isBlank (hlead c hc)
  have htrim := Text.Numeral.trim_append hspace (i.stops_isSpace_text trail)
    (i.stops_isSpace_reverse [])
  have hend : trail.reverse.dropWhile isSpace = [] := by
    rw [List.dropWhile_eq_nil_iff]
    exact fun c hc => Text.isSpace_of_isBlank (htrail c (List.mem_reverse.mp hc))
  obtain ⟨f, hsigned, hvalue⟩ := Text.Numeral.signed?_text_append i []
  rw [Text.Numeral.read?, htrim, hend, List.reverse_nil, hsigned, Text.Numeral.digits,
    Option.map_some, hvalue]

theorem Literal.read?_text_item (i : Literal) (hlead : ∀ c ∈ lead, isBlank c) {x : Item}
    (hx : ∀ c ∈ x.gap, isBlank c) (rest : List Char) :
    Text.Numeral.read? (lead ++ (i.text ++ (x.text ++ rest))) = none := by
  have hspace : ∀ c ∈ lead, isSpace c := fun c hc => Text.isSpace_of_isBlank (hlead c hc)
  have hfirst := i.stops_isSpace_text (x.text ++ rest)
  have hlast := x.integer.stops_isSpace_reverse (i.text ++ x.gap)
  rw [← List.append_assoc] at hfirst
  rw [List.append_assoc, ← Item.text] at hlast
  have htrim := Text.Numeral.trim_append hspace hfirst hlast
  rw [List.append_assoc, List.append_assoc] at htrim
  obtain ⟨f, hsigned, -⟩ := Text.Numeral.signed?_text_append i
    (x.text ++ (rest.reverse.dropWhile isSpace).reverse)
  obtain ⟨c, cs, hnext, hdigit, hunderscore⟩ := x.exists_foreign hx
    (rest.reverse.dropWhile isSpace).reverse
  rw [Text.Numeral.read?, htrim, hsigned, hnext, Text.Numeral.digits_of_foreign hdigit hunderscore]
  rfl

theorem comma_not_mem_of_blank (h : ∀ c ∈ lead, isBlank c) : ',' ∉ lead :=
  fun hc => absurd (h ',' hc) (by decide)

theorem Literal.comma_not_mem (i : Literal) : ',' ∉ i.text := by
  intro hc
  rcases List.mem_append.mp hc with hsign | hdigit
  · cases hs : i.sign <;> simp [hs, Sign.text] at hsign
  · exact absurd (i.isDigit ',' hdigit) (by decide)

theorem mapM_fields_text (i : Literal) (hlead : ∀ c ∈ lead, isBlank c)
    (htrail : ∀ c ∈ trail, isBlank c) :
    (Text.fields ',' (lead ++ (i.text ++ (items.flatMap Item.text ++ trail)))).mapM
        Text.Numeral.read? =
      if ∀ x ∈ items, ',' ∈ x.gap then
        some (i.value :: items.map fun x => x.integer.value)
      else none := by
  induction items generalizing lead i with
  | nil =>
    have hfield : ',' ∉ lead ++ (i.text ++ trail) := by
      simp [i.comma_not_mem, comma_not_mem_of_blank hlead, comma_not_mem_of_blank htrail]
    rw [List.flatMap_nil, List.nil_append, Text.fields_of_not_mem hfield, List.mapM_cons,
      i.read?_text hlead htrail]
    simp
  | cons x items ih =>
    obtain hblank | ⟨a, b, hgap, ha, hb⟩ := x.isGap.cases
    · -- Two literals are in the first field, whatever else is.
      have hnone : ',' ∉ x.gap := comma_not_mem_of_blank hblank
      have hfield : ',' ∉ lead ++ (i.text ++ x.text) := by
        simp [Item.text, hnone, i.comma_not_mem, x.integer.comma_not_mem,
          comma_not_mem_of_blank hlead]
      have hsplit := Text.fields_append hfield (items.flatMap Item.text ++ trail)
      simp only [List.append_assoc] at hsplit
      rw [List.flatMap_cons, List.append_assoc, hsplit]
      cases hrest : Text.fields ',' (items.flatMap Item.text ++ trail) with
      | nil => exact absurd hrest (Text.fields_ne_nil _ _)
      | cons field others =>
        rw [List.modifyHead_cons, List.mapM_cons, i.read?_text_item hlead hblank, if_neg]
        · rfl
        · exact fun h => hnone (h x List.mem_cons_self)
    · have hfield : ',' ∉ lead ++ (i.text ++ a) := by
        simp [i.comma_not_mem, comma_not_mem_of_blank hlead, comma_not_mem_of_blank ha]
      have hsplit := Text.fields_append_separator hfield
        (b ++ (x.integer.text ++ (items.flatMap Item.text ++ trail)))
      simp only [List.append_assoc] at hsplit
      simp only [List.flatMap_cons, Item.text, hgap, List.append_assoc, List.cons_append]
      rw [hsplit, List.mapM_cons, i.read?_text hlead ha, ih x.integer hb]
      have hitems : (∀ y ∈ x :: items, ',' ∈ y.gap) ↔ ∀ y ∈ items, ',' ∈ y.gap := by simp [hgap]
      by_cases h : ∀ y ∈ items, ',' ∈ y.gap
      · rw [if_pos h, if_pos (hitems.mpr h)]
        rfl
      · rw [if_neg h, if_neg (mt hitems.mp h)]
        rfl

/-- A listing in which a comma stands between every two integers that follow each other. -/
def CommaSeparated (text : List Char) : Prop :=
  ∃ l : Layout, l.text = text ∧ ∀ x ∈ l.items, ',' ∈ x.gap

theorem Layout.commaSeparated_text_iff (l : Layout) :
    CommaSeparated l.text ↔ ∀ x ∈ l.items, ',' ∈ x.gap := by
  constructor
  · rintro ⟨l', htext, h⟩
    rw [← Layout.text_injective htext]
    exact h
  · intro h
    exact ⟨l, rfl, h⟩

end Listing

namespace Amplifier

/-- Of the texts that are listings, those can be read as phase settings that have a comma between
every two integers, and both readers find the same integers. -/
theorem readPhases?_of_listing (text : String) (vs : List Int)
    (h : Listing.read text.toList = .ok vs) :
    (∀ ws, readPhases? text = some ws → ws = vs) ∧
      ((∃ ws, readPhases? text = some ws) ↔ Listing.CommaSeparated text.toList) := by
  obtain ⟨l, hl, rfl⟩ := Listing.read_eq_ok_iff.mp h
  have hread : readPhases? text = if ∀ x ∈ l.items, ',' ∈ x.gap then some l.values else none := by
    rw [readPhases?, ← hl]
    exact Listing.mapM_fields_text l.first l.blank_lead l.blank_trail
  rw [← hl, l.commaSeparated_text_iff, hread]
  split
  · next hcomma =>
    constructor
    · intro ws hws
      cases hws
      rfl
    · exact ⟨fun _ => hcomma, fun _ => ⟨_, rfl⟩⟩
  · next hcomma =>
    constructor
    · intro ws hws
      cases hws
    · constructor
      · rintro ⟨ws, hws⟩
        cases hws
      · intro h
        exact absurd h hcomma

theorem readPhases?_of_listing_signed :
    Listing.CommaSeparated " +1\t,\n-02,3\r".toList ∧
      (∀ ws, readPhases? " +1\t,\n-02,3\r" = some ws → ws = [1, -2, 3]) ∧
      Listing.read "4,5 6".toList = .ok [4, 5, 6] ∧ ¬ Listing.CommaSeparated "4,5 6".toList := by
  have hcommas : Listing.read " +1\t,\n-02,3\r".toList = .ok [1, -2, 3] := by decide +kernel
  have hblank : Listing.read "4,5 6".toList = .ok [4, 5, 6] := by decide +kernel
  have hread : readPhases? " +1\t,\n-02,3\r" = some [1, -2, 3] := by decide +kernel
  have hmiss : readPhases? "4,5 6" = none := by decide +kernel
  obtain ⟨hsame, hiff⟩ := readPhases?_of_listing _ _ hcommas
  refine ⟨hiff.mp ⟨_, hread⟩, hsame, hblank, fun h => ?_⟩
  obtain ⟨ws, hws⟩ := (readPhases?_of_listing _ _ hblank).2.mpr h
  rw [hmiss] at hws
  cases hws

end Amplifier

end Intcode
