import Intcode.Proofs.Listing.Grammar

/-!
# Mistakes in listings

A text that is refused begins with a listing, up to something that no integer begins with, or it has
nothing but blanks in front of that. Main statement: the reader puts the mistake at the end of the
longest beginning of the text that is a listing itself; if no beginning is one, it puts the mistake
at the first character that is not blank.
-/

namespace Intcode

namespace Text.Place

/-- The line and the column of position `p` of a text, told from its line feeds. -/
structure Marks (place : Place) (text : List Char) (p : ℕ) : Prop where
  line : place.line = 1 + (text.take p).count '\n'
  column : ∀ j < p, text[j]? = some '\n' → '\n' ∉ (text.take p).drop (j + 1) →
    place.column = p - j
  firstLine : '\n' ∉ text.take p → place.column = p + 1

theorem after_newline (a b : List Char) :
    after (a ++ '\n' :: b) = ⟨(after b).line + 1 + a.count '\n', (after b).column⟩ := by
  have hcolumn : (a ++ '\n' :: b).reverse.takeWhile (· != '\n') =
      b.reverse.takeWhile (· != '\n') := by
    rw [List.reverse_append, List.reverse_cons, List.append_assoc, List.takeWhile_append]
    split
    · next h =>
      have hall := (List.takeWhile_prefix (· != '\n')).eq_of_length h
      rw [hall]
      simp
    · rfl
  have hline : (a ++ '\n' :: b).count '\n' + 1 = b.count '\n' + 1 + 1 + a.count '\n' := by
    rw [List.count_append, List.count_cons_self]
    omega
  rw [after, hcolumn, hline]
  rfl

theorem ofRest_append (a b : List Char) : ofRest (a ++ b) b = after a := by
  rw [ofRest, List.length_append, Nat.add_sub_cancel_right, List.take_left]

end Text.Place

namespace Listing

open Text (Place isBlank)

variable {cs rest : List Char} {place : Place}

section Extension

def Literal.extend (i : Literal) (r : List Char) : Literal where
  sign := i.sign
  digits := i.digits ++ r.takeWhile Char.isDigit
  ne_nil := List.append_ne_nil_of_left_ne_nil i.ne_nil _
  isDigit := by
    intro c hc
    rcases List.mem_append.mp hc with hc | hc
    · exact i.isDigit c hc
    · exact List.mem_takeWhile_imp hc

theorem Literal.text_extend (i : Literal) (r : List Char) :
    (i.extend r).text ++ r.dropWhile Char.isDigit = i.text ++ r := by
  have hdigits := List.takeWhile_append_dropWhile (p := Char.isDigit) (l := r)
  simp only [text, extend, List.append_assoc]
  rw [hdigits]

theorem integer?_text_append (i : Literal) (r : List Char) :
    integer? (i.text ++ r) = some ((i.extend r).value, r.dropWhile Char.isDigit) := by
  rw [← i.text_extend r]
  exact integer?_append _ (stops_dropWhile _ r)

end Extension

structure Stuck (rest : List Char) : Prop where
  ne_nil : rest ≠ []
  stops : Stops isBlank rest
  next : next? rest = none

theorem next?_dropWhile (cs : List Char) : next? (cs.dropWhile isBlank) = next? cs := by
  unfold next?
  rw [dropWhile_of_stops (stops_dropWhile isBlank cs)]

theorem next?_more (cs : List Char) : next? (more cs).2 = none := by
  induction hn : cs.length using Nat.strong_induction_on generalizing cs with
  | _ n ih =>
    cases hnext : next? cs with
    | none => rw [more_of_none hnext, hnext]
    | some found =>
      rw [more_of_next? hnext]
      exact ih found.2.length (hn ▸ next?_length_lt hnext) found.2 rfl

theorem Stuck.stops_isDigit (h : Stuck rest) {trail : List Char} (htrail : ∀ c ∈ trail, isBlank c) :
    Stops Char.isDigit (trail ++ rest) := by
  cases trail with
  | cons c trail =>
    have hc : Stops Char.isDigit [c] := stops_isDigit_of_blank (by simp [htrail c])
    exact stops_cons.mpr (stops_cons.mp hc)
  | nil =>
    -- A digit would be a literal of its own, and that would be read.
    intro c hc
    rw [Bool.eq_false_iff]
    intro hdigit
    obtain ⟨tail, rfl⟩ := List.head?_eq_some_iff.mp hc
    let i : Literal := ⟨.absent, [c], by simp, by simpa using hdigit⟩
    have hnext : next? (i.text ++ tail) = _ :=
      (next?_of_stops (a := []) (i.stops_text tail) (by simp)).trans (integer?_text_append i tail)
    cases hnext.symm.trans h.next

theorem readExpanded_stuck (l : Layout) (h : Stuck rest) :
    readExpanded (l.text ++ rest) = .error ⟨.after l.text, .endOfText⟩ := by
  have hstop := h.stops_isDigit l.blank_trail
  have hskip := dropWhile_append l.blank_trail h.stops
  have hnext : next? (l.trail ++ rest) = none := by
    rw [← next?_dropWhile, hskip, h.next]
  have hfirst := first?_append l.blank_lead l.first (stops_isDigit_items l.items hstop)
  have htext : l.text ++ rest =
      l.lead ++ (l.first.text ++ (l.items.flatMap Item.text ++ (l.trail ++ rest))) := by
    simp only [Layout.text, List.append_assoc]
  rw [← htext] at hfirst
  rw [readExpanded_of_some hfirst, more_append_of_none l.items hstop hnext, hskip]
  obtain ⟨c, last, rfl⟩ := List.exists_cons_of_ne_nil h.ne_nil
  show Except.error _ = _
  rw [Place.ofRest_append]

theorem exists_stuck {v : ℤ} (hfirst : first? cs = some (v, rest))
    (hend : (more rest).2.dropWhile isBlank ≠ []) :
    ∃ l : Layout, cs = l.text ++ (more rest).2.dropWhile isBlank ∧
      Stuck ((more rest).2.dropWhile isBlank) := by
  obtain ⟨lead, hlead, i, rfl, -, hr⟩ := eq_append_of_first? hfirst
  obtain ⟨xs, hxs, -⟩ := eq_append_of_more hr
  have htrail : ∀ c ∈ (more rest).2.takeWhile isBlank, isBlank c :=
    fun c hc => List.mem_takeWhile_imp hc
  refine ⟨⟨lead, i, xs, (more rest).2.takeWhile isBlank, hlead, htrail⟩, ?_, hend, ?_, ?_⟩
  · simp only [Layout.text, List.append_assoc, List.takeWhile_append_dropWhile]
    rw [← hxs]
  · exact stops_dropWhile isBlank _
  · rw [next?_dropWhile, next?_more]

theorem readExpanded_eq_endOfText_iff : readExpanded cs = .error ⟨place, .endOfText⟩ ↔
    ∃ (l : Layout) (rest : List Char), cs = l.text ++ rest ∧ Stuck rest ∧ place = .after l.text := by
  constructor
  · intro h
    cases hfirst : first? cs with
    | none =>
      rw [readExpanded_of_none hfirst] at h
      cases h
    | some found =>
      rw [readExpanded_of_some hfirst] at h
      split at h
      · cases h
      · next hne =>
        cases h
        obtain ⟨l, htext, hstuck⟩ := exists_stuck hfirst hne
        refine ⟨l, _, htext, hstuck, ?_⟩
        rw [htext, Place.ofRest_append]
  · rintro ⟨l, rest, rfl, hstuck, rfl⟩
    exact readExpanded_stuck l hstuck

end Listing

end Intcode
