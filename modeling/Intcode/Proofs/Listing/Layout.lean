import Intcode.Listing
import Mathlib.Data.List.TakeWhile

/-!
# Layouts of listings

A listing taken apart: blanks, a first integer, further integers with a gap before each, blanks.
Integers are separated well enough for the parts to be seen in the text, so no text has two layouts.
-/

namespace Intcode.Listing

open Text (isBlank)

def Stops (p : Char → Bool) (cs : List Char) : Prop := ∀ c ∈ cs.head?, p c = false

section Stops

variable {p : Char → Bool} {a b r s : List Char} {c : Char}

theorem stops_nil : Stops p [] := by
  simp [Stops]

theorem stops_cons : Stops p (c :: s) ↔ p c = false := by
  simp [Stops]

theorem takeWhile_of_stops (h : Stops p s) : s.takeWhile p = [] := by
  cases s with
  | nil => rfl
  | cons c s => simp [stops_cons.mp h]

theorem dropWhile_of_stops (h : Stops p s) : s.dropWhile p = s := by
  cases s with
  | nil => rfl
  | cons c s => simp [stops_cons.mp h]

theorem stops_dropWhile (p : Char → Bool) (s : List Char) : Stops p (s.dropWhile p) := by
  intro c hc
  have h := List.head?_dropWhile_not p s
  rw [Option.mem_def.mp hc] at h
  exact h

theorem takeWhile_append (ha : ∀ c ∈ a, p c) (hs : Stops p s) : (a ++ s).takeWhile p = a := by
  rw [List.takeWhile_append_of_pos ha, takeWhile_of_stops hs, List.append_nil]

theorem dropWhile_append (ha : ∀ c ∈ a, p c) (hs : Stops p s) : (a ++ s).dropWhile p = s := by
  rw [List.dropWhile_append_of_pos ha, dropWhile_of_stops hs]

theorem append_inj_of_stops (ha : ∀ c ∈ a, p c) (hb : ∀ c ∈ b, p c) (hr : Stops p r)
    (hs : Stops p s) (h : a ++ r = b ++ s) : a = b ∧ r = s := by
  have htake := congrArg (List.takeWhile p) h
  have hdrop := congrArg (List.dropWhile p) h
  rw [takeWhile_append ha hr, takeWhile_append hb hs] at htake
  rw [dropWhile_append ha hr, dropWhile_append hb hs] at hdrop
  exact ⟨htake, hdrop⟩

end Stops

inductive Sign where
  | absent
  | plus
  | minus
deriving DecidableEq

def Sign.text : Sign → List Char
  | absent => []
  | plus => ['+']
  | minus => ['-']

def Sign.ofText : List Char → Sign
  | '+' :: _ => plus
  | '-' :: _ => minus
  | _ => absent

@[ext]
structure Literal where
  sign : Sign
  digits : List Char
  ne_nil : digits ≠ []
  isDigit : ∀ c ∈ digits, c.isDigit

namespace Literal

def text (i : Literal) : List Char := i.sign.text ++ i.digits

def value (i : Literal) : Int :=
  match i.sign with
  | .absent | .plus => Nat.ofDigitChars 10 i.digits 0
  | .minus => -(Nat.ofDigitChars 10 i.digits 0 : Int)

theorem isBlank_of_isDigit {c : Char} (h : c.isDigit) : isBlank c = false := by
  rw [Bool.eq_false_iff]
  intro hc
  simp only [isBlank, Bool.or_eq_true, beq_iff_eq] at hc
  rcases hc with ((rfl | rfl) | rfl) | rfl <;> exact absurd h (by decide)

theorem ne_of_isDigit {c d : Char} (h : c.isDigit) (hd : d.isDigit = false) : c ≠ d := by
  rintro rfl
  rw [h] at hd
  cases hd

theorem digits_eq_cons (i : Literal) : ∃ c cs, i.digits = c :: cs ∧ c.isDigit := by
  cases hd : i.digits with
  | nil => exact absurd hd i.ne_nil
  | cons c cs => exact ⟨c, cs, rfl, i.isDigit c (by simp [hd])⟩

theorem stops_text (i : Literal) (rest : List Char) :
    Stops (fun c => isBlank c || c == ',') (i.text ++ rest) := by
  obtain ⟨c, cs, hd, hc⟩ := i.digits_eq_cons
  have hcomma : c ≠ ',' := ne_of_isDigit hc (by decide)
  cases hs : i.sign with
  | absent => simp [text, hs, hd, Sign.text, stops_cons, isBlank_of_isDigit hc, hcomma]
  | plus | minus => simp [text, hs, Sign.text, stops_cons, isBlank]

theorem stops_isBlank_text (i : Literal) (rest : List Char) : Stops isBlank (i.text ++ rest) := by
  intro c hc
  have h := i.stops_text rest c hc
  exact (Bool.or_eq_false_iff.mp h).1

theorem ofText_text (i : Literal) (rest : List Char) : Sign.ofText (i.text ++ rest) = i.sign := by
  obtain ⟨c, cs, hd, hc⟩ := i.digits_eq_cons
  cases hs : i.sign with
  | plus | minus => simp [text, hs, Sign.text, Sign.ofText]
  | absent =>
    have hplus : c ≠ '+' := ne_of_isDigit hc (by decide)
    have hminus : c ≠ '-' := ne_of_isDigit hc (by decide)
    simp [text, hs, hd, Sign.text, Sign.ofText, hplus, hminus]

theorem append_inj {i j : Literal} {r s : List Char} (hr : Stops Char.isDigit r)
    (hs : Stops Char.isDigit s) (h : i.text ++ r = j.text ++ s) : i = j ∧ r = s := by
  have hsign := congrArg Sign.ofText h
  rw [ofText_text, ofText_text] at hsign
  simp only [text, hsign, List.append_assoc, List.append_cancel_left_eq] at h
  obtain ⟨hdigits, hrest⟩ := append_inj_of_stops i.isDigit j.isDigit hr hs h
  exact ⟨Literal.ext hsign hdigits, hrest⟩

end Literal

/-- Blanks with at most one comma among them. -/
def IsGap (s : List Char) : Prop := (∀ c ∈ s, isBlank c ∨ c = ',') ∧ s.count ',' ≤ 1

@[ext]
structure Item where
  gap : List Char
  integer : Literal
  isGap : IsGap gap
  apart : gap = [] → integer.sign ≠ .absent

def Item.text (x : Item) : List Char := x.gap ++ x.integer.text

@[ext]
structure Layout where
  lead : List Char
  first : Literal
  items : List Item
  trail : List Char
  blank_lead : ∀ c ∈ lead, isBlank c
  blank_trail : ∀ c ∈ trail, isBlank c

namespace Layout

def text (l : Layout) : List Char :=
  l.lead ++ (l.first.text ++ (l.items.flatMap Item.text ++ l.trail))

def values (l : Layout) : List Int := l.first.value :: l.items.map fun x => x.integer.value

end Layout

section Items

variable {xs ys : List Item} {r s : List Char}

theorem stops_isDigit_of_blank (h : ∀ c ∈ s, isBlank c) : Stops Char.isDigit s := by
  intro c hc
  have hblank := h c (List.mem_of_mem_head? hc)
  rw [Bool.eq_false_iff]
  intro hdigit
  rw [Literal.isBlank_of_isDigit hdigit] at hblank
  cases hblank

theorem Item.stops_isDigit_text (x : Item) (rest : List Char) :
    Stops Char.isDigit (x.text ++ rest) := by
  cases hg : x.gap with
  | nil =>
    cases hs : x.integer.sign with
    | absent => exact absurd hs (x.apart hg)
    | plus | minus => simp [text, hg, Literal.text, hs, Sign.text, stops_cons]
  | cons c cs =>
    have hc := x.isGap.1 c (by simp [hg])
    simp only [text, hg, List.cons_append, stops_cons]
    rcases hc with hblank | rfl
    · exact stops_cons.mp (stops_isDigit_of_blank (s := [c]) (by simpa using hblank))
    · decide

theorem stops_isDigit_items (xs : List Item) (h : Stops Char.isDigit s) :
    Stops Char.isDigit (xs.flatMap Item.text ++ s) := by
  cases xs with
  | nil => exact h
  | cons x xs =>
    rw [List.flatMap_cons, List.append_assoc]
    exact x.stops_isDigit_text _

theorem Item.append_inj {x y : Item} (hr : Stops Char.isDigit r) (hs : Stops Char.isDigit s)
    (h : x.text ++ r = y.text ++ s) : x = y ∧ r = s := by
  simp only [text, List.append_assoc] at h
  have hgap : ∀ {g : List Char}, IsGap g → ∀ c ∈ g, (isBlank c || c == ',') = true := by
    intro g hg c hc
    simpa using hg.1 c hc
  obtain ⟨hgaps, hrest⟩ := append_inj_of_stops (hgap x.isGap) (hgap y.isGap)
    (x.integer.stops_text r) (y.integer.stops_text s) h
  obtain ⟨hinteger, hend⟩ := Literal.append_inj hr hs hrest
  exact ⟨Item.ext hgaps hinteger, hend⟩

theorem Item.text_append_ne (x : Item) (h : ∀ c ∈ s, isBlank c) : x.text ++ r ≠ s := by
  rintro rfl
  obtain ⟨c, cs, hd, hc⟩ := x.integer.digits_eq_cons
  have hblank := h c (by simp [text, Literal.text, hd])
  rw [Literal.isBlank_of_isDigit hc] at hblank
  cases hblank

theorem items_inj (hr : ∀ c ∈ r, isBlank c) (hs : ∀ c ∈ s, isBlank c)
    (h : xs.flatMap Item.text ++ r = ys.flatMap Item.text ++ s) : xs = ys ∧ r = s := by
  induction xs generalizing ys with
  | nil =>
    cases ys with
    | nil => exact ⟨rfl, h⟩
    | cons y ys =>
      rw [List.flatMap_cons, List.append_assoc] at h
      exact absurd h.symm (y.text_append_ne hr)
  | cons x xs ih =>
    cases ys with
    | nil =>
      rw [List.flatMap_cons, List.append_assoc] at h
      exact absurd h (x.text_append_ne hs)
    | cons y ys =>
      simp only [List.flatMap_cons, List.append_assoc] at h
      have hstop := stops_isDigit_items xs (stops_isDigit_of_blank hr)
      have hstop' := stops_isDigit_items ys (stops_isDigit_of_blank hs)
      obtain ⟨rfl, hrest⟩ := Item.append_inj hstop hstop' h
      obtain ⟨rfl, hend⟩ := ih hrest
      exact ⟨rfl, hend⟩

end Items

theorem Layout.text_injective : Function.Injective Layout.text := by
  intro l l' h
  obtain ⟨hlead, hrest⟩ := append_inj_of_stops l.blank_lead l'.blank_lead
    (l.first.stops_isBlank_text _) (l'.first.stops_isBlank_text _) h
  have hstop := stops_isDigit_items l.items (stops_isDigit_of_blank l.blank_trail)
  have hstop' := stops_isDigit_items l'.items (stops_isDigit_of_blank l'.blank_trail)
  obtain ⟨hfirst, htail⟩ := Literal.append_inj hstop hstop' hrest
  obtain ⟨hitems, htrail⟩ := items_inj l.blank_trail l'.blank_trail htail
  exact Layout.ext hlead hfirst hitems htrail

end Intcode.Listing
