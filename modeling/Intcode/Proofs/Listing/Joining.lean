import Intcode.Proofs.Listing.Mistake

/-!
# Listings one behind the other

The reader knows no lines, but a line feed ends a digit string, is a gap without a comma, and puts
the tab stops back to the first column. Main statement: a listing with a line feed and another text
behind it is read as the two of them are, one after the other, and a mistake in the second one moves
down by the lines of the first.
-/

namespace Intcode.Listing

open Text (Place isBlank)

theorem expandTabs_newline (column : ℕ) (a b : List Char) :
    expandTabs column (a ++ '\n' :: b) = expandTabs column a ++ '\n' :: expandTabs 0 b := by
  induction a generalizing column with
  | nil => rfl
  | cons c a ih =>
    simp only [List.cons_append, expandTabs]
    split
    · rw [ih, List.append_assoc]
    · rw [ih, List.cons_append]

theorem count_newline_expandTabs (column : ℕ) (cs : List Char) :
    (expandTabs column cs).count '\n' = cs.count '\n' := by
  induction cs generalizing column with
  | nil => rfl
  | cons c cs ih =>
    simp only [expandTabs]
    split
    · next hc =>
      obtain rfl : c = '\t' := by simpa using hc
      rw [List.count_append, ih, List.count_replicate, List.count_cons, if_neg (by decide),
        if_neg (by decide), Nat.zero_add, Nat.add_zero]
    · rw [List.count_cons, ih, List.count_cons]

namespace Layout

def join (l l' : Layout) : Layout where
  lead := l.lead
  first := l.first
  items := l.items ++
    { gap := l.trail ++ '\n' :: l'.lead
      integer := l'.first
      isGap := isGap_of_blank (by
        intro c hc
        rcases List.mem_append.mp hc with hc | hc
        · exact l.blank_trail c hc
        · rcases List.mem_cons.mp hc with rfl | hc
          · rfl
          · exact l'.blank_lead c hc)
      apart := by simp } :: l'.items
  trail := l'.trail
  blank_lead := l.blank_lead
  blank_trail := l'.blank_trail

theorem text_join (l l' : Layout) : (l.join l').text = l.text ++ '\n' :: l'.text := by
  simp only [text, join, Item.text, List.flatMap_append, List.flatMap_cons, List.append_assoc,
    List.cons_append]

theorem values_join (l l' : Layout) : (l.join l').values = l.values ++ l'.values := by
  simp only [values, join, List.map_append, List.map_cons, List.cons_append]

end Layout

/-- Reading a listing, a line feed and a second text gives the integers of both, one after the
other. Where the second text is refused because its end has been expected earlier, the whole is
refused for the same reason, in the same column and as many lines further down as there are in front
of the second text. -/
theorem read_lines (t₁ t₂ : List Char) (vs₁ : List Int) (h : read t₁ = .ok vs₁) :
    (∀ vs₂, read t₂ = .ok vs₂ → read (t₁ ++ '\n' :: t₂) = .ok (vs₁ ++ vs₂)) ∧
    ∀ line column, read t₂ = .error ⟨⟨line, column⟩, .endOfText⟩ →
      read (t₁ ++ '\n' :: t₂) = .error ⟨⟨line + 1 + t₁.count '\n', column⟩, .endOfText⟩ := by
  constructor
  · intro vs₂ h₂
    obtain ⟨l₁, rfl, rfl⟩ := read_eq_ok_iff.mp h
    obtain ⟨l₂, rfl, rfl⟩ := read_eq_ok_iff.mp h₂
    exact read_eq_ok_iff.mpr ⟨l₁.join l₂, l₁.text_join l₂, l₁.values_join l₂⟩
  · intro line column h₂
    obtain ⟨l₁, hl₁, -⟩ := readExpanded_eq_ok_iff_layout.mp h
    obtain ⟨l₂, rest, hsplit, hstuck, hplace⟩ := readExpanded_eq_endOfText_iff.mp h₂
    refine readExpanded_eq_endOfText_iff.mpr ⟨l₁.join l₂, rest, ?_, hstuck, ?_⟩
    · rw [expandTabs_newline, hsplit, l₁.text_join, hl₁, List.append_assoc, List.cons_append]
    · rw [l₁.text_join, Place.after_newline, ← hplace, hl₁, count_newline_expandTabs]

theorem read_lines_tab :
    read "1,2 \n+3".toList = .ok [1, 2, 3] ∧
      read "1,2 \n3\tx".toList = .error ⟨⟨2, 9⟩, .endOfText⟩ := by
  have hfirst : read "1,2 ".toList = .ok [1, 2] := by decide +kernel
  have hsecond : read "+3".toList = .ok [3] := by decide +kernel
  have hmistake : read "3\tx".toList = .error ⟨⟨1, 9⟩, .endOfText⟩ := by decide +kernel
  exact ⟨(read_lines _ "+3".toList _ hfirst).1 _ hsecond,
    (read_lines _ "3\tx".toList _ hfirst).2 _ _ hmistake⟩

end Intcode.Listing
