/-!
# Blanks

Two sets of characters that may surround tokens: a small one for listings, and the wider one that
may surround a numeral.
-/

namespace Intcode.Text

def isBlank (c : Char) : Bool :=
  c == ' ' || c == '\t' || c == '\n' || c == '\r'

/-- Closed ranges of the code points that may surround a numeral. Of the ASCII control characters
only tab to carriage return are among them, the separators 1C to 1F are not. -/
def spaceRanges : List (Nat × Nat) :=
  [(0x09, 0x0D), (0x20, 0x20), (0x85, 0x85), (0xA0, 0xA0), (0x1680, 0x1680), (0x2000, 0x200A),
   (0x2028, 0x2029), (0x202F, 0x202F), (0x205F, 0x205F), (0x3000, 0x3000)]

def isSpace (c : Char) : Bool :=
  spaceRanges.any fun (first, last) => first ≤ c.toNat && c.toNat ≤ last

theorem isSpace_of_isBlank {c : Char} (h : isBlank c) : isSpace c := by
  simp only [isBlank, Bool.or_eq_true, beq_iff_eq] at h
  rcases h with ((rfl | rfl) | rfl) | rfl <;> decide

theorem isSpace_of_isDigit {c : Char} (h : c.isDigit) : isSpace c = false := by
  have hdigit : 0x30 ≤ c.toNat ∧ c.toNat ≤ 0x39 := by simpa [Char.isDigit_iff_toNat] using h
  have hapart : ∀ range ∈ spaceRanges, range.2 < 0x30 ∨ 0x39 < range.1 := by decide
  rw [Bool.eq_false_iff]
  intro hc
  obtain ⟨range, hmem, hin⟩ := List.any_eq_true.mp hc
  simp only [Bool.and_eq_true, decide_eq_true_eq] at hin
  have hout := hapart range hmem
  omega

end Intcode.Text
