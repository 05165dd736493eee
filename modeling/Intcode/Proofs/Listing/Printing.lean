import Intcode.Program
import Intcode.Proofs.Listing.Grammar
import Intcode.Proofs.Machine.Invariant

/-!
# Printed listings

Printing integers makes a layout of them, with a comma for every gap. So a listing that is printed
reads back, and the memory that a halted machine leaves can be loaded from its listing.
-/

namespace Intcode

namespace Listing

open Text (isBlank)

def Literal.ofInt (v : Int) : Literal where
  sign := if v < 0 then .minus else .absent
  digits := Nat.toDigits 10 v.natAbs
  ne_nil := Nat.toDigits_ne_nil
  isDigit := fun _ hc => Nat.isDigit_of_mem_toDigits (by decide) (by decide) hc

theorem Literal.text_ofInt (v : Int) : (ofInt v).text = (toString v).toList := by
  cases v with
  | ofNat n =>
    have hsign : ¬ Int.ofNat n < 0 := by simp
    have hprint : (toString (Int.ofNat n)).toList = Nat.toDigits 10 n := Nat.toList_repr
    rw [hprint, text, ofInt, if_neg hsign]
    rfl
  | negSucc n =>
    have hsign : Int.negSucc n < 0 := Int.negSucc_lt_zero n
    have hprint : (toString (Int.negSucc n)).toList = '-' :: Nat.toDigits 10 (n + 1) := by
      have hrepr : toString (Int.negSucc n) = "-" ++ (n + 1).repr := rfl
      rw [hrepr, String.toList_append, Nat.toList_repr]
      rfl
    rw [hprint, text, ofInt, if_pos hsign]
    rfl

theorem Literal.value_ofInt (v : Int) : (ofInt v).value = v := by
  have hdigits : Nat.ofDigitChars 10 (ofInt v).digits 0 = v.natAbs := Nat.ofDigitChars_ten_toDigits
  unfold value
  rw [hdigits]
  by_cases hv : v < 0
  · have hsign : (ofInt v).sign = .minus := if_pos hv
    rw [hsign]
    show -(v.natAbs : Int) = v
    omega
  · have hsign : (ofInt v).sign = .absent := if_neg hv
    rw [hsign]
    show (v.natAbs : Int) = v
    omega

def Item.ofInt (v : Int) : Item where
  gap := [',']
  integer := .ofInt v
  isGap := by simp [IsGap]
  apart := by simp

variable {v : Int} {vs xs : List Int} {trail : List Char}

def Layout.ofInts (v : Int) (vs : List Int) (trail : List Char) (h : ∀ c ∈ trail, isBlank c) :
    Layout where
  lead := []
  first := .ofInt v
  items := vs.map .ofInt
  trail := trail
  blank_lead := by simp
  blank_trail := h

theorem toList_print_cons (v : Int) (vs : List Int) :
    (print (v :: vs)).toList =
      (Literal.ofInt v).text ++ (vs.map Item.ofInt).flatMap Item.text := by
  induction vs generalizing v with
  | nil => simp [print, Literal.text_ofInt]
  | cons w vs ih =>
    have hprint := ih w
    simp only [print, String.toList_intercalate, List.map_cons] at hprint ⊢
    rw [List.intercalate_cons_cons, hprint, ← Literal.text_ofInt v, List.append_assoc]
    rfl

theorem Layout.text_ofInts (h : ∀ c ∈ trail, isBlank c) :
    (ofInts v vs trail h).text = (print (v :: vs)).toList ++ trail := by
  rw [toList_print_cons, List.append_assoc]
  rfl

theorem Layout.values_ofInts (h : ∀ c ∈ trail, isBlank c) :
    (ofInts v vs trail h).values = v :: vs := by
  have hitems : (vs.map Item.ofInt).map (fun x => x.integer.value) = vs := by
    rw [List.map_map]
    exact List.map_id'' Literal.value_ofInt vs
  exact congrArg₂ List.cons (Literal.value_ofInt v) hitems

theorem read_print_append (hxs : xs ≠ []) (trail : List Char) (h : ∀ c ∈ trail, isBlank c) :
    read ((print xs).toList ++ trail) = .ok xs := by
  cases xs with
  | nil => exact absurd rfl hxs
  | cons v vs =>
    exact read_eq_ok_iff.mpr ⟨.ofInts v vs trail h, Layout.text_ofInts h, Layout.values_ofInts h⟩

theorem ofText_print {program : Memory} (hne : program.toList ≠ []) (trail : List Char)
    (h : ∀ c ∈ trail, isBlank c) :
    Program.ofText ((print program.toList).toList ++ trail) = .ok program := by
  simp only [Program.ofText, read_print_append hne trail h]
  rfl

theorem ne_nil_of_contains {m : Memory} {a : Int} (h : m.Contains a) : m.toList ≠ [] := by
  intro hnil
  have hlt := h.toNat_lt
  have hsize : m.cells.size = 0 := congrArg List.length hnil
  omega

/-- Any integers but none at all are read back from their listing. What a run that halts leaves in
the memory is the program in the listing of it, with or without an end of line. -/
theorem loads_printed :
    (∀ xs : List Int, xs ≠ [] → read (print xs).toList = .ok xs) ∧
    ∀ (fuel : Nat) (program : Memory) (inputs : List Int) (trace : Bool) (m : Machine)
      (cells : List Int), Machine.execute fuel program inputs true trace = some (m, .ok cells) →
      m.status = .halted ∧ cells = m.memory.toList ∧
        Program.ofText (print cells).toList = .ok m.memory ∧
        Program.ofText (print cells ++ "\n").toList = .ok m.memory := by
  constructor
  · intro xs hxs
    have hread := read_print_append hxs [] (by simp)
    rwa [List.append_nil] at hread
  · intro fuel program inputs trace m cells h
    obtain ⟨m₀, n, hp, hm, rfl⟩ := Machine.execute_eq_ok h
    have hstatus : m₀.status = .halted := hp.status
    have hne := ne_nil_of_contains (hp.sound_end.halted hstatus).1
    have hbare := ofText_print hne [] (by simp)
    have hline := ofText_print hne ['\n'] (by simp [isBlank])
    rw [List.append_nil] at hbare
    rw [hm]
    refine ⟨hstatus, rfl, hbare, ?_⟩
    rw [String.toList_append]
    exact hline

theorem loads_printed_sum :
    read (print [-5, 20, -25, 0, 99]).toList = .ok [-5, 20, -25, 0, 99] ∧
    Program.ofText (print [-5, 20, -25, 0, 99] ++ "\n").toList =
      .ok (.ofList [-5, 20, -25, 0, 99]) := by
  let summed : Machine :=
    { memory := .ofList [-5, 20, -25, 0, 99], ip := 4, status := .halted, journal := #[.halted 4] }
  have hrun : Machine.execute 2 (.ofList [1101, 20, -25, 0, 99]) [] true false =
      some (summed, .ok [-5, 20, -25, 0, 99]) := rfl
  obtain ⟨hread, hdump⟩ := loads_printed
  exact ⟨hread _ (by simp), (hdump _ _ _ _ _ _ hrun).2.2.2⟩

end Listing

end Intcode
