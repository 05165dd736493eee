/-!
# Fields

A text as the sequence of fields between separators. There is always at least one field, and an
empty field stands between two separators that follow each other.
-/

namespace Intcode.Text

def fields (separator : Char) : List Char → List (List Char)
  | [] => [[]]
  | c :: cs =>
    if c == separator then [] :: fields separator cs
    else
      match fields separator cs with
      | field :: rest => (c :: field) :: rest
      | [] => [[c]]

theorem fields_ne_nil (separator : Char) (cs : List Char) : fields separator cs ≠ [] := by
  cases cs with
  | nil => simp [fields]
  | cons c cs =>
    simp only [fields]
    split
    · simp
    · split <;> simp

theorem fields_append {separator : Char} {cs : List Char} (h : separator ∉ cs) (rest : List Char) :
    fields separator (cs ++ rest) = (fields separator rest).modifyHead (cs ++ ·) := by
  cases hf : fields separator rest with
  | nil => exact absurd hf (fields_ne_nil separator rest)
  | cons field others =>
    induction cs with
    | nil => exact hf
    | cons c cs ih =>
      obtain ⟨hc, hcs⟩ := List.ne_and_not_mem_of_not_mem_cons h
      have hne : ¬ (c == separator) = true := by simpa using hc.symm
      rw [List.cons_append, fields, if_neg hne, ih hcs]
      rfl

theorem fields_of_not_mem {separator : Char} {cs : List Char} (h : separator ∉ cs) :
    fields separator cs = [cs] := by
  have hfields := fields_append h []
  rw [List.append_nil] at hfields
  rw [hfields]
  simp [fields]

theorem fields_append_separator {separator : Char} {cs : List Char} (h : separator ∉ cs)
    (rest : List Char) :
    fields separator (cs ++ separator :: rest) = cs :: fields separator rest := by
  rw [fields_append h, fields, if_pos (beq_self_eq_true separator), List.modifyHead_cons,
    List.append_nil]

end Intcode.Text
