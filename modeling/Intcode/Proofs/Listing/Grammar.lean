import Intcode.Proofs.Listing.Reading

/-!
# The grammar of listings

Tabs are blanks already, so replacing them by other blanks changes places and no integers. Main
statement: the reader accepts the texts that can be laid out, finds the integers of their one
layout, and refuses all other texts.
-/

namespace Intcode.Listing

open Text (isBlank)

/-- The second text is the first one with blanks for some of its tabs. -/
inductive Untabbed : List Char → List Char → Prop
  | nil : Untabbed [] []
  | keep {cs ds : List Char} (c : Char) (h : Untabbed cs ds) : Untabbed (c :: cs) (c :: ds)
  | tab {cs ds : List Char} (width : Nat) (h : Untabbed cs ds) :
      Untabbed ('\t' :: cs) (List.replicate (width + 1) ' ' ++ ds)

inductive Agree {α : Type} : Option (α × List Char) → Option (α × List Char) → Prop
  | missed : Agree none none
  | found (a : α) {cs ds : List Char} (h : Untabbed cs ds) : Agree (some (a, cs)) (some (a, ds))

variable {cs ds : List Char}

theorem Agree.map {α β : Type} {x y : Option (α × List Char)} (h : Agree x y) (f : α → β) :
    Agree (x.map fun (a, rest) => (f a, rest)) (y.map fun (a, rest) => (f a, rest)) := by
  cases h with
  | missed => exact .missed
  | found a h => exact .found (f a) h

theorem Agree.eq_none {α : Type} {x y : Option (α × List Char)} (h : Agree x y) (hx : x = none) :
    y = none := by
  cases h with
  | missed => rfl
  | found => cases hx

theorem Agree.eq_some {α : Type} {a : α} {rest : List Char} {x y : Option (α × List Char)}
    (h : Agree x y) (hx : x = some (a, rest)) :
    ∃ rest', y = some (a, rest') ∧ Untabbed rest rest' := by
  cases h with
  | missed => cases hx
  | found _ h =>
    cases hx
    exact ⟨_, rfl, h⟩

theorem untabbed_expandTabs (column : Nat) (cs : List Char) :
    Untabbed cs (expandTabs column cs) := by
  induction cs generalizing column with
  | nil => exact .nil
  | cons c cs ih =>
    simp only [expandTabs]
    split
    · next hc =>
      obtain rfl : c = '\t' := by simpa using hc
      have hpos : 0 < tabWidth - column % tabWidth :=
        Nat.sub_pos_of_lt (Nat.mod_lt column (by decide))
      obtain ⟨width, hwidth⟩ : ∃ width, tabWidth - column % tabWidth = width + 1 :=
        ⟨_, (Nat.succ_pred_eq_of_pos hpos).symm⟩
      rw [hwidth]
      exact .tab width (ih _)
    · exact .keep c (ih _)

namespace Untabbed

theorem dropWhile_isBlank (h : Untabbed cs ds) :
    Untabbed (cs.dropWhile isBlank) (ds.dropWhile isBlank) := by
  induction h with
  | nil => exact .nil
  | keep c h ih =>
    rw [List.dropWhile_cons, List.dropWhile_cons]
    split
    · exact ih
    · exact .keep c h
  | tab width h ih =>
    have hblank : ∀ c ∈ List.replicate (width + 1) ' ', isBlank c := by
      intro c hc
      rw [List.eq_of_mem_replicate hc]
      rfl
    rw [List.dropWhile_append_of_pos hblank]
    exact ih

theorem isDigit (h : Untabbed cs ds) :
    ds.takeWhile Char.isDigit = cs.takeWhile Char.isDigit ∧
      Untabbed (cs.dropWhile Char.isDigit) (ds.dropWhile Char.isDigit) := by
  induction h with
  | nil => exact ⟨rfl, .nil⟩
  | keep c h ih =>
    simp only [List.takeWhile_cons, List.dropWhile_cons]
    split
    · exact ⟨congrArg _ ih.1, ih.2⟩
    · exact ⟨rfl, .keep c h⟩
  | tab width h ih => exact ⟨rfl, .tab width h⟩

theorem natural? (h : Untabbed cs ds) : Agree (natural? cs) (natural? ds) := by
  obtain ⟨htake, hdrop⟩ := h.isDigit
  unfold Listing.natural?
  rw [htake]
  split
  · exact .missed
  · exact .found _ hdrop

theorem integer? (h : Untabbed cs ds) : Agree (integer? cs) (integer? ds) := by
  cases h with
  | nil => exact .missed
  | tab width h => exact .missed
  | @keep cs ds c h =>
    unfold Listing.integer?
    split
    · next he =>
      obtain ⟨rfl, rfl⟩ := List.cons.inj he
      exact h.natural?.map fun n => -(n : Int)
    · next he =>
      obtain ⟨rfl, rfl⟩ := List.cons.inj he
      exact h.natural?.map fun n => (n : Int)
    · next hminus hplus =>
      have hd : Agree (Listing.natural? (c :: cs)) (Listing.natural? (c :: ds)) :=
        (Untabbed.keep c h).natural?
      split
      · next he => exact absurd (by rw [(List.cons.inj he).1]) (hminus cs)
      · next he => exact absurd (by rw [(List.cons.inj he).1]) (hplus cs)
      · exact hd.map fun n => (n : Int)

theorem first? (h : Untabbed cs ds) : Agree (first? cs) (first? ds) :=
  h.dropWhile_isBlank.integer?

theorem next? (h : Untabbed cs ds) : Agree (next? cs) (next? ds) := by
  unfold Listing.next?
  have hdrop := h.dropWhile_isBlank
  generalize cs.dropWhile isBlank = cs' at hdrop
  generalize ds.dropWhile isBlank = ds' at hdrop
  cases hdrop with
  | nil => exact .missed
  | tab width h => exact .missed
  | @keep cs ds c h =>
    split
    · next he =>
      obtain ⟨rfl, rfl⟩ := List.cons.inj he
      exact h.first?
    · next hcomma =>
      split
      · next he => exact absurd (by rw [(List.cons.inj he).1]) (hcomma cs)
      · exact (Untabbed.keep c h).integer?

theorem more (h : Untabbed cs ds) :
    (more ds).1 = (more cs).1 ∧ Untabbed (more cs).2 (more ds).2 := by
  induction hn : cs.length using Nat.strong_induction_on generalizing cs ds with
  | _ n ih =>
    cases hc : Listing.next? cs with
    | none =>
      rw [more_of_none hc, more_of_none (h.next?.eq_none hc)]
      exact ⟨rfl, h⟩
    | some found =>
      obtain ⟨v, rest⟩ := found
      obtain ⟨rest', hd, hrest⟩ := h.next?.eq_some hc
      obtain ⟨hvalues, hlast⟩ := ih rest.length (hn ▸ next?_length_lt hc) hrest rfl
      rw [more_of_next? hc, more_of_next? hd, hvalues]
      exact ⟨rfl, hlast⟩

theorem mem_isBlank (h : Untabbed cs ds) :
    (∀ c ∈ ds, isBlank c) ↔ ∀ c ∈ cs, isBlank c := by
  rw [← List.dropWhile_eq_nil_iff, ← List.dropWhile_eq_nil_iff]
  have hdrop := h.dropWhile_isBlank
  generalize cs.dropWhile isBlank = cs' at hdrop
  generalize ds.dropWhile isBlank = ds' at hdrop
  cases hdrop <;> simp

theorem readExpanded {vs : List Int} (h : Untabbed cs ds) :
    readExpanded ds = .ok vs ↔ readExpanded cs = .ok vs := by
  cases hc : Listing.first? cs with
  | none =>
    rw [readExpanded_of_none hc, readExpanded_of_none (h.first?.eq_none hc)]
    simp
  | some found =>
    obtain ⟨v, rest⟩ := found
    obtain ⟨rest', hd, hrest⟩ := h.first?.eq_some hc
    obtain ⟨hvalues, hlast⟩ := hrest.more
    rw [readExpanded_eq_ok_of_some hc, readExpanded_eq_ok_of_some hd, hvalues, hlast.mem_isBlank]

end Untabbed

theorem read_eq_ok_iff {text : List Char} {vs : List Int} :
    read text = .ok vs ↔ ∃ l : Layout, l.text = text ∧ l.values = vs := by
  rw [← readExpanded_eq_ok_iff_layout]
  exact (untabbed_expandTabs 0 text).readExpanded

/-- A listing is read exactly if it can be laid out, its layout is unique and gives the integers,
and every other text is refused. -/
theorem read_lays_out (text : List Char) :
    (∀ vs, read text = .ok vs ↔ ∃ l : Layout, l.text = text ∧ l.values = vs) ∧
    (∀ l l' : Layout, l.text = text → l'.text = text → l = l') ∧
    ((∃ e, read text = .error e) ↔ ∀ l : Layout, l.text ≠ text) := by
  refine ⟨fun vs => read_eq_ok_iff, ?_, ?_, ?_⟩
  · intro l l' hl hl'
    exact Layout.text_injective (hl.trans hl'.symm)
  · rintro ⟨e, he⟩ l hl
    have hok := read_eq_ok_iff.mpr ⟨l, hl, rfl⟩
    rw [hok] at he
    cases he
  · intro hnone
    cases hr : read text with
    | error e => exact ⟨e, rfl⟩
    | ok vs =>
      obtain ⟨l, hl, -⟩ := read_eq_ok_iff.mp hr
      exact absurd hl (hnone l)

end Intcode.Listing
