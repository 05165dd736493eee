import Intcode.Amplifier.Search
import Intcode.Proofs.Amplifier.Arrangement

/-!
# The search as derivations

`Tries` goes through a list of orderings when it is only known how each of them answers. Over all
orderings of the phases it ends with the first one that has the largest signal, or with the failure
of the first one that fails.
-/

namespace Intcode.Amplifier

variable {R : List Int → Except Failure Int → Prop} {best : Option Best} {o : List Int}
  {os seen : List (List Int)} {phases : List Int} {s : Int}

inductive Tries (R : List Int → Except Failure Int → Prop) :
    Option Best → List (List Int) → Except Failure (Option Best) → Prop
  | done {best : Option Best} : Tries R best [] (.ok best)
  | failed {best : Option Best} {o : List Int} {os : List (List Int)} {e : Failure}
      (h : R o (.error e)) : Tries R best (o :: os) (.error e)
  | tried {best : Option Best} {o : List Int} {os : List (List Int)} {s : Int}
      {answer : Except Failure (Option Best)} (h : R o (.ok s))
      (rest : Tries R (some (.improve best ⟨s, o⟩)) os answer) : Tries R best (o :: os) answer

theorem Tries.error_iff {e : Failure} :
    Tries R best os (.error e) ↔ ∃ before o after, os = before ++ o :: after ∧
      (∀ o' ∈ before, ∃ s, R o' (.ok s)) ∧ R o (.error e) := by
  constructor
  · intro h
    generalize hanswer : (Except.error e : Except Failure (Option Best)) = answer at h
    induction h with
    | done => cases hanswer
    | @failed _ o os _ h =>
      cases hanswer
      exact ⟨[], o, os, rfl, by simp, h⟩
    | @tried _ o os s _ h _ ih =>
      obtain ⟨before, o', after, rfl, hbefore, herror⟩ := ih hanswer
      refine ⟨o :: before, o', after, rfl, ?_, herror⟩
      intro o'' ho
      rcases List.mem_cons.mp ho with rfl | ho
      · exact ⟨s, h⟩
      · exact hbefore o'' ho
  · rintro ⟨before, o, after, rfl, hbefore, herror⟩
    induction before generalizing best with
    | nil => exact .failed herror
    | cons o' before ih =>
      obtain ⟨s, hs⟩ := hbefore o' List.mem_cons_self
      exact .tried hs (ih fun o'' ho => hbefore o'' (List.mem_cons_of_mem _ ho))

theorem Tries.exists_ok (h : ∀ o ∈ os, ∃ s, R o (.ok s)) :
    ∃ best', Tries R best os (.ok best') := by
  induction os generalizing best with
  | nil => exact ⟨best, .done⟩
  | cons o os ih =>
    obtain ⟨s, hs⟩ := h o List.mem_cons_self
    obtain ⟨best', hbest⟩ := @ih (some (.improve best ⟨s, o⟩)) fun o' ho =>
      h o' (List.mem_cons_of_mem _ ho)
    exact ⟨best', .tried hs hbest⟩

theorem Tries.exists_error {before after : List (List Int)} {e : Failure}
    (h : ∀ o' ∈ before, ∃ answer, R o' answer) (he : R o (.error e)) :
    ∃ e', Tries R best (before ++ o :: after) (.error e') := by
  induction before generalizing best with
  | nil => exact ⟨e, .failed he⟩
  | cons o' before ih =>
    obtain ⟨e₁ | s, hanswer⟩ := h o' List.mem_cons_self
    · exact ⟨e₁, .failed hanswer⟩
    · obtain ⟨e', htries⟩ := @ih (some (.improve best ⟨s, o'⟩)) fun o'' ho =>
        h o'' (List.mem_cons_of_mem _ ho)
      exact ⟨e', .tried hanswer htries⟩

def Tracks (R : List Int → Except Failure Int → Prop) (seen : List (List Int)) :
    Option Best → Prop
  | none => seen = []
  | some best => ∃ before after, seen = before ++ best.ordering :: after ∧
      R best.ordering (.ok best.signal) ∧
      (∀ o ∈ before, ∃ s, R o (.ok s) ∧ s < best.signal) ∧
      ∀ o ∈ after, ∃ s, R o (.ok s) ∧ s ≤ best.signal

theorem Tracks.improve (h : Tracks R seen best) (hs : R o (.ok s)) :
    Tracks R (seen ++ [o]) (some (.improve best ⟨s, o⟩)) := by
  cases best with
  | none =>
    obtain rfl : seen = [] := h
    exact ⟨[], [], rfl, hs, by simp, by simp⟩
  | some best =>
    obtain ⟨before, after, rfl, hbest, hbefore, hafter⟩ := h
    by_cases hlt : best.signal < s
    · simp only [Best.improve, if_pos hlt]
      refine ⟨before ++ best.ordering :: after, [], rfl, hs, ?_, by simp⟩
      intro o' ho
      rcases List.mem_append.mp ho with ho | ho
      · obtain ⟨s', hs', hworse⟩ := hbefore o' ho
        exact ⟨s', hs', Int.lt_trans hworse hlt⟩
      · rcases List.mem_cons.mp ho with rfl | ho
        · exact ⟨best.signal, hbest, hlt⟩
        · obtain ⟨s', hs', hle⟩ := hafter o' ho
          exact ⟨s', hs', Int.lt_of_le_of_lt hle hlt⟩
    · simp only [Best.improve, if_neg hlt]
      refine ⟨before, after ++ [o], by simp, hbest, hbefore, ?_⟩
      intro o' ho
      rcases List.mem_append.mp ho with ho | ho
      · exact hafter o' ho
      · obtain rfl := List.mem_singleton.mp ho
        exact ⟨s, hs, Int.not_lt.mp hlt⟩

theorem Tries.tracks {best' : Option Best} (h : Tries R best os (.ok best'))
    (hseen : Tracks R seen best) : Tracks R (seen ++ os) best' := by
  generalize hanswer : (Except.ok best' : Except Failure (Option Best)) = answer at h
  induction h generalizing seen with
  | done =>
    cases hanswer
    rw [List.append_nil]
    exact hseen
  | failed => cases hanswer
  | tried h _ ih =>
    have hrest := ih (hseen.improve h) hanswer
    rw [List.append_assoc] at hrest
    exact hrest

structure Best.Leads (R : List Int → Except Failure Int → Prop) (phases : List Int)
    (best : Best) : Prop where
  delivered : R best.ordering (.ok best.signal)
  rearranged : best.ordering.Perm phases
  largest : ∀ o, o.Perm phases → ∃ s, R o (.ok s) ∧ s ≤ best.signal
  /-- The orderings that come earlier, in the lexicographic order of the places, are worse. -/
  first : ∃ places, places.Perm (List.range phases.length) ∧
    arrange phases places = best.ordering ∧
    ∀ earlier, earlier.Perm (List.range phases.length) → earlier < places →
      ∃ s, R (arrange phases earlier) (.ok s) ∧ s < best.signal

theorem Best.Leads.signal_le (hR : ∀ o a b, R o a → R o b → a = b) {b b' : Best}
    (h : b.Leads R phases) (h' : b'.Leads R phases) : b.signal ≤ b'.signal := by
  obtain ⟨s, hs, hle⟩ := h'.largest b.ordering h.rearranged
  cases hR _ _ _ hs h.delivered
  exact hle

theorem not_lt_of_first (hR : ∀ o a b, R o a → R o b → a = b) {places places' : List Nat}
    (hfirst : ∀ earlier, earlier.Perm (List.range phases.length) → earlier < places →
      ∃ s', R (arrange phases earlier) (.ok s') ∧ s' < s)
    (hplaces : places'.Perm (List.range phases.length))
    (hs : R (arrange phases places') (.ok s)) : ¬ places' < places := by
  intro hlt
  obtain ⟨s', hs', hless⟩ := hfirst places' hplaces hlt
  cases hR _ _ _ hs' hs
  exact Int.lt_irrefl s hless

theorem Best.Leads.unique (hR : ∀ o a b, R o a → R o b → a = b) {b b' : Best}
    (h : b.Leads R phases) (h' : b'.Leads R phases) : b = b' := by
  have hsignal : b.signal = b'.signal := Int.le_antisymm (h.signal_le hR h') (h'.signal_le hR h)
  obtain ⟨s, o⟩ := b
  obtain ⟨s', o'⟩ := b'
  obtain rfl : s = s' := hsignal
  obtain ⟨places, hplaces, rfl, hfirst⟩ := h.first
  obtain ⟨places', hplaces', rfl, hfirst'⟩ := h'.first
  have hsame : places = places' := List.le_antisymm
    (not_lt_of_first hR hfirst hplaces' h'.delivered)
    (not_lt_of_first hR hfirst' hplaces h.delivered)
  rw [hsame]

theorem leads_of_tries {best : Option Best}
    (h : Tries R none (orderings phases) (.ok best)) :
    ∃ b : Best, best = some b ∧ b.Leads R phases := by
  have hstart : Tracks R [] none := rfl
  have htracks : Tracks R (orderings phases) best := h.tracks hstart
  cases best with
  | none =>
    have hmem : phases ∈ orderings phases := mem_orderings.mpr (List.Perm.refl phases)
    rw [show orderings phases = [] from htracks] at hmem
    cases hmem
  | some b =>
    obtain ⟨before, after, hsplit, hbest, hbefore, hafter⟩ := htracks
    obtain ⟨places, hplaces, hordering, hearlier⟩ := exists_places_of_split hsplit
    refine ⟨b, rfl, hbest, ?_, ?_, places, hplaces, hordering, ?_⟩
    · rw [← mem_orderings, hsplit]
      exact List.mem_append_right _ List.mem_cons_self
    · intro o ho
      rw [← mem_orderings, hsplit] at ho
      rcases List.mem_append.mp ho with ho | ho
      · obtain ⟨s, hs, hlt⟩ := hbefore o ho
        exact ⟨s, hs, Int.le_of_lt hlt⟩
      · rcases List.mem_cons.mp ho with rfl | ho
        · exact ⟨b.signal, hbest, Int.le_refl _⟩
        · exact hafter o ho
    · exact fun earlier hplace hlt => hbefore _ (hearlier earlier hplace hlt)

theorem exists_tries_ok (h : ∀ o : List Int, o.Perm phases → ∃ s, R o (.ok s)) :
    ∃ b : Best, Tries R none (orderings phases) (.ok (some b)) := by
  obtain ⟨best, htries⟩ := @Tries.exists_ok R none (orderings phases) fun o ho =>
    h o (mem_orderings.mp ho)
  obtain ⟨b, rfl, -⟩ := leads_of_tries htries
  exact ⟨b, htries⟩

theorem tries_ok_iff (hR : ∀ o a b, R o a → R o b → a = b) {b : Best} :
    Tries R none (orderings phases) (.ok (some b)) ↔ b.Leads R phases := by
  constructor
  · intro h
    obtain ⟨_, hsome, hleads⟩ := leads_of_tries h
    cases hsome
    exact hleads
  · intro h
    obtain ⟨b', htries⟩ := exists_tries_ok fun o ho => by
      obtain ⟨s, hs, -⟩ := h.largest o ho
      exact ⟨s, hs⟩
    obtain ⟨_, hsome, hleads⟩ := leads_of_tries htries
    cases hsome
    cases h.unique hR hleads
    exact htries

theorem tries_error_iff {e : Failure} :
    Tries R none (orderings phases) (.error e) ↔
      ∃ places, places.Perm (List.range phases.length) ∧ R (arrange phases places) (.error e) ∧
        ∀ earlier, earlier.Perm (List.range phases.length) → earlier < places →
          ∃ s, R (arrange phases earlier) (.ok s) := by
  rw [Tries.error_iff]
  constructor
  · rintro ⟨before, o, after, hsplit, hbefore, he⟩
    obtain ⟨places, hplaces, rfl, hearlier⟩ := exists_places_of_split hsplit
    exact ⟨places, hplaces, he, fun earlier hplace hlt => hbefore _ (hearlier earlier hplace hlt)⟩
  · rintro ⟨places, hplaces, he, hearlier⟩
    obtain ⟨before, after, hsplit, hbefore⟩ := exists_split_of_places hplaces
    refine ⟨before, arrange phases places, after, hsplit, fun o ho => ?_, he⟩
    obtain ⟨earlier, hplace, hlt, rfl⟩ := hbefore o ho
    exact hearlier earlier hplace hlt

theorem exists_tries_error {places : List Nat} {e : Failure}
    (hplaces : places.Perm (List.range phases.length)) (he : R (arrange phases places) (.error e))
    (h : ∀ earlier, earlier.Perm (List.range phases.length) → earlier < places →
      ∃ answer, R (arrange phases earlier) answer) :
    ∃ e', Tries R none (orderings phases) (.error e') := by
  obtain ⟨before, after, hsplit, hbefore⟩ := exists_split_of_places hplaces
  rw [hsplit]
  refine Tries.exists_error (fun o ho => ?_) he
  obtain ⟨earlier, hplace, hlt, rfl⟩ := hbefore o ho
  exact h earlier hplace hlt

end Intcode.Amplifier
