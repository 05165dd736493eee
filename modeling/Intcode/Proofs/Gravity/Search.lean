import Intcode.Proofs.Gravity.Trial
import Mathlib.Data.Int.Range
import Mathlib.Data.List.ProdSigma
import Mathlib.Data.Prod.Lex

/-!
# The first pair

The search for a noun and the search for a verb inside it are one search through the pairs of a
square, in lexicographic order. Main statement: the search settles on the first pair whose run gives
the target, or on no pair when there is none. A run that fails is passed over, whatever the fault.
-/

namespace Intcode.Gravity

variable {program : Memory} {target limit : Int} {fuel : Nat} {pairs : List (Int × Int)}
  {p : Int × Int} {found : Except Failure (Option (Int × Int))}

def tryAll (fuel : Nat) (program : Memory) (target : Int) :
    List (Int × Int) → Activity Failure (Option (Int × Int))
  | [] => pure none
  | p :: pairs => do
    match ← hits fuel program target p.1 p.2 with
    | true => return some p
    | false => tryAll fuel program target pairs

theorem tryAll_append (xs ys : List (Int × Int)) :
    tryAll fuel program target (xs ++ ys) =
      (tryAll fuel program target xs >>= fun
        | some p => pure (some p)
        | none => tryAll fuel program target ys) := by
  induction xs with
  | nil => simp only [List.nil_append, tryAll, pure_bind]
  | cons p xs ih =>
    simp only [List.cons_append, tryAll, bind_assoc, ih]
    congr 1
    funext hit
    cases hit <;> simp only [pure_bind]

theorem range_succ (a : Int) (n : Nat) :
    Int.range a (a + (n + 1 : Nat)) = a :: Int.range (a + 1) (a + 1 + n) := by
  simp only [Int.range, show a + (n + 1 : Nat) - a = (n + 1 : Nat) by omega,
    show a + 1 + (n : Int) - (a + 1) = n by omega, Int.toNat_natCast, List.range_succ_eq_map,
    List.map_cons, List.map_map]
  congr 1
  · simp
  · apply List.map_congr_left
    intro i _
    simp only [Function.comp_apply]
    omega

theorem findVerb_eq_tryAll (noun : Int) (remaining : Nat) (verb : Int) :
    findVerb fuel program target noun remaining verb =
      tryAll fuel program target ((Int.range verb (verb + remaining)).map (Prod.mk noun)) := by
  induction remaining generalizing verb with
  | zero =>
    funext log
    simp [findVerb, Int.range, tryAll]
  | succ remaining ih =>
    funext log
    simp only [findVerb, range_succ, List.map_cons, tryAll, Activity.bind_apply, ih]
    rcases hits fuel program target noun verb log with _ | ⟨failure | _ | _, log'⟩ <;> rfl

theorem findNoun_eq_tryAll (verbs remaining : Nat) (noun : Int) :
    findNoun fuel program target verbs remaining noun =
      tryAll fuel program target (Int.range noun (noun + remaining) ×ˢ Int.range 0 verbs) := by
  induction remaining generalizing noun with
  | zero =>
    funext log
    simp [findNoun, Int.range, tryAll]
  | succ remaining ih =>
    funext log
    rw [range_succ, List.product_cons, tryAll_append, Activity.bind_apply, ← ih, ← Int.zero_add verbs,
      ← findVerb_eq_tryAll]
    simp only [findNoun]
    rcases findVerb fuel program target noun verbs 0 log with _ | ⟨failure | _ | _, log'⟩ <;> rfl

def square (limit : Int) : List (Int × Int) :=
  Int.range 0 (limit + 1) ×ˢ Int.range 0 (limit + 1)

theorem find_eq_tryAll (program : Memory) (target limit : Int) :
    find fuel program target limit = tryAll fuel program target (square limit) := by
  have hrange : Int.range 0 ((limit + 1).toNat : Int) = Int.range 0 (limit + 1) := by
    simp only [Int.range, Int.sub_zero, Int.toNat_natCast]
  simp only [find, findNoun_eq_tryAll, Int.zero_add, hrange, square]

def Within (limit : Int) (p : Int × Int) : Prop :=
  (0 ≤ p.1 ∧ p.1 ≤ limit) ∧ 0 ≤ p.2 ∧ p.2 ≤ limit

theorem mem_square : p ∈ square limit ↔ Within limit p := by
  obtain ⟨noun, verb⟩ := p
  simp only [square, List.mem_product, Int.mem_range_iff, Int.lt_add_one_iff, Within]

theorem pairwise_range (a b : Int) : (Int.range a b).Pairwise (· < ·) := by
  simp only [Int.range, List.pairwise_map]
  exact List.pairwise_lt_range.imp fun h => by omega

theorem pairwise_square (limit : Int) : (square limit).Pairwise fun p q => toLex p < toLex q := by
  have hsorted := pairwise_range 0 (limit + 1)
  simp only [square, SProd.sprod, List.product, List.pairwise_flatMap, List.pairwise_map, List.mem_map]
  constructor
  · intro noun _
    refine hsorted.imp fun {verb verb'} h => ?_
    exact Prod.Lex.toLex_lt_toLex.mpr (Or.inr ⟨rfl, h⟩)
  · refine hsorted.imp ?_
    rintro noun noun' h _ ⟨verb, -, rfl⟩ _ ⟨verb', -, rfl⟩
    exact Prod.Lex.toLex_lt_toLex.mpr (Or.inl h)

theorem exists_split_iff {P : Int × Int → Prop} {p : Int × Int}
    (hsorted : pairs.Pairwise fun p q => toLex p < toLex q) :
    (∃ before after, pairs = before ++ p :: after ∧ ∀ q ∈ before, P q) ↔
      p ∈ pairs ∧ ∀ q ∈ pairs, toLex q < toLex p → P q := by
  constructor
  · rintro ⟨before, after, rfl, hbefore⟩
    obtain ⟨-, hrest, -⟩ := List.pairwise_append.mp hsorted
    refine ⟨by simp, fun q hq hlt => ?_⟩
    rcases List.mem_append.mp hq with hq | hq
    · exact hbefore q hq
    · rcases List.mem_cons.mp hq with rfl | hq
      · exact absurd hlt (lt_irrefl _)
      · exact absurd hlt (lt_asymm ((List.pairwise_cons.mp hrest).1 q hq))
  · rintro ⟨hp, hP⟩
    obtain ⟨before, after, rfl⟩ := List.append_of_mem hp
    refine ⟨before, after, rfl, fun q hq => hP q (List.mem_append_left _ hq) ?_⟩
    exact (List.pairwise_append.mp hsorted).2.2 q hq p List.mem_cons_self

def Solves (program : Memory) (target : Int) (p : Int × Int) : Prop :=
  Gives program p.1 p.2 (.ok target)

def Misses (program : Memory) (target : Int) (p : Int × Int) : Prop :=
  ∃ answer, Gives program p.1 p.2 answer ∧ answer ≠ .ok target

theorem Misses.not_solves (h : Misses program target p) : ¬ Solves program target p := by
  intro hsolves
  obtain ⟨answer, hanswer, hne⟩ := h
  exact hne (Settles.unique hanswer hsolves)

theorem isHit_eq_true_iff {answer : Except Failure Int} :
    isHit target answer = true ↔ answer = .ok target := by
  cases answer <;> simp [isHit]

theorem settles_hit_iff {hit : Except Failure Bool} :
    Settles (fun fuel => hits fuel program target p.1 p.2) hit ↔
      (Solves program target p ∧ hit = .ok true) ∨ (Misses program target p ∧ hit = .ok false) := by
  rw [settles_hits_iff]
  constructor
  · rintro ⟨answer, hanswer, rfl⟩
    by_cases h : answer = .ok target
    · rw [isHit_eq_true_iff.mpr h]
      rw [h] at hanswer
      exact Or.inl ⟨hanswer, rfl⟩
    · rw [Bool.eq_false_iff.mpr (mt isHit_eq_true_iff.mp h)]
      exact Or.inr ⟨⟨answer, hanswer, h⟩, rfl⟩
  · rintro (⟨h, rfl⟩ | ⟨⟨answer, hanswer, h⟩, rfl⟩)
    · exact ⟨.ok target, h, by rw [isHit_eq_true_iff.mpr rfl]⟩
    · exact ⟨answer, hanswer, by rw [Bool.eq_false_iff.mpr (mt isHit_eq_true_iff.mp h)]⟩

theorem steady_tryAll (program : Memory) (target : Int) (pairs : List (Int × Int)) :
    Steady fun fuel => tryAll fuel program target pairs := by
  induction pairs with
  | nil => exact .pure none
  | cons p pairs ih =>
    refine (steady_hits program target p.1 p.2).bind fun hit => ?_
    cases hit with
    | false => exact ih
    | true => exact .pure (some p)

theorem settles_tryAll_cons_iff :
    Settles (fun fuel => tryAll fuel program target (p :: pairs)) found ↔
      (Solves program target p ∧ found = .ok (some p)) ∨
      (Misses program target p ∧ Settles (fun fuel => tryAll fuel program target pairs) found) := by
  refine (Steady.settles_bind_iff (steady_hits program target p.1 p.2) fun hit => ?_).trans ?_
  · cases hit with
    | false => exact steady_tryAll program target pairs
    | true => exact .pure (some p)
  · simp only [settles_hit_iff]
    constructor
    · rintro (⟨failure, ⟨-, h⟩ | ⟨-, h⟩, -⟩ | ⟨hit, ⟨hsolves, h⟩ | ⟨hmisses, h⟩, hrest⟩)
      · cases h
      · cases h
      · cases h
        exact Or.inl ⟨hsolves, (settles_const_iff rfl).mp hrest⟩
      · cases h
        exact Or.inr ⟨hmisses, hrest⟩
    · rintro (⟨hsolves, hfound⟩ | ⟨hmisses, hrest⟩)
      · exact Or.inr ⟨true, Or.inl ⟨hsolves, rfl⟩, (settles_const_iff rfl).mpr hfound⟩
      · exact Or.inr ⟨false, Or.inr ⟨hmisses, rfl⟩, hrest⟩

theorem settles_tryAll_iff :
    Settles (fun fuel => tryAll fuel program target pairs) found ↔
      ((∀ q ∈ pairs, Misses program target q) ∧ found = .ok none) ∨
      ∃ p, (∃ before after, pairs = before ++ p :: after ∧ ∀ q ∈ before, Misses program target q) ∧
        Solves program target p ∧ found = .ok (some p) := by
  induction pairs with
  | nil =>
    refine (settles_const_iff rfl).trans ?_
    simp
  | cons p pairs ih =>
    rw [settles_tryAll_cons_iff, ih]
    constructor
    · rintro (⟨hsolves, rfl⟩ | ⟨hmisses, ⟨hall, rfl⟩ | ⟨q, ⟨before, after, rfl, hbefore⟩, hq, rfl⟩⟩)
      · exact Or.inr ⟨p, ⟨[], pairs, rfl, by simp⟩, hsolves, rfl⟩
      · exact Or.inl ⟨List.forall_mem_cons.mpr ⟨hmisses, hall⟩, rfl⟩
      · exact Or.inr ⟨q, ⟨p :: before, after, rfl, List.forall_mem_cons.mpr ⟨hmisses, hbefore⟩⟩, hq, rfl⟩
    · rintro (⟨hall, rfl⟩ | ⟨q, ⟨before, after, hsplit, hbefore⟩, hq, rfl⟩)
      · obtain ⟨hmisses, hrest⟩ := List.forall_mem_cons.mp hall
        exact Or.inr ⟨hmisses, Or.inl ⟨hrest, rfl⟩⟩
      · cases before with
        | nil =>
          cases hsplit
          exact Or.inl ⟨hq, rfl⟩
        | cons first before =>
          cases hsplit
          obtain ⟨hmisses, hrest⟩ := List.forall_mem_cons.mp hbefore
          exact Or.inr ⟨hmisses, Or.inr ⟨q, ⟨before, after, rfl, hrest⟩, hq, rfl⟩⟩

theorem exists_settles_tryAll (h : ∀ before p after, pairs = before ++ p :: after →
    (∀ q ∈ before, ¬ Solves program target q) → ∃ answer, Gives program p.1 p.2 answer) :
    ∃ p?, Settles (fun fuel => tryAll fuel program target pairs) (.ok p?) := by
  induction pairs with
  | nil => exact ⟨none, (settles_const_iff rfl).mpr rfl⟩
  | cons p pairs ih =>
    obtain ⟨answer, hanswer⟩ := h [] p pairs rfl (by simp)
    by_cases hsolves : Solves program target p
    · exact ⟨some p, settles_tryAll_cons_iff.mpr (Or.inl ⟨hsolves, rfl⟩)⟩
    · have hne : answer ≠ .ok target := by
        rintro rfl
        exact hsolves hanswer
      obtain ⟨p?, hrest⟩ := ih fun before q after hsplit hbefore =>
        h (p :: before) q after (congrArg (p :: ·) hsplit)
          (List.forall_mem_cons.mpr ⟨hsolves, hbefore⟩)
      exact ⟨p?, settles_tryAll_cons_iff.mpr (Or.inr ⟨⟨answer, hanswer, hne⟩, hrest⟩)⟩

/-- The search comes to a pair when no smaller one solves. -/
def Tried (program : Memory) (target limit : Int) (p : Int × Int) : Prop :=
  Within limit p ∧ ∀ q, Within limit q → toLex q < toLex p → ¬ Solves program target q

theorem Tried.of_lt {q : Int × Int} (h : Tried program target limit p) (hq : Within limit q)
    (hlt : toLex q < toLex p) : Tried program target limit q :=
  ⟨hq, fun r hr hrq => h.2 r hr (lt_trans hrq hlt)⟩

theorem settles_find_iff :
    Settles (fun fuel => find fuel program target limit) found ↔
      ((∀ q, Within limit q → Misses program target q) ∧ found = .ok none) ∨
      ∃ p, (Within limit p ∧ ∀ q, Within limit q → toLex q < toLex p → Misses program target q) ∧
        Solves program target p ∧ found = .ok (some p) := by
  simp only [find_eq_tryAll, settles_tryAll_iff, exists_split_iff (pairwise_square limit), mem_square]

theorem steady_find (program : Memory) (target limit : Int) :
    Steady fun fuel => find fuel program target limit := by
  simp only [find_eq_tryAll]
  exact steady_tryAll program target (square limit)

theorem exists_settles_find
    (h : ∀ p, Tried program target limit p → ∃ answer, Gives program p.1 p.2 answer) :
    ∃ p?, Settles (fun fuel => find fuel program target limit) (.ok p?) := by
  simp only [find_eq_tryAll]
  refine exists_settles_tryAll fun before p after hsplit hbefore => h p ?_
  have htried := (exists_split_iff (pairwise_square limit)).mp ⟨before, after, hsplit, hbefore⟩
  simp only [mem_square] at htried
  exact htried

theorem find_ne_error {log log' : Log} {failure : Failure} :
    find fuel program target limit log ≠ some (.error failure, log') := by
  intro h
  rcases settles_find_iff.mp ((steady_find program target limit).settles h) with
    ⟨-, hfound⟩ | ⟨p, -, -, hfound⟩
  · cases hfound
  · cases hfound

theorem misses_of_short (h : program.size < 3) (p : Int × Int) : Misses program target p := by
  obtain ⟨fault, hgives⟩ := exists_gives_of_short h p.1 p.2
  exact ⟨_, hgives, by simp⟩

/-- When the runs end that are tried, the search finds a pair just if it is the first one that
solves, and none just if none does. For a negative limit or a program that is too short it finds
none. No fault ends it. -/
theorem find_first (program : Memory) (target limit : Int) :
    ((∀ p, Tried program target limit p → ∃ answer, Gives program p.1 p.2 answer) →
      (∃ p?, Settles (fun fuel => find fuel program target limit) (.ok p?)) ∧
      (∀ p, Settles (fun fuel => find fuel program target limit) (.ok (some p)) ↔
        Tried program target limit p ∧ Solves program target p) ∧
      (Settles (fun fuel => find fuel program target limit) (.ok none) ↔
        ∀ p, Within limit p → ¬ Solves program target p)) ∧
    (limit < 0 ∨ program.size < 3 →
      Settles (fun fuel => find fuel program target limit) (.ok none)) ∧
    ∀ fuel log log' failure, find fuel program target limit log ≠ some (.error failure, log') := by
  refine ⟨fun hends => ⟨exists_settles_find hends, fun p => ?_, ?_⟩, ?_, ?_⟩
  · have hmisses : ∀ q, Tried program target limit q → ¬ Solves program target q →
        Misses program target q := by
      intro q htried hsolves
      obtain ⟨answer, hanswer⟩ := hends q htried
      refine ⟨answer, hanswer, ?_⟩
      rintro rfl
      exact hsolves hanswer
    rw [settles_find_iff]
    constructor
    · rintro (⟨-, h⟩ | ⟨p', ⟨hwithin, hbefore⟩, hsolves, h⟩)
      · cases h
      · cases h
        exact ⟨⟨hwithin, fun q hq hlt => (hbefore q hq hlt).not_solves⟩, hsolves⟩
    · rintro ⟨htried, hsolves⟩
      refine Or.inr ⟨p, ⟨htried.1, fun q hq hlt => ?_⟩, hsolves, rfl⟩
      exact hmisses q (htried.of_lt hq hlt) (htried.2 q hq hlt)
  · rw [settles_find_iff]
    constructor
    · rintro (⟨hall, -⟩ | ⟨p', -, -, h⟩)
      · exact fun p hp => (hall p hp).not_solves
      · cases h
    · intro hnone
      obtain ⟨p?, hfound⟩ := exists_settles_find hends
      rcases settles_find_iff.mp hfound with ⟨hall, -⟩ | ⟨p, ⟨hp, -⟩, hsolves, -⟩
      · exact Or.inl ⟨hall, rfl⟩
      · exact absurd hsolves (hnone p hp)
  · intro h
    rw [settles_find_iff]
    refine Or.inl ⟨fun q hq => ?_, rfl⟩
    rcases h with hlimit | hshort
    · have hq' := hq.1
      omega
    · exact misses_of_short hshort q
  · intro fuel log log' failure
    exact find_ne_error

theorem find_first_past_fault :
    Gives (.ofList [104, 0, 0, 0, 1, 0, 99]) 0 0 (.error (.trapped ⟨.invalidInstruction 0, 2⟩)) ∧
    Settles (fun fuel => find fuel (.ofList [104, 0, 0, 0, 1, 0, 99]) 104 5) (.ok (some (0, 1))) := by
  have hfault : Gives (.ofList [104, 0, 0, 0, 1, 0, 99]) 0 0
      (.error (.trapped ⟨.invalidInstruction 0, 2⟩)) :=
    (steady_runWith _ 0 0).settles (show runWith 2 _ 0 0 #[] = some (_, _) from rfl)
  have hsolves : Solves (.ofList [104, 0, 0, 0, 1, 0, 99]) 104 (0, 1) :=
    (steady_runWith _ 0 1).settles (show runWith 3 _ 0 1 #[] = some (_, _) from rfl)
  have hwithin : Within 5 (0, 1) := by simp [Within]
  have hfirst : Tried (.ofList [104, 0, 0, 0, 1, 0, 99]) 104 5 (0, 1) := by
    refine ⟨hwithin, fun q hq hlt hq' => ?_⟩
    obtain ⟨noun, verb⟩ := q
    simp only [Within, Prod.Lex.toLex_lt_toLex] at hq hlt
    obtain ⟨rfl, rfl⟩ : noun = 0 ∧ verb = 0 := by omega
    cases Settles.unique hfault hq'
  obtain ⟨-, hfound, -⟩ := (find_first (.ofList [104, 0, 0, 0, 1, 0, 99]) 104 5).1 fun p htried => by
    obtain ⟨noun, verb⟩ := p
    have hlt := mt (htried.2 (0, 1) hwithin) (not_not.mpr hsolves)
    have hp := htried.1
    simp only [Within, Prod.Lex.toLex_lt_toLex] at hp hlt
    obtain rfl : noun = 0 := by omega
    obtain rfl | rfl : verb = 0 ∨ verb = 1 := by omega
    · exact ⟨_, hfault⟩
    · exact ⟨_, hsolves⟩
  exact ⟨hfault, (hfound (0, 1)).mpr ⟨hfirst, hsolves⟩⟩

end Intcode.Gravity
