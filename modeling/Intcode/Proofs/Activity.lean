import Intcode.Activity

/-!
# Answers of bounded work

Work that contains runs is given a number of steps. It settles on an answer when every large enough
number leads to it. The work is steady when an answer, once there, does not depend on the steps
that are left or on what has been reported before; answers of steady work compose.
-/

namespace Intcode

variable {ε α β : Type}

namespace Activity

variable {x : Activity ε α} {f : α → Activity ε β} {log log' : Log}

theorem ofExcept_apply (result : Except ε α) (log : Log) :
    ofExcept result log = some (result, log) := rfl

theorem bind_of_none (h : x log = none) : (x >>= f) log = none := by
  rw [bind_apply, h]

theorem bind_of_error {e : ε} (h : x log = some (.error e, log')) :
    (x >>= f) log = some (.error e, log') := by
  rw [bind_apply, h]

theorem bind_of_ok {a : α} (h : x log = some (.ok a, log')) : (x >>= f) log = f a log' := by
  rw [bind_apply, h]

end Activity

/-- With enough steps the work comes to this answer. -/
def Settles (x : Nat → Activity ε α) (answer : Except ε α) : Prop :=
  ∃ least, ∀ fuel, least ≤ fuel → ∃ log, (x fuel).perform = some (answer, log)

structure Steady (x : Nat → Activity ε α) : Prop where
  mono : ∀ {fuel fuel' : Nat} {log : Log} {outcome : Except ε α × Log}, fuel ≤ fuel' →
    x fuel log = some outcome → x fuel' log = some outcome
  detached : ∀ (fuel : Nat) (log log' : Log),
    (x fuel log).map Prod.fst = (x fuel log').map Prod.fst

theorem Settles.unique {x : Nat → Activity ε α} {a b : Except ε α} (ha : Settles x a)
    (hb : Settles x b) : a = b := by
  obtain ⟨i, hi⟩ := ha
  obtain ⟨j, hj⟩ := hb
  obtain ⟨log, h⟩ := hi (max i j) (Nat.le_max_left i j)
  obtain ⟨log', h'⟩ := hj (max i j) (Nat.le_max_right i j)
  rw [h] at h'
  exact congrArg Prod.fst (Option.some.inj h')

theorem settles_const_iff {x : Activity ε α} {answer a : Except ε α} {log : Log}
    (h : x.perform = some (a, log)) : Settles (fun _ => x) answer ↔ answer = a := by
  have hx : Settles (fun _ => x) a := ⟨0, fun _ _ => ⟨log, h⟩⟩
  constructor
  · intro hanswer
    exact hanswer.unique hx
  · rintro rfl
    exact hx

namespace Steady

variable {x : Nat → Activity ε α} {f : α → Nat → Activity ε β} {fuel : Nat} {log log' : Log}
  {answer : Except ε α}

theorem exists_log (hx : Steady x) (h : x fuel log = some (answer, log')) (start : Log) :
    ∃ last, x fuel start = some (answer, last) := by
  have hfst := hx.detached fuel start log
  rw [h] at hfst
  obtain ⟨⟨_, last⟩, hlast, rfl⟩ := Option.map_eq_some_iff.mp hfst
  exact ⟨last, hlast⟩

theorem settles (hx : Steady x) (h : x fuel log = some (answer, log')) : Settles x answer := by
  obtain ⟨last, hlast⟩ := hx.exists_log h #[]
  exact ⟨fuel, fun _ hle => ⟨last, hx.mono hle hlast⟩⟩

theorem of_run {γ : Type} {run : Nat → Option γ} {f : γ → Except ε α} {g : γ → Log → Log}
    (hmono : ∀ {fuel fuel' : Nat} {r : γ}, run fuel = some r → fuel ≤ fuel' → run fuel' = some r)
    (h : ∀ fuel log, x fuel log = (run fuel).map fun r => (f r, g r log)) : Steady x where
  mono {fuel fuel' log outcome} hle hrun := by
    rw [h] at hrun ⊢
    obtain ⟨r, hr, rfl⟩ := Option.map_eq_some_iff.mp hrun
    rw [hmono hr hle]
    rfl
  detached fuel log log' := by
    rw [h, h, Option.map_map, Option.map_map]
    rfl

theorem recast {ε' : Type} {y : Nat → Activity ε' β} {f : Except ε α → Except ε' β}
    {g : Except ε α → Log → Log} (hx : Steady x)
    (h : ∀ fuel log, y fuel log = (x fuel log).map fun r => (f r.1, g r.1 r.2)) : Steady y where
  mono {fuel fuel' log outcome} hle hrun := by
    rw [h] at hrun ⊢
    obtain ⟨r, hr, rfl⟩ := Option.map_eq_some_iff.mp hrun
    rw [hx.mono hle hr]
    rfl
  detached fuel log log' := by
    have hfst : ∀ log, (y fuel log).map Prod.fst = ((x fuel log).map Prod.fst).map f := by
      intro log
      rw [h, Option.map_map, Option.map_map]
      rfl
    rw [hfst, hfst, hx.detached fuel log log']

theorem settles_recast_iff {ε' : Type} {y : Nat → Activity ε' β} {f : Except ε α → Except ε' β}
    {g : Except ε α → Log → Log} (hx : Steady x)
    (h : ∀ fuel log, y fuel log = (x fuel log).map fun r => (f r.1, g r.1 r.2))
    {answer : Except ε' β} : Settles y answer ↔ ∃ a, Settles x a ∧ answer = f a := by
  constructor
  · rintro ⟨least, hleast⟩
    obtain ⟨log, hlog : y least #[] = some (answer, log)⟩ := hleast least (Nat.le_refl least)
    rw [h] at hlog
    obtain ⟨r, hr, he⟩ := Option.map_eq_some_iff.mp hlog
    exact ⟨r.1, hx.settles hr, (congrArg Prod.fst he).symm⟩
  · rintro ⟨a, ⟨least, hleast⟩, rfl⟩
    refine ⟨least, fun fuel hle => ?_⟩
    obtain ⟨log, hlog : x fuel #[] = some (a, log)⟩ := hleast fuel hle
    refine ⟨g a log, ?_⟩
    rw [Activity.perform, h, hlog]
    rfl

theorem pure (a : α) : Steady fun _ => (Pure.pure a : Activity ε α) where
  mono _ h := h
  detached _ _ _ := rfl

theorem fail (e : ε) : Steady fun _ => (Activity.fail e : Activity ε α) where
  mono _ h := h
  detached _ _ _ := rfl

theorem report (event : Event) : Steady fun _ => (Activity.report event : Activity ε Unit) where
  mono _ h := h
  detached _ _ _ := rfl

theorem bind (hx : Steady x) (hf : ∀ a, Steady (f a)) :
    Steady fun fuel => x fuel >>= fun a => f a fuel where
  mono {fuel fuel' log outcome} hle h := by
    rcases hrun : x fuel log with _ | ⟨e | a, log'⟩
    · rw [Activity.bind_of_none hrun] at h
      cases h
    · rw [Activity.bind_of_error hrun] at h
      rw [Activity.bind_of_error (hx.mono hle hrun), h]
    · rw [Activity.bind_of_ok hrun] at h
      rw [Activity.bind_of_ok (hx.mono hle hrun)]
      exact (hf a).mono hle h
  detached fuel log log' := by
    rcases hrun : x fuel log with _ | ⟨e | a, last⟩
    · have hfst := hx.detached fuel log log'
      rw [hrun] at hfst
      rw [Activity.bind_of_none hrun,
        Activity.bind_of_none (Option.map_eq_none_iff.mp hfst.symm)]
    · obtain ⟨last', hlast⟩ := hx.exists_log hrun log'
      rw [Activity.bind_of_error hrun, Activity.bind_of_error hlast]
      rfl
    · obtain ⟨last', hlast⟩ := hx.exists_log hrun log'
      rw [Activity.bind_of_ok hrun, Activity.bind_of_ok hlast]
      exact (hf a).detached fuel last last'

theorem settles_bind_iff (hx : Steady x) (hf : ∀ a, Steady (f a)) {answer : Except ε β} :
    Settles (fun fuel => x fuel >>= fun a => f a fuel) answer ↔
      (∃ e, Settles x (.error e) ∧ answer = .error e) ∨
        ∃ a, Settles x (.ok a) ∧ Settles (f a) answer := by
  constructor
  · rintro ⟨least, hleast⟩
    obtain ⟨log, h : (x least >>= fun a => f a least) #[] = some (answer, log)⟩ :=
      hleast least (Nat.le_refl least)
    rcases hrun : x least #[] with _ | ⟨e | a, last⟩
    · rw [Activity.bind_of_none hrun] at h
      cases h
    · rw [Activity.bind_of_error hrun] at h
      cases h
      exact Or.inl ⟨e, hx.settles hrun, rfl⟩
    · rw [Activity.bind_of_ok hrun] at h
      exact Or.inr ⟨a, hx.settles hrun, (hf a).settles h⟩
  · rintro (⟨e, ⟨least, hleast⟩, rfl⟩ | ⟨a, ⟨i, hi⟩, ⟨j, hj⟩⟩)
    · refine ⟨least, fun fuel hle => ?_⟩
      obtain ⟨log, h⟩ := hleast fuel hle
      exact ⟨log, Activity.bind_of_error h⟩
    · refine ⟨max i j, fun fuel hle => ?_⟩
      obtain ⟨log, h⟩ := hi fuel (Nat.le_trans (Nat.le_max_left i j) hle)
      obtain ⟨log', h'⟩ := hj fuel (Nat.le_trans (Nat.le_max_right i j) hle)
      obtain ⟨last, hlast⟩ := (hf a).exists_log h' log
      exact ⟨last, (Activity.bind_of_ok h).trans hlast⟩

end Steady

end Intcode
