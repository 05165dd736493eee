import Intcode.Amplifier.Ring
import Intcode.Proofs.Machine.Run
import Mathlib.Data.List.Rotate

/-!
# Rings between two turns

A relay is a ring of amplifiers that keeps its order and a record of what has been fed to whom.
At every point between two turns each amplifier has been fed what its predecessor emitted, except
that the newest signal is still on its way to the one whose turn it is, and each is where it would
be if all of that had been queued at the start.
-/

namespace Intcode.Amplifier

/-- An amplifier with the signals it has been fed and the number of its instruction cycles. -/
structure Station where
  machine : Machine
  fed : List Int := []
  cycles : Nat := 0

def Station.after (x : Station) (signal : Int) (m : Machine) (n : Nat) : Station where
  machine := m.takeJournal.1
  fed := x.fed ++ [signal]
  cycles := x.cycles + n

/-- The amplifiers in the order of their phases, everything emitted so far, the newest signal. -/
structure Relay where
  stations : List Station
  emitted : List Int := []
  signal : Int

namespace Relay

def start (program : Memory) (phases : List Int) (signal : Int) : Relay where
  stations := phases.map fun phase => { machine := .start program [phase] false }
  signal := signal

def current (r : Relay) : Nat := r.emitted.length % r.stations.length

def predecessor (r : Relay) (i : Nat) : Nat := if i = 0 then r.stations.length - 1 else i - 1

/-- The current station has been fed the signal, and after `n` cycles its machine has emitted `v`. -/
def pass (r : Relay) (x : Station) (m : Machine) (n : Nat) (v : Int) : Relay where
  stations := r.stations.set r.current (x.after r.signal m n)
  emitted := r.emitted ++ [v]
  signal := v

inductive Reached (program : Memory) (phases : List Int) (signal : Int) : Relay → Prop
  | start : Reached program phases signal (start program phases signal)
  | pass {r : Relay} {x : Station} {m : Machine} {n fuel : Nat} {v : Int}
      (before : Reached program phases signal r) (hx : r.stations[r.current]? = some x)
      (hcall : x.machine.runUntilOutput fuel [r.signal] = some (m, .ok (.output v)))
      (hcycles : (x.machine.feed [r.signal]).Proceeds true n m (.ok (some v))) :
      Reached program phases signal (r.pass x m n v)

structure Faithful (program : Memory) (phases : List Int) (signal : Int) (r : Relay) : Prop where
  size : r.stations.length = phases.length
  delivered : ∀ (i : Nat) (x y : Station),
    r.stations[i]? = some x → r.stations[r.predecessor i]? = some y →
    x.fed ++ (if i = r.current then [r.signal] else []) =
      (if i = 0 then [signal] else []) ++ y.machine.outputs.toList
  eager : ∀ (i : Nat) (x : Station) (phase : Int),
    r.stations[i]? = some x → phases[i]? = some phase →
    x.machine.status = .running ∧ x.machine.toState =
      State.advance^[x.cycles] (Machine.start program (phase :: x.fed) false).toState
  newest : r.emitted ≠ [] → r.emitted.getLast? = some r.signal ∧
    ∃ y, r.stations[r.predecessor r.current]? = some y ∧
      y.machine.outputs.toList.getLast? = some r.signal

variable {program : Memory} {phases : List Int} {signal : Int} {r : Relay} {x : Station}
  {m : Machine} {n : Nat} {v : Int}

theorem stations_pass (i : Nat) (y : Station)
    (h : (r.pass x m n v).stations[i]? = some y) :
    (i = r.current ∧ y = x.after r.signal m n) ∨ (i ≠ r.current ∧ r.stations[i]? = some y) := by
  simp only [pass, List.getElem?_set] at h
  by_cases hi : r.current = i
  · rw [if_pos hi] at h
    split at h
    · cases h
      exact Or.inl ⟨hi.symm, rfl⟩
    · cases h
  · rw [if_neg hi] at h
    exact Or.inr ⟨fun hc => hi hc.symm, h⟩

theorem length_stations_pass : (r.pass x m n v).stations.length = r.stations.length := by
  simp [pass]

theorem current_pass (hx : r.stations[r.current]? = some x) :
    (r.pass x m n v).current =
      if r.current + 1 = r.stations.length then 0 else r.current + 1 := by
  have hlt := (List.getElem?_eq_some_iff.mp hx).1
  have hsucc : (r.emitted.length + 1) % r.stations.length =
      (r.current + 1) % r.stations.length := (Nat.mod_add_mod _ _ _).symm
  unfold current at hlt hsucc ⊢
  rw [length_stations_pass]
  simp only [pass, List.length_append, List.length_cons, List.length_nil, Nat.zero_add]
  rw [hsucc]
  split
  case isTrue h => rw [h, Nat.mod_self]
  case isFalse h => exact Nat.mod_eq_of_lt (by omega)

theorem predecessor_eq_current_iff (hx : r.stations[r.current]? = some x) {i : Nat}
    (hi : i < r.stations.length) :
    r.predecessor i = r.current ↔ i = (r.pass x m n v).current := by
  have hlt := (List.getElem?_eq_some_iff.mp hx).1
  rw [current_pass hx]
  unfold predecessor
  split <;> split <;> omega

theorem faithful_start : (start program phases signal).Faithful program phases signal where
  size := by simp [start]
  delivered := by
    intro i x y hx hy
    simp only [start, List.getElem?_map, Option.map_eq_some_iff] at hx hy
    obtain ⟨_, -, rfl⟩ := hx
    obtain ⟨_, -, rfl⟩ := hy
    simp [start, current, Machine.start]
  eager := by
    intro i x phase hx hphase
    simp only [start, List.getElem?_map, hphase, Option.map_some, Option.some.injEq] at hx
    subst hx
    exact ⟨rfl, rfl⟩
  newest := fun h => absurd rfl h

theorem outputs_of_proceeds (hc : (x.machine.feed [r.signal]).Proceeds true n m (.ok (some v))) :
    (x.after r.signal m n).machine.outputs.toList = x.machine.outputs.toList ++ [v] :=
  hc.outputs

theorem Faithful.delivered_pass (h : r.Faithful program phases signal)
    (hx : r.stations[r.current]? = some x)
    (hc : (x.machine.feed [r.signal]).Proceeds true n m (.ok (some v))) (i : Nat) (a b : Station)
    (ha : (r.pass x m n v).stations[i]? = some a)
    (hb : (r.pass x m n v).stations[(r.pass x m n v).predecessor i]? = some b) :
    a.fed ++ (if i = (r.pass x m n v).current then [(r.pass x m n v).signal] else []) =
      (if i = 0 then [signal] else []) ++ b.machine.outputs.toList := by
  have hpred : (r.pass x m n v).predecessor i = r.predecessor i := by
    simp only [predecessor, length_stations_pass]
  rw [hpred] at hb
  have hi : i < r.stations.length := by
    have hlt := (List.getElem?_eq_some_iff.mp ha).1
    rwa [length_stations_pass] at hlt
  -- whoever has just been fed has received the signal that was missing
  obtain ⟨a₀, ha₀, hfed⟩ : ∃ a₀, r.stations[i]? = some a₀ ∧
      a.fed = a₀.fed ++ (if i = r.current then [r.signal] else []) := by
    obtain ⟨hic, rfl⟩ | ⟨hic, hold⟩ := stations_pass i a ha
    · rw [if_pos hic]
      exact ⟨x, hic ▸ hx, rfl⟩
    · rw [if_neg hic]
      exact ⟨a, hold, (List.append_nil _).symm⟩
  -- whoever has just emitted is the predecessor of the next one only
  obtain ⟨b₀, hb₀, hout⟩ : ∃ b₀, r.stations[r.predecessor i]? = some b₀ ∧
      b.machine.outputs.toList = b₀.machine.outputs.toList ++
        (if i = (r.pass x m n v).current then [v] else []) := by
    have hnext := @predecessor_eq_current_iff r x m n v hx i hi
    obtain ⟨hic, rfl⟩ | ⟨hic, hold⟩ := stations_pass _ b hb
    · rw [if_pos (hnext.mp hic)]
      exact ⟨x, hic ▸ hx, outputs_of_proceeds hc⟩
    · rw [if_neg (mt hnext.mpr hic)]
      exact ⟨b, hold, (List.append_nil _).symm⟩
  rw [hfed, h.delivered i a₀ b₀ ha₀ hb₀, hout, List.append_assoc]
  rfl

theorem Faithful.eager_pass (h : r.Faithful program phases signal)
    (hx : r.stations[r.current]? = some x)
    (hc : (x.machine.feed [r.signal]).Proceeds true n m (.ok (some v))) (i : Nat) (a : Station)
    (phase : Int) (ha : (r.pass x m n v).stations[i]? = some a) (hphase : phases[i]? = some phase) :
    a.machine.status = .running ∧ a.machine.toState =
      State.advance^[a.cycles] (Machine.start program (phase :: a.fed) false).toState := by
  obtain ⟨rfl, rfl⟩ | ⟨-, hold⟩ := stations_pass i a ha
  · obtain ⟨hrun, heager⟩ := h.eager _ x phase hx hphase
    refine ⟨hc.status, ?_⟩
    have hlive : ¬ (State.advance^[x.cycles]
        (Machine.start program (phase :: x.fed) false).toState).Starved := by
      rw [← heager]
      rintro ⟨ip, hs⟩
      rw [hrun] at hs
      cases hs
    have hfeed := State.iterate_feed hlive [r.signal]
    rw [← heager] at hfeed
    calc m.toState = State.advance^[n] (x.machine.toState.feed [r.signal]) := hc.toState
      _ = State.advance^[n] (State.advance^[x.cycles]
            ((Machine.start program (phase :: x.fed) false).toState.feed [r.signal])) := by
          rw [hfeed]
      _ = State.advance^[n + x.cycles]
            (Machine.start program (phase :: (x.fed ++ [r.signal])) false).toState :=
          (Function.iterate_add_apply _ _ _ _).symm
      _ = _ := by rw [Nat.add_comm]; rfl
  · exact h.eager i a phase hold hphase

theorem Faithful.pass (h : r.Faithful program phases signal)
    (hx : r.stations[r.current]? = some x)
    (hc : (x.machine.feed [r.signal]).Proceeds true n m (.ok (some v))) :
    (r.pass x m n v).Faithful program phases signal where
  size := length_stations_pass.trans h.size
  delivered := h.delivered_pass hx hc
  eager := h.eager_pass hx hc
  newest := by
    intro _
    have hlt := (List.getElem?_eq_some_iff.mp hx).1
    have hnext : (r.pass x m n v).predecessor (r.pass x m n v).current = r.current := by
      have hcur := @current_pass r x m n v hx
      have hpos : (r.pass x m n v).current < r.stations.length := by
        rw [hcur]
        split <;> omega
      have hpred := (@predecessor_eq_current_iff r x m n v hx _ hpos).mpr rfl
      simpa only [predecessor, length_stations_pass] using hpred
    refine ⟨by simp [Relay.pass], x.after r.signal m n, ?_, ?_⟩
    · rw [hnext]
      exact List.getElem?_set_self hlt
    · rw [outputs_of_proceeds hc]
      simp [Relay.pass]

theorem Reached.faithful (h : Reached program phases signal r) :
    r.Faithful program phases signal := by
  induction h with
  | start => exact faithful_start
  | pass before hx hcall hcycles ih => exact ih.pass hx hcycles

end Relay

end Intcode.Amplifier
