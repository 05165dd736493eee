import Intcode.Proofs.Machine.Finality

/-!
# Driving a machine

A driver makes calls one after another, whatever they answer, and may take the outputs away in
between. Two machines that no cycle and no queueing of inputs tells apart stay in step under every
call; what their answers have in common is then a matter of the answers alone.
-/

namespace Option.Rel

variable {α β α' β' : Type} {r : α → β → Prop} {s : α' → β' → Prop} {x : Option α} {y : Option β}

theorem imp {r' : α → β → Prop} (h : Option.Rel r x y) (hr : ∀ {a b}, r a b → r' a b) :
    Option.Rel r' x y := by
  cases h with
  | none => exact .none
  | some hab => exact .some (hr hab)

theorem map {f : α → α'} {g : β → β'} (h : Option.Rel r x y)
    (hfg : ∀ {a b}, r a b → s (f a) (g b)) : Option.Rel s (x.map f) (y.map g) := by
  cases h with
  | none => exact .none
  | some hab => exact .some (hfg hab)

theorem bind {f : α → Option α'} {g : β → Option β'} (h : Option.Rel r x y)
    (hfg : ∀ {a b}, r a b → Option.Rel s (f a) (g b)) : Option.Rel s (x.bind f) (y.bind g) := by
  cases h with
  | none => exact .none
  | some hab => exact hfg hab

theorem map_eq {γ : Type} {f : α → γ} {g : β → γ} (h : Option.Rel r x y)
    (hfg : ∀ {a b}, r a b → f a = g b) : x.map f = y.map g := by
  cases h with
  | none => rfl
  | some hab => exact congrArg Option.some (hfg hab)

end Option.Rel

theorem Except.map_map {ε α β γ : Type} (x : Except ε α) (f : α → β) (g : β → γ) :
    (x.map f).map g = x.map fun a => g (f a) := by
  cases x <;> rfl

namespace Intcode

inductive Move where
  | call (c : Call)
  | drain
deriving DecidableEq

inductive Outcome where
  | answered (c : Call) (answer : Except Trap Answer) (after : State)
  | drained (taken : List Int)

namespace Move

def isCall : Move → Bool
  | call _ => true
  | drain => false

end Move

namespace Machine

def drive (fuel : Nat) : List Move → Machine → Option (Machine × List Outcome)
  | [], m => some (m, [])
  | .call c :: rest, m =>
    (c.perform fuel m).bind fun r =>
      (r.1.drive fuel rest).map fun last => (last.1, .answered c r.2 r.1.toState :: last.2)
  | .drain :: rest, m =>
    (m.drain.1.drive fuel rest).map fun last => (last.1, .drained m.drain.2.toList :: last.2)

end Machine

namespace Call

def answer (m : Machine) (emitted : Option Int) : Call → Answer
  | next => .value emitted
  | runToCompletion dump => .cells (m.result dump)
  | runUntilOutput _ => .pause (m.pauseOf emitted)

def run (fuel : Nat) (m : Machine) : Call → Option (Machine × Except Trap (Option Int))
  | next => some m.next
  | runToCompletion _ => m.proceed false fuel
  | runUntilOutput xs => (m.feed xs).proceed true fuel

theorem perform_eq_map (c : Call) (fuel : Nat) (m : Machine) :
    c.perform fuel m =
      (c.run fuel m).map fun r => (r.1, r.2.map fun emitted => c.answer r.1 emitted) := by
  cases c with
  | next => rfl
  | runToCompletion dump =>
    simp only [perform, run, Machine.runToCompletion_eq_map, Option.map_map, Function.comp_def,
      Except.map_map, answer]
  | runUntilOutput xs =>
    simp only [perform, run, Machine.runUntilOutput_eq_map, Option.map_map, Function.comp_def,
      Except.map_map, answer]

end Call

/-- Cycles and queued inputs keep the relation, and related machines reply alike. -/
structure Lockstep (R : Machine → Machine → Prop) : Prop where
  status {m m' : Machine} (h : R m m') : m'.status = m.status
  feed {m m' : Machine} (h : R m m') (xs : List Int) : R (m.feed xs) (m'.feed xs)
  next {m m' : Machine} (h : R m m') : R m.next.1 m'.next.1
  reply {m m' : Machine} (h : R m m') : m'.next.2 = m.next.2

namespace Lockstep

variable {R : Machine → Machine → Prop} {m m' : Machine} {pausing : Bool} {fuel : Nat}

structure Together (R : Machine → Machine → Prop) (pausing : Bool) (m m' : Machine)
    (r r' : Machine × Except Trap (Option Int)) : Prop where
  kept : R r.1 r'.1
  reply : r'.2 = r.2
  proceeds : ∃ n, m.Proceeds pausing n r.1 r.2 ∧ m'.Proceeds pausing n r'.1 r'.2

theorem proceed_of_stopped (hR : Lockstep R) (h : R m m') (hstop : m.status ≠ .running) :
    Option.Rel (Together R pausing m m') (m.proceed pausing fuel) (m'.proceed pausing fuel) := by
  obtain ⟨reply, hs⟩ := m.exists_statusAfter
  have hs' := hR.status h
  have hp := Machine.proceeds_of_stopped hs hstop pausing
  have hp' := Machine.proceeds_of_stopped (hs'.trans hs) (by rwa [hs']) pausing
  rw [hp.proceed (Nat.zero_le fuel), hp'.proceed (Nat.zero_le fuel)]
  exact .some ⟨h, rfl, 0, hp, hp'⟩

theorem Together.cons {r r' : Machine × Except Trap (Option Int)} {value : Option Int}
    (h : Together R pausing m.next.1 m'.next.1 r r') (hs : m.status = .running)
    (hs' : m'.status = .running) (hn : m.next.2 = .ok value) (hn' : m'.next.2 = .ok value)
    (hp : pausing = true → value = none) : Together R pausing m m' r r' := by
  obtain ⟨n, hr, hr'⟩ := h.proceeds
  exact ⟨h.kept, h.reply, n + 1, .next hs hn hp hr, .next hs' hn' hp hr'⟩

theorem proceed (hR : Lockstep R) (h : R m m') :
    Option.Rel (Together R pausing m m') (m.proceed pausing fuel) (m'.proceed pausing fuel) := by
  induction fuel generalizing m m' with
  | zero =>
    by_cases hs : m.status = .running
    · rw [Machine.proceed_zero hs, Machine.proceed_zero ((hR.status h).trans hs)]
      exact .none
    · exact hR.proceed_of_stopped h hs
  | succ fuel ih =>
    by_cases hs : m.status = .running
    · have hs' := (hR.status h).trans hs
      have hreply := hR.reply h
      rw [Machine.proceed_succ hs, Machine.proceed_succ hs', hreply]
      rcases hn : m.next.2 with trap | _ | v
      · have hn' := hreply.trans hn
        exact .some ⟨hR.next h, rfl, 1, .trapped hs hn, .trapped hs' hn'⟩
      · have hn' := hreply.trans hn
        exact (ih (hR.next h)).imp fun hr => hr.cons hs hs' hn hn' fun _ => rfl
      · have hn' := hreply.trans hn
        cases pausing with
        | true => exact .some ⟨hR.next h, rfl, 1, .paused hs rfl hn, .paused hs' rfl hn'⟩
        | false => exact (ih (hR.next h)).imp fun hr => hr.cons hs hs' hn hn' fun hp => by cases hp
    · exact hR.proceed_of_stopped h hs

theorem run (hR : Lockstep R) (h : R m m') (c : Call) :
    Option.Rel (fun r r' => R r.1 r'.1 ∧ r'.2 = r.2 ∧
        ∃ n, Call.Returns m c n r.1 ∧ Call.Returns m' c n r'.1)
      (c.run fuel m) (c.run fuel m') := by
  cases c with
  | next => exact .some ⟨hR.next h, hR.reply h, 1, .next, .next⟩
  | runToCompletion dump =>
    refine (hR.proceed h).imp fun ⟨hm, hreply, n, hp, hp'⟩ => ?_
    exact ⟨hm, hreply, n, .runToCompletion hp, .runToCompletion hp'⟩
  | runUntilOutput xs =>
    refine (hR.proceed (hR.feed h xs)).imp fun ⟨hm, hreply, n, hp, hp'⟩ => ?_
    exact ⟨hm, hreply, n, .runUntilOutput hp, .runUntilOutput hp'⟩

theorem perform {β : Type} {f : Answer → β} (hR : Lockstep R) (h : R m m') (c : Call)
    (hf : ∀ {m m' : Machine} (emitted : Option Int), R m m' →
      f (c.answer m' emitted) = f (c.answer m emitted)) :
    Option.Rel (fun r r' => R r.1 r'.1 ∧ r'.2.map f = r.2.map f ∧
        ∃ n, Call.Returns m c n r.1 ∧ Call.Returns m' c n r'.1)
      (c.perform fuel m) (c.perform fuel m') := by
  rw [Call.perform_eq_map, Call.perform_eq_map]
  refine (hR.run h c).map fun {r r'} ⟨hm, hreply, hn⟩ => ⟨hm, ?_, hn⟩
  rw [hreply, Except.map_map, Except.map_map]
  exact congrArg (r.2.map ·) (funext fun emitted => hf emitted hm)

end Lockstep

end Intcode
