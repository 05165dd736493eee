import Intcode.Proofs.Instruction.Encoding

/-!
# The order of the checks

Everything that can be wrong with the instruction at the pointer, as a list of checks that is read
off the cells. Main statement: a cycle of a running machine raises the fault of the first check in
the list that fails, and raises nothing if none of them fails.
-/

namespace Intcode

inductive Check where
  | cell (address : ℤ)
  | code (raw : ℤ)
  | mode (raw : ℤ) (i : ℕ)
  | pending

namespace Check

def fault : Check → Fault
  | cell a => .outOfBounds a
  | code raw | mode raw _ => .invalidInstruction raw
  | pending => .inputStarved

def Fails (s : State) : Check → Prop
  | cell a => a < 0 ∨ s.memory.size ≤ a
  | code raw => raw < 0 ∨ ∀ op ∈ Operation.all, raw % 100 ≠ op.code
  | mode raw i => raw / 10 ^ (i + 2) % 10 ≠ 0 ∧ raw / 10 ^ (i + 2) % 10 ≠ 1
  | pending => s.pending = []

instance (s : State) : DecidablePred (Fails s)
  | cell _ => inferInstanceAs (Decidable (_ ∨ _))
  | code _ => inferInstanceAs (Decidable (_ ∨ _))
  | mode _ _ => inferInstanceAs (Decidable (_ ∧ _))
  | pending => inferInstanceAs (Decidable (_ = _))

end Check

namespace State

variable (s : State)

def contents (a : ℤ) : ℤ := s.memory.toList[a.toNat]?.getD 0

def raw : ℤ := s.contents s.ip

def argument (i : ℕ) : ℤ := s.contents (s.ip + 1 + i)

def ByPosition (i : ℕ) : Prop := s.raw / 10 ^ (i + 2) % 10 = 0

instance (i : ℕ) : Decidable (s.ByPosition i) :=
  inferInstanceAs (Decidable (_ = _))

def target (i : ℕ) : ℤ := if s.ByPosition i then s.argument i else s.ip + 1 + i

def operandChecks (i : ℕ) : List Check := [.mode s.raw i, .cell (s.ip + 1 + i)]

def loadChecks (i : ℕ) : List Check := if s.ByPosition i then [.cell (s.argument i)] else []

def effectChecks : Operation → List Check
  | .add | .multiply | .lessThan | .equals =>
    s.loadChecks 0 ++ (s.loadChecks 1 ++ [.cell (s.target 2)])
  | .jumpIfTrue | .jumpIfFalse => s.loadChecks 0 ++ s.loadChecks 1
  | .output => s.loadChecks 0
  | .input => [.pending, .cell (s.target 0)]
  | .halt => []

def checks : List Check :=
  [.cell s.ip, .code s.raw] ++
    match Operation.ofCode? (s.raw % 100).toNat with
    | some op => (List.range op.operandCount).flatMap s.operandChecks ++ s.effectChecks op
    | none => []

end State

/-- A computation makes these checks: it fails with the fault of the first one that fails. -/
def Makes {α : Type} (s : State) (cs : List Check) (x : Except Fault α) : Prop :=
  ∀ fault, x = .error fault ↔ ∃ c, cs.find? (fun c => c.Fails s) = some c ∧ c.fault = fault

section Makes

variable {α β : Type} {s : State} {cs ds : List Check} {c : Check} {x : Except Fault α}

theorem makes_ok (s : State) (a : α) : Makes s [] (.ok a) := by
  intro fault
  simp

theorem makes_of_fails (h : c.Fails s) : Makes s (c :: cs) (.error c.fault : Except Fault α) := by
  intro fault
  simp [h]

theorem makes_of_passes (h : ¬ c.Fails s) (hx : Makes s cs x) : Makes s (c :: cs) x := by
  intro fault
  rw [List.find?_cons_of_neg (by simpa using h)]
  exact hx fault

theorem makes_singleton (hfails : c.Fails s → x = .error c.fault)
    (hpasses : ¬ c.Fails s → ∃ a, x = .ok a) : Makes s [c] x := by
  by_cases h : c.Fails s
  · rw [hfails h]
    exact makes_of_fails h
  · obtain ⟨a, rfl⟩ := hpasses h
    exact makes_of_passes h (makes_ok s a)

theorem makes_of_ok_iff (hok : (∃ a, x = .ok a) ↔ ¬ c.Fails s)
    (herror : ∀ fault, x = .error fault → fault = c.fault) : Makes s [c] x := by
  refine makes_singleton (fun h => ?_) hok.mpr
  cases hx : x with
  | error fault => rw [herror fault hx]
  | ok a => exact absurd h (hok.mp ⟨a, hx⟩)

theorem Makes.bind {f : α → Except Fault β} (hx : Makes s cs x)
    (hf : ∀ a, x = .ok a → Makes s ds (f a)) : Makes s (cs ++ ds) (x >>= f) := by
  intro fault
  rw [List.find?_append]
  cases x with
  | error first =>
    obtain ⟨c, hc, rfl⟩ := (hx first).mp rfl
    rw [hc]
    constructor
    · intro h
      cases h
      exact ⟨c, rfl, rfl⟩
    · rintro ⟨d, hd, rfl⟩
      cases hd
      rfl
  | ok a =>
    have hnone : cs.find? (fun c => c.Fails s) = none := by
      cases hc : cs.find? (fun c => c.Fails s) with
      | none => rfl
      | some c => cases (hx c.fault).mpr ⟨c, hc, rfl⟩
    rw [hnone, Option.none_or]
    exact hf a rfl fault

theorem contains_iff {a : ℤ} : s.memory.Contains a ↔ ¬ (Check.cell a).Fails s := by
  unfold Memory.Contains Check.Fails
  omega

theorem makes_check (s : State) (a : ℤ) : Makes s [.cell a] (s.memory.check a) := by
  refine makes_singleton (fun h => if_neg ?_) (fun h => ⟨(), if_pos (contains_iff.mpr h)⟩)
  exact fun hc => contains_iff.mp hc h

theorem makes_read (s : State) (a : ℤ) : Makes s [.cell a] (s.memory.read a) := by
  refine makes_singleton (fun h => dif_neg ?_) (fun h => Memory.exists_read (contains_iff.mpr h))
  exact fun hc => contains_iff.mp hc h

theorem makes_decodeOperation (s : State) (raw : ℤ) :
    Makes s [.code raw] (decodeOperation raw) := by
  refine makes_of_ok_iff ?_ fun fault => decodeOperation_eq_error
  simp only [decodeOperation_eq_ok_iff, Check.Fails]
  constructor
  · rintro ⟨op, hpos, hop⟩ (hneg | hnone)
    · omega
    · exact hnone op (Operation.mem_all op) hop
  · intro h
    obtain ⟨hpos, hsome⟩ := not_or.mp h
    push Not at hsome
    obtain ⟨op, -, hop⟩ := hsome
    exact ⟨op, by omega, hop⟩

theorem modeDigit_eq (raw : ℤ) (i : ℕ) : modeDigit raw i = raw / 10 ^ (i + 2) % 10 := by
  have hpow : (100 : ℤ) * 10 ^ i = 10 ^ (i + 2) := by ring
  have hdigit : modeDigit raw i = raw / 100 / (10 ^ i : ℕ) % 10 := rfl
  rw [hdigit, Nat.cast_pow, Nat.cast_ofNat, Int.ediv_ediv_of_nonneg (by decide), hpow]

theorem makes_decodeMode (s : State) (raw : ℤ) (i : ℕ) :
    Makes s [.mode raw i] (decodeMode raw i) := by
  refine makes_of_ok_iff ?_ fun fault => decodeMode_eq_error
  simp only [decodeMode_eq_ok_iff, Check.Fails, modeDigit_eq]
  constructor
  · rintro ⟨mode, hmode⟩ ⟨hposition, himmediate⟩
    cases mode with
    | position => exact hposition hmode
    | immediate => exact himmediate hmode
  · intro h
    by_cases hposition : raw / 10 ^ (i + 2) % 10 = 0
    · exact ⟨.position, hposition⟩
    · exact ⟨.immediate, not_not.mp fun himmediate => h ⟨hposition, himmediate⟩⟩

end Makes

section Decoding

variable {s : State} {i : ℕ} {x : Operand}

theorem contents_of_read {a v : ℤ} (h : s.memory.read a = .ok v) : s.contents a = v := by
  rw [State.contents, (Memory.read_eq_ok_iff.mp h).2]
  rfl

theorem makes_operand (s : State) (i : ℕ) :
    Makes s (s.operandChecks i) (s.memory.operand s.raw s.ip i) :=
  (makes_decodeMode s s.raw i).bind fun _ _ =>
    (makes_read s (s.ip + 1 + i)).bind fun _ _ => makes_ok s _

theorem makes_operands (s : State) (n : ℕ) :
    Makes s ((List.range n).flatMap s.operandChecks) (s.memory.operands s.raw s.ip n) := by
  induction n with
  | zero => exact makes_ok s _
  | succ n ih =>
    rw [List.range_succ, List.flatMap_append, List.flatMap_singleton, Memory.operands]
    refine ih.bind fun xs _ => ?_
    rw [← List.append_nil (s.operandChecks n)]
    exact (makes_operand s n).bind fun x _ => makes_ok s _

structure Decoded (s : State) (i : ℕ) (x : Operand) : Prop where
  byPosition : s.ByPosition i ↔ x.mode = .position
  argument : s.argument i = x.value
  position : x.position = s.ip + 1 + i

theorem decoded_of_operand (h : s.memory.operand s.raw s.ip i = .ok x) : Decoded s i x := by
  obtain ⟨hmode, hvalue, hposition⟩ := Memory.operand_eq_ok_iff.mp h
  refine ⟨?_, contents_of_read hvalue, hposition⟩
  rw [State.ByPosition, ← modeDigit_eq, hmode]
  cases x.mode <;> decide

theorem Decoded.target (h : Decoded s i x) : x.target = s.target i := by
  unfold Operand.target State.target
  cases hx : x.mode with
  | position => rw [if_pos (h.byPosition.mpr hx), h.argument]
  | immediate => rw [if_neg (by rw [h.byPosition, hx]; simp), h.position]

theorem Decoded.makes_load (h : Decoded s i x) : Makes s (s.loadChecks i) (x.load s.memory) := by
  unfold Operand.load State.loadChecks
  cases hx : x.mode with
  | position =>
    rw [if_pos (h.byPosition.mpr hx), h.argument]
    exact makes_read s x.value
  | immediate =>
    rw [if_neg (by rw [h.byPosition, hx]; simp)]
    exact makes_ok s x.value

end Decoding

section Effect

variable {s : State} {x y z : Operand}

theorem makes_combine (f : ℤ → ℤ → ℤ) (hx : Decoded s 0 x) (hy : Decoded s 1 y)
    (hz : Decoded s 2 z) :
    Makes s (s.loadChecks 0 ++ (s.loadChecks 1 ++ [.cell (s.target 2)]))
      (Instruction.combine f s.memory #v[x, y, z]) := by
  refine hx.makes_load.bind fun a _ => hy.makes_load.bind fun b _ => ?_
  rw [← hz.target]
  exact (makes_check s z.target).bind fun _ _ => makes_ok s _

theorem makes_branch (taken : ℤ → Bool) (hx : Decoded s 0 x) (hy : Decoded s 1 y) :
    Makes s (s.loadChecks 0 ++ s.loadChecks 1) (Instruction.branch taken s.memory #v[x, y]) := by
  rw [← List.append_nil (s.loadChecks 1)]
  exact hx.makes_load.bind fun v _ => hy.makes_load.bind fun a _ => makes_ok s _

theorem makes_emit (hx : Decoded s 0 x) :
    Makes s (s.loadChecks 0) (x.load s.memory >>= fun v => .ok (Effect.emit v)) := by
  rw [← List.append_nil (s.loadChecks 0)]
  exact hx.makes_load.bind fun v _ => makes_ok s _

theorem makes_receive (hx : Decoded s 0 x) :
    Makes s [.pending, .cell (s.target 0)] (Instruction.receive s.memory x s.pending) := by
  rw [← hx.target]
  cases hp : s.pending with
  | nil => exact makes_of_fails hp
  | cons v rest =>
    have hpasses : ¬ Check.pending.Fails s := fun h => by cases hp.symm.trans h
    exact makes_of_passes hpasses ((makes_check s x.target).bind fun _ _ => makes_ok s _)

theorem makes_effect {op : Operation} (hop : op ≠ .halt) {xs : Vector Operand op.operandCount}
    (h : s.memory.operands s.raw s.ip op.operandCount = .ok xs) :
    Makes s (s.effectChecks op) (Instruction.effect ⟨op, hop, xs⟩ s.memory s.pending) := by
  have hdecoded : ∀ (i : ℕ) (hi : i < op.operandCount), Decoded s i xs[i] := fun i hi =>
    decoded_of_operand (Memory.operands_eq_ok_iff.mp h i hi)
  cases op with
  | add | multiply | lessThan | equals =>
    obtain ⟨x, y, z, rfl⟩ := Instruction.exists_triple xs
    exact makes_combine _ (hdecoded 0 (by decide)) (hdecoded 1 (by decide))
      (hdecoded 2 (by decide))
  | jumpIfTrue | jumpIfFalse =>
    obtain ⟨x, y, rfl⟩ := Instruction.exists_pair xs
    exact makes_branch _ (hdecoded 0 (by decide)) (hdecoded 1 (by decide))
  | output =>
    obtain ⟨x, rfl⟩ := Instruction.exists_singleton xs
    exact makes_emit (hdecoded 0 (by decide))
  | input =>
    obtain ⟨x, rfl⟩ := Instruction.exists_singleton xs
    exact makes_receive (hdecoded 0 (by decide))
  | halt => exact absurd rfl hop

end Effect

namespace State

def attempt (s : State) : Except Fault (Option Effect) := do
  match ← s.memory.decode s.ip with
  | none => return none
  | some ins => return some (← ins.effect s.memory s.pending)

variable {s : State}

theorem makes_attempt (s : State) : Makes s s.checks s.attempt := by
  show Makes s ([.cell s.ip] ++ ([.code s.raw] ++ _)) _
  unfold attempt Memory.decode
  simp only [bind_assoc]
  refine (makes_read s s.ip).bind fun raw hraw => ?_
  obtain rfl : s.raw = raw := contents_of_read hraw
  refine (makes_decodeOperation s s.raw).bind fun op hop => ?_
  obtain ⟨-, hcode⟩ := decodeOperation_eq_ok_iff.mp hop
  have hfound : Operation.ofCode? (s.raw % 100).toNat = some op := by
    rw [Operation.ofCode?_eq_some_iff]
    omega
  rw [hfound]
  by_cases hhalt : op = .halt
  · subst hhalt
    exact makes_ok s _
  · rw [dif_neg hhalt, bind_assoc]
    refine (makes_operands s op.operandCount).bind fun xs hxs => ?_
    rw [← List.append_nil (s.effectChecks op)]
    exact (makes_effect hhalt hxs).bind fun e _ => makes_ok s _

theorem reply_of_attempt (h : s.status = .running) :
    s.next.2.reply = match s.attempt with
      | .error fault => .error ⟨fault, s.ip⟩
      | .ok none => .ok none
      | .ok (some e) => .ok e.emitted? := by
  unfold attempt
  obtain ⟨fault, hd, hn⟩ | ⟨hd, hn⟩ | ⟨ins, fault, hd, he, hn⟩ | ⟨ins, e, hd, he, hn⟩ :=
    next_cases h
  · rw [hn, hd]
    rfl
  · rw [hn, hd]
    rfl
  · rw [hn, hd]
    simp only [bind, Except.bind, he]
    rfl
  · rw [hn, hd]
    simp only [bind, Except.bind, he]
    rfl

theorem reply_eq_error_iff (h : s.status = .running) (trap : Trap) :
    s.next.2.reply = .error trap ↔
      ∃ c, s.checks.find? (fun c => c.Fails s) = some c ∧ trap = ⟨c.fault, s.ip⟩ := by
  have hmakes := makes_attempt s
  rw [reply_of_attempt h]
  constructor
  · intro hr
    cases ha : s.attempt with
    | error fault =>
      rw [ha] at hr
      cases hr
      obtain ⟨c, hc, rfl⟩ := (hmakes fault).mp ha
      exact ⟨c, hc, rfl⟩
    | ok effect? =>
      rw [ha] at hr
      cases effect? <;> cases hr
  · rintro ⟨c, hc, rfl⟩
    rw [(hmakes c.fault).mpr ⟨c, hc, rfl⟩]

end State

namespace Machine

/-- The checks of a state are all that a cycle of a running machine can fail on. It raises the fault
of the first one that fails, together with the pointer, and it goes through exactly when none of them
fails. A cell that asks to halt does so whatever its other digits are. -/
theorem next_raises_first (m : Machine) (h : m.status = .running) :
    (∀ trap, m.next.2 = .error trap ↔ ∃ before c after, m.checks = before ++ c :: after ∧
      (∀ d ∈ before, ¬ d.Fails m.toState) ∧ c.Fails m.toState ∧ trap = ⟨c.fault, m.ip⟩) ∧
    ((∃ reply, m.next.2 = .ok reply) ↔ ∀ c ∈ m.checks, ¬ c.Fails m.toState) ∧
    (∀ raw, m.memory.read m.ip = .ok raw → 0 ≤ raw → raw % 100 = 99 →
      m.next.2 = .ok none ∧ m.next.1.status = .halted) ∧
    ∀ trap, m.next.2 = .error trap → m.next.1.status = .faulted trap := by
  have herror := State.reply_eq_error_iff h
  rw [toState_next, reply_next]
  refine ⟨fun trap => ?_, ⟨?_, ?_⟩, ?_, fun trap => State.status_of_error⟩
  · simp only [herror, List.find?_eq_some_iff_append]
    constructor
    · rintro ⟨c, ⟨hfails, before, after, hsplit, hbefore⟩, rfl⟩
      exact ⟨before, c, after, hsplit, by simpa using hbefore, of_decide_eq_true hfails, rfl⟩
    · rintro ⟨before, c, after, hsplit, hbefore, hfails, rfl⟩
      exact ⟨c, ⟨decide_eq_true hfails, before, after, hsplit, by simpa using hbefore⟩, rfl⟩
  · rintro ⟨reply, hreply⟩ c hc hfails
    cases hfirst : m.checks.find? fun c => c.Fails m.toState with
    | none => exact absurd hfails (by simpa using List.find?_eq_none.mp hfirst c hc)
    | some d =>
      rw [(herror _).mpr ⟨d, hfirst, rfl⟩] at hreply
      cases hreply
  · intro hpass
    cases hr : m.toState.next.2.reply with
    | ok reply => exact ⟨reply, rfl⟩
    | error trap =>
      obtain ⟨c, hc, -⟩ := (herror trap).mp hr
      have hfails := List.find?_some hc
      exact absurd (of_decide_eq_true hfails) (hpass c (List.mem_of_find?_eq_some hc))
  · intro raw hraw hpos hcode
    have hd := Memory.decode_eq_none_iff.mpr ⟨raw, hraw, hpos, hcode⟩
    unfold State.advance
    rw [State.next_of_halt h hd]
    exact ⟨rfl, rfl⟩

theorem next_raises_first_starved :
    (start (.ofList [3, 9, 99]) [] false).next.2 = .error ⟨.inputStarved, 0⟩ ∧
      (start (.ofList [1, 7]) [] false).next.2 = .error ⟨.outOfBounds 2, 0⟩ :=
  ⟨((next_raises_first _ rfl).1 _).mpr
      ⟨[.cell 0, .code 3, .mode 3 0, .cell 1], .pending, [.cell 9], rfl, by decide, rfl, rfl⟩,
    ((next_raises_first _ rfl).1 _).mpr
      ⟨[.cell 0, .code 1, .mode 1 0, .cell 1, .mode 1 1], .cell 2, _, rfl, by decide, by decide, rfl⟩⟩

end Machine

end Intcode
