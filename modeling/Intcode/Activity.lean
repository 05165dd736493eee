import Intcode.Event

/-!
# Activities

Work that reports events as it goes and may fail. An activity is given a log and hands back the
log with its own events at the end, together with a value or the reason why it failed; it answers
`none` when it contains a run that did not end within its steps.
-/

namespace Intcode

def Activity (ε α : Type) : Type :=
  Log → Option (Except ε α × Log)

namespace Activity

variable {ε ε₁ ε₂ α β : Type}

protected def pure (a : α) : Activity ε α :=
  fun log => some (.ok a, log)

protected def bind (x : Activity ε α) (f : α → Activity ε β) : Activity ε β :=
  fun log =>
    match x log with
    | none => none
    | some (.error e, log) => some (.error e, log)
    | some (.ok a, log) => f a log

instance : Monad (Activity ε) where
  pure := Activity.pure
  bind := Activity.bind

instance : LawfulMonad (Activity ε) :=
  LawfulMonad.mk' (Activity ε)
    (fun x => by
      funext log
      show Activity.bind x (Activity.pure ∘ id) log = x log
      unfold Activity.bind
      rcases x log with _ | ⟨_ | _, _⟩ <;> rfl)
    (fun _ _ => rfl)
    (fun x f g => by
      funext log
      show Activity.bind (Activity.bind x f) g log = Activity.bind x (fun a => Activity.bind (f a) g) log
      unfold Activity.bind
      rcases x log with _ | ⟨_ | _, _⟩ <;> rfl)

def fail (e : ε) : Activity ε α :=
  fun log => some (.error e, log)

def report (event : Event) : Activity ε Unit :=
  fun log => some (.ok (), log.push event)

def ofExcept : Except ε α → Activity ε α :=
  fun result log => some (result, log)

def mapError (f : ε₁ → ε₂) (x : Activity ε₁ α) : Activity ε₂ α :=
  fun log =>
    match x log with
    | none => none
    | some (result, log) => some (result.mapError f, log)

def perform (x : Activity ε α) : Option (Except ε α × Log) :=
  x #[]

@[simp]
theorem pure_apply (a : α) (log : Log) : (pure a : Activity ε α) log = some (.ok a, log) := rfl

@[simp]
theorem report_apply (event : Event) (log : Log) :
    (report event : Activity ε Unit) log = some (.ok (), log.push event) := rfl

theorem bind_apply (x : Activity ε α) (f : α → Activity ε β) (log : Log) :
    (x >>= f) log =
      match x log with
      | none => none
      | some (.error e, log) => some (.error e, log)
      | some (.ok a, log) => f a log := rfl

end Activity

end Intcode
