/-!
# Orderings

All orderings of a list by position: equal items in different places count as different. They
come in the lexicographic order of the positions. `foldOrderings` goes through them one at a time
and so can stop early; `foldOrderings_eq_foldlM` says that it is the fold over the whole list.
-/

namespace Intcode.Amplifier

variable {α σ : Type} {m : Type → Type}

def picks : List α → List (α × List α)
  | [] => []
  | x :: xs => (x, xs) :: (picks xs).map fun (y, ys) => (y, x :: ys)

def orderingsOf : Nat → List α → List (List α)
  | 0, _ => [[]]
  | n + 1, xs => (picks xs).flatMap fun (x, rest) => (orderingsOf n rest).map (x :: ·)

def orderings (xs : List α) : List (List α) :=
  orderingsOf xs.length xs

/-- Goes through the orderings that begin with the reverse of `chosen` and continue with `n` of
the other items. -/
def visit [Monad m] (f : σ → List α → m σ) : Nat → List α → List α → σ → m σ
  | 0, chosen, _, s => f s chosen.reverse
  | n + 1, chosen, others, s =>
    (picks others).foldlM (fun s (x, rest) => visit f n (x :: chosen) rest s) s

def foldOrderings [Monad m] (f : σ → List α → m σ) (s : σ) (xs : List α) : m σ :=
  visit f xs.length [] xs s

theorem visit_eq_foldlM [Monad m] [LawfulMonad m] (f : σ → List α → m σ) (n : Nat)
    (chosen others : List α) (s : σ) :
    visit f n chosen others s =
      (orderingsOf n others).foldlM (fun s o => f s (chosen.reverse ++ o)) s := by
  induction n generalizing chosen others s with
  | zero => simp [visit, orderingsOf]
  | succ n ih =>
    simp only [visit, orderingsOf, ih, List.reverse_cons, List.append_assoc, List.singleton_append]
    induction picks others generalizing s with
    | nil => simp
    | cons p ps ihp => simp [List.foldlM_map, ihp]

theorem foldOrderings_eq_foldlM [Monad m] [LawfulMonad m] (f : σ → List α → m σ) (s : σ)
    (xs : List α) : foldOrderings f s xs = (orderings xs).foldlM f s := by
  simp [foldOrderings, orderings, visit_eq_foldlM]

end Intcode.Amplifier
