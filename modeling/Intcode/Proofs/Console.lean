import Intcode.Console

/-!
# What the console shows

A console that has been set up shows the lines of the events from its level on, in order. The
level cannot be changed any more.
-/

namespace Intcode.Console

variable {least : Level} {log : Log} {event : Event} {events : List Event}

def shown (least : Level) (log : Log) : String :=
  String.join ((visible least log).map line)

theorem emit_showing (least : Level) (log : Log) :
    (showing least).emit log = (showing least, shown least log) := by
  unfold emit
  by_cases h : log.isEmpty
  · rw [if_pos h, Array.isEmpty_iff.mp h]
    rfl
  · rw [if_neg h]
    rfl

theorem emit_unsettled (h : event.level ≠ .error) :
    unsettled.emit #[event] = (showing .error, "") := by
  have hrank : ¬ Level.error.rank ≤ event.level.rank := by
    cases hl : event.level with
    | error => exact absurd hl h
    | debug | info => decide
  simp [emit, setUp, visible, hrank]

theorem shown_push (h : least.rank ≤ event.level.rank) :
    shown least (log.push event) = shown least log ++ line event := by
  simp [shown, visible, h, List.filter_append]

theorem rank_le_error (least : Level) : least.rank ≤ Level.error.rank := by
  cases least <;> decide

theorem head?_line (event : Event) :
    (line event).toList.head? = event.level.name.toList.head? := by
  unfold line
  cases event.level <;> simp [Level.name, String.toList_append]

theorem head?_shown (h : visible least log = event :: events) :
    (shown least log).toList.head? = event.level.name.toList.head? := by
  have hname : event.level.name.toList.head? ≠ none := by
    cases event.level <;> decide
  simp [shown, h, String.toList_append, List.head?_append, head?_line,
    Option.or_of_isSome (Option.isSome_iff_ne_none.mpr hname)]

theorem level_of_visible_error (h : event ∈ visible .error log) : event.level = .error := by
  have hrank : Level.error.rank ≤ event.level.rank := by simpa using (List.mem_filter.mp h).2
  cases hl : event.level with
  | error => rfl
  | debug | info =>
    rw [hl] at hrank
    exact absurd hrank (by decide)

theorem shown_ne_shown_error (h : visible least log = event :: events)
    (hlevel : event.level ≠ .error) : shown least log ≠ shown .error log := by
  intro heq
  have hhead := head?_shown h
  rw [heq] at hhead
  cases hv : visible .error log with
  | nil =>
    rw [shown, hv] at hhead
    cases hl : event.level <;> rw [hl] at hhead <;> exact absurd hhead (by decide)
  | cons first rest =>
    have hfirst : first.level = .error :=
      level_of_visible_error (by rw [hv]; exact List.mem_cons_self)
    rw [head?_shown hv, hfirst] at hhead
    cases hl : event.level with
    | error => exact hlevel hl
    | debug | info =>
      rw [hl] at hhead
      exact absurd hhead (by decide)

end Intcode.Console
