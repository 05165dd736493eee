import Intcode.Event

/-!
# The console

Events become lines on the console if they are important enough. How important is settled once:
by whoever sets the console up first, or, if an event comes before that, by showing errors only.
-/

namespace Intcode

inductive Console where
  | unsettled
  | showing (least : Level)
deriving DecidableEq

namespace Console

def setUp (least : Level) : Console → Console
  | unsettled => showing least
  | console => console

def line (event : Event) : String :=
  event.level.name ++ ":root:" ++ event.text ++ "\n"

def visible (least : Level) (log : Log) : List Event :=
  log.toList.filter fun event => least.rank ≤ event.level.rank

def emit (console : Console) (log : Log) : Console × String :=
  if log.isEmpty then (console, "")
  else
    match console.setUp .error with
    | showing least => (showing least, String.join ((visible least log).map line))
    | unsettled => (unsettled, "")

end Console

end Intcode
