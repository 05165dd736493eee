/-!
# Settings of a run

Every setting has a default. Sources of settings, such as a file or the command line, may each
give some of them; a later source replaces what an earlier one gave.
-/

namespace Intcode

structure Settings where
  verbose : Bool := false
  trace : Bool := false
  dumpMemory : Bool := false
  inputs : List Int := []
deriving DecidableEq

namespace Settings

/-- What one source has to say about each setting, if anything. -/
structure Given where
  verbose : Option Bool := none
  trace : Option Bool := none
  dumpMemory : Option Bool := none
  inputs : Option (List Int) := none
deriving DecidableEq

def update (s : Settings) (given : Given) : Settings where
  verbose := given.verbose.getD s.verbose
  trace := given.trace.getD s.trace
  dumpMemory := given.dumpMemory.getD s.dumpMemory
  inputs := given.inputs.getD s.inputs

end Settings

end Intcode
