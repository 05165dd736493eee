import Intcode.Toml.Entries

/-!
# What has been settled about keys

A document may give each table once and may not add to a table or an array that was given as a
value. Marks record which keys were declared and which were closed; a closed key closes all keys
below it. Some declarations take effect only when the next table begins.
-/

namespace Intcode.Toml

structure Marks where
  declared : List Key := []
  closed : List Key := []
  /-- Keys to be declared when the next table begins. -/
  upcoming : List Key := []

namespace Marks

def isDeclared (m : Marks) (key : Key) : Bool :=
  m.declared.contains key

def isClosed (m : Marks) (key : Key) : Bool :=
  m.closed.any (·.isPrefixOf key)

def declare (m : Marks) (key : Key) : Marks :=
  { m with declared := key :: m.declared }

def close (m : Marks) (key : Key) : Marks :=
  { m with closed := key :: m.closed }

def announce (m : Marks) (key : Key) : Marks :=
  { m with upcoming := key :: m.upcoming }

def settle (m : Marks) : Marks :=
  { m with declared := m.upcoming ++ m.declared, upcoming := [] }

def release (m : Marks) (key : Key) : Marks :=
  { m with
    declared := m.declared.filter fun k => !key.isPrefixOf k
    closed := m.closed.filter fun k => !key.isPrefixOf k }

end Marks

end Intcode.Toml
