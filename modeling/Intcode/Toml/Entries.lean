import Intcode.Toml.Mistake
import Intcode.Toml.Value

/-!
# Entries of tables

Finding, adding and changing entries, also deep in tables within tables. A key that is new goes to
the end.
-/

namespace Intcode.Toml

namespace Entries

def find? (t : Entries) (name : String) : Option Value :=
  t.lookup name

def contains (t : Entries) (name : String) : Bool :=
  (find? t name).isSome

def put (t : Entries) (name : String) (v : Value) : Entries :=
  match t with
  | [] => [(name, v)]
  | (k, old) :: rest => if k == name then (k, v) :: rest else (k, old) :: put rest name v

/-- Changes the table that a key leads to, making tables on the way as needed. With `throughArrays`
an array stands for its last item. Anything else than a table may not be in the way. -/
def update (throughArrays : Bool) (change : Entries → Except Reason Entries) :
    Key → Entries → Except Reason Entries
  | [], t => change t
  | name :: key, t =>
    match find? t name with
    | none => do return put t name (.table (← update throughArrays change key []))
    | some (.table inner) => do return put t name (.table (← update throughArrays change key inner))
    | some (.array items) =>
      match throughArrays, items.getLast? with
      | true, some (.table inner) => do
        let new ← update throughArrays change key inner
        return put t name (.array (items.dropLast ++ [.table new]))
      | _, _ => .error .overwritten
    | some _ => .error .overwritten

def add (name : String) (v : Value) (taken : Reason) (t : Entries) : Except Reason Entries :=
  if contains t name then .error taken else .ok (put t name v)

def appendTable (name : String) (t : Entries) : Except Reason Entries :=
  match find? t name with
  | none => .ok (put t name (.array [.table []]))
  | some (.array items) => .ok (put t name (.array (items ++ [.table []])))
  | some _ => .error .overwritten

end Entries

end Intcode.Toml
