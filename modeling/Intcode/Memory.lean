import Intcode.Fault

/-!
# Memory

A fixed number of cells, each holding an integer of any size. Addresses are integers too, since
programs compute them; every access is checked, and no access changes the number of cells.
-/

namespace Intcode

structure Memory where
  cells : Array Int
deriving DecidableEq

namespace Memory

def ofList (xs : List Int) : Memory := ⟨xs.toArray⟩

def toList (m : Memory) : List Int := m.cells.toList

def size (m : Memory) : Nat := m.cells.size

def Contains (m : Memory) (address : Int) : Prop :=
  0 ≤ address ∧ address < m.size

instance (m : Memory) (address : Int) : Decidable (m.Contains address) :=
  inferInstanceAs (Decidable (_ ∧ _))

def check (m : Memory) (address : Int) : Except Fault Unit :=
  if m.Contains address then .ok () else .error (.outOfBounds address)

theorem Contains.toNat_lt {m : Memory} {address : Int} (h : m.Contains address) :
    address.toNat < m.cells.size := by
  obtain ⟨h₀, h₁⟩ := h
  unfold size at h₁
  omega

def read (m : Memory) (address : Int) : Except Fault Int :=
  if h : m.Contains address then
    have := h.toNat_lt
    .ok m.cells[address.toNat]
  else .error (.outOfBounds address)

/-- Replaces the contents of a cell; an address without a cell leaves the memory as it is. -/
def set (m : Memory) (address value : Int) : Memory :=
  ⟨if 0 ≤ address then m.cells.setIfInBounds address.toNat value else m.cells⟩

def write (m : Memory) (address value : Int) : Except Fault Memory :=
  if m.Contains address then .ok (m.set address value) else .error (.outOfBounds address)

@[simp]
theorem size_set (m : Memory) (a v : Int) : (m.set a v).size = m.size := by
  unfold set size
  split <;> simp

@[simp]
theorem contains_set {m : Memory} {a v b : Int} : (m.set a v).Contains b ↔ m.Contains b := by
  simp [Contains]

@[simp]
theorem toList_ofList (xs : List Int) : (ofList xs).toList = xs := rfl

@[simp]
theorem size_ofList (xs : List Int) : (ofList xs).size = xs.length := by
  simp [ofList, size]

end Memory

end Intcode
