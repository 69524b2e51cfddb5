/-
# Bindings

The contents of a symbol table: for each of the 256 identifiers either nothing or a value.
The view is `get?`.  `insert` changes it at one identifier and `empty` has nothing
anywhere; `symbols` lists what is bound in ascending order of the identifier.
-/
import SymbolicBytecode.Table.Symbol

namespace SymbolicBytecode

/-- The number of identifiers. -/
def capacity : Nat := 256

/-- A value for some of the identifiers. -/
structure Bindings where
  /-- One slot for each identifier. -/
  slots : Vector (Option UInt8) capacity
  deriving DecidableEq, Repr

namespace Bindings

/-- Every identifier is the number of a slot. -/
theorem toNat_lt_capacity (id : UInt8) : id.toNat < capacity :=
  id.toNat_lt

/-- No identifier is bound. -/
def empty : Bindings :=
  ⟨Vector.replicate capacity none⟩

/-- The value bound to an identifier. -/
def get? (b : Bindings) (id : UInt8) : Option UInt8 :=
  have := toNat_lt_capacity id
  b.slots[id.toNat]

/-- Binds an identifier, in place of what it was bound to before. -/
def insert (b : Bindings) (id value : UInt8) : Bindings :=
  ⟨b.slots.set id.toNat (some value) (toNat_lt_capacity id)⟩

/-- Tells whether an identifier is bound. -/
def contains (b : Bindings) (id : UInt8) : Bool :=
  (b.get? id).isSome

/-- The number of bound identifiers. -/
def size (b : Bindings) : Nat :=
  b.slots.countP Option.isSome

/-- Tells whether no identifier is bound. -/
def isEmpty (b : Bindings) : Bool :=
  !b.slots.any Option.isSome

/-- All identifiers in ascending order. -/
def identifiers : List UInt8 :=
  (List.range capacity).map UInt8.ofNat

/-- The bound identifiers with their values, in ascending order of the identifier. -/
def symbols (b : Bindings) : List Symbol :=
  identifiers.filterMap fun id => (b.get? id).map (Symbol.mk id)

/-! ## The view -/

@[simp] theorem get?_empty (id : UInt8) : empty.get? id = none := by
  simp [get?, empty]

/-- Binding an identifier changes that identifier only. -/
theorem get?_insert (b : Bindings) (id value id' : UInt8) :
    (b.insert id value).get? id' = if id = id' then some value else b.get? id' := by
  simp [get?, insert, Vector.getElem_set, UInt8.toNat_inj]

/-- Bindings are determined by the view. -/
theorem ext_get? {b b' : Bindings} (h : ∀ id, b.get? id = b'.get? id) : b = b' := by
  obtain ⟨slots⟩ := b
  obtain ⟨slots'⟩ := b'
  congr 1
  apply Vector.ext
  intro i hi
  have hid := h (UInt8.ofNat i)
  have hto : (UInt8.ofNat i).toNat = i := UInt8.toNat_ofNat_of_lt hi
  simpa [get?, hto] using hid

/-! ## The enumeration -/

@[simp] theorem mem_identifiers (id : UInt8) : id ∈ identifiers := by
  rw [identifiers, List.mem_map]
  exact ⟨id.toNat, List.mem_range.mpr (toNat_lt_capacity id), UInt8.ofNat_toNat⟩

/-- The enumeration holds exactly the bound identifiers with their values. -/
theorem mem_symbols {b : Bindings} {s : Symbol} : s ∈ b.symbols ↔ b.get? s.id = some s.value := by
  rw [symbols, List.mem_filterMap]
  constructor
  · rintro ⟨id, -, h⟩
    obtain ⟨value, hvalue, rfl⟩ := Option.map_eq_some_iff.mp h
    exact hvalue
  · intro h
    exact ⟨s.id, mem_identifiers s.id, Option.map_eq_some_iff.mpr ⟨s.value, h, rfl⟩⟩

end Bindings

end SymbolicBytecode
