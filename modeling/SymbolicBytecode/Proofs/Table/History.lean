/-
# Histories of a table

A table is an array of slots that is changed in place.  Whatever was asked of it since it was
created, it stands for a finite map: each identifier that was defined after the last reset is
bound to the value of its last definition, and no other is.  All that the table can be asked is
answered from that map, with the pairs in ascending order of the identifier:

* `Request.lastDefinition?` : the map, looking backwards over the requests;
* `Table.get?_after`        : the slots hold it after every history;
* `Bindings.toList_slots`, `Bindings.symbols_eq_zip`, `Bindings.pairwise_symbols` : the slots as an
  enumeration;
* `Table.Represents`        : what it means that a table stands for a map;
* `Table.represents_after`  : it does so after every history.
-/
import Mathlib.Data.List.DropRight
import Mathlib.Data.Set.Card
import SymbolicBytecode.Table.Request

namespace SymbolicBytecode

/-! ## Looking backwards over requests -/

namespace Table.Request

/-- The value that a request binds the identifier to, if it is a definition of it. -/
def definition? (id : UInt8) : Request → Option UInt8
  | define id' value => if id' = id then some value else none
  | _ => none

/-- The value of the last definition of an identifier behind the last reset. -/
def lastDefinition? (history : List Request) (id : UInt8) : Option UInt8 :=
  ((history.rtakeWhile (· ≠ reset)).filterMap (definition? id)).getLast?

/-- Behind a reset no definition counts. -/
theorem lastDefinition?_concat_reset (history : List Request) (id : UInt8) :
    lastDefinition? (history ++ [reset]) id = none := by
  rw [lastDefinition?, List.rtakeWhile_concat_neg _ _ _ (by decide)]
  rfl

/-- Any other request at the end counts before all others if it is a definition. -/
theorem lastDefinition?_concat {request : Request} (h : request ≠ reset)
    (history : List Request) (id : UInt8) :
    lastDefinition? (history ++ [request]) id =
      (definition? id request).or (lastDefinition? history id) := by
  rw [lastDefinition?, List.rtakeWhile_concat_pos _ _ _ (by simpa using h),
    List.filterMap_append]
  cases hdefinition : definition? id request with
  | none =>
    rw [List.filterMap_cons_none hdefinition, List.filterMap_nil, List.append_nil, Option.none_or,
      lastDefinition?]
  | some value =>
    rw [List.filterMap_cons_some hdefinition, List.filterMap_nil, List.getLast?_concat,
      Option.some_or]

end Table.Request

/-! ## What a history leaves in the slots -/

namespace Table

/-- A request other than a reset changes the value of an identifier exactly if it defines it. -/
theorem get?_answer {request : Request} (h : request ≠ .reset) (t : Table) (id : UInt8) :
    (t.answer request).table.bindings.get? id =
      (request.definition? id).or (t.bindings.get? id) := by
  cases request with
  | reset => exact absurd rfl h
  | define id' value =>
    show (t.define id' value).value.bindings.get? id = _
    rw [get?_define, Request.definition?]
    split <;> rfl
  | _ => rfl

theorem after_concat (t : Table) (history : List Request) (request : Request) :
    t.after (history ++ [request]) = ((t.after history).answer request).table :=
  List.foldl_concat ..

/-- After every history a new table binds each identifier to its last definition behind the
last reset. -/
theorem get?_after (handler : Handler) (history : List Request) (id : UInt8) :
    ((fresh handler).value.after history).bindings.get? id =
      Request.lastDefinition? history id := by
  induction history using List.reverseRecOn with
  | nil => exact get?_fresh handler id
  | append_singleton history request ih =>
    rw [after_concat]
    by_cases hreset : request = .reset
    · subst hreset
      rw [Request.lastDefinition?_concat_reset]
      exact get?_reset _ id
    · rw [get?_answer hreset, ih, Request.lastDefinition?_concat hreset]

end Table

/-! ## The slots as an enumeration -/

namespace Bindings

theorem toNat_ofNat_of_lt {i : Nat} (h : i < capacity) : (UInt8.ofNat i).toNat = i :=
  UInt8.toNat_ofNat_of_lt h

/-- The slots hold what the identifiers are bound to, one identifier after the other. -/
theorem toList_slots (b : Bindings) : b.slots.toList = identifiers.map b.get? := by
  apply List.ext_getElem
  · simp [identifiers]
  · intro i hi hi'
    have hlt : i < capacity := by simpa using hi
    simp [identifiers, get?, toNat_ofNat_of_lt hlt]

/-- The symbols come from the slots with their identifiers beside them: those that hold nothing are
passed over, and of each of the others its identifier and its value are listed. -/
theorem symbols_eq_zip (b : Bindings) :
    b.symbols = ((b.slots.toList.zip identifiers).filter fun slot => slot.1.isSome).map
      fun slot => ⟨slot.2, slot.1.getD 0⟩ := by
  have hzip : b.slots.toList.zip identifiers = identifiers.map fun id => (b.get? id, id) := by
    conv_lhs => rw [toList_slots, ← List.map_id identifiers]
    rw [List.map_map, List.zip_map']
    rfl
  rw [hzip]
  unfold symbols
  generalize identifiers = ids
  induction ids with
  | nil => rfl
  | cons id ids ih =>
    rcases hget : b.get? id with _ | value
    · simp [hget, ih]
    · simp [hget, ih]

/-- As many identifiers are bound as are listed. -/
theorem size_eq_length_symbols (b : Bindings) : b.size = b.symbols.length := by
  have hslots : (b.slots.toList.zip identifiers).map Prod.fst = b.slots.toList :=
    List.map_fst_zip (by simp [identifiers])
  calc b.size = b.slots.toList.countP Option.isSome := Vector.countP_toList.symm
    _ = (b.slots.toList.zip identifiers).countP (Option.isSome ∘ Prod.fst) := by
      rw [← List.countP_map, hslots]
    _ = b.symbols.length := by
      rw [symbols_eq_zip, List.length_map, List.countP_eq_length_filter]
      rfl

/-- Nothing is bound exactly if no identifier has a value. -/
theorem isEmpty_iff {b : Bindings} : b.isEmpty = true ↔ ∀ id, b.get? id = none := by
  rw [isEmpty, ← Vector.any_toList, toList_slots]
  simp

/-- The identifiers are enumerated in ascending order. -/
theorem pairwise_identifiers : identifiers.Pairwise (· < ·) := by
  rw [identifiers, List.pairwise_map]
  apply List.Pairwise.imp_of_mem _ List.pairwise_lt_range
  intro i j hi hj hlt
  rw [UInt8.lt_iff_toNat_lt, toNat_ofNat_of_lt (List.mem_range.mp hi),
    toNat_ofNat_of_lt (List.mem_range.mp hj)]
  exact hlt

/-- The symbols are listed in strictly ascending order of the identifier. -/
theorem pairwise_symbols (b : Bindings) : b.symbols.Pairwise fun s s' => s.id < s'.id := by
  apply List.Pairwise.filterMap _ _ pairwise_identifiers
  intro id id' hlt s hs s' hs'
  obtain ⟨value, -, rfl⟩ := Option.map_eq_some_iff.mp hs
  obtain ⟨value', -, rfl⟩ := Option.map_eq_some_iff.mp hs'
  exact hlt

/-- No symbol is listed twice. -/
theorem nodup_symbols (b : Bindings) : b.symbols.Nodup := by
  apply b.pairwise_symbols.imp
  rintro s s' hlt rfl
  exact UInt8.lt_irrefl _ hlt

/-- The number of bound identifiers is that of the pairs that the view consists of. -/
theorem size_eq_ncard (b : Bindings) :
    b.size = Set.ncard {s : Symbol | b.get? s.id = some s.value} := by
  have hpairs : {s : Symbol | b.get? s.id = some s.value} = ↑b.symbols.toFinset := by
    ext s
    simp [mem_symbols]
  rw [hpairs, Set.ncard_coe_finset, List.toFinset_card_of_nodup b.nodup_symbols,
    size_eq_length_symbols]

end Bindings

/-! ## Listings by lines -/

/-- Lines behind a first one, each of them after a line feed. -/
theorem Text.intercalate_feed (first : String) (rest : List String) :
    String.intercalate "\n" (first :: rest) =
      first ++ String.join (rest.map fun line => "\n" ++ line) := by
  induction rest generalizing first with
  | nil => simp
  | cons line rest ih =>
    rw [String.intercalate_cons_cons, ih, List.map_cons, String.join_cons]
    simp only [String.append_assoc]

/-- A listing consists of lines: the header, and one for each symbol. -/
theorem listing_eq_intercalate (symbols : List Symbol) :
    listing symbols =
      String.intercalate "\n" (listingHeader :: symbols.map fun s => "  " ++ s.text) := by
  have hline : ∀ s : Symbol, "\n  " ++ s.text = "\n" ++ ("  " ++ s.text) := by
    intro s
    rw [← String.append_assoc]
    rfl
  rw [Text.intercalate_feed, List.map_map, listing]
  simp only [hline]
  rfl

/-! ## Tables as finite maps -/

namespace Table

/-- A table stands for a map from identifiers to values: it answers from that map. -/
structure Represents (t : Table) (map : UInt8 → Option UInt8) : Prop where
  get : ∀ id, t.bindings.get? id = map id
  contains : ∀ id, t.bindings.contains id = true ↔ map id ≠ none
  apply : ∀ id, (t.apply id).value = (map id).elim (.error (.notDefined id)) .ok
  /-- The symbols are listed in strictly ascending order of the identifier. -/
  ascending : t.bindings.symbols.Pairwise fun s s' => s.id < s'.id
  /-- The symbols are the pairs of the map. -/
  symbols : ∀ s, s ∈ t.bindings.symbols ↔ map s.id = some s.value
  /-- The size is the number of pairs. -/
  size : t.bindings.size = Set.ncard {s : Symbol | map s.id = some s.value}
  size_le : t.bindings.size ≤ 256
  isEmpty : t.bindings.isEmpty = true ↔ ∀ id, map id = none
  /-- The listing is the header and one line for each pair. -/
  listing : t.listing =
    String.intercalate "\n" (listingHeader :: t.bindings.symbols.map fun s => "  " ++ s.text)

/-- A table stands for the map that its slots hold. -/
theorem represents_get? (t : Table) : t.Represents t.bindings.get? where
  get id := rfl
  contains id := by
    rw [Bindings.contains, Option.isSome_iff_ne_none]
  apply id := by
    cases hget : t.bindings.get? id with
    | none => rw [apply_of_unbound hget]; rfl
    | some value => rw [apply_of_bound hget]; rfl
  ascending := t.bindings.pairwise_symbols
  symbols _ := Bindings.mem_symbols
  size := t.bindings.size_eq_ncard
  size_le := Vector.countP_le_size
  isEmpty := Bindings.isEmpty_iff
  listing := listing_eq_intercalate t.bindings.symbols

/-- **A table is a sorted finite map.**  After every history of requests to a new table it
stands for the map that takes each identifier to the value of its last definition behind the
last reset. -/
theorem represents_after (handler : Handler) (history : List Request) :
    ((fresh handler).value.after history).Represents (Request.lastDefinition? history) := by
  have hmap : ((fresh handler).value.after history).bindings.get? =
      Request.lastDefinition? history := by
    funext id
    exact get?_after handler history id
  rw [← hmap]
  exact represents_get? _

end Table

end SymbolicBytecode
