/-
# Listings are uniquely readable

A listing is plain text, with a line for each symbol and nothing that counts them.  It still tells
all: no two lists of symbols have the same listing, and no two tables that differ in the value of
any identifier, or in whether it has one.

* `Symbol.binding_inj`, `Line.chars_injective` : a row, like any line, is determined by its text;
* `lines_listing`          : the lines of a listing are the header and its rows;
* `listing_inj`            : the rows can be found again;
* `Bindings.symbols_inj`   : the enumeration of a table determines its slots;
* `listings_uniquely_readable` : the listings of tables, and what they are equal for.
-/
import SymbolicBytecode.Proofs.Table.Wording

namespace SymbolicBytecode

open Text

/-! ## Rows -/

/-- A symbol is determined by its binding as it is written. -/
theorem Symbol.binding_inj {s s' : Symbol} : s.binding = s'.binding ↔ s = s' := by
  constructor
  · intro h
    rw [← String.toList_inj, s'.toList_binding, Symbol.toList_binding_eq_iff] at h
    obtain ⟨hid, hvalue⟩ := h
    obtain ⟨id, value⟩ := s
    congr
    exact decimalByte_inj.mp (String.toList_inj.mp hvalue)
  · rintro rfl
    rfl

/-- A line is determined by its characters: they tell how it opens, and behind the opening what
it is about. -/
theorem Line.chars_injective : Function.Injective Line.chars := by
  intro line line' h
  have hopening : line.opening = line'.opening := by
    rw [← opens_iff, h, opens_iff]
  have hdetail : line.detail = line'.detail := by
    rw [chars_eq, chars_eq, hopening] at h
    exact String.toList_inj.mp (List.append_cancel_left h)
  cases line <;> cases line' <;> cases hopening
  · rfl
  · exact congrArg Line.defined (Symbol.binding_inj.mp hdetail)
  · exact congrArg Line.applied (Symbol.binding_inj.mp hdetail)
  · exact congrArg Line.undefined (hexLiteral_inj.mp hdetail)
  · rfl
  · rfl
  · exact congrArg Line.row (Symbol.binding_inj.mp hdetail)

/-! ## Listings -/

/-- A listing with a line feed behind it has the header as its first line and then one line for
each symbol. -/
theorem lines_listing (symbols : List Symbol) :
    Text.lines (listing symbols ++ "\n").toList =
      (Line.header :: symbols.map Line.row).map Line.chars := by
  have hofTable : ∀ notice ∈ [Notice.listed symbols], notice.IsOfTable := by
    intro notice hmem text
    rw [List.mem_singleton.mp hmem]
    exact Notice.noConfusion
  have hjoin := Notice.lines_join hofTable
  rwa [List.map_singleton, String.join_cons, String.join_nil, String.append_empty,
    List.flatMap_singleton] at hjoin

/-- **The rows of a listing can be found again**, whatever symbols it lists, in whatever order and
however often. -/
theorem listing_inj {xs ys : List Symbol} : listing xs = listing ys ↔ xs = ys := by
  constructor
  · intro h
    have hlines : (Line.header :: xs.map Line.row).map Line.chars =
        (Line.header :: ys.map Line.row).map Line.chars := by
      rw [← lines_listing, h, lines_listing]
    have hrows := (List.cons.inj (List.map_injective_iff.mpr Line.chars_injective hlines)).2
    exact List.map_injective_iff.mpr (fun _ _ => Line.row.inj) hrows
  · rintro rfl
    rfl

/-! ## Tables -/

/-- Two tables enumerate the same symbols exactly if every identifier has the same value in both,
or none in both. -/
theorem Bindings.symbols_inj {b b' : Bindings} :
    b.symbols = b'.symbols ↔ ∀ id, b.get? id = b'.get? id := by
  constructor
  · intro h id
    apply Option.ext
    intro value
    have hlisted : ∀ b : Bindings, ⟨id, value⟩ ∈ b.symbols ↔ b.get? id = some value :=
      fun _ => mem_symbols
    rw [← hlisted, h, hlisted]
  · intro h
    rw [ext_get? h]

theorem Table.listing_eq_iff {t t' : Table} :
    t.listing = t'.listing ↔ ∀ id, t.bindings.get? id = t'.bindings.get? id :=
  listing_inj.trans Bindings.symbols_inj

/-- **Listings are uniquely readable.**  Lists of symbols have the same listing only if they are the
same list.  So the listings of two tables are the same exactly if every identifier has the same
value in both, or none in both; and this is no different for the listings that are given back
when a table is dumped or reflected. -/
theorem listings_uniquely_readable :
    (∀ xs ys : List Symbol, listing xs = listing ys ↔ xs = ys) ∧
    ∀ t t' : Table,
      (t.listing = t'.listing ↔ ∀ id, t.bindings.get? id = t'.bindings.get? id) ∧
      (t.dump.value = t'.dump.value ↔ ∀ id, t.bindings.get? id = t'.bindings.get? id) ∧
      (t.reflect.value = t'.reflect.value ↔ ∀ id, t.bindings.get? id = t'.bindings.get? id) :=
  ⟨fun _ _ => listing_inj,
    fun _ _ => ⟨Table.listing_eq_iff, Table.listing_eq_iff, Table.listing_eq_iff⟩⟩

end SymbolicBytecode
