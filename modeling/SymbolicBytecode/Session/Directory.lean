/-
# Directories

A directory gives values names.  A name refers to at most one value; giving it to another
value takes it away from the first.
-/

namespace SymbolicBytecode

/-- Named values. -/
structure Directory (α : Type) where
  /-- The names and their values; the first entry of a name counts. -/
  entries : List (String × α)
  deriving DecidableEq, Repr

namespace Directory

variable {α : Type}

/-- No name is given. -/
def empty : Directory α :=
  ⟨[]⟩

/-- The value with a name. -/
def get? (d : Directory α) (name : String) : Option α :=
  d.entries.lookup name

/-- Takes a name away. -/
def erase (d : Directory α) (name : String) : Directory α :=
  ⟨d.entries.filter fun entry => entry.1 != name⟩

/-- Gives a name to a value. -/
def insert (d : Directory α) (name : String) (value : α) : Directory α :=
  ⟨(name, value) :: (d.erase name).entries⟩

/-! ## The view -/

theorem get?_erase (d : Directory α) (name name' : String) :
    (d.erase name).get? name' = if name' = name then none else d.get? name' := by
  obtain ⟨entries⟩ := d
  unfold erase get?
  induction entries with
  | nil => simp
  | cons entry rest ih =>
    obtain ⟨key, value⟩ := entry
    by_cases hkey : key = name
    · rw [List.filter_cons_of_neg (by simp [hkey]), ih, List.lookup_cons]
      by_cases hname : name' = name
      · simp [hname]
      · have hne : (name' == key) = false := by simp [hkey, hname]
        simp [hname, hne]
    · rw [List.filter_cons_of_pos (by simp [hkey]), List.lookup_cons, List.lookup_cons]
      by_cases hname : name' = key
      · simp [hname, hkey]
      · have hne : (name' == key) = false := by simp [hname]
        rw [hne]
        exact ih

theorem get?_insert (d : Directory α) (name name' : String) (value : α) :
    (d.insert name value).get? name' = if name' = name then some value else d.get? name' := by
  unfold insert get?
  rw [List.lookup_cons]
  by_cases hname : name' = name
  · simp [hname]
  · have hne : (name' == name) = false := by simp [hname]
    have herase := get?_erase d name name'
    rw [if_neg hname] at herase ⊢
    rw [hne]
    exact herase

end Directory

end SymbolicBytecode
