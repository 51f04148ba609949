/-!
# Tables

A finite map as a list of entries.  The entry written last stands first, and a key has at most one entry.  Nothing
depends on the order of the entries: `find?` is the view through which a table is used.
-/

namespace Injection

structure Table (κ α : Type) where
  entries : List (κ × α)

namespace Table

variable {κ α : Type} [DecidableEq κ]

def empty : Table κ α := ⟨[]⟩

def find? (t : Table κ α) (k : κ) : Option α :=
  (t.entries.find? (·.1 = k)).map Prod.snd

def erase (t : Table κ α) (k : κ) : Table κ α :=
  ⟨t.entries.filter (·.1 ≠ k)⟩

def insert (t : Table κ α) (k : κ) (a : α) : Table κ α :=
  ⟨(k, a) :: (t.erase k).entries⟩

/-- The number of entries. -/
def size (t : Table κ α) : Nat :=
  t.entries.length

@[simp] theorem find?_empty (k : κ) : (empty : Table κ α).find? k = none := rfl

theorem find?_erase (t : Table κ α) (j k : κ) :
    (t.erase j).find? k = if k = j then none else t.find? k := by
  unfold find? erase
  by_cases hk : k = j
  · subst hk
    simp
  · rw [if_neg hk, List.find?_filter]
    congr 2
    funext e
    by_cases he : e.1 = k <;> simp [he, hk]

theorem find?_insert (t : Table κ α) (j k : κ) (a : α) :
    (t.insert j a).find? k = if k = j then some a else t.find? k := by
  by_cases hk : k = j
  · subst hk
    simp [find?, insert]
  · have : (t.insert j a).find? k = (t.erase j).find? k := by
      simp [find?, insert, Ne.symm hk]
    rw [this, find?_erase, if_neg hk, if_neg hk]

@[simp] theorem find?_insert_self (t : Table κ α) (k : κ) (a : α) : (t.insert k a).find? k = some a := by
  simp [find?_insert]

@[simp] theorem find?_erase_self (t : Table κ α) (k : κ) : (t.erase k).find? k = none := by
  simp [find?_erase]

end Table

end Injection
