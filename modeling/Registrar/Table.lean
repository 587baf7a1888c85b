set_option autoImplicit false

namespace Registrar

structure Table (κ α : Type) where
  rows : List (κ × α)
  deriving Repr

namespace Table

variable {κ α : Type} [DecidableEq κ]

def empty : Table κ α := ⟨[]⟩

/-- The value of the first row for a key. -/
def look (k : κ) : List (κ × α) → Option α
  | [] => none
  | r :: rows => if r.1 = k then some r.2 else look k rows

def get? (t : Table κ α) (k : κ) : Option α := look k t.rows

def erase (t : Table κ α) (k : κ) : Table κ α := ⟨t.rows.filter fun r => r.1 ≠ k⟩

def insert (t : Table κ α) (k : κ) (a : α) : Table κ α := ⟨(k, a) :: (t.erase k).rows⟩

@[simp] theorem get?_empty (k : κ) : (empty : Table κ α).get? k = none := rfl

theorem look_filter (k l : κ) (rows : List (κ × α)) :
    look l (rows.filter fun r => r.1 ≠ k) = if l = k then none else look l rows := by
  induction rows with
  | nil => simp [look]
  | cons r rows ih => by_cases hr : r.1 = k <;> by_cases hl : r.1 = l <;> grind [look]

theorem get?_erase (t : Table κ α) (k l : κ) :
    (t.erase k).get? l = if l = k then none else t.get? l := look_filter k l t.rows

theorem get?_insert (t : Table κ α) (k l : κ) (a : α) :
    (t.insert k a).get? l = if l = k then some a else t.get? l := by
  have h := get?_erase t k l
  by_cases hl : l = k <;> grind [get?, insert, look]

@[simp] theorem get?_insert_self (t : Table κ α) (k : κ) (a : α) :
    (t.insert k a).get? k = some a := by simp [get?_insert]

@[simp] theorem get?_erase_self (t : Table κ α) (k : κ) : (t.erase k).get? k = none := by
  simp [get?_erase]

end Table

end Registrar
