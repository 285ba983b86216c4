import Mathlib.Data.List.Nodup

/-!
# Tables with a row number and a unique key

The rows of an SQL table with an integer primary key and one unique index. A
new row takes the number after the greatest one in use.
-/

structure Table.Row (κ ρ : Type) where
  id : Nat
  key : κ
  cols : ρ

structure Table (κ ρ : Type) where
  rows : List (Table.Row κ ρ)
  ids_nodup : (rows.map (·.id)).Nodup
  keys_nodup : (rows.map (·.key)).Nodup

namespace Table

section
variable {κ ρ : Type}

def empty : Table κ ρ := ⟨[], List.nodup_nil, List.nodup_nil⟩

def ids (t : Table κ ρ) : List Nat := t.rows.map (·.id)

def nextId (t : Table κ ρ) : Nat := t.ids.foldr max 0 + 1

theorem le_foldr_max {l : List Nat} {n : Nat} (h : n ∈ l) : n ≤ l.foldr max 0 := by
  induction l with
  | nil => cases h
  | cons m l ih =>
    rcases List.mem_cons.mp h with rfl | h
    · exact Nat.le_max_left _ _
    · exact Nat.le_trans (ih h) (Nat.le_max_right _ _)

theorem nextId_notMem (t : Table κ ρ) : t.nextId ∉ t.ids := by
  intro h
  have := le_foldr_max h
  unfold nextId at this
  omega

/-- A row after `UPDATE … WHERE id = …`. -/
def Row.set (id : Nat) (c : ρ) (row : Row κ ρ) : Row κ ρ := if row.id = id then { row with cols := c } else row

@[simp] theorem Row.set_id (id : Nat) (c : ρ) (row : Row κ ρ) : (row.set id c).id = row.id := by
  unfold Row.set
  split <;> rfl

@[simp] theorem Row.set_key (id : Nat) (c : ρ) (row : Row κ ρ) : (row.set id c).key = row.key := by
  unfold Row.set
  split <;> rfl

def set (t : Table κ ρ) (id : Nat) (c : ρ) : Table κ ρ where
  rows := t.rows.map (Row.set id c)
  ids_nodup := by simpa [Function.comp_def] using t.ids_nodup
  keys_nodup := by simpa [Function.comp_def] using t.keys_nodup

@[simp] theorem ids_set (t : Table κ ρ) (id : Nat) (c : ρ) : (t.set id c).ids = t.ids := by
  simp [ids, set, Function.comp_def]

variable [DecidableEq κ]

def find (t : Table κ ρ) (k : κ) : Option (Row κ ρ) := t.rows.find? fun row => row.key = k

variable {t : Table κ ρ} {k k' : κ} {row : Row κ ρ}

theorem find_eq_some : t.find k = some row ↔ row ∈ t.rows ∧ row.key = k := by
  unfold find
  constructor
  · intro h
    exact ⟨List.mem_of_find?_eq_some h, by simpa using List.find?_some h⟩
  · rintro ⟨hmem, rfl⟩
    cases hf : t.rows.find? fun r => r.key = row.key with
    | none => simpa using List.find?_eq_none.mp hf row hmem
    | some found =>
      have hkey : found.key = row.key := by simpa using List.find?_some hf
      rw [List.inj_on_of_nodup_map t.keys_nodup (List.mem_of_find?_eq_some hf) hmem hkey]

theorem find_eq_none : t.find k = none ↔ k ∉ t.rows.map (·.key) := by
  simp [find]

theorem mem_ids_of_find (h : t.find k = some row) : row.id ∈ t.ids :=
  List.mem_map_of_mem (find_eq_some.mp h).1

theorem key_eq_of_id_eq {row' : Row κ ρ} (h : t.find k = some row) (h' : t.find k' = some row')
    (hid : row.id = row'.id) : k = k' := by
  obtain ⟨hmem, rfl⟩ := find_eq_some.mp h
  obtain ⟨hmem', rfl⟩ := find_eq_some.mp h'
  rw [List.inj_on_of_nodup_map t.ids_nodup hmem hmem' hid]

theorem find_set (t : Table κ ρ) (id : Nat) (c : ρ) (k : κ) : (t.set id c).find k = (t.find k).map (Row.set id c) := by
  simp only [find, set, List.find?_map]
  congr 2
  funext row
  simp

theorem find_set_self (h : t.find k = some row) (c : ρ) : (t.set row.id c).find k = some { row with cols := c } := by
  simp [find_set, h, Row.set]

theorem find_set_of_ne (h : t.find k = some row) (hne : k' ≠ k) (c : ρ) : (t.set row.id c).find k' = t.find k' := by
  rw [find_set]
  cases h' : t.find k' with
  | none => rfl
  | some row' =>
    have hid : row'.id ≠ row.id := fun hid => hne (key_eq_of_id_eq h' h hid)
    simp [Row.set, hid]

def insert (t : Table κ ρ) (k : κ) (c : ρ) (h : t.find k = none) : Table κ ρ where
  rows := t.rows ++ [⟨t.nextId, k, c⟩]
  ids_nodup := by
    rw [List.map_append, List.nodup_append]
    refine ⟨t.ids_nodup, List.nodup_singleton _, ?_⟩
    intro a ha b hb hab
    rw [hab, List.mem_singleton.mp hb] at ha
    exact t.nextId_notMem ha
  keys_nodup := by
    rw [List.map_append, List.nodup_append]
    refine ⟨t.keys_nodup, List.nodup_singleton _, ?_⟩
    intro a ha b hb hab
    rw [hab, List.mem_singleton.mp hb] at ha
    exact find_eq_none.mp h ha

theorem ids_insert (t : Table κ ρ) (k : κ) (c : ρ) (h : t.find k = none) :
    (t.insert k c h).ids = t.ids ++ [t.nextId] := by
  simp [ids, insert]

theorem find_insert_self (t : Table κ ρ) (k : κ) (c : ρ) (h : t.find k = none) :
    (t.insert k c h).find k = some ⟨t.nextId, k, c⟩ := by
  apply find_eq_some.mpr
  simp [insert]

theorem find_insert_of_ne (t : Table κ ρ) (c : ρ) (h : t.find k = none) (hne : k' ≠ k) :
    (t.insert k c h).find k' = t.find k' := by
  simp [find, insert, List.find?_append, Ne.symm hne]

end

end Table
