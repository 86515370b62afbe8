/-
  TABLES: rows in strictly increasing order of their keys.

  Whatever is listed by key (accounts, balances, mappings, what waits for the journal) is kept in
  a table.  The order is part of the type, so that a table has each key once, lists its rows in one
  way only, and two tables with the same rows are the same table.

  Main statement: `find?_insert`, what a key leads to after an insertion.
-/

namespace Subledger

/-- Rows in strictly increasing order of their keys. -/
structure Table (κ ν : Type) [Ord κ] where
  rows : List (κ × ν)
  sorted : rows.Pairwise fun a b => compare a.1 b.1 = .lt

namespace Table

variable {κ ν : Type} [Ord κ]

/-- The table without rows. -/
def empty : Table κ ν := ⟨[], .nil⟩

instance : Inhabited (Table κ ν) := ⟨empty⟩

/-- A table is its rows: that they are in order is a proof, and proofs do not tell tables apart. -/
theorem ext_rows {s t : Table κ ν} (h : s.rows = t.rows) : s = t := by
  cases s
  cases t
  simp_all

instance [DecidableEq κ] [DecidableEq ν] : DecidableEq (Table κ ν) := fun s t =>
  decidable_of_iff (s.rows = t.rows) ⟨ext_rows, fun h => h ▸ rfl⟩

/-- The value of a key among rows. -/
def findRow (k : κ) : List (κ × ν) → Option ν
  | [] => none
  | (k', v) :: rest => if compare k k' = .eq then some v else findRow k rest

/-- Puts a row in its place; a row of the same key makes way. -/
def insertRow (k : κ) (v : ν) : List (κ × ν) → List (κ × ν)
  | [] => [(k, v)]
  | (k', v') :: rest =>
    match compare k k' with
    | .lt => (k, v) :: (k', v') :: rest
    | .eq => (k, v) :: rest
    | .gt => (k', v') :: insertRow k v rest

/-- Rows without the row of a key. -/
def eraseRow (k : κ) (rows : List (κ × ν)) : List (κ × ν) :=
  rows.filter fun r => compare k r.1 != .eq

/-- The value of a key. -/
def find? (t : Table κ ν) (k : κ) : Option ν := findRow k t.rows

/-- Has the table a row of this key? -/
def contains (t : Table κ ν) (k : κ) : Bool := (t.find? k).isSome

/-- The keys in increasing order. -/
def keys (t : Table κ ν) : List κ := t.rows.map Prod.fst

/-- The values in the order of their keys. -/
def values (t : Table κ ν) : List ν := t.rows.map Prod.snd

/-- The number of rows. -/
def size (t : Table κ ν) : Nat := t.rows.length

/-- Has the table no row? -/
def isEmpty (t : Table κ ν) : Bool := t.rows.isEmpty

/-- The table without the row of a key. -/
def erase (t : Table κ ν) (k : κ) : Table κ ν := ⟨eraseRow k t.rows, t.sorted.filter _⟩

section Order

variable [Std.TransOrd κ] [Std.LawfulEqOrd κ]

omit [Std.TransOrd κ] [Std.LawfulEqOrd κ] in
/-- What is in the rows after an insertion is the new row or was there. -/
theorem mem_insertRow {k : κ} {v : ν} {rows : List (κ × ν)} {r : κ × ν}
    (h : r ∈ insertRow k v rows) : r = (k, v) ∨ r ∈ rows := by
  induction rows with
  | nil => simpa [insertRow] using h
  | cons r' rest ih =>
    obtain ⟨k', v'⟩ := r'
    simp only [insertRow] at h
    split at h
    · simpa using h
    · rcases List.mem_cons.1 h with h | h
      · exact .inl h
      · exact .inr (List.mem_cons_of_mem _ h)
    · rcases List.mem_cons.1 h with h | h
      · exact .inr (h ▸ List.mem_cons_self)
      · exact (ih h).imp_right (List.mem_cons_of_mem _)

/-- An insertion keeps the rows in order, which is the invariant the type carries. -/
theorem sorted_insertRow (k : κ) (v : ν) {rows : List (κ × ν)}
    (h : rows.Pairwise fun a b => compare a.1 b.1 = .lt) :
    (insertRow k v rows).Pairwise fun a b => compare a.1 b.1 = .lt := by
  induction rows with
  | nil => simp [insertRow]
  | cons r rest ih =>
    obtain ⟨k', v'⟩ := r
    obtain ⟨hk, hrest⟩ := List.pairwise_cons.1 h
    simp only [insertRow]
    split
    · rename_i hlt
      refine List.pairwise_cons.2 ⟨fun b hb => ?_, h⟩
      rcases List.mem_cons.1 hb with rfl | hb
      · exact hlt
      · exact Std.TransCmp.lt_trans hlt (hk b hb)
    · rename_i heq
      obtain rfl := Std.LawfulEqCmp.eq_of_compare heq
      exact List.pairwise_cons.2 ⟨hk, hrest⟩
    · rename_i hgt
      refine List.pairwise_cons.2 ⟨fun b hb => ?_, ih hrest⟩
      rcases mem_insertRow hb with rfl | hb
      · exact Std.OrientedCmp.gt_iff_lt.1 hgt
      · exact hk b hb

/-- The table with one more row; a row of the same key makes way. -/
def insert (t : Table κ ν) (k : κ) (v : ν) : Table κ ν :=
  ⟨insertRow k v t.rows, sorted_insertRow k v t.sorted⟩

/-- The table of some rows; of several with one key the last counts. -/
def ofList (rows : List (κ × ν)) : Table κ ν := rows.foldl (fun t r => t.insert r.1 r.2) empty

omit [Std.TransOrd κ] in
/-- The one law of insertion from which reading a table back follows: the new key has the new value,
    any other key what it had. -/
theorem findRow_insertRow (k j : κ) (v : ν) (rows : List (κ × ν)) :
    findRow j (insertRow k v rows) = if compare j k = .eq then some v else findRow j rows := by
  induction rows with
  | nil => rfl
  | cons r rest ih =>
    obtain ⟨k', v'⟩ := r
    simp only [insertRow]
    split
    · rfl
    · rename_i heq
      obtain rfl := Std.LawfulEqCmp.eq_of_compare heq
      simp only [findRow]
      split <;> rfl
    · rename_i hgt
      simp only [findRow, ih]
      split
      · rename_i hjk'
        obtain rfl := Std.LawfulEqCmp.eq_of_compare hjk'
        rw [if_neg]
        intro hjk
        obtain rfl := Std.LawfulEqCmp.eq_of_compare hjk
        rw [hjk] at hgt
        exact Ordering.noConfusion hgt
      · rfl

/-- An insertion changes what its own key leads to, and nothing else. -/
theorem find?_insert (t : Table κ ν) (k j : κ) (v : ν) :
    (t.insert k v).find? j = if compare j k = .eq then some v else t.find? j :=
  findRow_insertRow k j v t.rows

end Order

end Table
end Subledger
