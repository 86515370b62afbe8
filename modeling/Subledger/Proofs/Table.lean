/-
  THE THEORY OF TABLES: a table is the partial function that it looks up.

  Everything is reduced to `find?`.  A row is in a table exactly if its key leads to its value
  (`mem_rows_iff`), so two tables that look up alike are one table (`ext_find?`), and an insertion
  is, up to the order of the rows, one new row beside those of the other keys (`rows_insert_perm`).
  Whatever is added up over the rows follows from that last statement and never from the place
  where a row is put.
-/
import Mathlib
import Subledger.Table

namespace Subledger.Table

variable {κ ν : Type} [Ord κ]

/-! ## Rows and look-ups

  The order of the rows makes the keys different, so that a look-up and the membership of a row say
  the same. -/

theorem findRow_cons (k k' : κ) (v' : ν) (rest : List (κ × ν)) :
    findRow k ((k', v') :: rest) = if compare k k' = .eq then some v' else findRow k rest := rfl

/-- The table with each value changed, and each row in its place. -/
def mapValues {μ : Type} (t : Table κ ν) (f : ν → μ) : Table κ μ :=
  ⟨t.rows.map fun r => (r.1, f r.2), List.pairwise_map.mpr t.sorted⟩

/-- Changing the values in place is seen by every look-up as that change. -/
theorem find?_mapValues {μ : Type} (t : Table κ ν) (f : ν → μ) (k : κ) :
    (t.mapValues f).find? k = (t.find? k).map f := by
  show findRow k (t.rows.map fun r => (r.1, f r.2)) = (findRow k t.rows).map f
  induction t.rows with
  | nil => rfl
  | cons r rest ih =>
    rw [List.map_cons, findRow_cons, ih]
    show _ = (if compare k r.1 = .eq then some r.2 else findRow k rest).map f
    split <;> rfl

section Order

variable [Std.LawfulEqOrd κ]

/-- No key has two rows. -/
theorem nodup_keys (t : Table κ ν) : t.keys.Nodup := by
  refine List.pairwise_map.mpr (t.sorted.imp ?_)
  intro a b hab heq
  rw [heq, Std.ReflOrd.compare_self] at hab
  exact Ordering.noConfusion hab

theorem nodup_rows (t : Table κ ν) : t.rows.Nodup := t.nodup_keys.of_map

/-- What a look-up finds is in the rows. -/
theorem mem_of_findRow {k : κ} {v : ν} {rows : List (κ × ν)} (h : findRow k rows = some v) :
    (k, v) ∈ rows := by
  induction rows with
  | nil => exact absurd h (by simp [findRow])
  | cons r rest ih =>
    obtain ⟨k', v'⟩ := r
    rw [findRow_cons] at h
    split at h
    · rename_i hk
      obtain rfl := Std.LawfulEqOrd.compare_eq_iff_eq.mp hk
      obtain rfl := Option.some.inj h
      exact List.mem_cons_self
    · exact List.mem_cons_of_mem _ (ih h)

/-- A row is found under its key if no other row has the key. -/
theorem findRow_of_mem {k : κ} {v : ν} {rows : List (κ × ν)} (hd : (rows.map Prod.fst).Nodup)
    (h : (k, v) ∈ rows) : findRow k rows = some v := by
  induction rows with
  | nil => exact absurd h List.not_mem_nil
  | cons r rest ih =>
    obtain ⟨k', v'⟩ := r
    obtain ⟨hk', hrest⟩ := List.nodup_cons.mp hd
    rw [findRow_cons]
    rcases List.mem_cons.mp h with heq | hmem
    · obtain ⟨rfl, rfl⟩ := Prod.mk.inj heq
      rw [if_pos Std.ReflOrd.compare_self]
    · have hne : k ≠ k' := fun he => hk' (he ▸ List.mem_map.mpr ⟨(k, v), hmem, rfl⟩)
      rw [if_neg (mt Std.LawfulEqOrd.compare_eq_iff_eq.mp hne)]
      exact ih hrest hmem

/-- A row is in the table exactly if its key leads to its value. -/
theorem mem_rows_iff {t : Table κ ν} {k : κ} {v : ν} : (k, v) ∈ t.rows ↔ t.find? k = some v :=
  ⟨findRow_of_mem t.nodup_keys, mem_of_findRow⟩

/-- The keys of a table are those under which something is found. -/
theorem mem_keys_iff {t : Table κ ν} {k : κ} : k ∈ t.keys ↔ (t.find? k).isSome = true := by
  constructor
  · intro h
    obtain ⟨⟨k', v⟩, hmem, rfl⟩ := List.mem_map.mp h
    rw [mem_rows_iff.mp hmem]
    rfl
  · intro h
    obtain ⟨v, hv⟩ := Option.isSome_iff_exists.mp h
    exact List.mem_map.mpr ⟨(k, v), mem_rows_iff.mpr hv, rfl⟩

/-- An erased key leads to nothing. -/
theorem find?_erase_self (t : Table κ ν) (k : κ) : (t.erase k).find? k = none := by
  refine Option.eq_none_iff_forall_ne_some.mpr ?_
  intro v hv
  have hmem := List.mem_filter.mp (mem_rows_iff.mpr hv)
  exact absurd hmem.2 (by simp)

/-- Erasing leaves the other keys alone. -/
theorem find?_erase_of_ne (t : Table κ ν) {k j : κ} (h : j ≠ k) :
    (t.erase k).find? j = t.find? j := by
  refine Option.ext ?_
  intro v
  rw [← mem_rows_iff, ← mem_rows_iff]
  show (j, v) ∈ t.rows.filter _ ↔ _
  rw [List.mem_filter]
  exact and_iff_left (bne_iff_ne.mpr (mt Std.LawfulEqOrd.compare_eq_iff_eq.mp (Ne.symm h)))

/-- Without its first row a table has the others. -/
theorem rows_erase_of_cons {t : Table κ ν} {k : κ} {v : ν} {rest : List (κ × ν)}
    (h : t.rows = (k, v) :: rest) : (t.erase k).rows = rest := by
  have hkeys := t.nodup_keys
  rw [keys, h, List.map_cons, List.nodup_cons] at hkeys
  show t.rows.filter _ = rest
  rw [h, List.filter_cons_of_neg, List.filter_eq_self]
  · intro r hr
    refine bne_iff_ne.mpr (mt Std.LawfulEqOrd.compare_eq_iff_eq.mp ?_)
    intro heq
    exact hkeys.1 (List.mem_map.mpr ⟨r, hr, heq.symm⟩)
  · rw [Bool.not_eq_true, bne_eq_false_iff_eq]
    exact Std.ReflOrd.compare_self

variable [Std.TransOrd κ]

/-- Tables are told apart by what they look up. -/
theorem ext_find? {s t : Table κ ν} (h : ∀ k, s.find? k = t.find? k) : s = t := by
  have hperm : s.rows.Perm t.rows := by
    refine (List.perm_ext_iff_of_nodup s.nodup_rows t.nodup_rows).mpr ?_
    rintro ⟨k, v⟩
    rw [mem_rows_iff, mem_rows_iff, h]
  -- two rows of which each comes before the other cannot be
  refine ext_rows (List.Perm.eq_of_pairwise ?_ s.sorted t.sorted hperm)
  intro a b _ _ hab hba
  exact absurd hba (Std.OrientedCmp.not_lt_of_lt hab)

/-! ## Look-ups after a change

  How each change is seen by a look-up; tables are compared through these. -/

theorem find?_insert_self (t : Table κ ν) (k : κ) (v : ν) : (t.insert k v).find? k = some v := by
  rw [find?_insert, if_pos Std.ReflOrd.compare_self]

theorem find?_insert_of_ne (t : Table κ ν) {k j : κ} (v : ν) (h : j ≠ k) :
    (t.insert k v).find? j = t.find? j := by
  rw [find?_insert, if_neg (mt Std.LawfulEqOrd.compare_eq_iff_eq.mp h)]

/-- Rows put in one after the other: each key leads to its row among them, if it has one there. -/
theorem find?_foldl_insert (rows : List (κ × ν)) (hd : (rows.map Prod.fst).Nodup) (t : Table κ ν)
    (k : κ) : (rows.foldl (fun t r => t.insert r.1 r.2) t).find? k
      = (findRow k rows).or (t.find? k) := by
  induction rows generalizing t with
  | nil => rfl
  | cons r rest ih =>
    obtain ⟨k', v'⟩ := r
    obtain ⟨hk', hrest⟩ := List.nodup_cons.mp hd
    rw [List.foldl_cons, ih hrest, findRow_cons]
    by_cases hk : k = k'
    · subst hk
      have hnone : findRow k rest = none := by
        refine Option.eq_none_iff_forall_ne_some.mpr ?_
        intro v hv
        exact hk' (List.mem_map.mpr ⟨(k, v), mem_of_findRow hv, rfl⟩)
      rw [hnone, find?_insert_self, if_pos Std.ReflOrd.compare_self]
      rfl
    · rw [find?_insert_of_ne t v' hk, if_neg (mt Std.LawfulEqOrd.compare_eq_iff_eq.mp hk)]

/-- The keys of a table made of rows are the keys of the rows, also if some come twice. -/
theorem mem_keys_ofList {rows : List (κ × ν)} {k : κ} :
    k ∈ (ofList rows).keys ↔ k ∈ rows.map Prod.fst := by
  have hfold : ∀ t : Table κ ν, k ∈ (rows.foldl (fun t r => t.insert r.1 r.2) t).keys ↔
      k ∈ t.keys ∨ k ∈ rows.map Prod.fst := by
    induction rows with
    | nil => intro t; simp
    | cons r rest ih =>
      intro t
      have hins : k ∈ (t.insert r.1 r.2).keys ↔ k = r.1 ∨ k ∈ t.keys := by
        rw [mem_keys_iff, mem_keys_iff]
        by_cases hk : k = r.1
        · rw [hk, find?_insert_self]
          simp
        · rw [find?_insert_of_ne t r.2 hk]
          simp [hk]
      rw [List.foldl_cons, ih, hins, List.map_cons, List.mem_cons]
      tauto
  have hempty : k ∉ (empty : Table κ ν).keys := List.not_mem_nil
  exact (hfold empty).trans (or_iff_right hempty)

/-! ## Adding up over the rows

  A sum does not see the order of the rows.  It is enough to know which row is new and that the
  others are those of the other keys. -/

omit [Std.TransOrd κ] in
/-- The row of a key beside the rows of the other keys. -/
theorem rows_perm_of_find? {t : Table κ ν} {k : κ} {v : ν} (h : t.find? k = some v) :
    t.rows.Perm ((k, v) :: (t.erase k).rows) := by
  have hnew : (k, v) ∉ (t.erase k).rows := by
    rw [mem_rows_iff, find?_erase_self]
    exact fun h => nomatch h
  refine (List.perm_ext_iff_of_nodup t.nodup_rows
    (List.nodup_cons.mpr ⟨hnew, (t.erase k).nodup_rows⟩)).mpr ?_
  rintro ⟨j, w⟩
  rw [List.mem_cons, mem_rows_iff, mem_rows_iff]
  by_cases hj : j = k
  · subst hj
    rw [h, find?_erase_self]
    simp [eq_comm]
  · rw [find?_erase_of_ne t hj]
    simp [hj]

/-- Erasing a key forgets whatever was inserted under it. -/
theorem erase_insert (t : Table κ ν) (k : κ) (v : ν) : (t.insert k v).erase k = t.erase k := by
  refine ext_find? ?_
  intro j
  by_cases hj : j = k
  · rw [hj, find?_erase_self, find?_erase_self]
  · rw [find?_erase_of_ne _ hj, find?_erase_of_ne _ hj, find?_insert_of_ne t v hj]

/-- A row that is there is put where it is. -/
theorem insert_of_find? {t : Table κ ν} {k : κ} {v : ν} (h : t.find? k = some v) :
    t.insert k v = t := by
  refine ext_find? ?_
  intro j
  by_cases hj : j = k
  · rw [hj, find?_insert_self, h]
  · exact find?_insert_of_ne t v hj

/-- An insertion is one row beside the rows of the other keys. -/
theorem rows_insert_perm (t : Table κ ν) (k : κ) (v : ν) :
    (t.insert k v).rows.Perm ((k, v) :: (t.erase k).rows) := by
  rw [← erase_insert t k v]
  exact rows_perm_of_find? (find?_insert_self t k v)

/-- Erasing a key that is not there changes nothing. -/
theorem erase_of_find?_eq_none {t : Table κ ν} {k : κ} (h : t.find? k = none) :
    t.erase k = t := by
  refine ext_find? ?_
  intro j
  by_cases hj : j = k
  · rw [hj, find?_erase_self, h]
  · exact find?_erase_of_ne t hj

section Sum

variable {M : Type} [AddCommGroup M]

/-- What the rows of a table weigh together. -/
def sumOver (t : Table κ ν) (f : κ → ν → M) : M := (t.rows.map fun r => f r.1 r.2).sum

/-- Where one key alone weighs something, its row is the sum. -/
theorem sumOver_single (t : Table κ ν) {f : κ → ν → M} {k : κ} (h : ∀ j v, j ≠ k → f j v = 0) :
    t.sumOver f = ((t.find? k).map (f k)).getD 0 := by
  have hothers : (t.erase k).sumOver f = 0 := by
    refine List.sum_eq_zero ?_
    intro w hw
    obtain ⟨⟨j, v⟩, hrow, rfl⟩ := List.mem_map.mp hw
    refine h j v ?_
    rintro rfl
    rw [mem_rows_iff, find?_erase_self] at hrow
    exact nomatch hrow
  cases hk : t.find? k with
  | none => rwa [erase_of_find?_eq_none hk] at hothers
  | some v =>
    have hrow : t.sumOver f = f k v + (t.erase k).sumOver f :=
      ((rows_perm_of_find? hk).map _).sum_eq
    rw [hrow, hothers, add_zero]
    rfl

/-- An insertion changes the sum by the new weight of the key, less the one it had. -/
theorem sumOver_insert (t : Table κ ν) (f : κ → ν → M) (k : κ) (v : ν) :
    (t.insert k v).sumOver f = t.sumOver f + (f k v - ((t.find? k).map (f k)).getD 0) := by
  have hnew : (t.insert k v).sumOver f = f k v + (t.erase k).sumOver f :=
    ((t.rows_insert_perm k v).map _).sum_eq
  rw [hnew]
  cases hk : t.find? k with
  | none =>
    rw [erase_of_find?_eq_none hk, Option.map_none, Option.getD_none, sub_zero, add_comm]
  | some w =>
    have hold : t.sumOver f = f k w + (t.erase k).sumOver f :=
      ((rows_perm_of_find? hk).map _).sum_eq
    rw [hold, Option.map_some, Option.getD_some]
    abel

end Sum

end Order

end Subledger.Table
