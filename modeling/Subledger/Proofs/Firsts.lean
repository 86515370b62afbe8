/-
  FIRST COMERS: of the elements of a list that share a key, the first.

  A book applies a transaction once and a journal takes it once, so of what comes under one name only
  the first counts, and nothing if the name was known before.  `firsts` keeps just these elements.

  Main statement: `firsts_concat`, which elements are left out: those whose key was known or has
  come before.  The keys of what is left are told apart by it (`nodup_keys_firsts`), and there are
  as many as there are different keys (`length_firsts`).
-/
import Mathlib

namespace Subledger

variable {α κ : Type} [DecidableEq κ]

/-- The elements of a list whose key is neither among `known` nor that of an earlier element. -/
def firsts (key : α → κ) (known : List κ) : List α → List α
  | [] => []
  | a :: as =>
    if key a ∈ known then firsts key known as else a :: firsts key (key a :: known) as

variable {key : α → κ} {known : List κ}

theorem firsts_concat (known : List κ) (as : List α) (a : α) :
    firsts key known (as ++ [a]) = firsts key known as ++
      if key a ∈ known ∨ key a ∈ as.map key then [] else [a] := by
  induction as generalizing known with
  | nil =>
    show (if key a ∈ known then [] else [a]) = if key a ∈ known ∨ key a ∈ [] then [] else [a]
    simp
  | cons c as ih =>
    simp only [List.cons_append, firsts, ih, List.map_cons, List.mem_cons]
    by_cases hc : key c ∈ known
    · -- that `c` has come before is nothing new
      have hsame : (key a ∈ known ∨ key a = key c ∨ key a ∈ as.map key) ↔
          (key a ∈ known ∨ key a ∈ as.map key) := by
        constructor
        · rintro (h | h | h)
          · exact Or.inl h
          · exact Or.inl (h ▸ hc)
          · exact Or.inr h
        · exact Or.imp_right Or.inr
      simp only [if_pos hc, hsame]
    · simp only [if_neg hc, List.cons_append, or_left_comm, or_assoc]

/-- Of known keys there is no first comer. -/
theorem firsts_of_known {as : List α} (h : ∀ a ∈ as, key a ∈ known) :
    firsts key known as = [] := by
  induction as with
  | nil => rfl
  | cons a as ih =>
    obtain ⟨ha, hrest⟩ := List.forall_mem_cons.mp h
    rw [firsts, if_pos ha, ih hrest]

/-- Every new key has a first comer. -/
theorem mem_keys_firsts {as : List α} {k : κ} :
    k ∈ (firsts key known as).map key ↔ k ∉ known ∧ k ∈ as.map key := by
  induction as generalizing known with
  | nil => simp [firsts]
  | cons a as ih =>
    rw [firsts, List.map_cons, List.mem_cons]
    by_cases ha : key a ∈ known
    · rw [if_pos ha, ih]
      refine and_congr_right fun hk => (or_iff_right ?_).symm
      rintro rfl
      exact hk ha
    · rw [if_neg ha, List.map_cons, List.mem_cons, ih, List.mem_cons]
      by_cases hk : k = key a
      · simp [hk, ha]
      · simp [hk]

/-- No two first comers share a key. -/
theorem nodup_keys_firsts (known : List κ) (as : List α) :
    ((firsts key known as).map key).Nodup := by
  induction as generalizing known with
  | nil => exact List.nodup_nil
  | cons a as ih =>
    rw [firsts]
    split
    · exact ih known
    · refine List.nodup_cons.mpr ⟨?_, ih _⟩
      intro hagain
      exact (mem_keys_firsts.mp hagain).1 List.mem_cons_self

/-- There are as many first comers as different keys. -/
theorem length_firsts (as : List α) :
    (firsts key [] as).length = (as.map key).toFinset.card := by
  have hkeys : ((firsts key [] as).map key).toFinset = (as.map key).toFinset := by
    ext k
    rw [List.mem_toFinset, List.mem_toFinset, mem_keys_firsts]
    exact and_iff_right List.not_mem_nil
  rw [← hkeys, List.toFinset_card_of_nodup (nodup_keys_firsts [] as), List.length_map]

end Subledger
