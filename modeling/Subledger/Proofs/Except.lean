/-
  COMPUTATIONS THAT CAN FAIL: a computation of several steps succeeds exactly if each of them does.

  The lemmas take such a computation apart from its end: what succeeded as a whole gives the values
  that its steps handed on.
-/
import Mathlib.Tactic.Common

namespace Subledger

variable {ε ε' α β : Type}

/-- A computation that succeeds, said of one that gives a value or none. -/
theorem ok_eq_ok_iff {a b : α} : (Except.ok a : Except ε α) = .ok b ↔ some a = some b :=
  ⟨fun h => congrArg some (Except.ok.inj h), fun h => congrArg Except.ok (Option.some.inj h)⟩

/-- The same of one that fails, where there is no value. -/
theorem error_eq_ok_iff {e : ε} {a b : α} :
    (Except.error e : Except ε α) = .ok a ↔ (none : Option α) = some b :=
  iff_of_false (by rintro ⟨⟩) (by rintro ⟨⟩)

/-- A failure is no success. -/
theorem error_ne_ok {e : ε} {a : α} : (Except.error e : Except ε α) ≠ .ok a := by
  rintro ⟨⟩

/-- What fails gives nothing, nor is anything made of it. -/
theorem error_eq_ok_iff_made {e : ε} {e' : ε'} {a : α} {make : β → Prop} :
    (Except.error e : Except ε α) = .ok a ↔
      ∃ b, (Except.error e' : Except ε' β) = .ok b ∧ make b := by
  refine iff_of_false error_ne_ok ?_
  rintro ⟨b, hb, -⟩
  exact error_ne_ok hb

/-- What succeeded in two steps succeeded in the first, and with its value in the second. -/
theorem bind_eq_ok {x : Except ε α} {f : α → Except ε β} {b : β} :
    (x >>= f) = .ok b ↔ ∃ a, x = .ok a ∧ f a = .ok b := by
  cases x with
  | error e => exact ⟨nofun, nofun⟩
  | ok a => exact ⟨fun h => ⟨a, rfl, h⟩, fun ⟨_, ha, h⟩ => Except.ok.inj ha ▸ h⟩

/-- What succeeded with a function behind it succeeded before it. -/
theorem map_eq_ok {x : Except ε α} {f : α → β} {b : β} :
    x.map f = .ok b ↔ ∃ a, x = .ok a ∧ f a = b := by
  cases x with
  | error e => exact ⟨nofun, nofun⟩
  | ok a => exact ⟨fun h => ⟨a, rfl, Except.ok.inj h⟩, fun ⟨_, ha, h⟩ => Except.ok.inj ha ▸ h ▸ rfl⟩

/-- A function behind a computation does not change how it fails. -/
theorem map_eq_error {x : Except ε α} {f : α → β} {e : ε} : x.map f = .error e ↔ x = .error e := by
  cases x with
  | error e' => exact ⟨fun h => Except.error.inj h ▸ rfl, fun h => Except.error.inj h ▸ rfl⟩
  | ok a => exact ⟨nofun, nofun⟩

/-- Another wording of the failures changes nothing about success. -/
theorem mapError_eq_ok {x : Except ε α} {f : ε → ε'} {a : α} :
    x.mapError f = .ok a ↔ x = .ok a := by
  cases x with
  | error e => exact ⟨nofun, nofun⟩
  | ok a' => exact ⟨fun h => Except.ok.inj h ▸ rfl, fun h => Except.ok.inj h ▸ rfl⟩

/-- What each step of a run preserves, a run that succeeds preserves. -/
theorem foldlM_preserves {f : β → α → Except ε β} (P : β → Prop)
    (hstep : ∀ b a b', P b → f b a = .ok b' → P b') {as : List α} {b b' : β} (hb : P b)
    (h : as.foldlM f b = .ok b') : P b' := by
  induction as generalizing b with
  | nil => exact Except.ok.inj h ▸ hb
  | cons a as ih =>
    rw [List.foldlM_cons] at h
    obtain ⟨b₁, hfirst, hmore⟩ := bind_eq_ok.mp h
    exact ih (hstep b a b₁ hb hfirst) hmore

/-- A run that fails, fails at a step, and the steps before it succeed. -/
theorem foldlM_eq_error_iff {f : β → α → Except ε β} {as : List α} {b : β} {e : ε} :
    as.foldlM f b = .error e ↔ ∃ front a back b', as = front ++ a :: back ∧
      front.foldlM f b = .ok b' ∧ f b' a = .error e := by
  induction as generalizing b with
  | nil =>
    refine iff_of_false (by rintro ⟨⟩) ?_
    rintro ⟨front, a, back, _, hnil, -⟩
    exact List.append_ne_nil_of_right_ne_nil front (List.cons_ne_nil a back) hnil.symm
  | cons c as ih =>
    rw [List.foldlM_cons]
    -- the first step fails, or the failing step is behind it
    cases hc : f b c with
    | error e' =>
      constructor
      · intro h
        exact ⟨[], c, as, b, rfl, rfl, hc.trans h⟩
      · rintro ⟨front, a, back, b', heq, hfront, hfails⟩
        rcases List.cons_eq_append_iff.mp heq with ⟨rfl, htail⟩ | ⟨front', rfl, -⟩
        · obtain ⟨rfl, rfl⟩ := List.cons.inj htail
          obtain rfl := Except.ok.inj hfront
          exact hc.symm.trans hfails
        · rw [List.foldlM_cons, hc] at hfront
          exact absurd hfront error_ne_ok
    | ok b₁ =>
      refine ih.trans ⟨?_, ?_⟩
      · rintro ⟨front, a, back, b', rfl, hfront, hfails⟩
        refine ⟨c :: front, a, back, b', rfl, ?_, hfails⟩
        rw [List.foldlM_cons, hc]
        exact hfront
      · rintro ⟨front, a, back, b', heq, hfront, hfails⟩
        rcases List.cons_eq_append_iff.mp heq with ⟨rfl, htail⟩ | ⟨front', rfl, rfl⟩
        · obtain ⟨rfl, rfl⟩ := List.cons.inj htail
          obtain rfl := Except.ok.inj hfront
          rw [hc] at hfails
          cases hfails
        · rw [List.foldlM_cons, hc] at hfront
          exact ⟨front', a, back, b', rfl, hfront, hfails⟩

/-- A run that fails, fails at one of its steps. -/
theorem exists_of_foldlM_error {f : β → α → Except ε β} {as : List α} {b : β} {e : ε}
    (h : as.foldlM f b = .error e) : ∃ a ∈ as, ∃ b', f b' a = .error e := by
  obtain ⟨front, a, back, b', rfl, -, hfails⟩ := foldlM_eq_error_iff.mp h
  exact ⟨a, List.mem_append_right front List.mem_cons_self, b', hfails⟩

end Subledger
