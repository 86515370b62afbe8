/-
  THE REGISTER over its calls: an account keeps the type of its first registration.

  1. **One call** (`register_cases`) — an account is created, found as it is, or refused because it
     has another type.  Only the first of these changes the register.
  2. **Many calls** (`typeOf?_run`) — so the type of an account is that of the first call for it,
     whatever comes later (`Account.firstType?`).  The register is nothing but this function, listed
     in the order of the names.
  3. **All at once** (`registerAll_eq_ok_iff`) — a list of accounts is registered exactly if at the
     end each has the type that it was to have.  This does not depend on the order, although the
     call that is refused does (`ofAccounts_eq_error_iff`).
-/
import Subledger.Ledger.Registry
import Subledger.Proofs.Except
import Subledger.Proofs.Table

namespace Subledger

/-- The type that an account has in the first of some accounts with its name. -/
def Account.firstType? (as : List Account) (id : AccountId) : Option AccountType :=
  (as.find? fun a => a.id == id).map Account.type

/-- Accounts that agree: of two with one name each has the type of the other. -/
def Account.Agree (as : List Account) : Prop := ∀ a ∈ as, ∀ b ∈ as, a.id = b.id → a.type = b.type

namespace Account

/-- The first account of the list decides, if it is asked for. -/
theorem firstType?_cons (a : Account) (as : List Account) (id : AccountId) :
    firstType? (a :: as) id = if a.id = id then some a.type else firstType? as id := by
  rw [firstType?, List.find?_cons]
  by_cases h : a.id = id
  · rw [if_pos h, beq_iff_eq.mpr h]
    rfl
  · rw [if_neg h, beq_eq_false_iff_ne.mpr h]
    rfl

/-- The first type is that of some account. -/
theorem mem_of_firstType? {as : List Account} {id : AccountId} {type : AccountType}
    (h : firstType? as id = some type) : ⟨id, type⟩ ∈ as := by
  obtain ⟨a, hfound, rfl⟩ := Option.map_eq_some_iff.mp h
  have hid := List.find?_some hfound
  obtain rfl : a.id = id := beq_iff_eq.mp hid
  exact List.mem_of_find?_eq_some hfound

/-- An account that is there has a first type. -/
theorem isSome_firstType? {as : List Account} {a : Account} (h : a ∈ as) :
    (firstType? as a.id).isSome = true := by
  rw [firstType?, Option.isSome_map, List.find?_isSome]
  exact ⟨a, h, beq_iff_eq.mpr rfl⟩

/-- Where accounts agree, the first type is everybody's. -/
theorem Agree.firstType?_eq_some_iff {as : List Account} (h : Agree as) {id : AccountId}
    {type : AccountType} : firstType? as id = some type ↔ ⟨id, type⟩ ∈ as := by
  refine ⟨mem_of_firstType?, fun hmem => ?_⟩
  obtain ⟨first, hfirst⟩ := Option.isSome_iff_exists.mp (isSome_firstType? hmem)
  obtain rfl : first = type := h _ (mem_of_firstType? hfirst) _ hmem rfl
  exact hfirst

/-- Accounts agree exactly if each has its first type. -/
theorem agree_iff {as : List Account} :
    Agree as ↔ ∀ a ∈ as, firstType? as a.id = some a.type := by
  constructor
  · intro h a ha
    exact h.firstType?_eq_some_iff.mpr ha
  · intro h a ha b hb hid
    have hfirst := h a ha
    rw [hid, h b hb] at hfirst
    exact (Option.some.inj hfirst).symm

end Account

namespace Registry

open Account

/-! ## One call

  Two tests decide, whether the account is there and whether it has the type. -/

/-- What can come of a registration, and when. -/
theorem register_cases (r : Registry) (a : Account) :
    (r.typeOf? a.id = none ∧ r.register a = .ok (.created, ⟨r.types.insert a.id a.type⟩)) ∨
    (r.typeOf? a.id = some a.type ∧ r.register a = .ok (.unchanged, r)) ∨
    ∃ type, r.typeOf? a.id = some type ∧ type ≠ a.type ∧
      r.register a = .error (.classificationConflict a.id type a.type) := by
  rw [register]
  cases hfound : r.typeOf? a.id with
  | none => exact Or.inl ⟨rfl, rfl⟩
  | some type =>
    by_cases htype : type = a.type
    · exact Or.inr (Or.inl ⟨congrArg some htype, if_pos htype⟩)
    · exact Or.inr (Or.inr ⟨type, rfl, htype, if_neg htype⟩)

/-- A register after a call; one that is refused leaves it as it was. -/
def step (r : Registry) (a : Account) : Registry :=
  match r.register a with
  | .ok (_, r') => r'
  | .error _ => r

/-- A call gives an account its type if it had none, and leaves all others alone. -/
theorem typeOf?_step (r : Registry) (a : Account) (id : AccountId) :
    (r.step a).typeOf? id = (r.typeOf? id).or (if a.id = id then some a.type else none) := by
  rw [step]
  rcases r.register_cases a with ⟨hnew, hcall⟩ | ⟨hold, hcall⟩ | ⟨type, hold, -, hcall⟩ <;>
    rw [hcall]
  · show (r.types.insert a.id a.type).find? id = _
    by_cases hid : a.id = id
    · subst hid
      rw [Table.find?_insert_self, hnew, if_pos rfl]
      rfl
    · rw [Table.find?_insert_of_ne _ _ (Ne.symm hid), if_neg hid, Option.or_none]
      rfl
  · by_cases hid : a.id = id
    · subst hid
      rw [hold]
      rfl
    · rw [if_neg hid, Option.or_none]
  · by_cases hid : a.id = id
    · subst hid
      rw [hold]
      rfl
    · rw [if_neg hid, Option.or_none]

/-- Registers are told apart by the types that they give. -/
theorem ext_typeOf? {r s : Registry} (h : ∀ id, r.typeOf? id = s.typeOf? id) : r = s := by
  obtain ⟨types⟩ := r
  obtain ⟨types'⟩ := s
  exact congrArg Registry.mk (Table.ext_find? h)

/-! ## Many calls

  A type is set once, so the first call for an account decides. -/

/-- A register after some calls. -/
def run (r : Registry) (as : List Account) : Registry := as.foldl step r

/-- **The first call for an account counts**, if it was not there before. -/
theorem typeOf?_run (r : Registry) (as : List Account) (id : AccountId) :
    (r.run as).typeOf? id = (r.typeOf? id).or (firstType? as id) := by
  induction as generalizing r with
  | nil => exact (Option.or_none).symm
  | cons a as ih =>
    show ((r.step a).run as).typeOf? id = _
    rw [ih, typeOf?_step, firstType?_cons, Option.or_assoc]
    congr 1
    split <;> rfl

/-- In a new register an account has the type of its first call. -/
theorem typeOf?_run_empty (as : List Account) (id : AccountId) :
    (empty.run as).typeOf? id = firstType? as id := typeOf?_run empty as id

/-- Registrations may be made in two parts. -/
theorem run_append (r : Registry) (as bs : List Account) : r.run (as ++ bs) = (r.run as).run bs :=
  List.foldl_append

/-- What a call answers after some others: the first call for its account decides. -/
theorem register_run (as : List Account) (a : Account) :
    (empty.run as).register a = match firstType? as a.id with
      | none => .ok (.created, empty.run (as ++ [a]))
      | some type =>
        if type = a.type then .ok (.unchanged, empty.run as)
        else .error (.classificationConflict a.id type a.type) := by
  rw [run_append, register, typeOf?_run_empty]
  cases hfirst : firstType? as a.id with
  | some type => rfl
  | none =>
    show _ = Except.ok (Registration.created, (empty.run as).step a)
    rw [step, register, typeOf?_run_empty, hfirst]

/-- A call for an account that is there changes nothing, whatever it answers. -/
theorem run_concat_of_known {as : List Account} {a : Account} (h : firstType? as a.id ≠ none) :
    empty.run (as ++ [a]) = empty.run as := by
  obtain ⟨type, hfirst⟩ := Option.ne_none_iff_exists'.mp h
  apply ext_typeOf?
  intro id
  rw [run_append, typeOf?_run, typeOf?_run_empty, firstType?_cons]
  by_cases hid : a.id = id
  · rw [← hid, hfirst]
    rfl
  · rw [if_neg hid]
    exact Option.or_none

/-! ## The list of accounts

  The register lists its accounts in the order of their names, and nothing of the order of the calls
  is left. -/

/-- An account is listed with the type that it has. -/
theorem mem_accounts_iff {r : Registry} {a : Account} :
    a ∈ r.accounts ↔ r.typeOf? a.id = some a.type := by
  obtain ⟨id, type⟩ := a
  rw [accounts, typeOf?, ← Table.mem_rows_iff, List.mem_map]
  constructor
  · rintro ⟨row, hrow, heq⟩
    obtain ⟨rfl, rfl⟩ := Account.mk.inj heq
    exact hrow
  · intro hrow
    exact ⟨(id, type), hrow, rfl⟩

/-- The accounts stand in the order of their names, each name once. -/
theorem sorted_accounts (r : Registry) :
    (r.accounts.map Account.id).Pairwise fun i j => compare i j = .lt := by
  rw [accounts, List.map_map]
  exact List.pairwise_map.mpr r.types.sorted

/-! ## All at once

  The loop stops at the first account that has two types; up to there it is the run above. -/

/-- To register a list is to register one after the other, until one is refused. -/
theorem registerAll_eq_foldlM (r : Registry) (as : List Account) :
    r.registerAll as = as.foldlM (fun r a => (r.register a).map Prod.snd) r := by
  induction as generalizing r with
  | nil => rfl
  | cons a as ih =>
    rw [registerAll, List.foldlM_cons]
    cases r.register a with
    | error e => rfl
    | ok answer => exact ih answer.2

/-- **Accounts are registered** exactly if in the end each has the type that it was to have. -/
theorem registerAll_eq_ok_iff {r r' : Registry} {as : List Account} :
    r.registerAll as = .ok r' ↔
      r' = r.run as ∧ ∀ a ∈ as, (r.run as).typeOf? a.id = some a.type := by
  induction as generalizing r with
  | nil =>
    rw [registerAll, and_iff_left (List.forall_mem_nil _)]
    exact ⟨fun h => (Except.ok.inj h).symm, fun h => congrArg Except.ok h.symm⟩
  | cons a as ih =>
    rw [List.forall_mem_cons]
    have hstep : ∀ done r₁, r.register a = .ok (done, r₁) → (r₁.typeOf? a.id = some a.type) →
        (r.registerAll (a :: as) = .ok r' ↔ r' = r.run (a :: as) ∧
          (r.run (a :: as)).typeOf? a.id = some a.type ∧
          ∀ b ∈ as, (r.run (a :: as)).typeOf? b.id = some b.type) := by
      intro done r₁ hcall htype
      have hrun : r.run (a :: as) = r₁.run as := by
        show (r.step a).run as = r₁.run as
        rw [step, hcall]
      have hkept : (r₁.run as).typeOf? a.id = some a.type := by
        rw [typeOf?_run, htype]
        rfl
      rw [registerAll, hcall, hrun, and_iff_right hkept]
      exact ih
    rcases r.register_cases a with ⟨-, hcall⟩ | ⟨hold, hcall⟩ | ⟨type, hold, hother, hcall⟩
    · exact hstep _ _ hcall (Table.find?_insert_self _ _ _)
    · exact hstep _ _ hcall hold
    · -- the account keeps the other type to the end
      rw [registerAll, hcall]
      refine iff_of_false error_ne_ok ?_
      rintro ⟨-, htype, -⟩
      rw [typeOf?_run, hold] at htype
      exact hother (Option.some.inj htype)

/-- **A new register of some accounts** exists exactly if the accounts agree. -/
theorem ofAccounts_eq_ok_iff {r : Registry} {as : List Account} :
    ofAccounts as = .ok r ↔ r = empty.run as ∧ Agree as := by
  rw [ofAccounts, registerAll_eq_ok_iff, agree_iff]
  simp only [typeOf?_run_empty]

/-- The call that is refused is the first for an account that has got another type before. -/
theorem ofAccounts_eq_error_iff {as : List Account} {e : LedgerError} :
    ofAccounts as = .error e ↔ ∃ front a back type, as = front ++ a :: back ∧ Agree front ∧
      firstType? front a.id = some type ∧ type ≠ a.type ∧
      e = .classificationConflict a.id type a.type := by
  have hfront : ∀ {front : List Account} {r : Registry},
      front.foldlM (fun r a => (r.register a).map Prod.snd) empty = .ok r ↔
        r = empty.run front ∧ Agree front := by
    intro front r
    rw [← registerAll_eq_foldlM]
    exact ofAccounts_eq_ok_iff
  rw [ofAccounts, registerAll_eq_foldlM, foldlM_eq_error_iff]
  constructor
  · rintro ⟨front, a, back, r, rfl, hr, hcall⟩
    obtain ⟨rfl, hagree⟩ := hfront.mp hr
    rcases (empty.run front).register_cases a with
      ⟨-, hdone⟩ | ⟨-, hdone⟩ | ⟨type, hfirst, hother, hdone⟩
    · rw [hdone] at hcall
      cases hcall
    · rw [hdone] at hcall
      cases hcall
    · rw [hdone] at hcall
      rw [typeOf?_run_empty] at hfirst
      exact ⟨front, a, back, type, rfl, hagree, hfirst, hother, (Except.error.inj hcall).symm⟩
  · rintro ⟨front, a, back, type, rfl, hagree, hfirst, hother, rfl⟩
    refine ⟨front, a, back, empty.run front, rfl, hfront.mpr ⟨rfl, hagree⟩, ?_⟩
    rw [register, typeOf?_run_empty, hfirst]
    dsimp only
    rw [if_neg hother]
    rfl

/-- A list is accepted exactly if it gives no account two types. -/
theorem exists_ofAccounts_iff {as : List Account} : (∃ r, ofAccounts as = .ok r) ↔ Agree as := by
  simp only [ofAccounts_eq_ok_iff, exists_eq_left]

/-- Where accounts agree, their register depends on nothing but which accounts they are. -/
theorem run_congr {as bs : List Account} (h : ∀ a, a ∈ as ↔ a ∈ bs) (has : Agree as)
    (hbs : Agree bs) : empty.run as = empty.run bs := by
  apply ext_typeOf?
  intro id
  rw [typeOf?_run_empty, typeOf?_run_empty]
  apply Option.ext
  intro type
  rw [has.firstType?_eq_some_iff, hbs.firstType?_eq_some_iff]
  exact h _

/-- **The order of the accounts does not matter**, nor how often one is listed. -/
theorem ofAccounts_congr {as bs : List Account} (h : ∀ a, a ∈ as ↔ a ∈ bs) (r : Registry) :
    ofAccounts as = .ok r ↔ ofAccounts bs = .ok r := by
  have hagree : Agree as ↔ Agree bs := by simp only [Agree, h]
  rw [ofAccounts_eq_ok_iff, ofAccounts_eq_ok_iff, ← hagree]
  refine and_congr_left fun has => ?_
  rw [run_congr h has (hagree.mp has)]

/-! ## The result -/

/-- **An account keeps the type of its first registration.**  Let any calls be made to a new
    register.

    * Each account has the type of the first call for it, then and after any later calls.
    * A call creates an account that is new, finds one of the same type as it is, and else is
      refused with the type that is registered and the type that was asked for.  In the last two
      cases the register is what it was.
    * The accounts are listed in strictly increasing order of their names: those of the first calls,
      and no others.
    * A list of accounts makes a register exactly if no name comes with two types; if one does, the
      first call that is in conflict is told.  The register does not depend on the order of the
      accounts, nor on how often one is listed. -/
theorem first_registration_counts (as : List Account) :
    ((∀ id, (empty.run as).typeOf? id = firstType? as id) ∧
      ∀ later id type, (empty.run as).typeOf? id = some type →
        (empty.run (as ++ later)).typeOf? id = some type) ∧
    ((∀ a, (empty.run as).register a = match firstType? as a.id with
        | none => .ok (.created, empty.run (as ++ [a]))
        | some type =>
          if type = a.type then .ok (.unchanged, empty.run as)
          else .error (.classificationConflict a.id type a.type)) ∧
      ∀ a, firstType? as a.id ≠ none → empty.run (as ++ [a]) = empty.run as) ∧
    (((empty.run as).accounts.map Account.id).Pairwise (fun i j => compare i j = .lt) ∧
      ∀ a, a ∈ (empty.run as).accounts ↔ firstType? as a.id = some a.type) ∧
    ((∃ r, ofAccounts as = .ok r) ↔ ∀ a ∈ as, ∀ b ∈ as, a.id = b.id → a.type = b.type) ∧
    (∀ e, ofAccounts as = .error e ↔ ∃ front a back type, as = front ++ a :: back ∧
      (∃ r, ofAccounts front = .ok r) ∧ firstType? front a.id = some type ∧ type ≠ a.type ∧
      e = .classificationConflict a.id type a.type) ∧
    ∀ bs, (∀ a, a ∈ as ↔ a ∈ bs) → ∀ r, ofAccounts as = .ok r ↔ ofAccounts bs = .ok r := by
  refine ⟨⟨typeOf?_run_empty as, ?_⟩, ⟨register_run as, fun a => run_concat_of_known⟩,
    ⟨sorted_accounts _, ?_⟩, exists_ofAccounts_iff, ?_, fun bs => ofAccounts_congr⟩
  · intro later id type hid
    rw [run_append, typeOf?_run, hid]
    rfl
  · intro a
    rw [mem_accounts_iff, typeOf?_run_empty]
  · intro e
    simp only [exists_ofAccounts_iff]
    exact ofAccounts_eq_error_iff

end Registry
end Subledger
