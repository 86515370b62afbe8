/-
  POSTINGS: what a transaction does to the balances, without the detour of staging.

  `Book.execute` works out new balances beside the book and puts them in at the end.  Here the same
  is said of a plain loop:

  1. **The loop** — a move is two postings, and `postAll` adds postings one after the other straight
     into a copy of the balances.
  2. **The equivalence** (`stage_commit`) — staging and then putting the staged balances in comes
     to that copy, with the same error if an addition overflows on the way.  The crux is that the
     book's balances with the staged ones put in hold what staging reads (`staged_eq`) and take an
     insertion like any table (`commit_insert`).
  3. **The step** (`execute_applied_iff`) — everything an applied transaction does, in one
     statement.  Whatever is proved about runs of a book starts from it, and not from
     `Book.execute`.
-/
import Subledger.Ledger.Book
import Subledger.Proofs.Table

namespace Subledger

/-- A change of one balance. -/
structure Posting where
  position : Position
  amount : Decimal

/-- A move in two postings: out of its source and into its destination. -/
def Move.postings (m : Move) : List Posting :=
  [⟨⟨m.source, m.unit⟩, m.quantity.value.neg⟩, ⟨⟨m.destination, m.unit⟩, m.quantity.value⟩]

/-- The postings of a transaction, in the order of its moves. -/
def Transaction.postings (t : Transaction) : List Posting := t.moves.flatMap Move.postings

namespace Book

/-! ## The loop -/

/-- The balance of a position in some balances, zero if it has no row. -/
def balanceIn (balances : Table Position Decimal) (p : Position) : Decimal :=
  (balances.find? p).getD .zero

/-- Balances with one posting added in. -/
def post (id : TransactionId) (balances : Table Position Decimal) (p : Posting) :
    Except LedgerError (Table Position Decimal) :=
  match (balanceIn balances p.position).add? p.amount with
  | some y => .ok (balances.insert p.position y)
  | none => .error (.overflow id p.position.account p.position.unit)

/-- Balances with postings added in one after the other, up to the first overflow. -/
def postAll (id : TransactionId) (balances : Table Position Decimal) :
    List Posting → Except LedgerError (Table Position Decimal)
  | [] => .ok balances
  | p :: ps => do
    let balances ← post id balances p
    postAll id balances ps

/-- A posting succeeds exactly if the sum has room, and then sets one balance. -/
theorem post_eq_ok_iff {id : TransactionId} {balances balances' : Table Position Decimal}
    {p : Posting} : post id balances p = .ok balances' ↔
      ∃ y, (balanceIn balances p.position).add? p.amount = some y ∧
        balances' = balances.insert p.position y := by
  unfold post
  cases (balanceIn balances p.position).add? p.amount with
  | none => exact iff_of_false (fun h => nomatch h) (fun ⟨_, h, _⟩ => nomatch h)
  | some y =>
    constructor
    · intro h
      exact ⟨y, rfl, (Except.ok.inj h).symm⟩
    · rintro ⟨y', hy, rfl⟩
      rw [Option.some.inj hy]

/-- The loop, opened from the front. -/
theorem postAll_cons_eq_ok_iff {id : TransactionId} {balances balances' : Table Position Decimal}
    {p : Posting} {ps : List Posting} : postAll id balances (p :: ps) = .ok balances' ↔
      ∃ y, (balanceIn balances p.position).add? p.amount = some y ∧
        postAll id (balances.insert p.position y) ps = .ok balances' := by
  rw [postAll]
  cases hp : post id balances p with
  | error e =>
    refine iff_of_false (fun h => nomatch h) ?_
    rintro ⟨y, hy, -⟩
    rw [post_eq_ok_iff.mpr ⟨y, hy, rfl⟩] at hp
    exact nomatch hp
  | ok b =>
    obtain ⟨y, hy, rfl⟩ := post_eq_ok_iff.mp hp
    constructor
    · intro h
      exact ⟨y, hy, h⟩
    · rintro ⟨y', hy', h⟩
      rwa [Option.some.inj (hy.symm.trans hy')]

/-! ## Staging is the loop

  The book and the staged rows, read one over the other, are a table of their own.  Staging a
  posting changes it as the loop changes its copy, so the two go in step from the first posting to
  the last, and to the same error. -/

/-- A staged balance hides the one of the book. -/
theorem find?_commit (balances : Table Position Decimal) (s : Staged) (p : Position) :
    (commit balances s).find? p = (s.find? p).or (balances.find? p) :=
  Table.find?_foldl_insert s.rows s.nodup_keys balances p

/-- What staging reads is the balance in the book with the staged balances put in. -/
theorem staged_eq (b : Book) (s : Staged) (p : Position) :
    b.staged s p = balanceIn (commit b.balances s) p := by
  rw [staged, balanceIn, find?_commit]
  cases s.find? p <;> rfl

/-- To stage a balance and put it in is to insert it. -/
theorem commit_insert (balances : Table Position Decimal) (s : Staged) (p : Position)
    (y : Decimal) : commit balances (s.insert p y) = (commit balances s).insert p y := by
  refine Table.ext_find? ?_
  intro j
  rw [find?_commit]
  by_cases hj : j = p
  · rw [hj, Table.find?_insert_self, Table.find?_insert_self]
    rfl
  · rw [Table.find?_insert_of_ne _ y hj, Table.find?_insert_of_ne _ y hj, find?_commit]

/-- Staging one posting and putting it in is posting it. -/
theorem adjust_commit (b : Book) (id : TransactionId) (s : Staged) (p : Position) (x : Decimal) :
    (b.adjust id s p x).map (commit b.balances) = post id (commit b.balances s) ⟨p, x⟩ := by
  rw [adjust, post, staged_eq]
  cases (balanceIn (commit b.balances s) p).add? x with
  | none => rfl
  | some y => exact congrArg Except.ok (commit_insert b.balances s p y)

/-- A chain may be mapped at its end or link by link. -/
theorem map_bind_eq {ε α β : Type} {x : Except ε α} {y : Except ε β} {g : α → β}
    {f : α → Except ε α} {k : β → Except ε β} (hx : x.map g = y)
    (hf : ∀ a, (f a).map g = k (g a)) : (x >>= f).map g = y >>= k := by
  subst hx
  cases x with
  | error e => rfl
  | ok a => exact hf a

/-- So for all moves: the postings of a move are its two legs, in the order in which they are
    staged. -/
theorem stageMoves_commit (b : Book) (id : TransactionId) (ms : List Move) (s : Staged) :
    (b.stageMoves id s ms).map (commit b.balances)
      = postAll id (commit b.balances s) (ms.flatMap Move.postings) := by
  induction ms generalizing s with
  | nil => rfl
  | cons m ms ih =>
    rw [stageMoves, stageMove, List.flatMap_cons]
    show _ = post id _ _ >>= fun t => post id t _ >>= fun t => postAll id t _
    rw [bind_assoc]
    refine map_bind_eq (adjust_commit b id s _ _) ?_
    intro s'
    exact map_bind_eq (adjust_commit b id s' _ _) ih

/-- Staging beside the book and then putting the staged balances in is posting into a copy. -/
theorem stage_commit (b : Book) (t : Transaction) (h : firstViolation b.registry 0 t.moves = none) :
    (b.stage t).map (commit b.balances) = postAll t.id b.balances t.postings := by
  rw [stage, h]
  exact stageMoves_commit b t.id t.moves .empty

/-! ## Right moves

  The check looks for the first violation.  That there is none is a property of each move by itself.
  -/

/-- A move is right if it goes from one known account to another one. -/
theorem violation?_eq_none_iff {r : Registry} {m : Move} : violation? r m = none ↔
    m.source ≠ m.destination ∧ r.contains m.source = true ∧ r.contains m.destination = true := by
  unfold violation?
  by_cases hself : m.source = m.destination
  · rw [if_pos hself]
    exact iff_of_false (fun h => nomatch h) (fun h => h.1 hself)
  · rw [if_neg hself]
    cases r.contains m.source <;> cases r.contains m.destination <;> simp [hself]

/-- There is no violation exactly if each move is right by itself; the index only says where the
    first one stands. -/
theorem firstViolation_eq_none_iff {r : Registry} {i : Nat} {ms : List Move} :
    firstViolation r i ms = none ↔ ∀ m ∈ ms, violation? r m = none := by
  induction ms generalizing i with
  | nil => exact iff_of_true rfl (fun m hm => absurd hm List.not_mem_nil)
  | cons m ms ih =>
    rw [firstViolation, List.forall_mem_cons]
    cases violation? r m with
    | some v => exact iff_of_false (fun h => nomatch h) (fun h => nomatch h.1)
    | none => exact ih.trans (and_iff_right rfl).symm

/-! ## The step

  The verdicts of `execute`, each as an equivalence. -/

theorem isApplied_iff {b : Book} {id : TransactionId} : b.isApplied id = true ↔ id ∈ b.applied := by
  rw [isApplied, List.contains_eq_mem, decide_eq_true_eq]

theorem isApplied_eq_false_iff {b : Book} {id : TransactionId} :
    b.isApplied id = false ↔ id ∉ b.applied := by
  rw [← isApplied_iff, Bool.not_eq_true]

/-- Everything that an applied transaction does: it was new, all its moves were right, its postings
    went through, and nothing but the balances and the list of names changed. -/
theorem execute_applied_iff {b b' : Book} {t : Transaction} :
    b.execute t = .ok (.applied, b') ↔
      b.isApplied t.id = false ∧ firstViolation b.registry 0 t.moves = none ∧
        ∃ balances, postAll t.id b.balances t.postings = .ok balances ∧
          b' = { b with balances := balances, applied := t.id :: b.applied } := by
  unfold execute
  cases hid : b.isApplied t.id with
  | true => exact iff_of_false (fun h => nomatch h) (fun h => nomatch h.1)
  | false =>
    -- a wrong move is reported before anything is posted, so an overflow is met with right moves only
    cases hv : firstViolation b.registry 0 t.moves with
    | some v =>
      refine iff_of_false ?_ (fun h => nomatch h.2.1)
      rw [stage, hv]
      exact fun h => nomatch h
    | none =>
      rw [← stage_commit b t hv]
      cases b.stage t with
      | error e => exact iff_of_false (fun h => nomatch h) (fun ⟨_, _, _, h, _⟩ => nomatch h)
      | ok s =>
        constructor
        · intro h
          exact ⟨rfl, rfl, commit b.balances s, rfl, (Prod.mk.inj (Except.ok.inj h)).2.symm⟩
        · rintro ⟨-, -, balances, hb, rfl⟩
          rw [← Except.ok.inj hb]
          rfl

/-- A repetition is acknowledged, whatever it contains, and changes nothing. -/
theorem execute_alreadyApplied_iff {b b' : Book} {t : Transaction} :
    b.execute t = .ok (.alreadyApplied, b') ↔ b.isApplied t.id = true ∧ b' = b := by
  unfold execute
  cases hid : b.isApplied t.id with
  | true =>
    constructor
    · intro h
      exact ⟨rfl, (Prod.mk.inj (Except.ok.inj h)).2.symm⟩
    · rintro ⟨-, rfl⟩
      rfl
  | false =>
    refine iff_of_false ?_ (fun h => nomatch h.1)
    cases b.stage t <;> exact fun h => nomatch h

/-- A known name is all that is looked at. -/
theorem execute_of_mem {b : Book} {t : Transaction} (h : t.id ∈ b.applied) :
    b.execute t = .ok (.alreadyApplied, b) :=
  execute_alreadyApplied_iff.mpr ⟨isApplied_iff.mpr h, rfl⟩

/-- Why a transaction is refused: a wrong move, or right moves whose postings overflow. -/
theorem execute_error_iff {b : Book} {t : Transaction} {e : LedgerError} :
    b.execute t = .error e ↔ b.isApplied t.id = false ∧
      ((∃ i v, firstViolation b.registry 0 t.moves = some (i, v) ∧ e = .invalidMove t.id i v) ∨
        (firstViolation b.registry 0 t.moves = none ∧
          postAll t.id b.balances t.postings = .error e)) := by
  unfold execute
  cases hid : b.isApplied t.id with
  | true => exact iff_of_false (fun h => nomatch h) (fun h => nomatch h.1)
  | false =>
    cases hv : firstViolation b.registry 0 t.moves with
    | some v =>
      have hstage : b.stage t = .error (.invalidMove t.id v.1 v.2) := by rw [stage, hv]
      rw [hstage]
      constructor
      · intro h
        exact ⟨rfl, Or.inl ⟨v.1, v.2, rfl, (Except.error.inj h).symm⟩⟩
      · rintro ⟨-, ⟨i, w, hw, rfl⟩ | ⟨hnone, -⟩⟩
        · rw [Option.some.inj hw]
          rfl
        · exact nomatch hnone
    | none =>
      rw [← stage_commit b t hv]
      cases b.stage t with
      | error e' =>
        constructor
        · intro h
          exact ⟨rfl, Or.inr ⟨rfl, congrArg Except.error (Except.error.inj h)⟩⟩
        · rintro ⟨-, ⟨i, w, hw, -⟩ | ⟨-, h⟩⟩
          · exact nomatch hw
          · exact congrArg Except.error (Except.error.inj h)
      | ok s =>
        refine iff_of_false (fun h => nomatch h) ?_
        rintro ⟨-, ⟨i, w, hw, -⟩ | ⟨-, h⟩⟩
        · exact nomatch hw
        · exact nomatch h

end Book
end Subledger
