/-
  ACCEPTANCE: what a builder accepts, a book can take.

  A builder checks amounts and accounts before it makes a transaction, and a book checks the accounts
  of its moves again.  The builders have seven orders of checks, the book has one.

  1. **What is checked** (`Acceptable`) — the amounts that were given and the one that is computed are
     above zero, each leg has two sides, two currencies are two, and a reference is not blank.
  2. **The builders** (`built`, `exists_build`) — an event is built exactly if it is acceptable, and then
     its moves go along its legs.  The crux is that cash is rounded before it is checked, so that
     what is above zero is at least a cent.
  3. **The book** (`Book.execute_of_right`) — a new transaction whose moves are right is applied, or one
     of its postings overflows.
  4. **The result** (`accepted_exactly`).
-/
import Subledger.Proofs.Construction
import Subledger.Proofs.Instrument.Cash
import Subledger.Proofs.Instrument.Naming
import Subledger.Proofs.Ledger.Atomic

namespace Subledger

open Decimal Instrument

/-! ## The steps of a builder

  A builder is a chain of steps, each of which refuses or goes on.  What the chain accepts is what
  all its steps accept, so each step is described once, by an equivalence, and once more by a
  condition under which it goes on; the seven builders then differ only in which steps they chain.
  -/

namespace Instrument

/-- An amount passes exactly if it is above zero, and it then counts with its value, whatever places
    it was given with. -/
theorem positive_eq_ok_iff {field : String} {x : Decimal} {q : Quantity} :
    positive field x = .ok q ↔ 0 < x.value ∧ q.value = x.normalize := by
  rw [positive, value_pos_iff]
  split
  · rename_i hpositive
    rw [mapError_eq_ok, Quantity.ofDecimal_eq_ok_iff]
    exact and_congr_left' (isPositive_iff x).symm
  · rename_i hnot
    exact iff_of_false error_ne_ok fun h => hnot h.1

/-- An amount above zero always passes: nothing else about it is checked. -/
theorem exists_positive (field : String) {x : Decimal} (h : 0 < x.value) :
    ∃ q, positive field x = .ok q := by
  rw [value_pos_iff, isPositive_iff] at h
  obtain ⟨q, hq⟩ := Quantity.exists_ofDecimal_iff.mpr h
  refine ⟨q, positive_eq_ok_iff.mpr ?_⟩
  obtain ⟨hpositive, hvalue⟩ := Quantity.ofDecimal_eq_ok_iff.mp hq
  exact ⟨(value_pos_iff x).mpr ((isPositive_iff x).mpr hpositive), hvalue⟩

/-- Two accounts pass exactly if they are two. -/
theorem distinct_eq_ok_iff {role : String} {a b : AccountId} {u : Unit} :
    distinct role a b = .ok u ↔ a ≠ b := by
  unfold distinct
  split
  · rename_i hsame
    exact iff_of_false error_ne_ok fun h => h hsame
  · rename_i hother
    exact iff_of_true rfl hother

/-- A transaction is made exactly if there is a move, and holds what it was made of. -/
theorem transaction_eq_ok_iff {id : TransactionId} {time : Instant} {moves : List Move}
    {t : Transaction} : transaction id time moves = .ok t ↔
      moves ≠ [] ∧ t.id = id ∧ t.timestamp = time ∧ t.moves = moves := by
  rw [transaction, mapError_eq_ok, Transaction.Parts.ofMoves_eq_ok_iff]

/-- With one move or more there is a transaction. -/
theorem exists_transaction (id : TransactionId) (time : Instant) (m : Move) (ms : List Move) :
    ∃ t, transaction id time (m :: ms) = .ok t :=
  ⟨⟨id, time, m :: ms, List.cons_ne_nil m ms⟩,
    transaction_eq_ok_iff.mpr ⟨List.cons_ne_nil m ms, rfl, rfl, rfl⟩⟩

/-- A text with a colon in it can be a name. -/
theorem exists_ofText_of_colon (kind : IdentKind) {s : String} (h : ':' ∈ s.toList) :
    ∃ a : Ident kind, Ident.ofText s = .ok a := by
  refine Ident.exists_ofText_iff.mpr ?_
  rw [Text.isBlank, List.all_eq_false]
  exact ⟨':', h, by decide⟩

/-- Computed cash is a whole number of cents. -/
theorem cents_of_cash {field : String} {x : Option Decimal} {a : Decimal}
    (h : cash field x = .ok a) (hpositive : 0 < a.value) :
    ∃ n : Nat, 0 < n ∧ a.value = (n : ℚ) / 100 := by
  obtain ⟨z, -, rfl⟩ := cash_eq_ok_iff.mp h
  rw [value_roundTo, rounded] at hpositive ⊢
  have hcents : 0 < halfEven (z.value * tenTo cashPlaces) := by
    rwa [div_pos_iff_of_pos_right (cast_tenTo_pos _), Int.cast_pos] at hpositive
  obtain ⟨n, hn⟩ := Int.eq_ofNat_of_zero_le hcents.le
  rw [hn] at hcents ⊢
  refine ⟨n, by exact_mod_cast hcents, ?_⟩
  norm_num [cashPlaces, tenTo]

end Instrument

/-- The sides of a move: where it comes from and where it goes. -/
def Move.ends (m : Move) : AccountId × AccountId := (m.source, m.destination)

namespace Event

/-! ## What is checked -/

/-- The amounts that were given for an event.  A settlement of zero is none. -/
def amounts : Event → List Decimal
  | .equity t => [t.shares, t.price]
  | .fx d => [d.sellAmount, d.rate]
  | .premium p => [p.notional, p.spread, p.accrualFraction]
  | .post t => [t.amount]
  | .giveBack t => [t.amount]
  | .opening t => [t.contracts, t.premium]
  | .exercise e => e.contracts :: if e.settlementAmount.isZero then [] else [e.settlementAmount]

/-- The cash that is computed for it, in cents, and its currency. -/
def computed : Event → List (UnitId × Except BuildError Decimal)
  | .equity t => [(t.currency, t.consideration)]
  | .fx d => [(d.buyCurrency, d.buyAmount)]
  | .premium p => [(p.currency, p.premium)]
  | _ => []

/-- Its legs, each from one account to another.  An exercise has a cash leg also where nothing is
    owed. -/
def legs : Event → List (AccountId × AccountId)
  | .equity t => [(t.sellerSecurities, t.buyerSecurities), (t.buyerCash, t.sellerCash)]
  | .fx d => [(d.party, d.counterparty), (d.counterparty, d.party)]
  | .premium p => [(p.buyer, p.seller)]
  | .post t => [(t.owner, t.collateral)]
  | .giveBack t => [(t.collateral, t.owner)]
  | .opening t => [(t.issuance, t.holderPosition), (t.holderCash, t.writerCash)]
  | .exercise e => [(e.holderPosition, e.issuance), (e.writerCash, e.holderCash)]

/-- The legs along which something moves. -/
def moved : Event → List (AccountId × AccountId)
  | .exercise e =>
    if e.settlementAmount.isZero then [(e.holderPosition, e.issuance)]
    else (Event.exercise e).legs
  | e => e.legs

/-- The two currencies of a deal, which must be different. -/
def currencies : Event → List (UnitId × UnitId)
  | .fx d => [(d.sellCurrency, d.buyCurrency)]
  | _ => []

/-- Nothing is wrong with an event. -/
structure Acceptable (e : Event) : Prop where
  amounts : ∀ x ∈ e.amounts, 0 < x.value
  /-- Cash can be computed, and is not rounded to nothing. -/
  computed : ∀ c ∈ e.computed, ∃ a, c.2 = .ok a ∧ 0 < a.value
  sides : ∀ l ∈ e.legs, l.1 ≠ l.2
  currencies : ∀ c ∈ e.currencies, c.1 ≠ c.2
  reference : ∀ r ∈ e.given, Text.isBlank r = false

/-! ## The builders

  For each kind of event there are two statements: what was built comes from an acceptable event
  (`built_`), and of an acceptable event a transaction is built (`exists_`).  Both go down the chain
  of the builder step by step, the first taking the chain apart and the second putting it
  together.  The two kinds of collateral share theirs, and only an exercise has a step that may add
  a move or not. -/

/-- A name was made for a reference that is not blank. -/
theorem given_of_id {e : Event} {i : TransactionId} (h : e.id = .ok i) :
    ∀ r ∈ e.given, Text.isBlank r = false := by
  intro r hr
  unfold id at h
  rw [Option.mem_def.mp hr] at h
  dsimp only [referencedId] at h
  split at h
  · exact absurd h error_ne_ok
  · rename_i hblank
    exact Bool.eq_false_iff.mpr hblank

/-- Whatever else is wrong with an event, its name can be made if its reference is not blank. -/
theorem exists_id {e : Event} (h : ∀ r ∈ e.given, Text.isBlank r = false) :
    ∃ i, e.id = .ok i := by
  unfold id
  cases hgiven : e.given with
  | none =>
    have hcolon : ':' ∈ s!"{e.kind}:{e.contract.text}".toList := by simp [toString]
    obtain ⟨i, hi⟩ := exists_ofText_of_colon .transaction hcolon
    exact ⟨i, mapError_eq_ok.mpr hi⟩
  | some r =>
    have hcolon : ':' ∈ s!"{e.kind}:{e.contract.text}:{Text.trimmed r}".toList := by
      simp [toString]
    obtain ⟨i, hi⟩ := exists_ofText_of_colon .transaction hcolon
    refine ⟨i, ?_⟩
    dsimp only [referencedId]
    rw [h r hgiven, if_neg Bool.false_ne_true]
    exact mapError_eq_ok.mpr hi

/-- The token of a contract can always be named, since its name begins with a word of its own. -/
theorem exists_token (c : ContractId) : ∃ u, swaptionToken c = .ok u := by
  have hcolon : ':' ∈ s!"SWAPTION:{c.text}".toList := by simp [toString]
  obtain ⟨u, hu⟩ := exists_ofText_of_colon .unit hcolon
  exact ⟨u, mapError_eq_ok.mpr hu⟩

/-- The transaction that a builder has made of an event. -/
structure Built (e : Event) (t : Transaction) : Prop where
  acceptable : e.Acceptable
  ends : t.moves.map Move.ends = e.moved
  /-- Computed cash goes along the last leg. -/
  paid : ∀ c ∈ e.computed, ∃ a m, c.2 = .ok a ∧ t.moves.getLast? = some m ∧ m.unit = c.1 ∧
    m.quantity.value = a.normalize

/-- The last two steps of every builder: the transaction has the moves that were made for it. -/
theorem moves_of_named {i : Except BuildError TransactionId} {time : Instant} {moves : List Move}
    {t : Transaction} (h : (i >>= fun i => transaction i time moves) = .ok t) :
    t.moves = moves := by
  obtain ⟨i, -, htransaction⟩ := bind_eq_ok.mp h
  exact (transaction_eq_ok_iff.mp htransaction).2.2.2

theorem forall_mem_pair {α : Type} {P : α → Prop} {a b : α} :
    (∀ x ∈ [a, b], P x) ↔ P a ∧ P b := by
  rw [List.forall_mem_cons, List.forall_mem_singleton]

/-- An exercise owes nothing, or an amount above zero. -/
theorem settlement_eq_ok_iff {e : SwaptionExercise} {ms : List Move} :
    e.settlement = .ok ms ↔ (e.settlementAmount.isZero = true ∧ ms = []) ∨
      (e.settlementAmount.isZero = false ∧ ∃ q,
        positive "settlement_amount" e.settlementAmount = .ok q ∧
        ms = [⟨e.writerCash, e.holderCash, e.settlementCurrency, q, e.contract⟩]) := by
  unfold SwaptionExercise.settlement
  cases hzero : e.settlementAmount.isZero with
  | true =>
    rw [if_pos rfl, and_iff_right rfl, or_iff_left fun h => nomatch h.1]
    exact ⟨fun h => (Except.ok.inj h).symm, fun h => h ▸ rfl⟩
  | false =>
    rw [if_neg Bool.false_ne_true, and_iff_right rfl, or_iff_right fun h => nomatch h.1]
    refine bind_eq_ok.trans (exists_congr fun q => and_congr_right fun _ => ?_)
    exact ⟨fun h => (Except.ok.inj h).symm, fun h => h ▸ rfl⟩

section Builders

variable {x : Transaction}

/-- A trade: two amounts that were given, one that is computed, and two pairs of accounts. -/
theorem built_equity {t : EquityTrade} (hbuild : (Event.equity t).build = .ok x) :
    (Event.equity t).Built x := by
  obtain ⟨shares, hshares, h⟩ := bind_eq_ok.mp hbuild
  obtain ⟨price, hprice, h⟩ := bind_eq_ok.mp h
  obtain ⟨due, hdue, h⟩ := bind_eq_ok.mp h
  obtain ⟨paid, hpaid, h⟩ := bind_eq_ok.mp h
  obtain ⟨_, hsecurities, h⟩ := bind_eq_ok.mp h
  obtain ⟨_, hcash, h⟩ := bind_eq_ok.mp h
  have hmoves := moves_of_named h
  rw [positive_eq_ok_iff] at hshares hprice hpaid
  rw [distinct_eq_ok_iff] at hsecurities hcash
  refine ⟨⟨?_, ?_, ?_, List.forall_mem_nil _, given_of_id (build_id hbuild)⟩,
    by rw [hmoves]; rfl, ?_⟩
  · exact forall_mem_pair.mpr ⟨hshares.1, hprice.1⟩
  · exact List.forall_mem_singleton.mpr ⟨due, hdue, hpaid.1⟩
  · exact forall_mem_pair.mpr ⟨hsecurities, hcash⟩
  · exact List.forall_mem_singleton.mpr ⟨due, _, hdue, by rw [hmoves]; rfl, rfl, hpaid.2⟩

theorem exists_equity {t : EquityTrade} (h : (Event.equity t).Acceptable) :
    ∃ x, (Event.equity t).build = .ok x := by
  obtain ⟨hshares, hprice⟩ := forall_mem_pair.mp h.amounts
  obtain ⟨hsecurities, hcash⟩ := forall_mem_pair.mp h.sides
  obtain ⟨due, hdue, hpaid⟩ := List.forall_mem_singleton.mp h.computed
  obtain ⟨shares, hshares⟩ := exists_positive "shares" hshares
  obtain ⟨price, hprice⟩ := exists_positive "price" hprice
  obtain ⟨paid, hpaid⟩ := exists_positive "consideration" hpaid
  obtain ⟨i, hi⟩ := exists_id h.reference
  obtain ⟨x, hx⟩ := exists_transaction i t.settlementTime
    ⟨t.sellerSecurities, t.buyerSecurities, t.security, shares, t.trade⟩
    [⟨t.buyerCash, t.sellerCash, t.currency, paid, t.trade⟩]
  refine ⟨x, bind_eq_ok.mpr ⟨shares, hshares, ?_⟩⟩
  refine bind_eq_ok.mpr ⟨price, hprice, ?_⟩
  refine bind_eq_ok.mpr ⟨due, hdue, ?_⟩
  refine bind_eq_ok.mpr ⟨paid, hpaid, ?_⟩
  refine bind_eq_ok.mpr ⟨(), distinct_eq_ok_iff.mpr hsecurities, ?_⟩
  refine bind_eq_ok.mpr ⟨(), distinct_eq_ok_iff.mpr hcash, ?_⟩
  exact bind_eq_ok.mpr ⟨i, hi, hx⟩

/-- A deal: the currencies are checked before anything else, and the two legs go between the same
    two parties, so that one check stands for both. -/
theorem built_fx {d : FxSpot} (hbuild : (Event.fx d).build = .ok x) : (Event.fx d).Built x := by
  have h := hbuild
  simp only [build, FxSpot.settle] at h
  split at h
  · exact absurd h error_ne_ok
  · rename_i hcurrencies
    obtain ⟨sold, hsold, h⟩ := bind_eq_ok.mp h
    obtain ⟨rate, hrate, h⟩ := bind_eq_ok.mp h
    obtain ⟨due, hdue, h⟩ := bind_eq_ok.mp h
    obtain ⟨bought, hbought, h⟩ := bind_eq_ok.mp h
    obtain ⟨_, hparties, h⟩ := bind_eq_ok.mp h
    have hmoves := moves_of_named h
    rw [positive_eq_ok_iff] at hsold hrate hbought
    rw [distinct_eq_ok_iff] at hparties
    refine ⟨⟨?_, ?_, ?_, ?_, given_of_id (build_id hbuild)⟩, by rw [hmoves]; rfl, ?_⟩
    · exact forall_mem_pair.mpr ⟨hsold.1, hrate.1⟩
    · exact List.forall_mem_singleton.mpr ⟨due, hdue, hbought.1⟩
    · exact forall_mem_pair.mpr ⟨hparties, hparties.symm⟩
    · exact List.forall_mem_singleton.mpr hcurrencies
    · exact List.forall_mem_singleton.mpr ⟨due, _, hdue, by rw [hmoves]; rfl, rfl, hbought.2⟩

theorem exists_fx {d : FxSpot} (h : (Event.fx d).Acceptable) :
    ∃ x, (Event.fx d).build = .ok x := by
  have hcurrencies := List.forall_mem_singleton.mp h.currencies
  obtain ⟨hsold, hrate⟩ := forall_mem_pair.mp h.amounts
  obtain ⟨hparties, -⟩ := forall_mem_pair.mp h.sides
  obtain ⟨due, hdue, hbought⟩ := List.forall_mem_singleton.mp h.computed
  obtain ⟨sold, hsold⟩ := exists_positive "sell_amount" hsold
  obtain ⟨rate, hrate⟩ := exists_positive "rate" hrate
  obtain ⟨bought, hbought⟩ := exists_positive "buy_amount" hbought
  obtain ⟨i, hi⟩ := exists_id h.reference
  obtain ⟨x, hx⟩ := exists_transaction i d.valueTime
    ⟨d.party, d.counterparty, d.sellCurrency, sold, d.deal⟩
    [⟨d.counterparty, d.party, d.buyCurrency, bought, d.deal⟩]
  refine ⟨x, ?_⟩
  simp only [build, FxSpot.settle]
  rw [if_neg hcurrencies]
  refine bind_eq_ok.mpr ⟨sold, hsold, ?_⟩
  refine bind_eq_ok.mpr ⟨rate, hrate, ?_⟩
  refine bind_eq_ok.mpr ⟨due, hdue, ?_⟩
  refine bind_eq_ok.mpr ⟨bought, hbought, ?_⟩
  refine bind_eq_ok.mpr ⟨(), distinct_eq_ok_iff.mpr hparties, ?_⟩
  exact bind_eq_ok.mpr ⟨i, hi, hx⟩

/-- A premium: three amounts that were given, and one leg along which the computed cash goes. -/
theorem built_premium {p : PremiumPayment} (hbuild : (Event.premium p).build = .ok x) :
    (Event.premium p).Built x := by
  obtain ⟨notional, hnotional, h⟩ := bind_eq_ok.mp hbuild
  obtain ⟨spread, hspread, h⟩ := bind_eq_ok.mp h
  obtain ⟨fraction, hfraction, h⟩ := bind_eq_ok.mp h
  obtain ⟨due, hdue, h⟩ := bind_eq_ok.mp h
  obtain ⟨paid, hpaid, h⟩ := bind_eq_ok.mp h
  obtain ⟨_, hparties, h⟩ := bind_eq_ok.mp h
  have hmoves := moves_of_named h
  rw [positive_eq_ok_iff] at hnotional hspread hfraction hpaid
  rw [distinct_eq_ok_iff] at hparties
  refine ⟨⟨?_, ?_, ?_, List.forall_mem_nil _, given_of_id (build_id hbuild)⟩,
    by rw [hmoves]; rfl, ?_⟩
  · exact List.forall_mem_cons.mpr
      ⟨hnotional.1, forall_mem_pair.mpr ⟨hspread.1, hfraction.1⟩⟩
  · exact List.forall_mem_singleton.mpr ⟨due, hdue, hpaid.1⟩
  · exact List.forall_mem_singleton.mpr hparties
  · exact List.forall_mem_singleton.mpr ⟨due, _, hdue, by rw [hmoves]; rfl, rfl, hpaid.2⟩

theorem exists_premium {p : PremiumPayment} (h : (Event.premium p).Acceptable) :
    ∃ x, (Event.premium p).build = .ok x := by
  obtain ⟨hnotional, hrest⟩ := List.forall_mem_cons.mp h.amounts
  obtain ⟨hspread, hfraction⟩ := forall_mem_pair.mp hrest
  have hparties := List.forall_mem_singleton.mp h.sides
  obtain ⟨due, hdue, hpaid⟩ := List.forall_mem_singleton.mp h.computed
  obtain ⟨notional, hnotional⟩ := exists_positive "notional" hnotional
  obtain ⟨spread, hspread⟩ := exists_positive "spread" hspread
  obtain ⟨fraction, hfraction⟩ := exists_positive "accrual_fraction" hfraction
  obtain ⟨paid, hpaid⟩ := exists_positive "premium" hpaid
  obtain ⟨i, hi⟩ := exists_id h.reference
  obtain ⟨x, hx⟩ := exists_transaction i p.paymentTime
    ⟨p.buyer, p.seller, p.currency, paid, p.contract⟩ []
  refine ⟨x, bind_eq_ok.mpr ⟨notional, hnotional, ?_⟩⟩
  refine bind_eq_ok.mpr ⟨spread, hspread, ?_⟩
  refine bind_eq_ok.mpr ⟨fraction, hfraction, ?_⟩
  refine bind_eq_ok.mpr ⟨due, hdue, ?_⟩
  refine bind_eq_ok.mpr ⟨paid, hpaid, ?_⟩
  refine bind_eq_ok.mpr ⟨(), distinct_eq_ok_iff.mpr hparties, ?_⟩
  exact bind_eq_ok.mpr ⟨i, hi, hx⟩

/-- A posting and a return differ in their name and in their direction only. -/
theorem moves_of_transfer {c : CollateralTransfer} {word : String}
    {source destination : AccountId} (h : c.moved word source destination = .ok x) :
    0 < c.amount.value ∧ c.owner ≠ c.collateral ∧
      x.moves.map Move.ends = [(source, destination)] := by
  obtain ⟨amount, hamount, h⟩ := bind_eq_ok.mp h
  obtain ⟨_, hsides, h⟩ := bind_eq_ok.mp h
  rw [moves_of_named h]
  exact ⟨(positive_eq_ok_iff.mp hamount).1, distinct_eq_ok_iff.mp hsides, rfl⟩

/-- A transfer of collateral is built along any two accounts that belong to it, if its amount is
    above zero, its two accounts are two, and its name can be made. -/
theorem exists_transfer {c : CollateralTransfer} {word : String} {i : TransactionId}
    (source destination : AccountId) (hamount : 0 < c.amount.value) (hsides : c.owner ≠ c.collateral)
    (hi : referencedId word c.agreement c.reference = .ok i) :
    ∃ x, c.moved word source destination = .ok x := by
  obtain ⟨amount, hamount⟩ := exists_positive "amount" hamount
  obtain ⟨x, hx⟩ := exists_transaction i c.time ⟨source, destination, c.unit, amount, c.agreement⟩ []
  refine ⟨x, bind_eq_ok.mpr ⟨amount, hamount, ?_⟩⟩
  refine bind_eq_ok.mpr ⟨(), distinct_eq_ok_iff.mpr hsides, ?_⟩
  exact bind_eq_ok.mpr ⟨i, hi, hx⟩

/-- An opening: the token goes one way and the premium the other. -/
theorem built_opening {t : SwaptionOpen} (hbuild : (Event.opening t).build = .ok x) :
    (Event.opening t).Built x := by
  obtain ⟨contracts, hcontracts, h⟩ := bind_eq_ok.mp hbuild
  obtain ⟨premium, hpremium, h⟩ := bind_eq_ok.mp h
  obtain ⟨_, hposition, h⟩ := bind_eq_ok.mp h
  obtain ⟨_, hcash, h⟩ := bind_eq_ok.mp h
  obtain ⟨token, -, h⟩ := bind_eq_ok.mp h
  have hmoves := moves_of_named h
  rw [positive_eq_ok_iff] at hcontracts hpremium
  rw [distinct_eq_ok_iff] at hposition hcash
  refine ⟨⟨?_, List.forall_mem_nil _, ?_, List.forall_mem_nil _, nofun⟩, by rw [hmoves]; rfl,
    List.forall_mem_nil _⟩
  · exact forall_mem_pair.mpr ⟨hcontracts.1, hpremium.1⟩
  · exact forall_mem_pair.mpr ⟨hposition, hcash⟩

theorem exists_opening {t : SwaptionOpen} (h : (Event.opening t).Acceptable) :
    ∃ x, (Event.opening t).build = .ok x := by
  obtain ⟨hcontracts, hpremium⟩ := forall_mem_pair.mp h.amounts
  obtain ⟨hposition, hcash⟩ := forall_mem_pair.mp h.sides
  obtain ⟨contracts, hcontracts⟩ := exists_positive "contracts" hcontracts
  obtain ⟨premium, hpremium⟩ := exists_positive "premium" hpremium
  obtain ⟨token, htoken⟩ := exists_token t.contract
  obtain ⟨i, hi⟩ := exists_id h.reference
  obtain ⟨x, hx⟩ := exists_transaction i t.tradeTime
    ⟨t.issuance, t.holderPosition, token, contracts, t.contract⟩
    [⟨t.holderCash, t.writerCash, t.premiumCurrency, premium, t.contract⟩]
  refine ⟨x, bind_eq_ok.mpr ⟨contracts, hcontracts, ?_⟩⟩
  refine bind_eq_ok.mpr ⟨premium, hpremium, ?_⟩
  refine bind_eq_ok.mpr ⟨(), distinct_eq_ok_iff.mpr hposition, ?_⟩
  refine bind_eq_ok.mpr ⟨(), distinct_eq_ok_iff.mpr hcash, ?_⟩
  refine bind_eq_ok.mpr ⟨token, htoken, ?_⟩
  exact bind_eq_ok.mpr ⟨i, hi, hx⟩

/-- An exercise: the token goes back, and what is owed goes with it.  Only here does a builder leave
    a move out. -/
theorem built_exercise {e : SwaptionExercise} (hbuild : (Event.exercise e).build = .ok x) :
    (Event.exercise e).Built x := by
  obtain ⟨contracts, hcontracts, h⟩ := bind_eq_ok.mp hbuild
  split at h
  · exact absurd h error_ne_ok
  · obtain ⟨_, hposition, h⟩ := bind_eq_ok.mp h
    obtain ⟨_, hcash, h⟩ := bind_eq_ok.mp h
    obtain ⟨token, -, h⟩ := bind_eq_ok.mp h
    obtain ⟨owed, howed, h⟩ := bind_eq_ok.mp h
    have hmoves := moves_of_named h
    rw [positive_eq_ok_iff] at hcontracts
    rw [distinct_eq_ok_iff] at hposition hcash
    have hsides : ∀ l ∈ (Event.exercise e).legs, l.1 ≠ l.2 :=
      forall_mem_pair.mpr ⟨hposition, hcash⟩
    -- the second move is there exactly if something is owed
    rcases settlement_eq_ok_iff.mp howed with ⟨hzero, rfl⟩ | ⟨hzero, q, hq, rfl⟩
    · refine ⟨⟨?_, List.forall_mem_nil _, hsides, List.forall_mem_nil _, nofun⟩, ?_,
        List.forall_mem_nil _⟩
      · rw [amounts, if_pos hzero]
        exact List.forall_mem_singleton.mpr hcontracts.1
      · rw [hmoves, moved, if_pos hzero]
        rfl
    · have howes : ¬e.settlementAmount.isZero = true := Bool.eq_false_iff.mp hzero
      refine ⟨⟨?_, List.forall_mem_nil _, hsides, List.forall_mem_nil _, nofun⟩, ?_,
        List.forall_mem_nil _⟩
      · rw [amounts, if_neg howes]
        exact forall_mem_pair.mpr ⟨hcontracts.1, (positive_eq_ok_iff.mp hq).1⟩
      · rw [hmoves, moved, if_neg howes]
        rfl

/-- What is not below zero is zero or above it, and can be settled. -/
theorem exists_settlement {e : SwaptionExercise} (h : (Event.exercise e).Acceptable) :
    e.settlementAmount.isNegative = false ∧ ∃ ms, e.settlement = .ok ms := by
  have hamounts := h.amounts
  rw [amounts] at hamounts
  cases hzero : e.settlementAmount.isZero with
  | true =>
    refine ⟨?_, [], settlement_eq_ok_iff.mpr (Or.inl ⟨hzero, rfl⟩)⟩
    rw [Bool.eq_false_iff, Ne, ← value_neg_iff, (value_eq_zero_iff _).mpr hzero]
    exact lt_irrefl 0
  | false =>
    rw [if_neg (Bool.eq_false_iff.mp hzero)] at hamounts
    have hpositive := (forall_mem_pair.mp hamounts).2
    obtain ⟨q, hq⟩ := exists_positive "settlement_amount" hpositive
    refine ⟨?_, _, settlement_eq_ok_iff.mpr (Or.inr ⟨hzero, q, hq, rfl⟩)⟩
    rw [Bool.eq_false_iff, Ne, ← value_neg_iff]
    exact hpositive.le.not_gt

theorem exists_exercise {e : SwaptionExercise} (h : (Event.exercise e).Acceptable) :
    ∃ x, (Event.exercise e).build = .ok x := by
  have hcontracts := (List.forall_mem_cons.mp h.amounts).1
  obtain ⟨hposition, hcash⟩ := forall_mem_pair.mp h.sides
  obtain ⟨contracts, hcontracts⟩ := exists_positive "contracts" hcontracts
  obtain ⟨hnegative, owed, howed⟩ := exists_settlement h
  obtain ⟨token, htoken⟩ := exists_token e.contract
  obtain ⟨i, hi⟩ := exists_id h.reference
  obtain ⟨x, hx⟩ := exists_transaction i e.exerciseTime
    ⟨e.holderPosition, e.issuance, token, contracts, e.contract⟩ owed
  refine ⟨x, bind_eq_ok.mpr ⟨contracts, hcontracts, ?_⟩⟩
  rw [hnegative, if_neg Bool.false_ne_true]
  refine bind_eq_ok.mpr ⟨(), distinct_eq_ok_iff.mpr hposition, ?_⟩
  refine bind_eq_ok.mpr ⟨(), distinct_eq_ok_iff.mpr hcash, ?_⟩
  refine bind_eq_ok.mpr ⟨token, htoken, ?_⟩
  refine bind_eq_ok.mpr ⟨owed, howed, ?_⟩
  exact bind_eq_ok.mpr ⟨i, hi, hx⟩

end Builders

/-- **What was built comes from an acceptable event**, for all kinds of events. -/
theorem built {e : Event} {x : Transaction} (h : e.build = .ok x) : e.Built x := by
  cases e with
  | equity t => exact built_equity h
  | fx d => exact built_fx h
  | premium p => exact built_premium h
  | post c =>
    obtain ⟨hamount, hsides, hends⟩ := moves_of_transfer h
    exact ⟨⟨List.forall_mem_singleton.mpr hamount, List.forall_mem_nil _,
      List.forall_mem_singleton.mpr hsides, List.forall_mem_nil _, given_of_id (build_id h)⟩, hends,
      List.forall_mem_nil _⟩
  | giveBack c =>
    obtain ⟨hamount, hsides, hends⟩ := moves_of_transfer h
    exact ⟨⟨List.forall_mem_singleton.mpr hamount, List.forall_mem_nil _,
      List.forall_mem_singleton.mpr hsides.symm, List.forall_mem_nil _, given_of_id (build_id h)⟩,
      hends, List.forall_mem_nil _⟩
  | opening t => exact built_opening h
  | exercise x => exact built_exercise h

/-- **An acceptable event is built**, for all kinds of events. -/
theorem exists_build {e : Event} (h : e.Acceptable) : ∃ x, e.build = .ok x := by
  cases e with
  | equity t => exact exists_equity h
  | fx d => exact exists_fx h
  | premium p => exact exists_premium h
  | post c =>
    have hamount := List.forall_mem_singleton.mp h.amounts
    have hsides := List.forall_mem_singleton.mp h.sides
    obtain ⟨i, hi⟩ := exists_id h.reference
    exact exists_transfer c.owner c.collateral hamount hsides hi
  | giveBack c =>
    have hamount := List.forall_mem_singleton.mp h.amounts
    have hsides := List.forall_mem_singleton.mp h.sides
    obtain ⟨i, hi⟩ := exists_id h.reference
    exact exists_transfer c.collateral c.owner hamount hsides.symm hi
  | opening t => exact exists_opening h
  | exercise x => exact exists_exercise h

end Event

/-! ## The book -/

/-- What a book answers to a new transaction whose moves are all right. -/
theorem Book.execute_of_right {b : Book} {t : Transaction} (hnew : t.id ∉ b.applied)
    (hright : ∀ m ∈ t.moves, m.IsRight b.registry) :
    (∃ b', b.execute t = .ok (.applied, b')) ∨
      ∃ p : Position, b.execute t = .error (.overflow t.id p.account p.unit) := by
  have hid := isApplied_eq_false_iff.mpr hnew
  have hfirst : firstViolation b.registry 0 t.moves = none :=
    firstViolation_eq_none_iff_isRight.mpr hright
  cases hpost : postAll t.id b.balances t.postings with
  | ok balances => exact Or.inl ⟨_, execute_applied_iff.mpr ⟨hid, hfirst, balances, hpost, rfl⟩⟩
  | error e =>
    obtain ⟨-, p, -, -, -, -, -, rfl⟩ := postAll_eq_error_iff.mp hpost
    exact Or.inr ⟨p.position, execute_error_iff.mpr ⟨hid, Or.inr ⟨hfirst, hpost⟩⟩⟩

/-! ## The result -/

namespace Event

/-- Something only moves along the legs of the event. -/
theorem moved_subset_legs (e : Event) : e.moved ⊆ e.legs := by
  intro l hl
  cases e with
  | exercise x =>
    rw [moved] at hl
    split at hl
    · rw [List.mem_singleton.mp hl]
      exact List.mem_cons_self
    · exact hl
  | _ => exact hl

/-- A transaction that a builder has made and a book can take. -/
structure Fitting (e : Event) (t : Transaction) : Prop where
  /-- The moves go along the legs, which are opposite for a trade in shares and for a deal. -/
  ends : t.moves.map Move.ends = e.moved
  sides : ∀ m ∈ t.moves, m.source ≠ m.destination
  positive : ∀ m ∈ t.moves, 0 < m.quantity.value.value
  /-- Computed cash is the last move, and a whole number of cents above zero. -/
  cash : ∀ c ∈ e.computed, ∃ (a : Decimal) (m : Move) (n : Nat), c.2 = .ok a ∧
    t.moves.getLast? = some m ∧ m.unit = c.1 ∧ m.quantity.value.value = a.value ∧ 0 < n ∧
    a.value = (n : ℚ) / 100
  /-- A book that knows the accounts, and not the name, applies it unless it overflows. -/
  taken : ∀ b : Book, (∀ l ∈ e.legs, b.registry.contains l.1 = true ∧
      b.registry.contains l.2 = true) → t.id ∉ b.applied →
    (∃ b', b.execute t = .ok (.applied, b')) ∨
      ∃ p : Position, b.execute t = .error (.overflow t.id p.account p.unit)

/-- Cash that was computed, and is above zero, is a whole number of cents. -/
theorem cents_of_computed {e : Event} {c : UnitId × Except BuildError Decimal} {a : Decimal}
    (hc : c ∈ e.computed) (ha : c.2 = .ok a) (hpositive : 0 < a.value) :
    ∃ n : Nat, 0 < n ∧ a.value = (n : ℚ) / 100 := by
  cases e with
  | equity t =>
    rw [List.mem_singleton.mp hc] at ha
    exact cents_of_cash ha hpositive
  | fx d =>
    rw [List.mem_singleton.mp hc] at ha
    exact cents_of_cash ha hpositive
  | premium p =>
    rw [List.mem_singleton.mp hc] at ha
    exact cents_of_cash ha hpositive
  | _ => exact absurd hc List.not_mem_nil

/-- What was built of an event, a book can take: its moves go along the legs, whose sides are
    different, and quantities are above zero by their type. -/
theorem Built.fitting {e : Event} {t : Transaction} (h : e.Built t) : e.Fitting t := by
  have hlegs : ∀ m ∈ t.moves, m.ends ∈ e.legs := by
    intro m hm
    exact e.moved_subset_legs (h.ends ▸ List.mem_map_of_mem hm)
  have hsides : ∀ m ∈ t.moves, m.source ≠ m.destination := fun m hm =>
    h.acceptable.sides _ (hlegs m hm)
  refine ⟨h.ends, hsides, fun m _ => (value_pos_iff _).mpr m.quantity.positive, ?_, ?_⟩
  · intro c hc
    obtain ⟨a, m, ha, hlast, hunit, hquantity⟩ := h.paid c hc
    obtain ⟨a', ha', hpositive⟩ := h.acceptable.computed c hc
    obtain rfl := Except.ok.inj (ha.symm.trans ha')
    obtain ⟨n, hn, hcents⟩ := cents_of_computed hc ha hpositive
    exact ⟨a, m, n, ha, hlast, hunit, by rw [hquantity, value_normalize], hn, hcents⟩
  · intro b hregistered hnew
    refine Book.execute_of_right hnew ?_
    intro m hm
    exact ⟨hsides m hm, (hregistered _ (hlegs m hm)).1, (hregistered _ (hlegs m hm)).2⟩

/-- **Whatever a builder accepts, a book can take**, for every event of each of the seven kinds.

    * A transaction that was built goes along the legs of its event, from one account to another and
      with quantities above zero; computed cash is a whole number of cents above zero.  A book that
      knows the accounts of the event, and not the name of the transaction, applies it or answers
      that a balance overflows.
    * A transaction is built exactly if nothing is wrong with the event.  So it is refused if an amount
      is not above zero, a settlement of zero excepted, if the cash cannot be computed or is rounded
      to nothing, if the two sides of a leg are one account or two currencies one, or if the
      reference is blank. -/
theorem accepted_exactly (e : Event) :
    (∀ t, e.build = .ok t → e.Fitting t) ∧ ((∃ t, e.build = .ok t) ↔ e.Acceptable) := by
  refine ⟨fun t h => (built h).fitting, ?_, exists_build⟩
  rintro ⟨t, h⟩
  exact (built h).acceptable

end Event
end Subledger
