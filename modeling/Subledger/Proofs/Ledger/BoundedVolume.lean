/-
  BOUNDED VOLUME: when a book is an exact ledger.

  Additions round or overflow only if an amount has too many digits.  If all quantities are whole
  multiples of one `10^-k` and all of them together are below `2^96` such multiples, no amount that
  a book ever works out has too many digits, and the book does what a ledger with exact numbers
  does.

  1. **The flow** — `flow S ps` is what postings bring into a set `S` of positions.  All that a book
     works out is a flow: a balance is one into a single position, also in the middle of a move, and
     a partial sum of the reconciliation is one into the positions added up so far (`sum_flow`).
  2. **The crux** (`abs_flow_le`) — a flow is at most the volume, however many postings it sums up:
     of the two postings of a move, one goes out and one goes in.
  3. **The invariant** (`Tracks`) — balances track postings if each is the flow into its position.
     A posting keeps this (`Tracks.post`), so a transaction does, and so does a run.
  4. **The result** (`refines_exact_ledger`) — on bounded volume every reachable book refines the
     exact ledger of the transactions that were applied.
-/
import Subledger.Proofs.Ledger.Reconciliation

namespace Subledger.Book

open Decimal

/-! ## The flow into some positions

  A flow is a sum over postings, so it is additive in them; and it is the sum of the flows into the
  single positions. -/

/-- What postings bring into some positions. -/
def flow (S : Finset Position) (ps : List Posting) : ℚ :=
  (ps.map fun p => if p.position ∈ S then p.amount.value else 0).sum

/-- No postings, no flow. -/
theorem flow_nil (S : Finset Position) : flow S [] = 0 := rfl

theorem flow_cons (S : Finset Position) (p : Posting) (ps : List Posting) :
    flow S (p :: ps) = (if p.position ∈ S then p.amount.value else 0) + flow S ps := by
  rw [flow, List.map_cons, List.sum_cons, flow]

/-- The flow of two lists is the sum of their flows. -/
theorem flow_append (S : Finset Position) (ps qs : List Posting) :
    flow S (ps ++ qs) = flow S ps + flow S qs := by
  rw [flow, List.map_append, List.sum_append, flow, flow]

/-- The flows into single positions add up to the flow into all of them. -/
theorem sum_flow (S : Finset Position) (ps : List Posting) :
    ∑ p ∈ S, flow {p} ps = flow S ps := by
  induction ps with
  | nil => exact Finset.sum_const_zero
  | cons p ps ih =>
    simp only [flow_cons, Finset.mem_singleton]
    rw [Finset.sum_add_distrib, ih, Finset.sum_ite_eq]

/-! ## The volume

  The volume counts every move by its quantity, whichever way it goes.  It bounds every flow, since
  what a move takes from one position it gives to another. -/

/-- All quantities of some moves together. -/
def volume (ms : List Move) : ℚ := (ms.map fun m => m.quantity.value.value).sum

/-- What is moved is more than nothing. -/
theorem quantity_pos (m : Move) : 0 < m.quantity.value.value :=
  (value_pos_iff _).mpr m.quantity.positive

/-- One more move adds its quantity to the volume. -/
theorem volume_cons (m : Move) (ms : List Move) :
    volume (m :: ms) = m.quantity.value.value + volume ms := by
  rw [volume, List.map_cons, List.sum_cons, volume]

theorem quantities_nonneg (ms : List Move) :
    ∀ q ∈ ms.map fun m => m.quantity.value.value, 0 ≤ q := by
  intro q hq
  obtain ⟨m, -, rfl⟩ := List.mem_map.mp hq
  exact (quantity_pos m).le

theorem volume_nonneg (ms : List Move) : 0 ≤ volume ms := List.sum_nonneg (quantities_nonneg ms)

/-- **A flow is at most the volume**, also a flow that stops in the middle of a move. -/
theorem abs_flow_le (S : Finset Position) {ms : List Move} {ps : List Posting}
    (h : ps <+: ms.flatMap Move.postings) : |flow S ps| ≤ volume ms := by
  induction ms generalizing ps with
  | nil =>
    obtain rfl := List.prefix_nil.mp h
    exact (abs_zero (α := ℚ)).le
  | cons m ms ih =>
    have hq := quantity_pos m
    have hrest := volume_nonneg ms
    rw [volume_cons]
    -- nothing of the first move, its debit only, or both its postings and some of the rest
    rcases List.prefix_cons_iff.mp h with rfl | ⟨later, rfl, hlater⟩
    · rw [flow_nil, abs_zero]
      linarith
    rcases List.prefix_cons_iff.mp hlater with rfl | ⟨rest, rfl, hms⟩
    · rw [flow_cons, flow_nil, add_zero, value_neg, abs_le]
      split <;> constructor <;> linarith
    · have hflow := abs_le.mp (ih hms)
      rw [flow_cons, flow_cons, value_neg, abs_le]
      split <;> split <;> constructor <;> linarith

/-! ## Bounded volume

  The multiples of one power of ten are closed under addition, and those below `2^96` can be
  held.  So every flow can be. -/

/-- The whole multiples of `10^-k`. -/
def multiples (k : Nat) : AddSubgroup ℚ := AddSubgroup.zmultiples (tenTo k : ℚ)⁻¹

/-- Moves of whole multiples of one `10^-k`, and below `2^96` of those multiples together. -/
structure BoundedVolume (k : Nat) (ms : List Move) : Prop where
  places_le : k ≤ 28
  whole : ∀ m ∈ ms, m.quantity.value.value ∈ multiples k
  volume_lt : volume ms * (tenTo k : ℚ) < (twoTo 96 : ℚ)

/-- Of moves that are bounded, some are bounded too. -/
theorem BoundedVolume.of_subperm {k : Nat} {ms ms' : List Move} (h : BoundedVolume k ms)
    (hsub : ms'.Subperm ms) : BoundedVolume k ms' := by
  refine ⟨h.places_le, fun m hm => h.whole m (hsub.subset hm), lt_of_le_of_lt ?_ h.volume_lt⟩
  obtain ⟨l, hperm, hl⟩ := hsub
  have hle : volume ms' ≤ volume ms := by
    rw [volume, ← (hperm.map _).sum_eq]
    exact (hl.map _).sum_le_sum (quantities_nonneg ms)
  exact mul_le_mul_of_nonneg_right hle (cast_tenTo_pos k).le

/-- Small multiples are values of decimals. -/
theorem representable_of_multiple {k : Nat} {q : ℚ} (hk : k ≤ 28) (hq : q ∈ multiples k)
    (hlt : |q| * (tenTo k : ℚ) < (twoTo 96 : ℚ)) : Representable q := by
  obtain ⟨n, rfl⟩ := AddSubgroup.mem_zmultiples_iff.mp hq
  have hn : n • (tenTo k : ℚ)⁻¹ * (tenTo k : ℚ) = n := by
    rw [zsmul_eq_mul, inv_mul_cancel_right₀ (cast_tenTo_ne_zero k)]
  refine representable_iff.mpr ⟨n, k, ?_, hk, hn⟩
  have habs : |n • (tenTo k : ℚ)⁻¹| * (tenTo k : ℚ) = n.natAbs := by
    calc |n • (tenTo k : ℚ)⁻¹| * (tenTo k : ℚ)
        = |n • (tenTo k : ℚ)⁻¹| * |(tenTo k : ℚ)| := by rw [abs_of_pos (cast_tenTo_pos k)]
      _ = |(n : ℚ)| := by rw [← abs_mul, hn]
      _ = n.natAbs := by rw [← Int.cast_abs, Int.abs_eq_natAbs, Int.cast_natCast]
  rw [habs] at hlt
  exact_mod_cast hlt

/-- On bounded volume every flow is a whole multiple. -/
theorem BoundedVolume.flow_mem {k : Nat} {ms : List Move} (h : BoundedVolume k ms)
    (S : Finset Position) {ps : List Posting} (hps : ps <+: ms.flatMap Move.postings) :
    flow S ps ∈ multiples k := by
  refine list_sum_mem ?_
  intro q hq
  obtain ⟨p, hp, rfl⟩ := List.mem_map.mp hq
  obtain ⟨m, hm, hpm⟩ := List.mem_flatMap.mp (hps.subset hp)
  have hwhole := h.whole m hm
  have hamount : p.amount.value ∈ multiples k := by
    rcases List.mem_pair.mp hpm with rfl | rfl
    · rw [value_neg]
      exact neg_mem hwhole
    · exact hwhole
  split
  · exact hamount
  · exact zero_mem _

/-- On bounded volume every flow is small. -/
theorem BoundedVolume.flow_lt {k : Nat} {ms : List Move} (h : BoundedVolume k ms)
    (S : Finset Position) {ps : List Posting} (hps : ps <+: ms.flatMap Move.postings) :
    |flow S ps| * (tenTo k : ℚ) < (twoTo 96 : ℚ) :=
  lt_of_le_of_lt (mul_le_mul_of_nonneg_right (abs_flow_le S hps) (cast_tenTo_pos k).le) h.volume_lt

/-- On bounded volume every flow is the value of a decimal. -/
theorem BoundedVolume.representable_flow {k : Nat} {ms : List Move} (h : BoundedVolume k ms)
    (S : Finset Position) {ps : List Posting} (hps : ps <+: ms.flatMap Move.postings) :
    Representable (flow S ps) :=
  representable_of_multiple h.places_le (h.flow_mem S hps) (h.flow_lt S hps)

/-! ## Balances that track postings

  The invariant of the balances.  It holds in the middle of a transaction, too, which is why it is
  about postings and not about moves. -/

/-- Balances that are what postings brought: there is a row for each position with a posting, and
    each balance is the flow into its position. -/
structure Tracks (balances : Table Position Decimal) (ps : List Posting) : Prop where
  value : ∀ p, (balanceIn balances p).value = flow {p} ps
  row : ∀ p, (∃ x, balances.find? p = some x) ↔ ∃ x ∈ ps, x.position = p

/-- Empty balances track no postings. -/
theorem tracks_empty : Tracks .empty [] :=
  ⟨fun _ => value_zero, fun _ => iff_of_false (fun h => nomatch h) (fun h => nomatch h)⟩

/-- A posting is added in without rounding if its position can hold the exact flow. -/
theorem Tracks.post {balances : Table Position Decimal} {ps : List Posting} {p : Posting}
    (h : Tracks balances ps) (hfit : Representable (flow {p.position} (ps ++ [p]))) :
    ∃ y, (balanceIn balances p.position).add? p.amount = some y ∧
      Tracks (balances.insert p.position y) (ps ++ [p]) := by
  have hsum : flow {p.position} (ps ++ [p])
      = (balanceIn balances p.position).value + p.amount.value := by
    rw [flow_append, flow_cons, flow_nil, add_zero, if_pos (Finset.mem_singleton_self _), h.value]
  rw [hsum] at hfit
  obtain ⟨y, hy, hval⟩ := add?_exact hfit
  refine ⟨y, hy, ?_, ?_⟩
  · intro j
    by_cases hj : j = p.position
    · rw [hj, hsum, ← hval, balanceIn, Table.find?_insert_self]
      rfl
    · have hnone : flow {j} [p] = 0 := by
        rw [flow_cons, flow_nil, add_zero, if_neg]
        exact fun hmem => hj (Finset.mem_singleton.mp hmem).symm
      rw [flow_append, hnone, add_zero, ← h.value, balanceIn, Table.find?_insert_of_ne _ y hj]
      rfl
  · intro j
    simp only [List.mem_append, List.mem_singleton, or_and_right, exists_or, exists_eq_left]
    rw [← h.row]
    by_cases hj : j = p.position
    · rw [hj, Table.find?_insert_self]
      exact iff_of_true ⟨y, rfl⟩ (Or.inr rfl)
    · rw [Table.find?_insert_of_ne _ y hj]
      exact (or_iff_left (fun heq => hj heq.symm)).symm

/-- Postings are added in without rounding if all flows on the way can be held. -/
theorem Tracks.postAll {balances : Table Position Decimal} {ps qs : List Posting}
    (id : TransactionId) (h : Tracks balances ps)
    (hfit : ∀ p pre, pre <+: ps ++ qs → Representable (flow {p} pre)) :
    ∃ balances', postAll id balances qs = .ok balances' ∧ Tracks balances' (ps ++ qs) := by
  induction qs generalizing balances ps with
  | nil => exact ⟨balances, rfl, by rwa [List.append_nil]⟩
  | cons q qs ih =>
    have hsplit : ps ++ q :: qs = (ps ++ [q]) ++ qs := by rw [List.append_assoc]; rfl
    rw [hsplit] at hfit ⊢
    obtain ⟨y, hy, hone⟩ := h.post (hfit q.position _ (List.prefix_append _ _))
    obtain ⟨balances', hrest, hall⟩ := ih hone hfit
    exact ⟨balances', postAll_cons_eq_ok_iff.mpr ⟨y, hy, hrest⟩, hall⟩

/-! ## A run

  A run applies some of the submitted transactions, each once, so its volume is at most theirs. -/

/-- The moves of some transactions, in order. -/
def movesOf (ts : List Transaction) : List Move := ts.flatMap Transaction.moves

/-- The postings of the moves are those of the transactions. -/
theorem flatMap_postings (ts : List Transaction) :
    (movesOf ts).flatMap Move.postings = ts.flatMap Transaction.postings := List.flatMap_assoc

/-- No transaction is applied twice, and all were submitted. -/
theorem accepted_subperm (r : Registry) {cs done : List Call} (hdone : done <+: cs) :
    ((ofRegistry r).accepted done).Subperm (submitted cs).dedup := by
  refine List.subperm_of_subset ((nodup_accepted r done).of_map _) ?_
  intro t ht
  obtain ⟨later, rfl⟩ := hdone
  rw [List.mem_dedup, submitted_append]
  exact List.mem_append_left _ (accepted_subset_submitted _ _ ht)

/-- The same with one more transaction that is new. -/
theorem accepted_concat_subperm {r : Registry} {cs done : List Call} {t : Transaction}
    (hcs : done ++ [.execute t] <+: cs) (hnew : ((ofRegistry r).run done).isApplied t.id = false) :
    ((ofRegistry r).accepted done ++ [t]).Subperm (submitted cs).dedup := by
  have hid : t.id ∉ ((ofRegistry r).accepted done).map Transaction.id := by
    intro hmem
    rw [isApplied, applied_run, List.contains_eq_mem, decide_eq_false_iff_not] at hnew
    exact hnew (List.mem_append_left _ (List.mem_reverse.mpr hmem))
  refine List.subperm_of_subset ?_ ?_
  · rw [List.nodup_append_comm, List.singleton_append, List.nodup_cons]
    exact ⟨fun hmem => hid (List.mem_map_of_mem hmem), (nodup_accepted r done).of_map _⟩
  · intro s hs
    rcases List.mem_append.mp hs with hold | hlast
    · exact (accepted_subperm r ((List.prefix_append _ _).trans hcs)).subset hold
    · obtain ⟨later, rfl⟩ := hcs
      rw [List.mem_dedup, submitted_append, submitted_append]
      exact List.mem_append_left _ (List.mem_append_right _ hlast)

/-- On bounded volume the postings of a new transaction go through, whatever was applied before. -/
theorem Tracks.transaction {k : Nat} {balances : Table Position Decimal} {ts : List Transaction}
    {t : Transaction} (h : Tracks balances (ts.flatMap Transaction.postings))
    (hvol : BoundedVolume k (movesOf (ts ++ [t]))) :
    ∃ balances', Book.postAll t.id balances t.postings = .ok balances' ∧
      Tracks balances' ((ts ++ [t]).flatMap Transaction.postings) := by
  have happend : (ts ++ [t]).flatMap Transaction.postings
      = ts.flatMap Transaction.postings ++ t.postings := by
    rw [List.flatMap_append, List.flatMap_singleton]
  rw [happend]
  refine h.postAll t.id ?_
  intro p pre hpre
  rw [← happend, ← flatMap_postings] at hpre
  exact hvol.representable_flow {p} hpre

/-- Some of the transactions of bounded ones are bounded. -/
theorem BoundedVolume.of_subperm_transactions {k : Nat} {ts ts' : List Transaction}
    (h : BoundedVolume k (movesOf ts)) (hsub : ts'.Subperm ts) : BoundedVolume k (movesOf ts') := by
  obtain ⟨l, hperm, hl⟩ := hsub
  exact h.of_subperm ⟨movesOf l, hperm.flatMap_right _, hl.flatMap _⟩

/-- On bounded volume the balances of a reachable book track what was applied. -/
theorem tracks_run {k : Nat} (r : Registry) {cs done : List Call}
    (h : BoundedVolume k (movesOf (submitted cs).dedup)) (hdone : done <+: cs) :
    Tracks ((ofRegistry r).run done).balances
      (((ofRegistry r).accepted done).flatMap Transaction.postings) := by
  induction done using List.reverseRecOn with
  | nil => exact tracks_empty
  | append_singleton done c ih =>
    have hbefore := ih ((List.prefix_append _ _).trans hdone)
    rw [run_concat, accepted_concat]
    rcases step_cases ((ofRegistry r).run done) c with ⟨hnone, hbal, -⟩ | ⟨t, rfl, hsome, hexec⟩
    · rw [hnone, hbal, Option.toList_none, List.append_nil]
      exact hbefore
    · -- what was posted is what the exact postings lead to
      obtain ⟨hnew, -, balances, hpost, hstep⟩ := execute_applied_iff.mp hexec
      obtain ⟨balances', hpost', hafter⟩ := hbefore.transaction
        (h.of_subperm_transactions (accepted_concat_subperm hdone hnew))
      obtain rfl := Except.ok.inj (hpost.symm.trans hpost')
      rw [hsome, hstep]
      exact hafter

/-! ## The reconciliation

  A supply is a partial sum over positions of one unit, and such a sum is a flow. -/

/-- Some of the balances that track postings add up to the flow into their positions. -/
theorem Tracks.sum_rows {balances : Table Position Decimal} {ps : List Posting}
    (h : Tracks balances ps) {rows : List (Position × Decimal)}
    (hrows : rows.Sublist balances.rows) :
    (rows.map fun r => r.2.value).sum = flow (rows.map Prod.fst).toFinset ps := by
  have hnodup : (rows.map Prod.fst).Nodup := (hrows.map _).nodup balances.nodup_keys
  -- no position is in two rows, so the sum over the rows is one over their positions
  rw [← sum_flow, List.sum_toFinset _ hnodup, List.map_map]
  congr 1
  refine List.map_congr_left ?_
  intro r hr
  have hfound : balances.find? r.1 = some r.2 := Table.mem_rows_iff.mp (hrows.subset hr)
  show r.2.value = flow {r.1} ps
  rw [← h.value, balanceIn, hfound]
  rfl

/-- All balances of a unit that track the postings of some moves add up to zero. -/
theorem Tracks.supply_eq_zero {b : Book} {ms : List Move}
    (h : Tracks b.balances (ms.flatMap Move.postings)) (u : UnitId) : b.supply u = 0 := by
  rw [supply, holdings, List.map_map]
  show ((b.balances.rows.filter fun r => r.1.unit == u).map fun r => r.2.value).sum = 0
  -- every posting of the unit went to one of these rows, so their flow is that of the whole unit
  rw [h.sum_rows List.filter_sublist, ← sum_postings u ms, flow]
  congr 1
  refine List.map_congr_left ?_
  intro p hp
  rw [weight]
  congr 1
  rw [eq_iff_iff, List.mem_toFinset, List.mem_map]
  constructor
  · rintro ⟨r, hr, heq⟩
    rw [← heq]
    exact beq_iff_eq.mp (List.mem_filter.mp hr).2
  · intro hu
    obtain ⟨x, hx⟩ := (h.row p.position).mpr ⟨p, hp, rfl⟩
    exact ⟨(p.position, x),
      List.mem_filter.mpr ⟨Table.mem_rows_iff.mpr hx, beq_iff_eq.mpr hu⟩, rfl⟩

/-- On bounded volume the supply that a book finds is the exact one, which is zero. -/
theorem Tracks.totalSupply_eq_zero {k : Nat} {b : Book} {ms : List Move}
    (h : Tracks b.balances (ms.flatMap Move.postings)) (hvol : BoundedVolume k ms) (u : UnitId) :
    ∃ x, b.totalSupply u = .ok x ∧ x.value = 0 := by
  have hprefix : ∀ pre, pre <+: b.holdings u →
      Representable (zero.value + (pre.map Decimal.value).sum) := by
    intro pre hpre
    -- the first so many balances of the unit are some rows, and add up to a flow
    obtain ⟨rows, hrows, rfl⟩ := List.prefix_map_iff.mp hpre
    rw [value_zero, zero_add, List.map_map]
    show Representable (rows.map fun r => r.2.value).sum
    rw [h.sum_rows (hrows.sublist.trans List.filter_sublist)]
    exact hvol.representable_flow _ (List.prefix_refl _)
  obtain ⟨x, hx, hval⟩ := Snapshot.sumFrom_exact hprefix
  refine ⟨x, totalSupply_eq_ok_iff.mpr hx, ?_⟩
  have hsupply : ((b.holdings u).map Decimal.value).sum = 0 := h.supply_eq_zero u
  rw [hval, value_zero, zero_add, hsupply]

/-! ## The exact ledger

  The ledger that the book is compared with has rational balances, no rounding and no overflow. -/

/-- What some moves brought to a position. -/
def credits (ms : List Move) (p : Position) : ℚ :=
  (ms.map fun m => if ⟨m.destination, m.unit⟩ = p then m.quantity.value.value else 0).sum

/-- What some moves took from a position. -/
def debits (ms : List Move) (p : Position) : ℚ :=
  (ms.map fun m => if ⟨m.source, m.unit⟩ = p then m.quantity.value.value else 0).sum

/-- The flow into one position is its credits less its debits. -/
theorem flow_singleton (ms : List Move) (p : Position) :
    flow {p} (ms.flatMap Move.postings) = credits ms p - debits ms p := by
  induction ms with
  | nil => exact (sub_zero 0).symm
  | cons m ms ih =>
    rw [List.flatMap_cons, flow_append, ih, Move.postings, flow_cons, flow_cons, flow_nil,
      value_neg, credits, credits, debits, debits, List.map_cons, List.map_cons, List.sum_cons,
      List.sum_cons]
    simp only [Finset.mem_singleton]
    split <;> split <;> ring

/-- A book that shows what a ledger with exact numbers would show after these moves. -/
structure Refines (b : Book) (ms : List Move) : Prop where
  /-- Each balance, stored or not, is the credits less the debits. -/
  balance : ∀ p, (b.balance p.account p.unit).value = credits ms p - debits ms p
  /-- A balance is stored exactly if some move touched its position. -/
  row : ∀ p, (∃ x, b.balances.find? p = some x) ↔
    ∃ m ∈ ms, p = ⟨m.source, m.unit⟩ ∨ p = ⟨m.destination, m.unit⟩
  /-- The supply of every unit is found, and is zero. -/
  supply : ∀ u, ∃ x, b.totalSupply u = .ok x ∧ x.value = 0
  /-- The reconciliation passes. -/
  verified : b.verifyConservation = .ok ()

/-- Balances that track the postings of the moves are the exact ledger. -/
theorem Tracks.refines {k : Nat} {b : Book} {ms : List Move}
    (h : Tracks b.balances (ms.flatMap Move.postings)) (hvol : BoundedVolume k ms) :
    Refines b ms where
  balance p := (h.value p).trans (flow_singleton ms p)
  row p := by
    rw [h.row]
    constructor
    · rintro ⟨x, hx, rfl⟩
      obtain ⟨m, hm, hxm⟩ := List.mem_flatMap.mp hx
      refine ⟨m, hm, ?_⟩
      rcases List.mem_pair.mp hxm with rfl | rfl
      · exact Or.inl rfl
      · exact Or.inr rfl
    · rintro ⟨m, hm, rfl | rfl⟩
      · exact ⟨_, List.mem_flatMap.mpr ⟨m, hm, List.mem_cons_self⟩, rfl⟩
      · exact ⟨_, List.mem_flatMap.mpr ⟨m, hm, List.mem_cons_of_mem _ List.mem_cons_self⟩, rfl⟩
  supply u := h.totalSupply_eq_zero hvol u
  verified := verifyUnits_eq_ok_iff.mpr fun u _ => h.totalSupply_eq_zero hvol u

/-- **On bounded volume a book is an exact ledger.**  Let the quantities of all submitted moves be
    whole multiples of `10^-k` with `k` at most 28, and all of them together below `2^96` of those
    multiples, where a transaction counts once however often it is submitted.  Then no transaction
    overflows, each that is new and whose moves are right is applied, and after every call the book
    refines the exact ledger of the moves applied so far. -/
theorem refines_exact_ledger {k : Nat} (r : Registry) {cs : List Call}
    (h : BoundedVolume k (movesOf (submitted cs).dedup)) :
    (∀ done t, done ++ [.execute t] <+: cs →
      (∀ id a u, ((ofRegistry r).run done).execute t ≠ .error (.overflow id a u)) ∧
      (((ofRegistry r).run done).isApplied t.id = false →
        firstViolation ((ofRegistry r).run done).registry 0 t.moves = none →
        ∃ b, ((ofRegistry r).run done).execute t = .ok (.applied, b))) ∧
    ∀ done, done <+: cs →
      Refines ((ofRegistry r).run done) (movesOf ((ofRegistry r).accepted done)) := by
  constructor
  · intro done t hcs
    have hposts : ((ofRegistry r).run done).isApplied t.id = false →
        ∃ balances, Book.postAll t.id ((ofRegistry r).run done).balances t.postings
          = .ok balances := by
      intro hnew
      have hbefore := tracks_run r h ((List.prefix_append _ _).trans hcs)
      obtain ⟨balances, hok, -⟩ := hbefore.transaction
        (h.of_subperm_transactions (accepted_concat_subperm hcs hnew))
      exact ⟨balances, hok⟩
    refine ⟨?_, ?_⟩
    · intro id a u hover
      obtain ⟨hnew, ⟨i, v, -, heq⟩ | ⟨-, hpost⟩⟩ := execute_error_iff.mp hover
      · exact nomatch heq
      · obtain ⟨balances, hok⟩ := hposts hnew
        rw [hpost] at hok
        exact nomatch hok
    · intro hnew hright
      obtain ⟨balances, hok⟩ := hposts hnew
      exact ⟨_, execute_applied_iff.mpr ⟨hnew, hright, balances, hok, rfl⟩⟩
  · intro done hdone
    have htracks := tracks_run r h hdone
    rw [← flatMap_postings] at htracks
    exact htracks.refines (h.of_subperm_transactions (accepted_subperm r hdone))

/-- A run with a transfer that comes twice, two transfers at once, and one that is refused. -/
theorem refines_exact_ledger_ordinary :
    BoundedVolume 1 (movesOf (submitted Sample.ordinaryRun).dedup) ∧
      (ofRegistry Sample.registry).accepted Sample.ordinaryRun
        = [Sample.transfer Sample.firstId Sample.alice Sample.bob Sample.threeTenths,
          Sample.passingOn] ∧
      Refines ((ofRegistry Sample.registry).run Sample.ordinaryRun)
        (movesOf ((ofRegistry Sample.registry).accepted Sample.ordinaryRun)) := by
  have hquantities : (movesOf (submitted Sample.ordinaryRun).dedup).map Move.quantity
      = [Sample.threeTenths, Sample.threeTenths, Sample.two, Sample.two] := by decide
  have hthree : Sample.threeTenths.value.value = 3 / 10 := by
    show ((3 : ℤ) : ℚ) / ((10 : ℕ) : ℚ) = 3 / 10
    norm_num
  have htwo : Sample.two.value.value = 2 := by
    show ((2 : ℤ) : ℚ) / ((1 : ℕ) : ℚ) = 2
    norm_num
  have hten : (tenTo 1 : ℚ) = 10 := by norm_num [tenTo]
  have hbounded : BoundedVolume 1 (movesOf (submitted Sample.ordinaryRun).dedup) := by
    refine ⟨by decide, ?_, ?_⟩
    · intro m hm
      have hq := List.mem_map_of_mem (f := Move.quantity) hm
      rw [hquantities] at hq
      simp only [List.mem_cons, List.not_mem_nil, or_false, or_self_left, or_self] at hq
      apply AddSubgroup.mem_zmultiples_iff.mpr
      rcases hq with hq | hq
      · exact ⟨3, by rw [hq, hthree, hten]; norm_num⟩
      · exact ⟨20, by rw [hq, htwo, hten]; norm_num⟩
    · have hvolume : volume (movesOf (submitted Sample.ordinaryRun).dedup)
          = ((movesOf (submitted Sample.ordinaryRun).dedup).map Move.quantity
            |>.map fun q => q.value.value).sum := by
        rw [List.map_map]
        rfl
      rw [hvolume, hquantities, hten]
      simp only [List.map_cons, List.map_nil, List.sum_cons, List.sum_nil, hthree, htwo]
      norm_num [twoTo]
  exact ⟨hbounded, by decide,
    (refines_exact_ledger Sample.registry hbounded).2 _ (List.prefix_refl _)⟩

end Subledger.Book
