/-
  AGGREGATION: what a report of few balances says, exactly.

  Balances that are whole multiples of one `10^-k`, and few enough, are added up without rounding in
  any order.  Then nothing of the way in which a report is made can be seen in it.

  1. **Sides** (`sideSum`) — what balances bring to the debits are those that are not below zero,
     and to the credits the others without their signs.
  2. **The report** (`Aggregates`) — one entry for each key that a balance goes to, in the order of
     the keys, with what its balances bring to each side; and the totals of the entries.
  3. **Nothing else** (`Aggregates.same`) — reports of which this holds for the same mapped balances,
     in whatever order, are the same in value.  The crux is that a list in strict order is known by
     its members.
  4. **The checks** (`trialBalance_cases`, `trialBalanceByUnit_cases`) — they pass, or they name the
     totals that differ, and by units the least unit whose do.
-/
import Subledger.Proofs.GeneralLedger.Entries
import Subledger.Proofs.GeneralLedger.TrialBalance
import Subledger.Proofs.Canonical

namespace Subledger

open Decimal

/-! ## Sides

  Which side a balance is booked on goes by its sign, zero being a debit. -/

/-- Is an amount one of a side?  What is not below zero is a debit, and what is below zero a
    credit. -/
def Side.takes (side : Side) (x : Decimal) : Bool :=
  match side with
  | .debit => 0 ≤ x.value
  | .credit => x.value < 0

/-- What balances bring to a side, without their signs. -/
def sideSum (side : Side) (rows : List BalanceEntry) : ℚ :=
  ((rows.filter fun e => side.takes e.balance).map fun e => |e.balance.value|).sum

/-- What rows book on a side is what they have on it. -/
theorem booked_rows (side : Side) (rows : List BalanceEntry) :
    booked side (rows.flatMap fun e => e.balance.amounts) = sideSum side rows := by
  simp only [booked_flatMap, booked_amounts]
  induction rows with
  | nil => rfl
  | cons e rows ih =>
    rw [List.map_cons, List.sum_cons, ih, sideSum, sideSum, List.filter_cons]
    cases side with
    | debit =>
      rw [Side.sign, one_mul]
      by_cases he : 0 ≤ e.balance.value
      · rw [if_pos (by simpa [Side.takes] using he), List.map_cons, List.sum_cons, max_eq_left he,
          abs_of_nonneg he]
      · rw [if_neg (by simpa [Side.takes] using he), max_eq_right (not_le.mp he).le, zero_add]
    | credit =>
      rw [Side.sign, neg_one_mul]
      by_cases he : e.balance.value < 0
      · rw [if_pos (by simpa [Side.takes] using he), List.map_cons, List.sum_cons,
          max_eq_left (neg_pos.mpr he).le, abs_of_neg he]
      · rw [if_neg (by simpa [Side.takes] using he), max_eq_right (neg_nonpos.mpr (not_lt.mp he)),
          zero_add]

/-- A sum over a side does not depend on the order. -/
theorem sideSum_perm {side : Side} {rows rows' : List BalanceEntry} (h : rows'.Perm rows) :
    sideSum side rows' = sideSum side rows :=
  ((h.filter _).map _).sum_eq

namespace GlReport

/-! ## The report

  The specification: everything that a report of given balances should be, said without the way in
  which it is made. -/

/-- Debits and credits of a report. -/
def totals (r : GlReport) : Totals := ⟨r.debits, r.credits⟩

/-- What the entries of a unit come to on a side. -/
def unitTotal (r : GlReport) (side : Side) (u : UnitId) : ℚ :=
  ((r.entries.filter fun e => e.unit == u).map fun e => (e.totals.on side).value).sum

/-- The report holds some balances exactly. -/
structure Aggregates (mappings : GlMappings) (es : List BalanceEntry) (r : GlReport) : Prop
    extends Collects mappings es r where
  exact : ∀ e ∈ r.entries, ∀ side,
    (e.totals.on side).value = sideSum side (rowsOn mappings e.key es)
  sums : ∀ side,
    (r.totals.on side).value = (r.entries.map fun e => (e.totals.on side).value).sum

variable {mappings : GlMappings} {es es' : List BalanceEntry} {r r' : GlReport} {s : Snapshot}
  {asOf : Instant}

/-! ## Nothing else

  A report that fulfils the specification is known in value by the balances.  How totals are written
  may still differ, as their scales come from the order of adding. -/

/-- A balance that goes to a key is one of a mapped account. -/
theorem rowsOn_mappedRows (k : GlKey) (es : List BalanceEntry) :
    rowsOn mappings k (mappedRows mappings es) = rowsOn mappings k es := by
  rw [rowsOn, mappedRows, List.filter_filter, rowsOn]
  refine List.filter_congr ?_
  intro e _
  rw [keyOf?]
  cases mappings.find? e.account with
  | none => rfl
  | some m => exact Bool.and_true _

/-- The rows of a key are those whose account is mapped to it, in the unit of the key. -/
theorem mem_rowsOn {k : GlKey} {e : BalanceEntry} :
    e ∈ rowsOn mappings k es ↔ e ∈ es ∧ keyOf? mappings e = some k := by
  rw [rowsOn, List.mem_filter, beq_iff_eq]

/-- The rows of each key are the same up to order. -/
theorem rowsOn_perm (h : (mappedRows mappings es').Perm (mappedRows mappings es)) (k : GlKey) :
    (rowsOn mappings k es').Perm (rowsOn mappings k es) := by
  rw [← rowsOn_mappedRows, ← rowsOn_mappedRows k es]
  exact h.filter _

/-- Each entry has one of the same value in the other report. -/
theorem Aggregates.exists_entry (h : Aggregates mappings es r) (h' : Aggregates mappings es' r')
    (hrows : (mappedRows mappings es').Perm (mappedRows mappings es)) {e : GlEntry}
    (he : e ∈ r.entries) : ∃ e' ∈ r'.entries, e'.normalize = e.normalize := by
  obtain ⟨row, hrow, hgoes⟩ := (h.keys e.key).mp ⟨e, he, rfl⟩
  have hrow' : row ∈ rowsOn mappings e.key es' :=
    (rowsOn_perm hrows e.key).symm.subset (mem_rowsOn.mpr ⟨hrow, hgoes⟩)
  obtain ⟨e', he', hkey⟩ := (h'.keys e.key).mpr ⟨row, mem_rowsOn.mp hrow'⟩
  have hvalue : ∀ side, (e'.totals.on side).value = (e.totals.on side).value := by
    intro side
    rw [h'.exact e' he', h.exact e he, hkey, sideSum_perm (rowsOn_perm hrows e.key)]
  have hdebits : e'.debits.normalize = e.debits.normalize := normalize_eq_iff.mpr (hvalue .debit)
  have hcredits : e'.credits.normalize = e.credits.normalize :=
    normalize_eq_iff.mpr (hvalue .credit)
  obtain ⟨hcode, hunit, htype⟩ := GlKey.mk.inj hkey
  refine ⟨e', he', ?_⟩
  rw [GlEntry.normalize, GlEntry.normalize, GlEntry.mk.injEq]
  exact ⟨hcode, hunit, htype, hdebits, hcredits⟩

/-- Both reports have the same entries, in value. -/
theorem Aggregates.entries_eq (h : Aggregates mappings es r) (h' : Aggregates mappings es' r')
    (hrows : (mappedRows mappings es').Perm (mappedRows mappings es)) :
    r'.entries.map GlEntry.normalize = r.entries.map GlEntry.normalize := by
  have hnodup : ∀ {es r}, Aggregates mappings es r → (r.entries.map GlEntry.normalize).Nodup := by
    intro es r h
    refine List.Nodup.of_map GlEntry.key ?_
    rw [List.map_map]
    exact h.nodup_keys
  have hordered : ∀ {es r}, Aggregates mappings es r →
      (r.entries.map GlEntry.normalize).Pairwise fun a b => compare a.key b.key = .lt :=
    fun h => List.pairwise_map.mpr h.ordered
  have hperm : (r'.entries.map GlEntry.normalize).Perm (r.entries.map GlEntry.normalize) := by
    refine (List.perm_ext_iff_of_nodup (hnodup h') (hnodup h)).mpr ?_
    intro a
    constructor
    · intro ha
      obtain ⟨e', he', rfl⟩ := List.mem_map.mp ha
      obtain ⟨e, he, heq⟩ := h'.exists_entry h hrows.symm he'
      exact List.mem_map.mpr ⟨e, he, heq⟩
    · intro ha
      obtain ⟨e, he, rfl⟩ := List.mem_map.mp ha
      obtain ⟨e', he', heq⟩ := h.exists_entry h' hrows he
      exact List.mem_map.mpr ⟨e', he', heq⟩
  -- two entries of which each comes before the other cannot be
  refine List.Perm.eq_of_pairwise ?_ (hordered h') (hordered h) hperm
  intro a b _ _ hab hba
  exact absurd hba (Std.OrientedCmp.not_lt_of_lt hab)

/-- **What is aggregated says what the report is**, in value. -/
theorem Aggregates.same (h : Aggregates mappings es r) (h' : Aggregates mappings es' r')
    (hrows : (mappedRows mappings es').Perm (mappedRows mappings es)) (hasOf : r'.asOf = r.asOf) :
    r'.same r = true := by
  have hentries := h.entries_eq h' hrows
  have hvalues : ∀ (side : Side) (r : GlReport), r.entries.map (fun e => (e.totals.on side).value)
      = (r.entries.map GlEntry.normalize).map fun e => (e.totals.on side).value := by
    intro side r
    rw [List.map_map]
    refine List.map_congr_left ?_
    intro e _
    cases side with
    | debit => exact (value_normalize e.debits).symm
    | credit => exact (value_normalize e.credits).symm
  have hsums : ∀ side, (r'.totals.on side).value = (r.totals.on side).value := by
    intro side
    rw [h'.sums, h.sums, hvalues, hentries, ← hvalues]
  rw [same_iff_normalize, normalize, normalize, GlReport.mk.injEq]
  exact ⟨hasOf, hentries, normalize_eq_iff.mpr (hsums .debit), normalize_eq_iff.mpr (hsums .credit)⟩

/-- Reports that are the same in value are written alike. -/
theorem canonicalBytes_eq_of_same (h : r'.same r = true) :
    Json.canonicalBytes r' = Json.canonicalBytes r :=
  (faithful.same_iff r' r trivial trivial).mp h

/-! ## Few balances

  The specification holds of every projection whose additions are exact. -/

/-- The entries of a unit book what they come to. -/
theorem booked_unit (side : Side) (u : UnitId) (r : GlReport) :
    booked side (bookingsFor (fun j => j == u) r.bookings) = r.unitTotal side u := by
  rw [bookings, unitTotal]
  induction r.entries with
  | nil => rfl
  | cons e entries ih =>
    rw [List.map_cons, bookingsFor_cons, booked_append, ih, List.filter_cons]
    by_cases hu : (e.unit == u) = true
    · rw [if_pos hu, if_pos hu, List.map_cons, List.sum_cons, Totals.booked_amounts]
      rfl
    · rw [if_neg hu, if_neg hu]
      exact zero_add _

/-- What balances bring to a side is not more than all of them without their signs. -/
theorem booked_postings_le (side : Side) (mappings : GlMappings) (es : List BalanceEntry) :
    booked side (bookingsFor (fun _ => true) (postings mappings es))
      ≤ ((mappedRows mappings es).map fun e => |e.balance.value|).sum := by
  have hall : booked side (bookingsFor (fun _ => true) (postings mappings es)) = _ :=
    booked_postings side (fun _ => true) es
  simp only [Bool.and_true] at hall
  rw [hall, mappedRows]
  refine List.sum_le_sum ?_
  intro e _
  cases side with
  | debit =>
    rw [Side.sign, one_mul]
    exact max_le (le_abs_self _) (abs_nonneg _)
  | credit =>
    rw [Side.sign, neg_one_mul]
    exact max_le (neg_le_abs _) (abs_nonneg _)

/-- Of few balances a report is made that holds them exactly, and the check by units finds the exact
    totals of the units. -/
theorem aggregates_of_few {k : Nat} (hk : k ≤ 28)
    (hwhole : ∀ e ∈ mappedRows mappings s.entries, e.balance.value ∈ Book.multiples k)
    (hfew : ((mappedRows mappings s.entries).map fun e => |e.balance.value|).sum * (tenTo k : ℚ)
      < (twoTo 96 : ℚ)) (asOf : Instant) :
    ∃ r t, ofSnapshot s mappings asOf = .ok r ∧ r.asOf = asOf ∧ Aggregates mappings s.entries r ∧
      r.unitTotals = .ok t ∧ (∀ u side, ((totalsAt t u).on side).value = r.unitTotal side u) ∧
      (∀ u, r.unitTotal .debit u - r.unitTotal .credit u
        = mappedBalance mappings (fun j => j == u) s.entries) ∧
      r.debits.value - r.credits.value = mappedBalance mappings (fun _ => true) s.entries := by
  have hsides : ∀ side, booked side (bookingsFor (fun _ => true) (postings mappings s.entries))
      * (tenTo k : ℚ) < (twoTo 96 : ℚ) := by
    intro side
    refine lt_of_le_of_lt (mul_le_mul_of_nonneg_right ?_ (cast_tenTo_pos k).le) hfew
    exact booked_postings_le side mappings s.entries
  obtain ⟨g, totals, t, hr, ht, hheld, htotals, hunits⟩ := groups_exact asOf hk hwhole hsides
  have hunit : ∀ side u, booked side
      (bookingsFor (fun key => key.unit == u) (postings mappings s.entries))
        = (ofGroups asOf g totals).unitTotal side u := by
    intro side u
    rw [← booked_unit, booked_bookings side (fun j => j == u), hheld]
  refine ⟨ofGroups asOf g totals, t, hr, rfl, ⟨collects_ofSnapshot hr, ?_, ?_⟩, ht, ?_, ?_, ?_⟩
  · intro e he side
    have hkey : totalsAt g e.key = e.totals := by
      rw [totalsAt, mem_entries_ofGroups.mp he]
      rfl
    rw [← hkey, ← heldOn_single, hheld, bookingsFor_postings_key, booked_rows]
  · intro side
    show (totals.on side).value = _
    have hall := hheld side fun _ => true
    rw [htotals, ← hall, heldOn, Table.sumOver, ofGroups, List.map_map]
    rfl
  · intro u side
    rw [hunits, hunit]
  · intro u
    rw [← hunit, ← hunit, ← excess_postings, excess]
  · show (totals.on .debit).value - (totals.on .credit).value = _
    rw [htotals, htotals, ← excess_postings, excess]

/-! ## The checks

  The checks compare two totals; here is what they answer, whichever way the comparison goes. -/

/-- Totals that are not below zero are compared, whatever they are. -/
theorem trialBalance_cases (hdebits : 0 ≤ r.debits.value) (hcredits : 0 ≤ r.credits.value) :
    (r.trialBalance = .ok .zero ∧ r.debits.value = r.credits.value) ∨
    (r.trialBalance = .error (.unbalanced r.debits r.credits) ∧
      r.debits.value ≠ r.credits.value) := by
  -- the difference is not more than the larger of the two, which can be held
  have hnear : ¬(twoTo 96 : ℚ) - 1 / 2 ≤ |r.debits.value - r.credits.value| := by
    have hd := abs_value_le r.debits
    have hc := abs_value_le r.credits
    rw [abs_of_nonneg hdebits] at hd
    rw [abs_of_nonneg hcredits] at hc
    have hsmall : |r.debits.value - r.credits.value| ≤ (twoTo 96 : ℚ) - 1 := by
      rw [abs_le]
      constructor <;> linarith
    linarith
  rw [trialBalance_eq, if_neg hnear]
  by_cases heq : r.debits.value = r.credits.value
  · exact Or.inl ⟨if_pos heq, heq⟩
  · exact Or.inr ⟨if_neg heq, heq⟩

/-- The check of rows passes, or it stops at the first whose totals differ. -/
theorem firstUnbalanced_cases (rows : List (UnitId × Totals)) :
    (firstUnbalanced rows = .ok () ∧ ∀ row ∈ rows, row.2.debit.value = row.2.credit.value) ∨
    ∃ before u totals after, rows = before ++ (u, totals) :: after ∧
      firstUnbalanced rows = .error (.unbalancedUnit u totals.debit totals.credit) ∧
      totals.debit.value ≠ totals.credit.value ∧
      ∀ row ∈ before, row.2.debit.value = row.2.credit.value := by
  induction rows with
  | nil => exact Or.inl ⟨rfl, List.forall_mem_nil _⟩
  | cons row rows ih =>
    obtain ⟨u, totals⟩ := row
    by_cases heq : totals.debit.value = totals.credit.value
    · have hskip : firstUnbalanced ((u, totals) :: rows) = firstUnbalanced rows := by
        rw [firstUnbalanced, if_pos (same_iff_value.mpr heq)]
      rw [hskip]
      rcases ih with ⟨hok, hrows⟩ | ⟨before, v, ts, after, rfl, herror, hne, hbefore⟩
      · exact Or.inl ⟨hok, List.forall_mem_cons.mpr ⟨heq, hrows⟩⟩
      · exact Or.inr ⟨(u, totals) :: before, v, ts, after, rfl, herror, hne,
          List.forall_mem_cons.mpr ⟨heq, hbefore⟩⟩
    · refine Or.inr ⟨[], u, totals, rows, rfl, ?_, heq, List.forall_mem_nil _⟩
      rw [firstUnbalanced, if_neg (mt same_iff_value.mp heq)]

/-- The check by units passes, or it names the least unit whose totals differ. -/
theorem trialBalanceByUnit_cases {t : Table UnitId Totals} (ht : r.unitTotals = .ok t) :
    (r.trialBalanceByUnit = .ok () ∧
      ∀ u, (totalsAt t u).debit.value = (totalsAt t u).credit.value) ∨
    ∃ u, r.trialBalanceByUnit
        = .error (.unbalancedUnit u (totalsAt t u).debit (totalsAt t u).credit) ∧
      (totalsAt t u).debit.value ≠ (totalsAt t u).credit.value ∧
      ∀ v, compare v u = .lt → (totalsAt t v).debit.value = (totalsAt t v).credit.value := by
  have hcheck : r.trialBalanceByUnit = firstUnbalanced t.rows := by
    rw [trialBalanceByUnit, ht]
    rfl
  rw [hcheck]
  rcases firstUnbalanced_cases t.rows with
    ⟨hok, hrows⟩ | ⟨before, u, totals, after, hrows, herror, hne, hbefore⟩
  · refine Or.inl ⟨hok, ?_⟩
    intro u
    rw [totalsAt]
    cases hu : t.find? u with
    | none => rfl
    | some totals => exact hrows (u, totals) (Table.mem_rows_iff.mpr hu)
  · have hrow : (u, totals) ∈ t.rows := hrows ▸ List.mem_append_right _ List.mem_cons_self
    have hu : totalsAt t u = totals := totalsAt_of_mem hrow
    refine Or.inr ⟨u, ?_, ?_, ?_⟩
    · rw [hu]
      exact herror
    · rw [hu]
      exact hne
    · intro v hv
      rw [totalsAt]
      cases hfound : t.find? v with
      | none => rfl
      | some ts =>
        -- a row of a lesser unit stands before
        have hmem : (v, ts) ∈ before ++ (u, totals) :: after :=
          hrows ▸ Table.mem_rows_iff.mpr hfound
        have hsorted := t.sorted
        rw [hrows, List.pairwise_append] at hsorted
        rcases List.mem_append.mp hmem with hfirst | hlater
        · exact hbefore _ hfirst
        · exfalso
          rcases List.mem_cons.mp hlater with heq | hbehind
          · obtain ⟨rfl, -⟩ := Prod.mk.inj heq
            exact Std.OrientedCmp.not_lt_of_lt hv hv
          · have hback : compare u v = .lt := (List.pairwise_cons.mp hsorted.2.1).1 _ hbehind
            exact Std.OrientedCmp.not_lt_of_lt hv hback

/-! ## The result

  Balances of mapped and unmapped accounts together are the balances of the unit, so what a check is
  off by is what was left out. -/

/-- The balances of a unit. -/
def unitBalance (u : UnitId) (es : List BalanceEntry) : ℚ :=
  ((es.filter fun e => e.unit == u).map fun e => e.balance.value).sum

/-- The balances of a unit whose accounts are not mapped. -/
def unmappedBalance (mappings : GlMappings) (u : UnitId) (es : List BalanceEntry) : ℚ :=
  ((es.filter fun e => (mappings.find? e.account).isNone && e.unit == u).map fun e =>
    e.balance.value).sum

/-- A unit's balances are mapped or not. -/
theorem mapped_add_unmapped (mappings : GlMappings) (u : UnitId) (es : List BalanceEntry) :
    mappedBalance mappings (fun j => j == u) es + unmappedBalance mappings u es
      = unitBalance u es := by
  rw [mappedBalance, unmappedBalance, unitBalance]
  induction es with
  | nil => exact add_zero 0
  | cons e es ih =>
    rw [List.filter_cons, List.filter_cons, List.filter_cons]
    by_cases hu : (e.unit == u) = true
    · -- a balance of the unit is on one side or on the other
      cases mappings.find? e.account with
      | none =>
        simp [hu, ← ih]
        ring
      | some m =>
        simp [hu, ← ih]
        ring
    · simpa [hu] using ih

/-- Totals that hold what balances bring are not below zero. -/
theorem Aggregates.nonneg (h : Aggregates mappings es r) (side : Side) :
    0 ≤ (r.totals.on side).value := by
  rw [h.sums]
  refine List.sum_nonneg ?_
  intro q hq
  obtain ⟨e, he, rfl⟩ := List.mem_map.mp hq
  rw [h.exact e he]
  refine List.sum_nonneg ?_
  intro q hq
  obtain ⟨row, -, rfl⟩ := List.mem_map.mp hq
  exact abs_nonneg _

/-- **A projection is an exact and complete aggregation.**  Let the balances of the mapped accounts
    be whole multiples of one `10^-k`, with `k` at most 28, and without their signs below `2^96` of
    those multiples together; in particular if all balances are.  Then a report is made, and

    * it has one entry for each code, unit and class that a balance goes to and no other, in their
      strict order, with what these balances bring to either side, and the totals of its entries;
    * neither the order of the balances nor those that are not mapped show in it;
    * the debits of a unit, less its credits, are its mapped balances, and the unmapped ones without
      their sign if all balances of the unit add up to zero;
    * the check by units passes if that is zero for each unit, and otherwise names the least unit
      for which it is not, with its totals;
    * and the check of the report passes if all mapped balances add up to zero, and otherwise names
      its totals. -/
theorem projection_aggregates {k : Nat} (hk : k ≤ 28)
    (hwhole : ∀ e ∈ mappedRows mappings s.entries, e.balance.value ∈ Book.multiples k)
    (hfew : ((mappedRows mappings s.entries).map fun e => |e.balance.value|).sum * (tenTo k : ℚ)
      < (twoTo 96 : ℚ)) (asOf : Instant) :
    ∃ r, ofSnapshot s mappings asOf = .ok r ∧ r.asOf = asOf ∧ Aggregates mappings s.entries r ∧
      (∀ s' : Snapshot,
        (mappedRows mappings s'.entries).Perm (mappedRows mappings s.entries) →
        ∃ r', ofSnapshot s' mappings asOf = .ok r' ∧ r'.same r = true ∧
          Json.canonicalBytes r' = Json.canonicalBytes r) ∧
      (∀ u, r.unitTotal .debit u - r.unitTotal .credit u
          = mappedBalance mappings (fun j => j == u) s.entries ∧
        (unitBalance u s.entries = 0 → r.unitTotal .debit u - r.unitTotal .credit u
          = -unmappedBalance mappings u s.entries)) ∧
      ((r.trialBalanceByUnit = .ok () ∧
          ∀ u, mappedBalance mappings (fun j => j == u) s.entries = 0) ∨
        ∃ u d c, r.trialBalanceByUnit = .error (.unbalancedUnit u d c) ∧
          d.value = r.unitTotal .debit u ∧ c.value = r.unitTotal .credit u ∧
          mappedBalance mappings (fun j => j == u) s.entries ≠ 0 ∧
          ∀ v, compare v u = .lt → mappedBalance mappings (fun j => j == v) s.entries = 0) ∧
      (r.debits.value - r.credits.value = mappedBalance mappings (fun _ => true) s.entries ∧
        ((r.trialBalance = .ok .zero ∧ mappedBalance mappings (fun _ => true) s.entries = 0) ∨
          (r.trialBalance = .error (.unbalanced r.debits r.credits) ∧
            mappedBalance mappings (fun _ => true) s.entries ≠ 0))) := by
  obtain ⟨r, t, hr, hasOf, hagg, ht, htotals, hunit, hall⟩ := aggregates_of_few hk hwhole hfew asOf
  have hdiff : ∀ u, (totalsAt t u).debit.value = (totalsAt t u).credit.value ↔
      mappedBalance mappings (fun j => j == u) s.entries = 0 := by
    intro u
    rw [← hunit, ← htotals, ← htotals, sub_eq_zero]
    exact Iff.rfl
  refine ⟨r, hr, hasOf, hagg, ?_, ?_, ?_, hall, ?_⟩
  · intro s' hrows
    have hwhole' : ∀ e ∈ mappedRows mappings s'.entries, e.balance.value ∈ Book.multiples k :=
      fun e he => hwhole e (hrows.subset he)
    have hfew' : ((mappedRows mappings s'.entries).map fun e => |e.balance.value|).sum
        * (tenTo k : ℚ) < (twoTo 96 : ℚ) := by
      rw [(hrows.map _).sum_eq]
      exact hfew
    obtain ⟨r', -, hr', hasOf', hagg', -⟩ := aggregates_of_few hk hwhole' hfew' asOf
    have hsame := hagg.same hagg' hrows (hasOf'.trans hasOf.symm)
    exact ⟨r', hr', hsame, canonicalBytes_eq_of_same hsame⟩
  · intro u
    refine ⟨hunit u, ?_⟩
    intro hconserved
    rw [hunit, eq_neg_iff_add_eq_zero, mapped_add_unmapped, hconserved]
  · rcases trialBalanceByUnit_cases ht with ⟨hok, heq⟩ | ⟨u, herror, hne, hleast⟩
    · exact Or.inl ⟨hok, fun u => (hdiff u).mp (heq u)⟩
    · exact Or.inr ⟨u, _, _, herror, htotals u .debit, htotals u .credit, mt (hdiff u).mpr hne,
        fun v hv => (hdiff v).mp (hleast v hv)⟩
  · rw [← hall, sub_ne_zero, sub_eq_zero]
    exact trialBalance_cases (hagg.nonneg .debit) (hagg.nonneg .credit)

end GlReport

/-! ## A sample projection

  Of three balances that add up to zero, two are mapped. -/

namespace Sample

/-- `1.700`, with two places too many. -/
def seventeenTenths : Decimal := ⟨false, 1700, 3, by decide, by decide⟩

/-- Alice has three tenths, Bob is two short, and Carol has the rest. -/
def threeRows : Snapshot :=
  ⟨2, [⟨alice, euro, threeTenths.value⟩, ⟨bob, euro, two.value.neg⟩,
    ⟨carol, euro, seventeenTenths⟩]⟩

/-- Carol is not mapped. -/
def withoutCarol : GlMappings := .ofList [(alice, ⟨"1000", .asset⟩), (bob, ⟨"1000", .asset⟩)]

theorem value_threeTenths : threeTenths.value.value = 3 / 10 := by
  show ((3 : ℤ) : ℚ) / ((10 : ℕ) : ℚ) = 3 / 10
  norm_num

theorem value_two : two.value.value = 2 := by
  show ((2 : ℤ) : ℚ) / ((1 : ℕ) : ℚ) = 2
  norm_num

end Sample

/-- What is missing of the euros is what Carol has. -/
theorem GlReport.projection_aggregates_partly_mapped :
    ∃ r, ofSnapshot Sample.threeRows Sample.withoutCarol .epoch = .ok r ∧
      r.unitTotal .debit Sample.euro - r.unitTotal .credit Sample.euro = -(17 / 10) ∧
      r.trialBalance = .error (.unbalanced r.debits r.credits) := by
  have hrows : mappedRows Sample.withoutCarol Sample.threeRows.entries
      = [⟨Sample.alice, Sample.euro, Sample.threeTenths.value⟩,
        ⟨Sample.bob, Sample.euro, Sample.two.value.neg⟩] := by decide
  have hwhole : ∀ e ∈ mappedRows Sample.withoutCarol Sample.threeRows.entries,
      e.balance.value ∈ Book.multiples 1 := by
    rw [hrows]
    simp only [List.forall_mem_cons, Book.multiples, AddSubgroup.mem_zmultiples_iff, value_neg,
      Sample.value_threeTenths, Sample.value_two]
    refine ⟨⟨3, ?_⟩, ⟨-20, ?_⟩, List.forall_mem_nil _⟩
    · norm_num [tenTo]
    · norm_num [tenTo]
  have hfew : ((mappedRows Sample.withoutCarol Sample.threeRows.entries).map fun e =>
      |e.balance.value|).sum * (tenTo 1 : ℚ) < (twoTo 96 : ℚ) := by
    rw [hrows]
    simp only [List.map_cons, List.map_nil, List.sum_cons, List.sum_nil, value_neg, abs_neg,
      Sample.value_threeTenths, Sample.value_two]
    norm_num [tenTo, twoTo]
  have hmapped : ∀ p : UnitId → Bool, p Sample.euro = true →
      mappedBalance Sample.withoutCarol p Sample.threeRows.entries = -(17 / 10) := by
    intro p hp
    have hunits : (Sample.threeRows.entries.filter fun e =>
        (Sample.withoutCarol.find? e.account).isSome && p e.unit)
          = mappedRows Sample.withoutCarol Sample.threeRows.entries := by
      refine List.filter_congr ?_
      intro e he
      have heuro : e.unit = Sample.euro := by
        revert e
        decide
      rw [heuro, hp, Bool.and_true]
    rw [mappedBalance, hunits, hrows]
    simp only [List.map_cons, List.map_nil, List.sum_cons, List.sum_nil, value_neg,
      Sample.value_threeTenths, Sample.value_two]
    norm_num
  obtain ⟨r, hr, -, -, -, hunit, -, -, hcheck⟩ :=
    projection_aggregates (k := 1) (by decide) hwhole hfew .epoch
  refine ⟨r, hr, ?_, ?_⟩
  · rw [(hunit Sample.euro).1, hmapped _ (by decide)]
  · rw [hmapped _ rfl] at hcheck
    rcases hcheck with ⟨-, hzero⟩ | ⟨herror, -⟩
    · norm_num at hzero
    · exact herror

end Subledger
