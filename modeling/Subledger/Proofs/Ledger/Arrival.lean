/-
  THE ORDER OF ARRIVAL: on bounded volume it does not show.

  The same transactions may come in any order, each with its moves in any order, and any of them
  again and again.  On the way the books differ: a balance has other values and other places.  In the
  end they do not, not even in a byte of a snapshot or of a report.

  1. **Arrivals** (`Arrives`) — the first submission under each name is one of the transactions,
     perhaps with its moves in another order; what comes under that name later may be anything.
  2. **The crux** (`Tracks.snapshot_eq`) — postings are added up without rounding, and a sum does not
     depend on the order.  So balances that track the same postings have the same values, and the
     same rows; a snapshot shows no more of a value than its normal form.
  3. **The step** (`Arrived.step`) — a first submission is applied, whatever came before: with what
     was applied so far it makes up some of the transactions, whose volume is bounded.
  4. **The result** (`arrival_order_does_not_show`).
-/
import Subledger.Attestation
import Subledger.Proofs.Decimal.RoundTrip
import Subledger.Proofs.GeneralLedger.TrialBalance
import Subledger.Proofs.Ledger.Erasure

namespace Subledger

/-- Transactions of one name and of the same moves, perhaps in another order. -/
structure Transaction.Rearranges (u t : Transaction) : Prop where
  name : u.id = t.id
  moves : u.moves.Perm t.moves

/-- Submissions in which some transactions arrive: under the name of each of them it comes first
    itself, perhaps rearranged, and no other name comes. -/
structure Arrives (ts us : List Transaction) : Prop where
  first : ∀ t ∈ ts, ∃ u, us.find? (fun u => u.id = t.id) = some u ∧ u.Rearranges t
  known : ∀ u ∈ us, ∃ t ∈ ts, u.id = t.id

/-- What comes first under its name is one of the transactions. -/
theorem Arrives.rearranges {ts us done : List Transaction} {u : Transaction} (h : Arrives ts us)
    (hdone : done ++ [u] <+: us) (hnew : u.id ∉ done.map Transaction.id) :
    ∃ t ∈ ts, u.Rearranges t := by
  obtain ⟨later, rfl⟩ := hdone
  obtain ⟨t, ht, hid⟩ := h.known u (List.mem_append_left _ (List.mem_append_right _ (by simp)))
  obtain ⟨v, hv, hmoves⟩ := h.first t ht
  have hearlier : done.find? (fun u => u.id = t.id) = none := by
    refine List.find?_eq_none.mpr ?_
    intro s hs heq
    exact hnew (List.mem_map.mpr ⟨s, hs, (of_decide_eq_true heq).trans hid.symm⟩)
  have hnow : (u :: later).find? (fun u => u.id = t.id) = some u :=
    List.find?_cons_of_pos (decide_eq_true hid)
  rw [List.append_assoc, List.find?_append, hearlier, List.singleton_append, hnow] at hv
  exact ⟨t, ht, Option.some.inj hv ▸ hmoves⟩

namespace Book

open Decimal

/-! ## What a snapshot shows

  A snapshot lists the balances in the order of their places, each in normal form.  So of two books
  it shows the same if the values are the same, however they are written. -/

/-- A sum of amounts does not depend on their order. -/
theorem flow_perm {ps qs : List Posting} (h : ps.Perm qs) (S : Finset Position) :
    flow S ps = flow S qs := (h.map _).sum_eq

/-- Balances that track postings track them in any order. -/
theorem Tracks.perm {balances : Table Position Decimal} {ps qs : List Posting}
    (h : Tracks balances ps) (hperm : ps.Perm qs) : Tracks balances qs where
  value p := (h.value p).trans (flow_perm hperm _)
  row p := by
    rw [h.row]
    exact exists_congr fun x => and_congr_left' hperm.mem_iff

/-- The entries of a snapshot are the balances, each in normal form. -/
theorem entries_snapshot (b : Book) : b.snapshot.entries
    = (b.balances.mapValues normalize).rows.map fun r => ⟨r.1.account, r.1.unit, r.2⟩ := by
  show b.balances.rows.map _ = (b.balances.rows.map _).map _
  rw [List.map_map]
  rfl

/-- Books that track the same postings show one snapshot. -/
theorem Tracks.snapshot_eq {b c : Book} {ps : List Posting} (hb : Tracks b.balances ps)
    (hc : Tracks c.balances ps) (hcount : b.appliedCount = c.appliedCount) :
    b.snapshot = c.snapshot := by
  have htable : b.balances.mapValues normalize = c.balances.mapValues normalize := by
    refine Table.ext_find? ?_
    intro p
    rw [Table.find?_mapValues, Table.find?_mapValues]
    have hrow := (hb.row p).trans (hc.row p).symm
    have hvalue := (hb.value p).trans (hc.value p).symm
    unfold balanceIn at hvalue
    cases hx : b.balances.find? p with
    | none =>
      cases hy : c.balances.find? p with
      | none => rfl
      | some y =>
        obtain ⟨x, hx'⟩ := hrow.mpr ⟨y, hy⟩
        exact nomatch hx.symm.trans hx'
    | some x =>
      obtain ⟨y, hy⟩ := hrow.mp ⟨x, hx⟩
      rw [hx, hy] at hvalue
      rw [hy]
      exact congrArg some (normalize_eq_iff.mpr hvalue)
  have hentries : b.snapshot.entries = c.snapshot.entries := by
    rw [entries_snapshot, entries_snapshot, htable]
  exact Snapshot.mk.injEq _ _ _ _ ▸ ⟨hcount, hentries⟩

/-! ## Rearranged transactions

  Whatever part of the transactions has arrived, its moves are some of all moves, so a bound on the
  volume of all is one for every moment. -/

/-- The moves of a list are those of its first transaction and those of the rest. -/
theorem movesOf_cons (t : Transaction) (ts : List Transaction) :
    movesOf (t :: ts) = t.moves ++ movesOf ts := List.flatMap_cons

/-- What was rearranged one by one has the same moves as a whole. -/
theorem exists_rearranged {ts us : List Transaction} (h : ∀ u ∈ us, ∃ t ∈ ts, u.Rearranges t) :
    ∃ ss, ss ⊆ ts ∧ ss.map Transaction.id = us.map Transaction.id ∧
      (movesOf us).Perm (movesOf ss) := by
  induction us with
  | nil => exact ⟨[], List.nil_subset ts, rfl, .refl _⟩
  | cons u us ih =>
    obtain ⟨⟨t, ht, hut⟩, hus⟩ := List.forall_mem_cons.mp h
    obtain ⟨ss, hsub, hids, hperm⟩ := ih hus
    refine ⟨t :: ss, List.cons_subset.mpr ⟨ht, hsub⟩, ?_, ?_⟩
    · rw [List.map_cons, List.map_cons, hut.name, hids]
    · rw [movesOf_cons, movesOf_cons]
      exact hut.moves.append hperm

/-- Of transactions that are bounded, some are bounded too, also rearranged. -/
theorem BoundedVolume.of_rearranged {k : Nat} {ts us : List Transaction}
    (hvol : BoundedVolume k (movesOf ts)) (h : ∀ u ∈ us, ∃ t ∈ ts, u.Rearranges t)
    (hus : (us.map Transaction.id).Nodup) : BoundedVolume k (movesOf us) := by
  obtain ⟨ss, hsub, hids, hperm⟩ := exists_rearranged h
  have hss : ss.Nodup := (hids ▸ hus).of_map _
  exact (hvol.of_subperm_transactions (List.subperm_of_subset hss hsub)).of_subperm hperm.subperm

/-- All transactions, rearranged, have the moves they had, and are as many. -/
theorem movesOf_perm_of_rearranged {ts us : List Transaction}
    (hdistinct : (ts.map Transaction.id).Nodup) (h : ∀ u ∈ us, ∃ t ∈ ts, u.Rearranges t)
    (hus : (us.map Transaction.id).Nodup) (hall : ∀ t ∈ ts, t.id ∈ us.map Transaction.id) :
    (movesOf us).Perm (movesOf ts) ∧ us.length = ts.length := by
  obtain ⟨ss, hsub, hids, hperm⟩ := exists_rearranged h
  have hmem : ∀ t, t ∈ ss ↔ t ∈ ts := by
    refine fun t => ⟨fun ht => hsub ht, fun ht => ?_⟩
    have hid := hall t ht
    rw [← hids] at hid
    obtain ⟨s, hs, heq⟩ := List.mem_map.mp hid
    rwa [← List.inj_on_of_nodup_map hdistinct (hsub hs) ht heq]
  have hsame : ss.Perm ts :=
    (List.perm_ext_iff_of_nodup ((hids ▸ hus).of_map _) (hdistinct.of_map _)).mpr hmem
  refine ⟨hperm.trans (hsame.flatMap_right _), ?_⟩
  have hlength := congrArg List.length hids
  rw [List.length_map, List.length_map] at hlength
  rw [← hlength, hsame.length_eq]

/-! ## The run

  A submission under a name that has come before is acknowledged and does nothing.  The first under
  each name is applied, and then only these count. -/

/-- A book of some accounts after submissions, one after the other. -/
def after (r : Registry) (us : List Transaction) : Book :=
  (ofRegistry r).run (us.map Call.execute)

/-- The submissions that were applied. -/
def taken (r : Registry) (us : List Transaction) : List Transaction :=
  (ofRegistry r).accepted (us.map Call.execute)

/-- One submission more is one step more. -/
theorem after_concat (r : Registry) (us : List Transaction) (u : Transaction) :
    after r (us ++ [u]) = (after r us).step (.execute u) := by
  rw [after, List.map_append]
  exact run_concat _ _ _

/-- What was taken grows by what the step applies. -/
theorem taken_concat (r : Registry) (us : List Transaction) (u : Transaction) :
    taken r (us ++ [u]) = taken r us ++ ((after r us).accepts (.execute u)).toList := by
  rw [taken, List.map_append]
  exact accepted_concat _ _ _

/-- The book remembers the names of what was taken, the last one first. -/
theorem applied_after (r : Registry) (us : List Transaction) :
    (after r us).applied = ((taken r us).map Transaction.id).reverse :=
  (applied_run _ _).trans (List.append_nil _)

/-- Submissions of which all were taken that came first under their names: what was taken are some
    of the transactions, rearranged, and the balances track it. -/
structure Arrived (r : Registry) (ts done : List Transaction) : Prop where
  registry : (after r done).registry = r
  rearranges : ∀ u ∈ taken r done, ∃ t ∈ ts, u.Rearranges t
  names : ∀ id, id ∈ (after r done).applied ↔ id ∈ done.map Transaction.id
  tracks : Tracks (after r done).balances ((taken r done).flatMap Transaction.postings)

/-- Before anything arrives there is nothing to say. -/
theorem arrived_nil (r : Registry) (ts : List Transaction) : Arrived r ts [] :=
  ⟨rfl, fun _ h => absurd h List.not_mem_nil, fun _ => Iff.rfl, tracks_empty⟩

/-- What comes first under its name is applied, what comes later is not. -/
theorem Arrived.step {k : Nat} {r : Registry} {ts done : List Transaction} {u : Transaction}
    (h : Arrived r ts done) (hright : ∀ m ∈ movesOf ts, violation? r m = none)
    (hvol : BoundedVolume k (movesOf ts))
    (hu : u.id ∉ done.map Transaction.id → ∃ t ∈ ts, u.Rearranges t) :
    (after r done).answer (.execute u) = .executed
        (if u.id ∈ done.map Transaction.id then .alreadyApplied else .applied) ∧
      Arrived r ts (done ++ [u]) := by
  have hnames : ∀ {id}, id ∈ (done ++ [u]).map Transaction.id ↔
      id ∈ done.map Transaction.id ∨ id = u.id := by
    intro id
    rw [List.map_append, List.mem_append, List.map_singleton, List.mem_singleton]
  by_cases hold : u.id ∈ done.map Transaction.id
  · have hanswer := answer_of_applied ((h.names u.id).mpr hold)
    have hstep : after r (done ++ [u]) = after r done := by
      rw [after_concat, step_of_not_isEffect (by rw [hanswer]; rfl)]
    have hnone : (after r done).accepts (.execute u) = none := by
      refine Option.eq_none_iff_forall_ne_some.mpr ?_
      intro t ht
      exact nomatch hanswer.symm.trans (answer_eq_applied_iff.mpr ⟨t, ht⟩)
    have htaken : taken r (done ++ [u]) = taken r done := by
      rw [taken_concat, hnone, Option.toList_none, List.append_nil]
    refine ⟨by rw [if_pos hold, hanswer], hstep ▸ h.registry, htaken ▸ h.rearranges, ?_,
      by rw [hstep, htaken]; exact h.tracks⟩
    intro id
    rw [hstep, h.names, hnames, or_iff_left_of_imp]
    rintro rfl
    exact hold
  · -- with what was taken before it makes up some of the transactions
    obtain ⟨t, ht, hut⟩ := hu hold
    have hnew : u.id ∉ (after r done).applied := fun hmem => hold ((h.names u.id).mp hmem)
    have hids : ((taken r done ++ [u]).map Transaction.id).Nodup := by
      rw [applied_after, List.mem_reverse] at hnew
      rw [List.map_append, List.map_singleton, List.nodup_append_comm, List.singleton_append]
      exact List.nodup_cons.mpr ⟨hnew, nodup_accepted r _⟩
    have hall : ∀ s ∈ taken r done ++ [u], ∃ t ∈ ts, s.Rearranges t := by
      intro s hs
      rcases List.mem_append.mp hs with hs | hs
      · exact h.rearranges s hs
      · exact ⟨t, ht, List.mem_singleton.mp hs ▸ hut⟩
    obtain ⟨balances, hpost, htracks⟩ := h.tracks.transaction (hvol.of_rearranged hall hids)
    have hmoves : firstViolation (after r done).registry 0 u.moves = none := by
      rw [firstViolation_eq_none_iff, h.registry]
      intro m hm
      exact hright m (List.mem_flatMap.mpr ⟨t, ht, hut.moves.mem_iff.mp hm⟩)
    have hisnew : (after r done).isApplied u.id = false := isApplied_eq_false_iff.mpr hnew
    have hexec := execute_applied_iff.mpr ⟨hisnew, hmoves, balances, hpost, rfl⟩
    have hstep : after r (done ++ [u])
        = { after r done with balances := balances, applied := u.id :: (after r done).applied } := by
      rw [after_concat, Book.step, hexec]
    have htaken : taken r (done ++ [u]) = taken r done ++ [u] := by
      rw [taken_concat, accepts, hexec]
      rfl
    refine ⟨by rw [if_neg hold, answer, hexec], ?_, htaken ▸ hall, ?_, ?_⟩
    · rw [hstep]
      exact h.registry
    · intro id
      rw [hstep, hnames, ← h.names]
      exact List.mem_cons.trans or_comm
    · rw [hstep, htaken]
      exact htracks

section Result

variable {k : Nat} {r : Registry} {ts us : List Transaction}

/-- At each moment of an arrival the book stands as `Arrived` says. -/
theorem arrived_of_arrives (hright : ∀ m ∈ movesOf ts, violation? r m = none)
    (hvol : BoundedVolume k (movesOf ts)) (hus : Arrives ts us) {done : List Transaction}
    (hdone : done <+: us) : Arrived r ts done := by
  induction done using List.reverseRecOn with
  | nil => exact arrived_nil r ts
  | append_singleton done u ih =>
    exact ((ih ((List.prefix_append _ _).trans hdone)).step hright hvol
      (hus.rearranges hdone)).2

/-- In the end the balances track the postings of all transactions, in the order in which these were
    listed. -/
theorem tracks_of_arrives (hdistinct : (ts.map Transaction.id).Nodup)
    (hright : ∀ m ∈ movesOf ts, violation? r m = none) (hvol : BoundedVolume k (movesOf ts))
    (hus : Arrives ts us) :
    Tracks (after r us).balances ((movesOf ts).flatMap Move.postings) ∧
      (after r us).appliedCount = ts.length := by
  have hend := arrived_of_arrives hright hvol hus (List.prefix_refl us)
  have hall : ∀ t ∈ ts, t.id ∈ (taken r us).map Transaction.id := by
    intro t ht
    obtain ⟨u, hfound, hut⟩ := hus.first t ht
    rw [← List.mem_reverse, ← applied_after, hend.names, ← hut.name]
    exact List.mem_map_of_mem (List.mem_of_find?_eq_some hfound)
  obtain ⟨hperm, hlength⟩ := movesOf_perm_of_rearranged hdistinct hend.rearranges
    (nodup_accepted r _) hall
  refine ⟨?_, ?_⟩
  · have htracks := hend.tracks
    rw [← flatMap_postings] at htracks
    exact htracks.perm (hperm.flatMap_right _)
  · rw [appliedCount, applied_after, List.length_reverse, List.length_map, hlength]

/-- **The order of arrival does not show.**  Let transactions of different names have right moves of
    whole multiples of `10^-k`, with `k` at most 28, and all their quantities together be below
    `2^96` of those multiples.  In whatever order they are submitted, with their moves in whatever
    order and with whatever coming again under their names, each is applied when it first comes and
    never again.  The snapshot in the end has the same bytes and the same hash, and so have the
    reports that are made of it, for which nothing overflows. -/
theorem arrival_order_does_not_show {vs : List Transaction}
    (hdistinct : (ts.map Transaction.id).Nodup)
    (hright : ∀ m ∈ movesOf ts, m.source ≠ m.destination ∧ r.contains m.source = true ∧
      r.contains m.destination = true)
    (hvol : BoundedVolume k (movesOf ts)) (hus : Arrives ts us) (hvs : Arrives ts vs) :
    (∀ done u, done ++ [u] <+: us → (after r done).answer (.execute u) = .executed
      (if u.id ∈ done.map Transaction.id then .alreadyApplied else .applied)) ∧
    (after r us).snapshot.applied = ts.length ∧
    Json.canonicalBytes (after r us).snapshot = Json.canonicalBytes (after r vs).snapshot ∧
    ContentHash.ofBytes (Json.canonicalBytes (after r us).snapshot)
      = ContentHash.ofBytes (Json.canonicalBytes (after r vs).snapshot) ∧
    ∀ mappings asOf, ∃ report report',
      GlReport.ofSnapshot (after r us).snapshot mappings asOf = .ok report ∧
      GlReport.ofSnapshot (after r vs).snapshot mappings asOf = .ok report' ∧
      Json.canonicalBytes report = Json.canonicalBytes report' := by
  have hvalid : ∀ m ∈ movesOf ts, violation? r m = none :=
    fun m hm => violation?_eq_none_iff.mpr (hright m hm)
  obtain ⟨htracks, hcount⟩ := tracks_of_arrives hdistinct hvalid hvol hus
  obtain ⟨htracks', hcount'⟩ := tracks_of_arrives hdistinct hvalid hvol hvs
  have hsame : (after r us).snapshot = (after r vs).snapshot :=
    htracks.snapshot_eq htracks' (hcount.trans hcount'.symm)
  refine ⟨?_, hcount, by rw [hsame], by rw [hsame], ?_⟩
  · intro done u hdone
    have hbefore := arrived_of_arrives hvalid hvol hus ((List.prefix_append _ _).trans hdone)
    exact (hbefore.step hvalid hvol (hus.rearranges hdone)).1
  · intro mappings asOf
    obtain ⟨report, -, hreport, -⟩ := GlReport.ofSnapshot_exact asOf hvol.places_le
      (htracks.whole hvol) (htracks.booked_lt hvol mappings)
    exact ⟨report, report, hreport, hsame ▸ hreport, rfl⟩

end Result

end Book

/-! ## Two orders -/

namespace Sample

/-- Three tenths from Alice to Bob, and three tenths to Bob and two from him. -/
def bobsDay : List Transaction := [transfer firstId alice bob threeTenths, passingOn]

/-- The two transfers at once, the second of them named first. -/
def passingBackwards : Transaction where
  id := secondId
  timestamp := .epoch
  moves := [⟨bob, carol, euro, two, contract⟩, ⟨alice, bob, euro, threeTenths, contract⟩]
  moves_ne := List.cons_ne_nil _ _

/-- The same day backwards, and once more something under the first name. -/
def bobsDayBackwards : List Transaction :=
  [passingBackwards, transfer firstId alice bob threeTenths, transfer firstId carol dave two,
    passingOn]

end Sample

namespace Book

/-- A day forwards and backwards.  On the way Bob has 0.3 in the one order and -1.7 in the other. -/
theorem arrival_order_does_not_show_backwards :
    (Sample.bobsDay.map Transaction.id).Nodup ∧
    (∀ m ∈ movesOf Sample.bobsDay, m.source ≠ m.destination ∧
      Sample.registry.contains m.source = true ∧
      Sample.registry.contains m.destination = true) ∧
    BoundedVolume 1 (movesOf Sample.bobsDay) ∧
    Arrives Sample.bobsDay Sample.bobsDay ∧ Arrives Sample.bobsDay Sample.bobsDayBackwards ∧
    Json.canonicalBytes (after Sample.registry Sample.bobsDay).snapshot
      = Json.canonicalBytes (after Sample.registry Sample.bobsDayBackwards).snapshot := by
  have hdistinct : (Sample.bobsDay.map Transaction.id).Nodup := by decide
  have hright : ∀ m ∈ movesOf Sample.bobsDay, m.source ≠ m.destination ∧
      Sample.registry.contains m.source = true ∧
      Sample.registry.contains m.destination = true := by decide
  have hthree : Sample.threeTenths.value.value = 3 / 10 := by
    show ((3 : ℤ) : ℚ) / ((10 : ℕ) : ℚ) = 3 / 10
    norm_num
  have htwo : Sample.two.value.value = 2 := by
    show ((2 : ℤ) : ℚ) / ((1 : ℕ) : ℚ) = 2
    norm_num
  have hten : (tenTo 1 : ℚ) = 10 := by norm_num [tenTo]
  have hvol : BoundedVolume 1 (movesOf Sample.bobsDay) := by
    refine ⟨by decide, ?_, ?_⟩
    · have hthrees : Sample.threeTenths.value.value ∈ multiples 1 :=
        AddSubgroup.mem_zmultiples_iff.mpr ⟨3, by rw [hthree, hten]; norm_num⟩
      have htwos : Sample.two.value.value ∈ multiples 1 :=
        AddSubgroup.mem_zmultiples_iff.mpr ⟨20, by rw [htwo, hten]; norm_num⟩
      intro m hm
      have hq : m.quantity = Sample.threeTenths ∨ m.quantity = Sample.two := by
        revert m
        decide
      rcases hq with hq | hq
      · rwa [hq]
      · rwa [hq]
    · show (Sample.threeTenths.value.value
        + (Sample.threeTenths.value.value + (Sample.two.value.value + 0))) * _ < _
      rw [hthree, htwo, hten]
      norm_num [twoTo]
  have hforwards : Arrives Sample.bobsDay Sample.bobsDay := by
    refine ⟨?_, fun t ht => ⟨t, ht, rfl⟩⟩
    rw [Sample.bobsDay, List.forall_mem_cons, List.forall_mem_singleton]
    exact ⟨⟨_, rfl, rfl, .refl _⟩, ⟨_, rfl, rfl, .refl _⟩⟩
  have hbackwards : Arrives Sample.bobsDay Sample.bobsDayBackwards := by
    refine ⟨?_, by decide⟩
    rw [Sample.bobsDay, List.forall_mem_cons, List.forall_mem_singleton]
    exact ⟨⟨_, rfl, rfl, .refl _⟩, ⟨Sample.passingBackwards, rfl, rfl, .swap _ _ _⟩⟩
  exact ⟨hdistinct, hright, hvol, hforwards, hbackwards,
    (arrival_order_does_not_show hdistinct hright hvol hforwards hbackwards).2.2.1⟩

end Book
end Subledger
