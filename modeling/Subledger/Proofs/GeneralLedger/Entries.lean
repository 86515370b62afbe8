/-
  ENTRIES: which balances an entry of a report is made of.

  A balance goes to one key, that of the code and the class of its account and of its own unit, or
  to none (`keyOf?`).

  1. **The entries** (`Collects`) — a report has one entry for each key that a balance goes to, and
     no other, in the strict order of the keys; and its totals are the balances that go there
     (`rowsOn`), added up in their order.
  2. **Every report is one** (`collects_ofSnapshot`) — whatever the snapshot and the mappings, and
     whether additions round or not.
-/
import Subledger.Proofs.GeneralLedger.Projection

namespace Subledger

/-- What an entry is the entry of. -/
def GlEntry.key (e : GlEntry) : GlKey := ⟨e.code, e.unit, e.type⟩

/-- Debits and credits of an entry. -/
def GlEntry.totals (e : GlEntry) : Totals := ⟨e.debits, e.credits⟩

namespace GlReport

/-- The balances that go to a key, in their order. -/
def rowsOn (mappings : GlMappings) (k : GlKey) (es : List BalanceEntry) : List BalanceEntry :=
  es.filter fun e => keyOf? mappings e == some k

/-- The entries of a report are those of some balances. -/
structure Collects (mappings : GlMappings) (es : List BalanceEntry) (r : GlReport) : Prop where
  ordered : r.entries.Pairwise fun a b => compare a.key b.key = .lt
  keys : ∀ k, (∃ e ∈ r.entries, e.key = k) ↔ ∃ row ∈ es, keyOf? mappings row = some k
  totals : ∀ e ∈ r.entries,
    Totals.zero.bookAll ((rowsOn mappings e.key es).flatMap fun row => row.balance.amounts)
      = some e.totals

variable {mappings : GlMappings} {s : Snapshot} {asOf : Instant} {r : GlReport}

/-- No two entries have one key. -/
theorem Collects.nodup_keys {es : List BalanceEntry} (h : Collects mappings es r) :
    (r.entries.map GlEntry.key).Nodup := by
  refine List.pairwise_map.mpr (h.ordered.imp ?_)
  intro a b hab heq
  rw [heq] at hab
  exact Std.OrientedCmp.not_lt_of_lt hab hab

/-- The keys that a projection books on are those that balances go to. -/
theorem mem_keys_postings {es : List BalanceEntry} {k : GlKey} :
    k ∈ (postings mappings es).map Prod.fst ↔ ∃ row ∈ es, keyOf? mappings row = some k := by
  have hkeys : (postings mappings es).map Prod.fst = es.filterMap (keyOf? mappings) := by
    rw [postings, List.map_filterMap]
    refine List.filterMap_congr ?_
    intro e _
    rw [keyOf?, Option.map_map]
    rfl
  rw [hkeys, List.mem_filterMap]

/-- What a projection books on a key are the balances that go to it. -/
theorem bookingsFor_postings_key (k : GlKey) (es : List BalanceEntry) :
    bookingsFor (fun j => j == k) (postings mappings es)
      = (rowsOn mappings k es).flatMap fun row => row.balance.amounts := by
  have hgoes : ∀ e, (keyOf? mappings e).any (fun j => j == k) = (keyOf? mappings e == some k) := by
    intro e
    cases keyOf? mappings e with
    | none => rfl
    | some j => rfl
  simp only [bookingsFor_postings_keys, hgoes, rowsOn]

theorem mem_entries_ofGroups {g : Table GlKey Totals} {totals : Totals} {e : GlEntry} :
    e ∈ (ofGroups asOf g totals).entries ↔ g.find? e.key = some e.totals := by
  rw [← Table.mem_rows_iff, ofGroups, List.mem_map]
  constructor
  · rintro ⟨⟨k, t⟩, hrow, rfl⟩
    exact hrow
  · intro hrow
    exact ⟨(e.key, e.totals), hrow, rfl⟩

/-- **The entries of a report are those of its balances.** -/
theorem collects_ofSnapshot (h : ofSnapshot s mappings asOf = .ok r) :
    Collects mappings s.entries r := by
  obtain ⟨g, totals, hg, -, rfl⟩ := ofSnapshot_eq_ok_iff.mp h
  have hkeys : ∀ k, (g.find? k).isSome = true ↔
      ∃ row ∈ s.entries, keyOf? mappings row = some k := by
    intro k
    rw [isSome_find?_bookRows hg, ← mem_keys_postings]
    exact or_iff_right (by rintro ⟨⟩)
  refine ⟨List.pairwise_map.mpr g.sorted, ?_, ?_⟩
  · intro k
    rw [← hkeys, Option.isSome_iff_exists]
    constructor
    · rintro ⟨e, he, rfl⟩
      exact ⟨e.totals, mem_entries_ofGroups.mp he⟩
    · rintro ⟨t, ht⟩
      exact ⟨⟨k.code, k.unit, k.type, t.debit, t.credit⟩, mem_entries_ofGroups.mpr ht, rfl⟩
  · intro e he
    have hbooked := bookAll_bookRows hg e.key
    rwa [bookingsFor_postings_key, totalsAt, totalsAt, mem_entries_ofGroups.mp he] at hbooked

end GlReport
end Subledger
