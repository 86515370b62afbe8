/-
  POSITIONS: what is found under a code and a unit.

  The entries of a report are told apart by code, unit and class, and looked up by code and unit.  A
  configuration may give two accounts of one code different classes; then there are several entries
  of the code and the unit, and the first of them is found.

  1. **What is found** (`Collects.entry?_first`) — the entries are in the order of their keys, so it
     is the entry of the first class, in the order of declaration, that a balance of the code and
     the unit goes to.
  2. **The whole position** (`Collects.length_entriesOf_iff`, `Collects.whole`) — there is one entry
     of a code and a unit exactly if all these balances go to one key, and then it is made of all of
     them.
  3. **Configurations** (`entry_is_position_of_one_class`) — so it is if the configuration gives the
     code one class.  That it has been checked is not enough (`entry_not_whole`).
-/
import Subledger.Proofs.Config
import Subledger.Proofs.GeneralLedger.Entries

namespace Subledger

namespace GlReport

/-! ## Balances of a code and a unit -/

/-- The balances of a unit whose accounts are mapped to a code, in their order. -/
def rowsOfCode (mappings : GlMappings) (code : String) (u : UnitId) (es : List BalanceEntry) :
    List BalanceEntry :=
  es.filter fun e => (keyOf? mappings e).any fun k => k.code == code && k.unit == u

/-- The balances of a code and a unit all go to one key. -/
def OneKey (mappings : GlMappings) (code : String) (u : UnitId) (es : List BalanceEntry) : Prop :=
  ∀ row ∈ rowsOfCode mappings code u es, ∀ row' ∈ rowsOfCode mappings code u es,
    keyOf? mappings row = keyOf? mappings row'

/-- The entries of a code and a unit, in their order. -/
def entriesOf (r : GlReport) (code : String) (u : UnitId) : List GlEntry :=
  r.entries.filter fun e => e.code == code && e.unit == u

variable {mappings : GlMappings} {es : List BalanceEntry} {r : GlReport} {code : String}
  {u : UnitId} {e : GlEntry}

theorem mem_rowsOfCode {row : BalanceEntry} : row ∈ rowsOfCode mappings code u es ↔
    row ∈ es ∧ ∃ type, keyOf? mappings row = some ⟨code, u, type⟩ := by
  rw [rowsOfCode, List.mem_filter, Option.any_eq_true]
  refine and_congr_right fun _ => ?_
  constructor
  · rintro ⟨⟨code', u', type⟩, hk, hcode⟩
    simp only [Bool.and_eq_true, beq_iff_eq] at hcode
    obtain ⟨rfl, rfl⟩ := hcode
    exact ⟨type, hk⟩
  · rintro ⟨type, hk⟩
    exact ⟨_, hk, by simp⟩

theorem mem_entriesOf : e ∈ r.entriesOf code u ↔ e ∈ r.entries ∧ e.code = code ∧ e.unit = u := by
  rw [entriesOf, List.mem_filter, Bool.and_eq_true, beq_iff_eq, beq_iff_eq]

/-- What is found is the first of them. -/
theorem entry?_eq_head? : r.entry? code u = (r.entriesOf code u).head? := by
  rw [entriesOf, List.head?_filter]
  rfl

/-- Keys of one code and one unit are ordered by class. -/
theorem compare_of_code_unit {a b : GlKey} (hcode : a.code = b.code) (hunit : a.unit = b.unit) :
    compare a b = compare a.type.rank b.type.rank := by
  show compareLex (compareOn GlKey.code) (compareLex (compareOn GlKey.unit)
    (compareOn GlKey.type)) a b = _
  rw [compareLex, compareOn, hcode, Std.ReflOrd.compare_self]
  show compareLex (compareOn GlKey.unit) (compareOn GlKey.type) a b = _
  rw [compareLex, compareOn, hunit, Std.ReflOrd.compare_self]
  rfl

namespace Collects

variable (h : Collects mappings es r)

include h

/-- The classes of the entries of a code and a unit are those that their balances go to. -/
theorem exists_type_iff {type : GlType} : (∃ e ∈ r.entriesOf code u, e.type = type) ↔
    ∃ row ∈ es, keyOf? mappings row = some ⟨code, u, type⟩ := by
  rw [← h.keys]
  constructor
  · rintro ⟨e, he, rfl⟩
    obtain ⟨hmem, rfl, rfl⟩ := mem_entriesOf.mp he
    exact ⟨e, hmem, rfl⟩
  · rintro ⟨e, he, hkey⟩
    obtain ⟨hcode, hunit, htype⟩ := GlKey.mk.inj hkey
    exact ⟨e, mem_entriesOf.mpr ⟨he, hcode, hunit⟩, htype⟩

/-- The entries of a code and a unit are in the order of their classes, each of another one. -/
theorem ordered_types (code : String) (u : UnitId) :
    (r.entriesOf code u).Pairwise fun a b => a.type.rank < b.type.rank := by
  have hkeys : (r.entriesOf code u).Pairwise fun a b => compare a.key b.key = .lt :=
    h.ordered.filter _
  refine hkeys.imp_of_mem ?_
  intro a b ha hb hab
  obtain ⟨-, hacode, haunit⟩ := mem_entriesOf.mp ha
  obtain ⟨-, hbcode, hbunit⟩ := mem_entriesOf.mp hb
  rw [compare_of_code_unit (hacode.trans hbcode.symm) (haunit.trans hbunit.symm)] at hab
  exact Nat.compare_eq_lt.mp hab

/-! ## What is found -/

/-- Nothing is found exactly if no balance goes there. -/
theorem entry?_eq_none_iff : r.entry? code u = none ↔ rowsOfCode mappings code u es = [] := by
  rw [entry?_eq_head?, List.head?_eq_none_iff, List.eq_nil_iff_forall_not_mem,
    List.eq_nil_iff_forall_not_mem]
  constructor
  · intro hnone row hrow
    obtain ⟨hmem, type, hkey⟩ := mem_rowsOfCode.mp hrow
    obtain ⟨e, he, -⟩ := h.exists_type_iff.mpr ⟨row, hmem, hkey⟩
    exact hnone e he
  · intro hnone e he
    obtain ⟨row, hrow, hkey⟩ := h.exists_type_iff.mp ⟨e, he, rfl⟩
    exact hnone row (mem_rowsOfCode.mpr ⟨hrow, e.type, hkey⟩)

/-- What is found is the entry of the first class that a balance goes to. -/
theorem entry?_first (he : r.entry? code u = some e) :
    e ∈ r.entriesOf code u ∧ ∀ row ∈ rowsOfCode mappings code u es, ∀ k,
      keyOf? mappings row = some k → e.type.rank ≤ k.type.rank := by
  rw [entry?_eq_head?, List.head?_eq_some_iff] at he
  obtain ⟨rest, hentries⟩ := he
  have hordered := h.ordered_types code u
  rw [hentries] at hordered ⊢
  refine ⟨List.mem_cons_self, ?_⟩
  intro row hrow k hk
  obtain ⟨hmem, type, hkey⟩ := mem_rowsOfCode.mp hrow
  rw [hk] at hkey
  obtain rfl := Option.some.inj hkey
  obtain ⟨e', he', rfl⟩ := h.exists_type_iff.mpr ⟨row, hmem, hk⟩
  rw [hentries] at he'
  rcases List.mem_cons.mp he' with rfl | hlater
  · exact Nat.le_refl _
  · exact ((List.pairwise_cons.mp hordered).1 e' hlater).le

/-! ## The whole position -/

/-- There is one entry of a code and a unit at most, exactly if these entries have one class. -/
theorem length_entriesOf_iff_types (code : String) (u : UnitId) :
    (r.entriesOf code u).length ≤ 1 ↔
      ∀ a ∈ r.entriesOf code u, ∀ b ∈ r.entriesOf code u, a.type = b.type := by
  have hordered := h.ordered_types code u
  rcases hentries : r.entriesOf code u with _ | ⟨a, _ | ⟨b, rest⟩⟩
  · simp
  · simp
  · -- two entries are of two classes
    rw [hentries] at hordered
    have hlt : a.type.rank < b.type.rank :=
      (List.pairwise_cons.mp hordered).1 b List.mem_cons_self
    constructor
    · intro hone
      rw [List.length_cons, List.length_cons] at hone
      omega
    · intro hsame
      rw [hsame a List.mem_cons_self b (List.mem_cons_of_mem _ List.mem_cons_self)] at hlt
      omega

/-- And so, exactly if their balances go to one key. -/
theorem length_entriesOf_iff :
    (r.entriesOf code u).length ≤ 1 ↔ OneKey mappings code u es := by
  rw [h.length_entriesOf_iff_types]
  constructor
  · intro hsame row hrow row' hrow'
    obtain ⟨hmem, type, hkey⟩ := mem_rowsOfCode.mp hrow
    obtain ⟨hmem', type', hkey'⟩ := mem_rowsOfCode.mp hrow'
    obtain ⟨e, he, rfl⟩ := h.exists_type_iff.mpr ⟨row, hmem, hkey⟩
    obtain ⟨e', he', rfl⟩ := h.exists_type_iff.mpr ⟨row', hmem', hkey'⟩
    rw [hkey, hkey', hsame e he e' he']
  · intro hone a ha b hb
    obtain ⟨row, hrow, hkey⟩ := h.exists_type_iff.mp ⟨a, ha, rfl⟩
    obtain ⟨row', hrow', hkey'⟩ := h.exists_type_iff.mp ⟨b, hb, rfl⟩
    have hsame := hone row (mem_rowsOfCode.mpr ⟨hrow, _, hkey⟩) row'
      (mem_rowsOfCode.mpr ⟨hrow', _, hkey'⟩)
    rw [hkey, hkey'] at hsame
    exact (GlKey.mk.inj (Option.some.inj hsame)).2.2

/-- If they go to one key, what is found is made of all of them. -/
theorem whole (hone : OneKey mappings code u es) (he : r.entry? code u = some e) :
    rowsOn mappings e.key es = rowsOfCode mappings code u es := by
  obtain ⟨hmem, hcode, hunit⟩ := mem_entriesOf.mp (h.entry?_first he).1
  obtain ⟨row, hrow, hkey⟩ := (h.keys e.key).mp ⟨e, hmem, rfl⟩
  have hfound : row ∈ rowsOfCode mappings code u es := by
    refine mem_rowsOfCode.mpr ⟨hrow, e.type, ?_⟩
    rw [hkey, ← hcode, ← hunit]
    rfl
  rw [rowsOn, rowsOfCode]
  refine List.filter_congr ?_
  intro row' hrow'
  rw [Bool.eq_iff_iff, beq_iff_eq]
  constructor
  · intro hkey'
    rw [hkey']
    simp [GlEntry.key, hcode, hunit]
  · intro hany
    rw [← hkey]
    exact hone row' (List.mem_filter.mpr ⟨hrow', hany⟩) row hfound

end Collects

/-! ## Configurations -/

/-- What a report says about a code and a unit. -/
structure Positions (mappings : GlMappings) (es : List BalanceEntry) (r : GlReport) (code : String)
    (u : UnitId) : Prop where
  classes : (r.entriesOf code u).Pairwise fun a b => a.type.rank < b.type.rank
  nothing : r.entry? code u = none ↔ rowsOfCode mappings code u es = []
  first : ∀ e, r.entry? code u = some e → e.code = code ∧ e.unit = u ∧
    (∃ row ∈ es, keyOf? mappings row = some e.key) ∧
    (∀ row ∈ rowsOfCode mappings code u es, ∀ k, keyOf? mappings row = some k →
      e.type.rank ≤ k.type.rank) ∧
    Totals.zero.bookAll ((rowsOn mappings e.key es).flatMap fun row => row.balance.amounts)
      = some e.totals
  single : (r.entriesOf code u).length ≤ 1 ↔ OneKey mappings code u es
  whole : OneKey mappings code u es → ∀ e, r.entry? code u = some e →
    Totals.zero.bookAll ((rowsOfCode mappings code u es).flatMap fun row => row.balance.amounts)
      = some e.totals

theorem positions_ofSnapshot {s : Snapshot} {asOf : Instant}
    (hr : ofSnapshot s mappings asOf = .ok r) (code : String) (u : UnitId) :
    Positions mappings s.entries r code u := by
  have h := collects_ofSnapshot hr
  refine ⟨h.ordered_types code u, h.entry?_eq_none_iff, ?_, h.length_entriesOf_iff, ?_⟩
  · intro e he
    obtain ⟨hmem, hfirst⟩ := h.entry?_first he
    obtain ⟨hentry, hcode, hunit⟩ := mem_entriesOf.mp hmem
    exact ⟨hcode, hunit, (h.keys e.key).mp ⟨e, hentry, rfl⟩, hfirst, h.totals e hentry⟩
  · intro hone e he
    rw [← h.whole hone he]
    exact h.totals e (mem_entriesOf.mp (h.entry?_first he).1).1

/-- **What is found under a code and a unit is the whole position if the code has one class.**  Take
    a checked configuration: mappings are made of it, and each account is mapped to what its setting
    says.  In every report that is made with them, of any snapshot,

    * there is at most one entry of a code, a unit and a class;
    * nothing is found under a code and a unit exactly if no balance goes there, and otherwise the
      entry of the first class, in the order of declaration, to which one does, made of just the
      balances of that class;
    * there is at most one entry of a code and a unit exactly if all their balances go to one key,
      and then all of them are in what is found;
    * and so it is if the configuration gives the code one class. -/
theorem entry_is_position_of_one_class {c : Config} (hcheck : c.check = .ok ()) :
    ∃ mappings, c.glMappings = .ok mappings ∧
      (∀ a m, mappings.find? a = some m ↔
        ∃ s ∈ c.settings, s.account = a ∧ s.glCode = some m.code ∧ s.glType = some m.type) ∧
      ∀ (s : Snapshot) (asOf : Instant) (r : GlReport), ofSnapshot s mappings asOf = .ok r →
        ∀ code u, Positions mappings s.entries r code u ∧
          (c.OneClass code → OneKey mappings code u s.entries) := by
  obtain ⟨mappings, hmappings, hset⟩ := Config.glMappings_of_check hcheck
  refine ⟨mappings, hmappings, hset, ?_⟩
  intro s asOf r hr code u
  refine ⟨positions_ofSnapshot hr code u, ?_⟩
  intro hclass row hrow row' hrow'
  -- the settings of the two accounts give the code one class
  have hsetting : ∀ row ∈ rowsOfCode mappings code u s.entries, ∃ s ∈ c.settings, ∃ type,
      s.glCode = some code ∧ s.glType = some type ∧
        keyOf? mappings row = some ⟨code, u, type⟩ := by
    intro row hrow
    obtain ⟨-, type, hkey⟩ := mem_rowsOfCode.mp hrow
    obtain ⟨m, hm, heq⟩ := Option.map_eq_some_iff.mp hkey
    obtain ⟨rfl, -, rfl⟩ := GlKey.mk.inj heq
    obtain ⟨s, hs, -, hcode, htype⟩ := (hset row.account m).mp hm
    exact ⟨s, hs, m.type, hcode, htype, hkey⟩
  obtain ⟨a, ha, type, hcode, htype, hkey⟩ := hsetting row hrow
  obtain ⟨a', ha', type', hcode', htype', hkey'⟩ := hsetting row' hrow'
  have hsame := hclass a ha a' ha' hcode hcode'
  rw [htype, htype'] at hsame
  rw [hkey, hkey', Option.some.inj hsame]

end GlReport

/-! ## Sample configurations

  Alice and Bob have one code, with one class or with two. -/

namespace Sample

/-- Alice's account, of the class `t`, and Bob's, of the class `t'`. -/
def sharedCode (t t' : GlType) : Config :=
  ⟨[⟨alice, .cash, some "1000", some t⟩, ⟨bob, .cash, some "1000", some t'⟩]⟩

/-- Their register. -/
def sharers : Registry := ⟨.ofList [(alice, .cash), (bob, .cash)]⟩

/-- Their mappings. -/
def sharedMappings (t t' : GlType) : GlMappings :=
  .ofList [(alice, ⟨"1000", t⟩), (bob, ⟨"1000", t'⟩)]

/-- Three tenths go from Alice to Bob. -/
def sharersBook : Book :=
  (Book.ofRegistry sharers).run [.execute (transfer firstId alice bob threeTenths)]

/-- With one class the code has one entry. -/
def sharedReport : GlReport :=
  { asOf := .epoch, debits := threeTenths.value, credits := threeTenths.value
    entries := [⟨"1000", euro, .asset, threeTenths.value, threeTenths.value⟩] }

/-- With two it has two, each of one balance. -/
def splitReport : GlReport :=
  { asOf := .epoch, debits := threeTenths.value, credits := threeTenths.value
    entries := [⟨"1000", euro, .asset, .zero, threeTenths.value⟩,
      ⟨"1000", euro, .liability, threeTenths.value, .zero⟩] }

end Sample

open GlReport

/-- With one class what is found has Alice's three tenths and Bob's. -/
theorem GlReport.entry_is_position_of_one_class_shared :
    (Sample.sharedCode .asset .asset).check = .ok () ∧
    (Sample.sharedCode .asset .asset).OneClass "1000" ∧
    ofSnapshot Sample.sharersBook.snapshot (Sample.sharedMappings .asset .asset) .epoch
      = .ok Sample.sharedReport ∧
    (Sample.sharedReport.entriesOf "1000" Sample.euro).length ≤ 1 ∧
    ∀ e, Sample.sharedReport.entry? "1000" Sample.euro = some e →
      Totals.zero.bookAll ((rowsOfCode (Sample.sharedMappings .asset .asset) "1000" Sample.euro
        Sample.sharersBook.snapshot.entries).flatMap fun row => row.balance.amounts)
        = some e.totals := by
  have hcheck : (Sample.sharedCode .asset .asset).check = .ok () := by decide
  have hclass : (Sample.sharedCode .asset .asset).OneClass "1000" := by decide
  have hreport : ofSnapshot Sample.sharersBook.snapshot (Sample.sharedMappings .asset .asset) .epoch
      = .ok Sample.sharedReport := by rfl
  obtain ⟨mappings, hmappings, -, hpositions⟩ := entry_is_position_of_one_class hcheck
  have hknown : (Sample.sharedCode .asset .asset).glMappings
      = .ok (Sample.sharedMappings .asset .asset) := by rfl
  obtain rfl := Except.ok.inj (hmappings.symm.trans hknown)
  obtain ⟨hpos, hone⟩ := hpositions _ _ _ hreport "1000" Sample.euro
  exact ⟨hcheck, hclass, hreport, hpos.single.mpr (hone hclass), hpos.whole (hone hclass)⟩

/-- That a configuration has been checked makes neither one entry of a code and a unit nor what is
    found the whole position. -/
theorem GlReport.entry_not_whole :
    (¬ ∀ (c : Config) (mappings : GlMappings) (reg : Registry) (cs : List Book.Call)
      (asOf : Instant) (r : GlReport), c.check = .ok () → c.glMappings = .ok mappings →
      c.registry = .ok reg →
      ofSnapshot ((Book.ofRegistry reg).run cs).snapshot mappings asOf = .ok r →
      ∀ code u, (r.entriesOf code u).length ≤ 1) ∧
    ¬ ∀ (c : Config) (mappings : GlMappings) (reg : Registry) (cs : List Book.Call)
      (asOf : Instant) (r : GlReport), c.check = .ok () → c.glMappings = .ok mappings →
      c.registry = .ok reg →
      ofSnapshot ((Book.ofRegistry reg).run cs).snapshot mappings asOf = .ok r →
      ∀ code u e, r.entry? code u = some e →
        Totals.zero.bookAll ((rowsOfCode mappings code u
          ((Book.ofRegistry reg).run cs).snapshot.entries).flatMap fun row => row.balance.amounts)
          = some e.totals := by
  have hcheck : (Sample.sharedCode .asset .liability).check = .ok () := by decide
  have hmappings : (Sample.sharedCode .asset .liability).glMappings
      = .ok (Sample.sharedMappings .asset .liability) := by rfl
  have hregistry : (Sample.sharedCode .asset .liability).registry = .ok Sample.sharers := by rfl
  have hreport : ofSnapshot Sample.sharersBook.snapshot (Sample.sharedMappings .asset .liability)
      .epoch = .ok Sample.splitReport := by rfl
  constructor
  · intro h
    have hone := h _ _ _ _ _ _ hcheck hmappings hregistry hreport "1000" Sample.euro
    exact absurd hone (by decide)
  · intro h
    have hwhole := h _ _ _ _ _ _ hcheck hmappings hregistry hreport "1000" Sample.euro _ rfl
    exact absurd hwhole (by decide)

end Subledger
