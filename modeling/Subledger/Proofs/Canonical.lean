/-
  CANONICAL BYTES AS A NORMAL FORM of what a document holds.

  Every document of the domain is a record of names, instants, counters, amounts and lists of such
  records.  Two of these are not taken as they are: an amount is written without its trailing zeros,
  and a counter is read only if sixty-four bits hold it.  So:

  1. **Decoding gives the normal value** (`Json.Spells`) — that is the value itself, but for the
     places of amounts.  One statement for each type, put together as its row is.
  2. **Equality is equality of normal values** — amounts are compared by value, and those of one
     value have one normal form.
  3. **Faithful types** (`Json.Faithful`) — from these two it follows that decoding the bytes of a
     value gives an equal one, that equal values and only those have the same bytes, and that whatever
     text a value was read from, its bytes stay the same from then on.
-/
import Subledger.GeneralLedger.Report
import Subledger.Journal.Record
import Subledger.Ledger.Snapshot
import Subledger.Proofs.Decimal.RoundTrip
import Subledger.Proofs.Instant.Document
import Subledger.Proofs.Json.Rows

namespace Subledger

/-! ## Leaves

  Names, instants, codes, amounts and quantities are single texts.  Each is read back by the reader
  that its document uses, so the shape of the proof is always the same: the text is checked, and the
  check gives back what was written. -/

namespace Json

/-- An amount is read back in its normal form. -/
theorem amount_ofAmount (x : Decimal) : amount (ofAmount x) = .ok x.normalize := by
  refine checked_text ?_
  rw [Decimal.ofText_text, Decimal.plain_normalize]
  show Except.ok x.normalize.normalize = _
  rw [Decimal.normalize_idem]

/-- A counter of a document is one that sixty-four bits hold. -/
theorem le_maxNatural_of_natural {v : Value} {n : Nat} (h : natural v = .ok n) :
    n ≤ Number.maxNatural := by
  unfold natural at h
  split at h
  · rename_i m
    split at h
    · rename_i k hheld
      obtain rfl := Except.ok.inj h
      unfold Number.held at hheld
      dsimp only at hheld
      split at hheld
      · rename_i hfits
        obtain rfl := Number.Held.natural.inj hheld
        simp only [Bool.and_eq_true, decide_eq_true_eq] at hfits
        exact hfits.2
      · split at hheld
        · cases hheld
        · unfold Number.binary at hheld
          dsimp only at hheld
          split at hheld <;> cases hheld
    all_goals cases h
  · cases h

end Json

/-- A name is read back: what it was built from passes the same check again. -/
theorem Ident.spells {kind : IdentKind} (a : Ident kind) : Json.Spells a a := by
  refine ⟨trivial, Json.checked_text ?_⟩
  rw [Ident.ofText_eq_ok_iff.mpr rfl]
  rfl

/-- An instant is read back, in whatever year and with whatever fraction. -/
theorem Instant.spells (t : Instant) : Json.Spells t t := by
  refine ⟨trivial, Json.checked_text ?_⟩
  rw [Instant.ofText_text]
  rfl

theorem AccountType.spells (t : AccountType) : Json.Spells t t :=
  ⟨trivial, Json.code_text t.ofCode?_code⟩

theorem GlType.spells (t : GlType) : Json.Spells t t :=
  ⟨trivial, Json.code_text t.ofCode?_code⟩

/-- The text of a quantity is that quantity's.  It has a normal form already, so unlike that of any
    other amount its text loses nothing. -/
theorem Quantity.ofText_text (q : Quantity) : Quantity.ofText q.text = .ok q := by
  have hplain : q.value.plain = q.value := by
    rw [← q.normal, Decimal.plain_normalize]
  obtain ⟨value, positive, normal⟩ := q
  rw [Quantity.ofText, Quantity.text, Decimal.ofText_text, hplain]
  show (if h : value.isPositive = true then _ else _) = _
  rw [dif_pos positive]
  simp only [normal]

/-- A quantity is read back as itself. -/
theorem Quantity.spells (q : Quantity) : Json.Spells q q := by
  refine ⟨trivial, Json.checked_text ?_⟩
  rw [Quantity.ofText_text]
  rfl

/-! ## Records

  Each record is put together as its row of fields is: a field contributes that its leaf is read
  back, and the end of the row that nothing is missing.  A record whose constructor checks
  something, as a transaction does, adds that the check passes. -/

theorem Account.spells (a : Account) : Json.Spells a a :=
  Json.spells_of_row (fun v => .ok ⟨v.1, v.2.1⟩) rfl (fun _ => rfl) (by decide)
    ((Ident.spells a.id).field "id" ((AccountType.spells a.type).field "account_type" .done)) rfl

/-- A move is read back, its quantity included. -/
theorem Move.spells (m : Move) : Json.Spells m m :=
  Json.spells_of_row (fun v => .ok ⟨v.1, v.2.1, v.2.2.1, v.2.2.2.1, v.2.2.2.2.1⟩) rfl
    (fun _ => rfl) (by decide)
    ((Ident.spells m.source).field "source" <|
      (Ident.spells m.destination).field "destination" <|
      (Ident.spells m.unit).field "unit" <|
      (Quantity.spells m.quantity).field "quantity" <|
      (Ident.spells m.contract).field "contract_id" .done) rfl

/-- A transaction is read back.  The list of its moves is read back move by move, and since it is
    not empty the constructor takes it. -/
theorem Transaction.spells (t : Transaction) : Json.Spells t t := by
  have hmoves := Json.spells_list (f := fun m => m) (fun m (_ : m ∈ t.moves) => m.spells) "moves"
    .done
  rw [List.map_id'] at hmoves
  refine Json.spells_of_row
    (fun v => (ofMoves v.1 v.2.1 v.2.2.1).mapError fun e => .refused e.message)
    rfl (fun _ => rfl) (by decide)
    ((Ident.spells t.id).field "id" <| (Instant.spells t.timestamp).field "timestamp" hmoves) ?_
  show (ofMoves t.id t.timestamp t.moves).mapError _ = _
  rw [ofMoves, dif_pos t.moves_ne]
  rfl

/-- An envelope is read back with both its times. -/
theorem Envelope.spells (e : Envelope) : Json.Spells e e :=
  Json.spells_of_row (fun v => .ok ⟨v.1, v.2.1, v.2.2.1⟩) rfl (fun _ => rfl) (by decide)
    ((Instant.spells e.eventTime).field "event_time" <|
      (Instant.spells e.knowledgeTime).field "knowledge_time" <|
      (Transaction.spells e.transaction).field "payload" .done) rfl

/-- The number of a record is one that sixty-four bits hold. -/
def Record.Held (r : Record) : Prop := r.sequence ≤ Json.Number.maxNatural

instance (r : Record) : Decidable r.Held :=
  inferInstanceAs (Decidable (r.sequence ≤ Json.Number.maxNatural))

/-- A record is read back if its number is one that sixty-four bits hold: no greater number is read.
    -/
theorem Record.spells {r : Record} (h : r.Held) : Json.Spells r r :=
  Json.spells_of_row (fun v => .ok ⟨v.1, v.2.1⟩) rfl (fun _ => rfl) (by decide)
    (.field (Json.regular_ofNat r.sequence) (Json.natural_ofNat h) <|
      (Envelope.spells r.envelope).field "envelope" .done) rfl

/-! ## Documents with amounts

  Here a value and what is read back from its bytes may differ in the places of the amounts.  The
  normal form of a document puts each amount into its normal form and leaves the rest alone; three
  facts about each type say that it is what is read back, that it is written alike, and that it
  decides equality. -/

/-- Lists are the same, element by element, exactly if their normal elements are equal. -/
theorem all_zip_iff {α : Type} {same : α → α → Bool} {normalize : α → α}
    (h : ∀ a b, same a b = true ↔ normalize a = normalize b) {as bs : List α} :
    (as.length == bs.length && (as.zip bs).all fun p => same p.1 p.2) = true ↔
      as.map normalize = bs.map normalize := by
  induction as generalizing bs with
  | nil => cases bs <;> simp
  | cons a as ih =>
    cases bs with
    | nil => simp
    | cons b bs =>
      have hrest := @ih bs
      simp only [Bool.and_eq_true, beq_iff_eq] at hrest
      simp only [List.length_cons, List.zip_cons_cons, List.all_cons, List.map_cons,
        List.cons.injEq, Bool.and_eq_true, beq_iff_eq, Nat.add_right_cancel_iff, h, ← hrest]
      tauto

/-- An amount is written in its normal form, so taking the normal form first changes nothing. -/
theorem Json.ofAmount_normalize (x : Decimal) : ofAmount x.normalize = ofAmount x := by
  rw [ofAmount, Decimal.normalize_idem, ofAmount]

namespace BalanceEntry

/-- The row with its balance in normal form. -/
def normalize (e : BalanceEntry) : BalanceEntry := { e with balance := e.balance.normalize }

/-- A row of a snapshot is read back with its balance in normal form. -/
theorem spells (e : BalanceEntry) : Json.Spells e e.normalize :=
  Json.spells_of_row (fun v => .ok ⟨v.1, v.2.1, v.2.2.1⟩) rfl (fun _ => rfl) (by decide)
    ((Ident.spells e.account).field "account" <| (Ident.spells e.unit).field "unit" <|
      .field trivial (Json.amount_ofAmount e.balance) .done) rfl

/-- A row and its normal form are written alike. -/
theorem encode_normalize (e : BalanceEntry) :
    Json.Canonical.encode e.normalize = Json.Canonical.encode e := by
  show Json.ofFields [_, _, ("balance", Json.ofAmount e.balance.normalize)] = _
  rw [Json.ofAmount_normalize]
  rfl

/-- Rows are equal, balances compared by value, exactly if their normal forms are. -/
theorem same_iff_normalize (a b : BalanceEntry) : a.same b = true ↔ a.normalize = b.normalize := by
  simp only [same, normalize, Bool.and_eq_true, beq_iff_eq, Decimal.same_iff_value,
    ← Decimal.normalize_eq_iff, BalanceEntry.mk.injEq, and_assoc]

end BalanceEntry

namespace Snapshot

/-- The snapshot with its balances in normal form. -/
def normalize (s : Snapshot) : Snapshot :=
  { s with entries := s.entries.map BalanceEntry.normalize }

/-- The count of a snapshot is one that sixty-four bits hold. -/
def Held (s : Snapshot) : Prop := s.applied ≤ Json.Number.maxNatural

/-- A snapshot is read back with its balances in normal form, if its count is one that sixty-four
    bits hold. -/
theorem spells {s : Snapshot} (h : s.Held) : Json.Spells s s.normalize :=
  Json.spells_of_row (fun v => .ok ⟨v.1, v.2.1⟩) rfl (fun _ => rfl) (by decide)
    (.field (Json.regular_ofNat s.applied) (Json.natural_ofNat h) <|
      Json.spells_list (fun e (_ : e ∈ s.entries) => e.spells) "entries" .done) rfl

theorem encode_normalize (s : Snapshot) :
    Json.Canonical.encode s.normalize = Json.Canonical.encode s := by
  show Json.ofFields [_, ("entries",
    Json.ofList ((s.entries.map BalanceEntry.normalize).map Json.Canonical.encode))] = _
  rw [List.map_map, List.map_congr_left fun e _ => e.encode_normalize]
  rfl

/-- Snapshots are equal exactly if their normal forms are: as many rows, equal one by one, and one
    count. -/
theorem same_iff_normalize (s t : Snapshot) : s.same t = true ↔ s.normalize = t.normalize := by
  rw [same, sameBalances, Bool.and_eq_true, all_zip_iff BalanceEntry.same_iff_normalize, beq_iff_eq,
    normalize, normalize, Snapshot.mk.injEq]

end Snapshot

namespace GlEntry

/-- Equality of entries, totals compared by value. -/
def same (a b : GlEntry) : Bool :=
  a.code == b.code && a.unit == b.unit && a.type == b.type && a.debits.same b.debits &&
    a.credits.same b.credits

/-- The entry with its totals in normal form. -/
def normalize (e : GlEntry) : GlEntry :=
  { e with debits := e.debits.normalize, credits := e.credits.normalize }

/-- An entry of a report is read back with both its totals in normal form. -/
theorem spells (e : GlEntry) : Json.Spells e e.normalize :=
  Json.spells_of_row (fun v => .ok ⟨v.1, v.2.1, v.2.2.1, v.2.2.2.1, v.2.2.2.2.1⟩) rfl
    (fun _ => rfl) (by decide)
    (.field trivial (show Json.string (.text e.code) = .ok e.code from rfl) <|
      (Ident.spells e.unit).field "unit" <| (GlType.spells e.type).field "gl_account_type" <|
      .field trivial (Json.amount_ofAmount e.debits) <|
      .field trivial (Json.amount_ofAmount e.credits) .done) rfl

theorem encode_normalize (e : GlEntry) :
    Json.Canonical.encode e.normalize = Json.Canonical.encode e := by
  show Json.ofFields [_, _, _, ("debit_total", Json.ofAmount e.debits.normalize),
    ("credit_total", Json.ofAmount e.credits.normalize)] = _
  rw [Json.ofAmount_normalize, Json.ofAmount_normalize]
  rfl

theorem same_iff_normalize (a b : GlEntry) : a.same b = true ↔ a.normalize = b.normalize := by
  simp only [same, normalize, Bool.and_eq_true, beq_iff_eq, Decimal.same_iff_value,
    ← Decimal.normalize_eq_iff, GlEntry.mk.injEq, and_assoc]

end GlEntry

namespace GlReport

/-- Equality of reports, totals compared by value. -/
def same (r s : GlReport) : Bool :=
  r.asOf == s.asOf &&
    (r.entries.length == s.entries.length && (r.entries.zip s.entries).all fun p => p.1.same p.2) &&
    r.debits.same s.debits && r.credits.same s.credits

/-- The report with its totals in normal form. -/
def normalize (r : GlReport) : GlReport :=
  ⟨r.asOf, r.entries.map GlEntry.normalize, r.debits.normalize, r.credits.normalize⟩

/-- A report is read back with all its totals in normal form. -/
theorem spells (r : GlReport) : Json.Spells r r.normalize :=
  Json.spells_of_row (fun v => .ok ⟨v.1, v.2.1, v.2.2.1, v.2.2.2.1⟩) rfl (fun _ => rfl) (by decide)
    ((Instant.spells r.asOf).field "as_of" <|
      Json.spells_list (fun e (_ : e ∈ r.entries) => e.spells) "entries" <|
      .field trivial (Json.amount_ofAmount r.debits) <|
      .field trivial (Json.amount_ofAmount r.credits) .done) rfl

/-- A report and its normal form have the same bytes, and so the same digest. -/
theorem encode_normalize (r : GlReport) :
    Json.Canonical.encode r.normalize = Json.Canonical.encode r := by
  show Json.ofFields [_, ("entries",
      Json.ofList ((r.entries.map GlEntry.normalize).map Json.Canonical.encode)),
    ("debit_total", Json.ofAmount r.debits.normalize),
    ("credit_total", Json.ofAmount r.credits.normalize)] = _
  rw [List.map_map, List.map_congr_left fun e _ => e.encode_normalize, Json.ofAmount_normalize,
    Json.ofAmount_normalize]
  rfl

/-- Reports are equal exactly if their normal forms are. -/
theorem same_iff_normalize (r s : GlReport) : r.same s = true ↔ r.normalize = s.normalize := by
  rw [same, Bool.and_eq_true, Bool.and_eq_true, Bool.and_eq_true,
    all_zip_iff GlEntry.same_iff_normalize, beq_iff_eq, Decimal.same_iff_value,
    Decimal.same_iff_value, ← Decimal.normalize_eq_iff, ← Decimal.normalize_eq_iff, normalize,
    normalize, GlReport.mk.injEq, and_assoc, and_assoc]

end GlReport

/-! ## Faithful types -/

namespace Json

/-- The canonical bytes are a normal form, up to the equality `same`, of the values that are `held`:
    of all that are built with counters of sixty-four bits, or decoded. -/
structure Faithful (α : Type) [Canonical α] (held : α → Prop) (same : α → α → Prop) : Prop where
  /-- The bytes of a value decode, and to an equal one. -/
  reads : ∀ a, held a → ∃ b : α, parseBytes (canonicalBytes a) = .ok b ∧ same b a
  /-- Equal values and no others have the same bytes. -/
  same_iff : ∀ a b, held a → held b → (same a b ↔ canonicalBytes a = canonicalBytes b)
  /-- Whatever is decoded is held. -/
  held_of_parseBytes : ∀ bs (a : α), parseBytes bs = .ok a → held a
  /-- Whatever it was decoded from, decoding its bytes and encoding again changes them no more. -/
  settles : ∀ bs (a : α), parseBytes bs = .ok a →
    ∃ b : α, parseBytes (canonicalBytes a) = .ok b ∧ canonicalBytes b = canonicalBytes a

/-- What is read from bytes was decoded from some tree. -/
theorem exists_decode_of_parseBytes {α : Type} [Canonical α] {bs : List UInt8} {a : α}
    (h : parseBytes bs = .ok a) : ∃ v, Canonical.decode v = .ok a :=
  ⟨_, (decodeBytes_eq_ok_iff.mp h).1⟩

/-- A type is faithful if its values decode as normal values that are encoded alike, and equality is
    equality of the normal values. -/
theorem Faithful.of_normalize {α : Type} [Canonical α] {held : α → Prop} {same : α → α → Prop}
    (normalize : α → α) (hspells : ∀ {a}, held a → Spells a (normalize a))
    (hencode : ∀ a, Canonical.encode (normalize a) = Canonical.encode a)
    (hsame : ∀ a b, same a b ↔ normalize a = normalize b)
    (hheld : ∀ {v a}, Canonical.decode v = .ok a → held a) : Faithful α held same := by
  have hbytes : ∀ a, canonicalBytes (normalize a) = canonicalBytes a := by
    intro a
    rw [canonicalBytes, canonical, hencode]
    rfl
  have hnormal : ∀ {a}, held a → held (normalize a) := fun ha => hheld (hspells ha).decoded
  -- the normal value is encoded as the value itself, so both decode alike
  have hidem : ∀ {a}, held a → normalize (normalize a) = normalize a := by
    intro a ha
    have hagain := (hspells (hnormal ha)).decoded
    rw [hencode, (hspells ha).decoded] at hagain
    exact (Except.ok.inj hagain).symm
  have hparsed : ∀ {bs a}, parseBytes bs = .ok a → held a := by
    intro bs a h
    obtain ⟨v, hv⟩ := exists_decode_of_parseBytes h
    exact hheld hv
  refine ⟨?_, ?_, fun _ _ h => hparsed h, ?_⟩
  · intro a ha
    exact ⟨normalize a, (hspells ha).parseBytes_eq, (hsame _ _).mpr (hidem ha)⟩
  · intro a b ha hb
    rw [hsame]
    constructor
    · intro h
      rw [← hbytes a, h, hbytes b]
    · intro h
      have hread := (hspells ha).parseBytes_eq
      rw [h, (hspells hb).parseBytes_eq] at hread
      exact (Except.ok.inj hread).symm
  · intro bs a h
    exact ⟨normalize a, (hspells (hparsed h)).parseBytes_eq, hbytes a⟩

/-- A type all of whose values decode as themselves. -/
theorem Faithful.of_exact {α : Type} [Canonical α] {held : α → Prop}
    (hspells : ∀ {a}, held a → Spells a a) (hheld : ∀ {v a}, Canonical.decode v = .ok a → held a) :
    Faithful α held (fun a b => a = b) :=
  .of_normalize (fun a => a) hspells (fun _ => rfl) (fun _ _ => Iff.rfl) hheld

end Json

/-- Whatever is read as a record has a number that sixty-four bits hold. -/
theorem Record.held_of_decode {v : Json.Value} {r : Record}
    (h : Json.Canonical.decode v = .ok r) : r.Held := by
  obtain ⟨⟨sequence, envelope, ⟨⟩⟩, hrow, rfl⟩ := map_eq_ok.mp h
  obtain ⟨⟨w, hw⟩ | habsent, -⟩ := Json.Row.decoded_of_decode hrow
  · exact Json.le_maxNatural_of_natural hw
  · cases habsent

/-- Whatever is read as a snapshot has a count that sixty-four bits hold. -/
theorem Snapshot.held_of_decode {v : Json.Value} {s : Snapshot}
    (h : Json.Canonical.decode v = .ok s) : s.Held := by
  obtain ⟨⟨applied, entries, ⟨⟩⟩, hrow, rfl⟩ := map_eq_ok.mp h
  obtain ⟨⟨w, hw⟩ | habsent, -⟩ := Json.Row.decoded_of_decode hrow
  · exact Json.le_maxNatural_of_natural hw
  · cases habsent

/-- The canonical bytes of reports are a faithful normal form. -/
theorem GlReport.faithful : Json.Faithful GlReport (fun _ => True) (fun r s => r.same s = true) :=
  .of_normalize normalize (fun _ => spells _) encode_normalize same_iff_normalize (fun _ => trivial)

/-- **The canonical bytes of every document are a faithful normal form**, with counters of sixty-four
    bits and amounts compared by value: decoding them succeeds and gives an equal value, and two
    values are equal exactly if their bytes are.  The instants in them are those of the type
    `Instant`, so a leap second only comes at the end of a minute; one that was set by hand behind
    another second is left out here as it is there. -/
theorem canonical_faithful :
    Json.Faithful Account (fun _ => True) (fun a b => a = b) ∧
    Json.Faithful Move (fun _ => True) (fun a b => a = b) ∧
    Json.Faithful Transaction (fun _ => True) (fun a b => a = b) ∧
    Json.Faithful Envelope (fun _ => True) (fun a b => a = b) ∧
    Json.Faithful Record Record.Held (fun a b => a = b) ∧
    Json.Faithful Snapshot Snapshot.Held (fun a b => a.same b = true) ∧
    Json.Faithful GlReport (fun _ => True) (fun a b => a.same b = true) :=
  ⟨.of_exact (fun _ => Account.spells _) (fun _ => trivial),
    .of_exact (fun _ => Move.spells _) (fun _ => trivial),
    .of_exact (fun _ => Transaction.spells _) (fun _ => trivial),
    .of_exact (fun _ => Envelope.spells _) (fun _ => trivial),
    .of_exact Record.spells Record.held_of_decode,
    .of_normalize Snapshot.normalize Snapshot.spells Snapshot.encode_normalize
      Snapshot.same_iff_normalize Snapshot.held_of_decode,
    .of_normalize GlReport.normalize (fun _ => GlReport.spells _) GlReport.encode_normalize
      GlReport.same_iff_normalize (fun _ => trivial)⟩

/-- A snapshot of one row, the name of its account with a line break, a quote and a control
    character. -/
def Snapshot.ofBalance (balance : Decimal) : Snapshot :=
  ⟨Json.Number.maxNatural, [⟨⟨"a\n\"\u0001é", by decide⟩, ⟨"USD", by decide⟩, balance⟩]⟩

example : (Json.parseBytes (Json.canonicalBytes
      (Snapshot.ofBalance ⟨true, 50, 2, by decide, by decide⟩))).toOption
    = some (Snapshot.ofBalance ⟨true, 5, 1, by decide, by decide⟩) := by decide +kernel

end Subledger
