/-
  CONSTRUCTION: what a document holds has been built from its parts.

  A document can be read without any check: its texts stay texts, and its amounts are decimals of any
  sign.  These are the parts, and the constructors of the domain make values of them or refuse.

  1. **Parts** (`Move.Parts`, ..., `Record.Parts`) — each type with the decoder of its parts, what the
     constructors make of them (`Makes`), and when they make anything (`exists_makes`).
  2. **Documents** (`Move.checks`, ..., `Record.checks`) — each type is read exactly if its parts are
     and make the value.  The rule passes from the fields to the record, so no type in between can
     lose it.
  3. **The results** (`decoding_constructs`) — the same for whole documents, for the lines of a journal
     file, and for the records that it is opened with.
-/
import Subledger.Proofs.Canonical
import Subledger.Proofs.Journal.Legible
import Subledger.Proofs.Json.Checked

namespace Subledger

/-! ## Single values

  A name has one part, its text, and a quantity has one, an amount.  The constructors refuse a blank
  text, and an amount that is not above zero; what they make shows its part again, the amount
  without the zeros at the end of its places. -/

namespace Ident

variable {kind : IdentKind}

/-- Some name has this text if it is not blank. -/
theorem exists_ofText_iff {s : String} :
    (∃ a : Ident kind, ofText s = .ok a) ↔ Text.isBlank s = false := by
  simp only [ofText_eq_ok_iff]
  constructor
  · rintro ⟨a, rfl⟩
    exact a.not_blank
  · intro h
    exact ⟨⟨s, h⟩, rfl⟩

/-- A name is read exactly if its text is and is not blank. -/
theorem checks : Json.Checks (Json.Canonical.decode : Json.Decoder (Ident kind)) Json.string
    (fun s a => ofText s = .ok a) :=
  Json.checks_string fun _ _ => mapError_eq_ok

end Ident

/-- Above zero. -/
def Decimal.Positive (x : Decimal) : Prop := 0 < x.coeff

instance (x : Decimal) : Decidable x.Positive := inferInstanceAs (Decidable (0 < x.coeff))

/-- There is no zero at the end of the places. -/
def Decimal.Stripped (x : Decimal) : Prop := x.scale = 0 ∨ x.magnitude % 10 ≠ 0

namespace Quantity

/-- A quantity is made of an amount above zero. -/
theorem ofDecimal_eq_ok_iff {x : Decimal} {q : Quantity} :
    ofDecimal x = .ok q ↔ x.Positive ∧ q.value = x.normalize := by
  rw [ofDecimal, Decimal.Positive, ← Decimal.isPositive_iff]
  split
  · rename_i hpositive
    rw [and_iff_right hpositive]
    constructor
    · intro h
      rw [← Except.ok.inj h]
    · intro h
      obtain ⟨value, positive, normal⟩ := q
      obtain rfl : value = x.normalize := h
      rfl
  · rename_i hnot
    exact iff_of_false error_ne_ok (fun h => hnot h.1)

/-- Some quantity is made of an amount exactly if the amount is above zero. -/
theorem exists_ofDecimal_iff {x : Decimal} : (∃ q, ofDecimal x = .ok q) ↔ x.Positive := by
  simp only [ofDecimal_eq_ok_iff]
  constructor
  · rintro ⟨q, h, -⟩
    exact h
  · intro h
    have hpositive := (Decimal.isPositive_normalize x).trans ((Decimal.isPositive_iff x).mpr h)
    exact ⟨⟨x.normalize, hpositive, Decimal.normalize_idem x⟩, h, rfl⟩

/-- A quantity is above zero, and has no zero at the end of its places. -/
theorem value_valid (q : Quantity) : q.value.Positive ∧ q.value.Stripped := by
  refine ⟨(Decimal.isPositive_iff _).mp q.positive, ?_⟩
  rw [← q.normal]
  exact Decimal.stripZeros_stripped _ _

/-- The amount of a quantity's document, whatever its sign. -/
def amount : Json.Decoder Decimal :=
  Json.checked fun s => (Decimal.ofText s).mapError Decimal.ReadError.message

/-- A quantity is read exactly if its amount is and is above zero. -/
theorem checks : Json.Checks (Json.Canonical.decode : Json.Decoder Quantity) amount
    (fun x q => ofDecimal x = .ok q) := by
  apply Json.checks_checked
  intro s q
  rw [mapError_eq_ok, ofText]
  cases Decimal.ofText s with
  | error e => exact error_eq_ok_iff_made
  | ok x =>
    constructor
    · intro h
      exact ⟨x, rfl, h⟩
    · rintro ⟨y, hy, h⟩
      obtain rfl := Except.ok.inj hy
      exact h

end Quantity

/-! ## Moves

  A move has nothing to check beyond its parts.  So it is made of them exactly if each of the four
  names and the quantity is. -/

/-- The parts of a move. -/
structure Move.Parts where
  source : String
  destination : String
  unit : String
  quantity : Decimal
  contract : String
  deriving DecidableEq

namespace Move.Parts

/-- The fields of a move's document, unchecked. -/
def row : Json.Row (String × String × String × Decimal × String × Unit) :=
  .required "source" Json.string <|
  .required "destination" Json.string <|
  .required "unit" Json.string <|
  .required "quantity" Quantity.amount <|
  .required "contract_id" Json.string .done

def decode : Json.Decoder Parts := fun v =>
  (row.decode v).map fun (source, destination, unit, quantity, contract, ()) =>
    ⟨source, destination, unit, quantity, contract⟩

/-- The names are not blank, and the amount is one of these. -/
structure Valid (amount : Decimal → Prop) (p : Parts) : Prop where
  source : Text.isBlank p.source = false
  destination : Text.isBlank p.destination = false
  unit : Text.isBlank p.unit = false
  quantity : amount p.quantity
  contract : Text.isBlank p.contract = false

/-- The constructors make a move of its parts. -/
structure Makes (p : Parts) (m : Move) : Prop where
  source : Ident.ofText p.source = .ok m.source
  destination : Ident.ofText p.destination = .ok m.destination
  unit : Ident.ofText p.unit = .ok m.unit
  quantity : Quantity.ofDecimal p.quantity = .ok m.quantity
  contract : Ident.ofText p.contract = .ok m.contract

/-- A move can be made of parts exactly if no name is blank and the amount is above zero. -/
theorem exists_makes_iff {p : Parts} : (∃ m, p.Makes m) ↔ p.Valid Decimal.Positive := by
  constructor
  · rintro ⟨m, h⟩
    exact ⟨Ident.exists_ofText_iff.mp ⟨_, h.source⟩, Ident.exists_ofText_iff.mp ⟨_, h.destination⟩,
      Ident.exists_ofText_iff.mp ⟨_, h.unit⟩, Quantity.exists_ofDecimal_iff.mp ⟨_, h.quantity⟩,
      Ident.exists_ofText_iff.mp ⟨_, h.contract⟩⟩
  · intro h
    obtain ⟨source, hsource⟩ := Ident.exists_ofText_iff.mpr h.source
    obtain ⟨destination, hdestination⟩ := Ident.exists_ofText_iff.mpr h.destination
    obtain ⟨unit, hunit⟩ := Ident.exists_ofText_iff.mpr h.unit
    obtain ⟨quantity, hquantity⟩ := Quantity.exists_ofDecimal_iff.mpr h.quantity
    obtain ⟨contract, hcontract⟩ := Ident.exists_ofText_iff.mpr h.contract
    exact ⟨⟨source, destination, unit, quantity, contract⟩, hsource, hdestination, hunit, hquantity,
      hcontract⟩

end Move.Parts

namespace Move

/-- The parts that a move shows. -/
def parts (m : Move) : Parts :=
  ⟨m.source.text, m.destination.text, m.unit.text, m.quantity.value, m.contract.text⟩

/-- What a move shows would make it again, and its amount has no zeros at the end. -/
theorem parts_valid (m : Move) : m.parts.Valid (fun x => x.Positive ∧ x.Stripped) :=
  ⟨m.source.not_blank, m.destination.not_blank, m.unit.not_blank, m.quantity.value_valid,
    m.contract.not_blank⟩

/-- A move is read exactly if its parts are and make it, whether its document is a record or a list.
    -/
theorem checks : Json.Checks (Json.Canonical.decode : Json.Decoder Move) Parts.decode
    Parts.Makes := by
  have hrow : row.Checks Parts.row _ :=
    .field Ident.checks <| .field Ident.checks <| .field Ident.checks <| .field Quantity.checks <|
      .field Ident.checks .done
  refine (hrow.decode (by decide)).map _ _ ?_
  intro b m
  constructor
  · intro h
    exact ⟨(m.source, m.destination, m.unit, m.quantity, m.contract, ()),
      ⟨h.source, h.destination, h.unit, h.quantity, h.contract, trivial⟩, rfl⟩
  · rintro ⟨a, ⟨hsource, hdestination, hunit, hquantity, hcontract, -⟩, rfl⟩
    exact ⟨hsource, hdestination, hunit, hquantity, hcontract⟩

end Move

/-! ## Transactions

  The moves are made one by one, in the order of the document; then the constructor of the
  transaction asks whether there are any. -/

/-- The parts of a transaction. -/
structure Transaction.Parts where
  id : String
  timestamp : Instant
  moves : List Move.Parts
  deriving DecidableEq

namespace Transaction.Parts

/-- The fields of a transaction's document, unchecked. -/
def row : Json.Row (String × Instant × List Move.Parts × Unit) :=
  .required "id" Json.string <|
  .required "timestamp" Json.Canonical.decode <|
  .required "moves" (Json.list Move.Parts.decode) .done

def decode : Json.Decoder Parts := fun v =>
  (row.decode v).map fun (id, timestamp, moves, ()) => ⟨id, timestamp, moves⟩

/-- The name is not blank, there is a move, and all moves are valid with amounts like these. -/
structure Valid (amount : Decimal → Prop) (p : Parts) : Prop where
  id : Text.isBlank p.id = false
  moves_ne : p.moves ≠ []
  moves : ∀ m ∈ p.moves, m.Valid amount

/-- The constructors make a transaction of its parts, and its moves before. -/
structure Makes (p : Parts) (t : Transaction) : Prop where
  id : Ident.ofText p.id = .ok t.id
  moves : List.Forall₂ Move.Parts.Makes p.moves t.moves
  whole : Transaction.ofMoves t.id p.timestamp t.moves = .ok t

/-- All moves can be made exactly if the parts of each are valid. -/
theorem exists_makes_moves_iff {ps : List Move.Parts} :
    (∃ ms, List.Forall₂ Move.Parts.Makes ps ms) ↔
      ∀ p ∈ ps, p.Valid Decimal.Positive := by
  induction ps with
  | nil => exact iff_of_true ⟨[], .nil⟩ (List.forall_mem_nil _)
  | cons p ps ih =>
    rw [List.forall_mem_cons, ← ih, ← Move.Parts.exists_makes_iff]
    constructor
    · rintro ⟨_, h⟩
      obtain ⟨m, ms, hm, hms, rfl⟩ := List.forall₂_cons_left_iff.mp h
      exact ⟨⟨m, hm⟩, ms, hms⟩
    · rintro ⟨⟨m, hm⟩, ms, hms⟩
      exact ⟨m :: ms, .cons hm hms⟩

/-- A transaction is made of moves if there is one at all. -/
theorem ofMoves_eq_ok_iff {id : TransactionId} {timestamp : Instant} {moves : List Move}
    {t : Transaction} : Transaction.ofMoves id timestamp moves = .ok t ↔
      moves ≠ [] ∧ t.id = id ∧ t.timestamp = timestamp ∧ t.moves = moves := by
  rw [Transaction.ofMoves]
  split
  · rename_i hne
    rw [and_iff_right hne]
    constructor
    · intro h
      rw [← Except.ok.inj h]
      exact ⟨rfl, rfl, rfl⟩
    · rintro ⟨rfl, rfl, rfl⟩
      rfl
  · rename_i hempty
    exact iff_of_false error_ne_ok (fun h => hempty h.1)

/-- A transaction can be made of parts exactly if its name is not blank, there is a move, and the
    parts of every move are valid. -/
theorem exists_makes_iff {p : Parts} : (∃ t, p.Makes t) ↔ p.Valid Decimal.Positive := by
  constructor
  · rintro ⟨t, h⟩
    refine ⟨Ident.exists_ofText_iff.mp ⟨_, h.id⟩, ?_, exists_makes_moves_iff.mp ⟨_, h.moves⟩⟩
    intro hnil
    have hmoves := h.moves
    rw [hnil, List.forall₂_nil_left_iff] at hmoves
    exact t.moves_ne hmoves
  · intro h
    obtain ⟨id, hid⟩ := Ident.exists_ofText_iff.mpr h.id
    obtain ⟨moves, hmoves⟩ := exists_makes_moves_iff.mpr h.moves
    have hne : moves ≠ [] := by
      rintro rfl
      exact h.moves_ne (List.forall₂_nil_right_iff.mp hmoves)
    exact ⟨⟨id, p.timestamp, moves, hne⟩, hid, hmoves, ofMoves_eq_ok_iff.mpr ⟨hne, rfl, rfl, rfl⟩⟩

end Transaction.Parts

namespace Transaction

/-- The parts that a transaction shows. -/
def parts (t : Transaction) : Parts := ⟨t.id.text, t.timestamp, t.moves.map Move.parts⟩

/-- What a transaction shows would make it again. -/
theorem parts_valid (t : Transaction) : t.parts.Valid (fun x => x.Positive ∧ x.Stripped) := by
  refine ⟨t.id.not_blank, fun h => t.moves_ne (List.map_eq_nil_iff.mp h), ?_⟩
  intro m hm
  obtain ⟨m, -, rfl⟩ := List.mem_map.mp hm
  exact m.parts_valid

/-- A transaction is read exactly if its parts are and make it.  Of the constructors that run while
    a document is read this is the only one that runs on what others have made. -/
theorem checks : Json.Checks (Json.Canonical.decode : Json.Decoder Transaction) Parts.decode
    Parts.Makes := by
  have hrow : row.Checks Parts.row _ :=
    .field Ident.checks <| .field (Json.checks_self _) <| .field Move.checks.list .done
  refine (hrow.decode (by decide)).andThen _ _ ?_
  intro b t
  constructor
  · intro h
    exact ⟨(t.id, b.2.1, t.moves, ()), ⟨h.id, rfl, h.moves, trivial⟩, mapError_eq_ok.mpr h.whole⟩
  · rintro ⟨a, ⟨hid, htimestamp, hmoves, -⟩, hwhole⟩
    rw [mapError_eq_ok] at hwhole
    obtain ⟨-, hid', -, hmoves'⟩ := Parts.ofMoves_eq_ok_iff.mp hwhole
    rw [← hid'] at hid hwhole
    rw [← hmoves'] at hmoves hwhole
    rw [← htimestamp] at hwhole
    exact ⟨hid, hmoves, hwhole⟩

end Transaction

/-! ## Envelopes and records

  Neither an envelope nor a record checks anything of its own.  That they lose no check of what is
  inside them is what is proved here. -/

/-- The parts of an envelope. -/
structure Envelope.Parts where
  eventTime : Instant
  knowledgeTime : Instant
  transaction : Transaction.Parts
  deriving DecidableEq

namespace Envelope.Parts

/-- The fields of an envelope's document, unchecked. -/
def row : Json.Row (Instant × Instant × Transaction.Parts × Unit) :=
  .required "event_time" Json.Canonical.decode <|
  .required "knowledge_time" Json.Canonical.decode <|
  .required "payload" Transaction.Parts.decode .done

def decode : Json.Decoder Parts := fun v =>
  (row.decode v).map fun (eventTime, knowledgeTime, transaction, ()) =>
    ⟨eventTime, knowledgeTime, transaction⟩

/-- The constructors make an envelope of its parts. -/
structure Makes (p : Parts) (e : Envelope) : Prop where
  eventTime : p.eventTime = e.eventTime
  knowledgeTime : p.knowledgeTime = e.knowledgeTime
  transaction : p.transaction.Makes e.transaction

/-- An envelope can be made exactly if its transaction can. -/
theorem exists_makes_iff {p : Parts} :
    (∃ e, p.Makes e) ↔ p.transaction.Valid Decimal.Positive := by
  rw [← Transaction.Parts.exists_makes_iff]
  constructor
  · rintro ⟨e, h⟩
    exact ⟨_, h.transaction⟩
  · rintro ⟨t, h⟩
    exact ⟨⟨p.eventTime, p.knowledgeTime, t⟩, rfl, rfl, h⟩

end Envelope.Parts

/-- An envelope is read exactly if its parts are and make it. -/
theorem Envelope.checks : Json.Checks (Json.Canonical.decode : Json.Decoder Envelope)
    Parts.decode Parts.Makes := by
  have hrow : row.Checks Parts.row _ :=
    .field (Json.checks_self _) <| .field (Json.checks_self _) <| .field Transaction.checks .done
  refine (hrow.decode (by decide)).map _ _ ?_
  intro b e
  constructor
  · intro h
    exact ⟨(e.eventTime, e.knowledgeTime, e.transaction, ()),
      ⟨h.eventTime, h.knowledgeTime, h.transaction, trivial⟩, rfl⟩
  · rintro ⟨a, ⟨heventTime, hknowledgeTime, htransaction, -⟩, rfl⟩
    exact ⟨heventTime, hknowledgeTime, htransaction⟩

/-- The parts of a record. -/
structure Record.Parts where
  sequence : Nat
  envelope : Envelope.Parts
  deriving DecidableEq

namespace Record.Parts

/-- The fields of a record's document, unchecked. -/
def row : Json.Row (Nat × Envelope.Parts × Unit) :=
  .required "sequence_number" Json.natural <|
  .required "envelope" Envelope.Parts.decode .done

def decode : Json.Decoder Parts := fun v =>
  (row.decode v).map fun (sequence, envelope, ()) => ⟨sequence, envelope⟩

/-- The constructors make a record of its parts. -/
structure Makes (p : Parts) (r : Record) : Prop where
  sequence : p.sequence = r.sequence
  envelope : p.envelope.Makes r.envelope

/-- A record can be made exactly if its transaction can: its number is never refused once it is
    read. -/
theorem exists_makes_iff {p : Parts} :
    (∃ r, p.Makes r) ↔ p.envelope.transaction.Valid Decimal.Positive := by
  rw [← Envelope.Parts.exists_makes_iff]
  constructor
  · rintro ⟨r, h⟩
    exact ⟨_, h.envelope⟩
  · rintro ⟨e, h⟩
    exact ⟨⟨p.sequence, e⟩, rfl, h⟩

end Record.Parts

/-- A record is read exactly if its parts are and make it. -/
theorem Record.checks : Json.Checks (Json.Canonical.decode : Json.Decoder Record)
    Parts.decode Parts.Makes := by
  have hrow : row.Checks Parts.row _ := .field (Json.checks_self _) <| .field Envelope.checks .done
  refine (hrow.decode (by decide)).map _ _ ?_
  intro b r
  constructor
  · intro h
    exact ⟨(r.sequence, r.envelope, ()), ⟨h.sequence, h.envelope, trivial⟩, rfl⟩
  · rintro ⟨a, ⟨hsequence, henvelope, -⟩, rfl⟩
    exact ⟨hsequence, henvelope⟩

/-! ## Documents and files -/

namespace Json

/-- A type is read through its constructors only: the parts of a text are read, unchecked, and then
    made a value if they are `valid`, so that every value is `sound`. -/
structure Guarded {α β : Type} [Canonical α] (raw : Decoder β) (makes : β → α → Prop)
    (valid : β → Prop) (sound : α → Prop) : Prop where
  /-- A text is read exactly if its parts are and make the value. -/
  reads : ∀ bs a, parseBytes bs = .ok a ↔ ∃ p, decodeBytes raw bs = .ok p ∧ makes p a
  /-- Parts make a value exactly if they are valid. -/
  accepts : ∀ p, (∃ a, makes p a) ↔ valid p
  /-- What is read is sound. -/
  keeps : ∀ bs a, parseBytes bs = .ok a → sound a

/-- A text is read at all exactly if its parts are and are valid. -/
theorem Guarded.isOk_iff {α β : Type} [Canonical α] {raw : Decoder β} {makes : β → α → Prop}
    {valid : β → Prop} {sound : α → Prop} (h : Guarded raw makes valid sound) (bs : List UInt8) :
    (∃ a : α, parseBytes bs = .ok a) ↔ ∃ p, decodeBytes raw bs = .ok p ∧ valid p := by
  simp only [h.reads, ← h.accepts]
  constructor
  · rintro ⟨a, p, hp, hmakes⟩
    exact ⟨p, hp, a, hmakes⟩
  · rintro ⟨p, hp, a, hmakes⟩
    exact ⟨a, p, hp, hmakes⟩

end Json

/-- Records are read through the constructors only, and hold what these accept. -/
theorem Record.guarded : Json.Guarded Parts.decode Parts.Makes
    (fun p => p.envelope.transaction.Valid Decimal.Positive)
    (fun r => r.envelope.transaction.parts.Valid fun x => x.Positive ∧ x.Stripped) :=
  ⟨checks.decodeBytes, fun _ => Parts.exists_makes_iff,
    fun _ r _ => r.envelope.transaction.parts_valid⟩

/-- **Decoding builds, and lets nothing else in.**  Quantities, moves, transactions, envelopes and
    records are read from a text exactly if its parts can be read and the constructors make the
    value of them; and they do exactly if the names are not blank, the amounts are above zero, and
    there is a move.  In what was read the amounts have no zeros at the end of their places either.

    So a journal file that can be used is opened exactly if each of its whole lines is blank or has
    the parts of a record that can be built, and every record of the journal was built from the
    parts on one of these lines. -/
theorem decoding_constructs :
    Json.Guarded Quantity.amount (fun x q => Quantity.ofDecimal x = .ok q) Decimal.Positive
      (fun q => q.value.Positive ∧ q.value.Stripped) ∧
    Json.Guarded Move.Parts.decode Move.Parts.Makes (fun p => p.Valid Decimal.Positive)
      (fun m => m.parts.Valid fun x => x.Positive ∧ x.Stripped) ∧
    Json.Guarded Transaction.Parts.decode Transaction.Parts.Makes
      (fun p => p.Valid Decimal.Positive)
      (fun t => t.parts.Valid fun x => x.Positive ∧ x.Stripped) ∧
    Json.Guarded Envelope.Parts.decode Envelope.Parts.Makes
      (fun p => p.transaction.Valid Decimal.Positive)
      (fun e => e.transaction.parts.Valid fun x => x.Positive ∧ x.Stripped) ∧
    Json.Guarded Record.Parts.decode Record.Parts.Makes
      (fun p => p.envelope.transaction.Valid Decimal.Positive)
      (fun r => r.envelope.transaction.parts.Valid fun x => x.Positive ∧ x.Stripped) ∧
    (∀ f : JournalFile, (∃ x, f.load.1 = .ok x) ↔ (∀ cause, f.state ≠ .unusable cause) ∧
      ∀ line ∈ (cutLines f.content).1, line.all Text.isAsciiSpace = true ∨
        ∃ p, Json.decodeBytes Record.Parts.decode line = .ok p ∧
          p.envelope.transaction.Valid Decimal.Positive) ∧
    ∀ (f : JournalFile) (x : Index), f.load.1 = .ok x → ∀ r ∈ x.records,
      ∃ line ∈ (cutLines f.content).1, ∃ p,
        Json.decodeBytes Record.Parts.decode line = .ok p ∧ p.Makes r := by
  refine ⟨?_, ?_, ?_, ?_, Record.guarded, ?_, ?_⟩
  · exact ⟨Quantity.checks.decodeBytes, fun _ => Quantity.exists_ofDecimal_iff,
      fun _ q _ => q.value_valid⟩
  · exact ⟨Move.checks.decodeBytes, fun _ => Move.Parts.exists_makes_iff,
      fun _ m _ => m.parts_valid⟩
  · exact ⟨Transaction.checks.decodeBytes, fun _ => Transaction.Parts.exists_makes_iff,
      fun _ t _ => t.parts_valid⟩
  · exact ⟨Envelope.checks.decodeBytes, fun _ => Envelope.Parts.exists_makes_iff,
      fun _ e _ => e.transaction.parts_valid⟩
  · intro f
    simp only [JournalFile.load_isOk_iff, isLegible_iff, Record.guarded.isOk_iff]
  · intro f x hload r hr
    obtain ⟨line, hline, hrecord⟩ :=
      List.mem_filterMap.mp (JournalFile.mem_recorded_of_load hload r hr)
    exact ⟨line, hline,
      (Record.guarded.reads line r).mp (recordOfLine?_eq_some_iff.mp hrecord).2⟩

/-! ## A sample file

  A record that nobody wrote in the canonical way. -/

namespace Sample

/-- A transfer of 1.50, and its times. -/
def oddParts : Record.Parts where
  sequence := 7
  envelope := ⟨.epoch, .epoch, "first", .epoch,
    [⟨"alice", "bob", "EUR", ⟨false, 150, 2, by decide, by decide⟩, "contract"⟩]⟩

/-- Lists in place of records, the fields in another order, and one that nobody knows. -/
def oddTree : Json.Value :=
  Json.ofList [Json.ofNat 7, Json.ofFields [
    ("payload", Json.ofFields [("note", .null),
      ("moves", Json.ofList [Json.ofList
        [.text "alice", .text "bob", .text "EUR", .text "1.50", .text "contract"]]),
      ("timestamp", Json.Canonical.encode Instant.epoch), ("id", .text "first")]),
    ("knowledge_time", Json.Canonical.encode Instant.epoch),
    ("event_time", Json.Canonical.encode Instant.epoch)]]

/-- Its text. -/
def oddLine : List UInt8 := Text.Utf8.encode (Json.write oddTree).toList

/-- A file of this one line. -/
def oddFile : JournalFile := ⟨.regular (oddLine ++ [Record.newline]), 0⟩

theorem regular_oddTree : oddTree.Regular := by
  refine ⟨Json.regular_ofNat 7, ?_, trivial⟩
  simp only [Json.Canonical.encode, Json.ofFields, Json.ofList, List.foldr, Json.Value.Regular,
    Json.Items.Regular, Json.Fields.Regular, and_self]

end Sample

open Sample

/-- The file is opened, and its record is made of these parts. -/
theorem decoding_constructs_odd :
    ∃ x, oddFile.load.1 = .ok x ∧ ∀ r ∈ x.records, oddParts.Makes r := by
  have hcut : cutLines oddFile.content = ([oddLine], []) := by
    have hlines : ∀ line ∈ [oddLine], Record.newline ∉ line :=
      List.forall_mem_singleton.mpr (Json.newline_not_mem_write regular_oddTree)
    have hcut := cutLines_joinLines hlines (List.not_mem_nil : Record.newline ∉ [])
    rwa [joinLines_singleton, List.append_nil] at hcut
  have hparts : Json.decodeBytes Record.Parts.decode oddLine = .ok oddParts := by
    rw [Json.decodeBytes_eq_ok_iff, oddLine, Json.readBytes_write regular_oddTree]
    decide +kernel
  have hvalid : oddParts.envelope.transaction.Valid Decimal.Positive := by
    refine ⟨by decide, by decide, ?_⟩
    intro m hm
    rw [List.mem_singleton.mp hm]
    exact ⟨by decide, by decide, by decide, by decide, by decide⟩
  obtain ⟨-, -, -, -, -, hopened, hbuilt⟩ := decoding_constructs
  obtain ⟨x, hx⟩ : ∃ x, oddFile.load.1 = .ok x := by
    refine (hopened oddFile).mpr ⟨JournalFile.regular_usable _, ?_⟩
    rw [hcut]
    exact List.forall_mem_singleton.mpr (Or.inr ⟨oddParts, hparts, hvalid⟩)
  refine ⟨x, hx, ?_⟩
  intro r hr
  obtain ⟨line, hline, p, hp, hmakes⟩ := hbuilt oddFile x hx r hr
  rw [hcut] at hline
  obtain rfl := List.mem_singleton.mp hline
  obtain rfl := Except.ok.inj (hparts.symm.trans hp)
  exact hmakes

end Subledger
