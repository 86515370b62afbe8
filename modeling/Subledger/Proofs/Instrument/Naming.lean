/-
  NAMES OF EVENTS: when two events of instruments share the name of a transaction.

  A name is the kind of the event, its contract and, for some kinds, its trimmed reference, joined by
  colons.  The kinds have no colon in them, but the two others may.

  1. **The name** (`Event.build_id`) — every builder that succeeds gives its transaction the name that
     kind, contract and reference make.
  2. **The crux** (`append_cons_eq_append_cons_iff`) — two texts that are joined at a character agree
     if their parts do, or if one of them is joined at a later place of the other's character.
  3. **The result** (`Event.same_id_iff`) — so events share a name if they agree in all three, or if
     the contract of one goes on, behind a colon, with a text that the reference of the other begins
     with.
-/
import Subledger.Instrument.Cds
import Subledger.Instrument.Collateral
import Subledger.Instrument.Equity
import Subledger.Instrument.Fx
import Subledger.Instrument.Swaption
import Subledger.Proofs.Except
import Subledger.Proofs.Ledger.Run

namespace Subledger

/-- Two texts that are joined at a character are the same if their parts are, or if the first part
    of one goes on, behind that character, with a text that the second part of the other begins
    with. -/
theorem append_cons_eq_append_cons_iff {α : Type} {c : α} {xs ys xs' ys' : List α} :
    xs ++ c :: ys = xs' ++ c :: ys' ↔ (xs = xs' ∧ ys = ys') ∨
      (∃ ws, xs' = xs ++ c :: ws ∧ ys = ws ++ c :: ys') ∨
      ∃ ws, xs = xs' ++ c :: ws ∧ ys' = ws ++ c :: ys := by
  constructor
  · intro h
    rcases List.append_eq_append_iff.mp h with ⟨ws, hxs, hys⟩ | ⟨ws, hxs, hys⟩
    · cases ws with
      | nil =>
        obtain rfl := (List.cons.inj hys).2
        exact Or.inl ⟨by rw [hxs, List.append_nil], rfl⟩
      | cons w ws =>
        obtain ⟨rfl, rfl⟩ := List.cons.inj hys
        exact Or.inr (Or.inl ⟨ws, hxs, rfl⟩)
    · cases ws with
      | nil =>
        obtain rfl := (List.cons.inj hys).2
        exact Or.inl ⟨by rw [hxs, List.append_nil], rfl⟩
      | cons w ws =>
        obtain ⟨rfl, rfl⟩ := List.cons.inj hys
        exact Or.inr (Or.inr ⟨ws, hxs, rfl⟩)
  · rintro (⟨rfl, rfl⟩ | ⟨ws, rfl, rfl⟩ | ⟨ws, rfl, rfl⟩)
    · rfl
    · simp
    · simp

/-- An event that a builder makes a transaction of. -/
inductive Event where
  | equity (t : EquityTrade)
  | fx (d : FxSpot)
  | premium (p : PremiumPayment)
  | post (t : CollateralTransfer)
  | giveBack (t : CollateralTransfer)
  | opening (t : SwaptionOpen)
  | exercise (e : SwaptionExercise)
  deriving DecidableEq

namespace Event

/-- The transaction of an event. -/
def build : Event → Except BuildError Transaction
  | .equity t => t.settle
  | .fx d => d.settle
  | .premium p => p.pay
  | .post t => t.post
  | .giveBack t => t.giveBack
  | .opening t => t.mint
  | .exercise e => e.burn

/-- What the name of its transaction begins with; another word for each builder. -/
def kind : Event → String
  | .equity _ => "equity-settle"
  | .fx _ => "fx-spot"
  | .premium _ => "cds-premium"
  | .post _ => "collateral-post"
  | .giveBack _ => "collateral-return"
  | .opening _ => "swaption-open"
  | .exercise _ => "swaption-exercise"

/-- The contract, trade, deal or agreement that it belongs to. -/
def contract : Event → ContractId
  | .equity t => t.trade
  | .fx d => d.deal
  | .premium p => p.contract
  | .post t => t.agreement
  | .giveBack t => t.agreement
  | .opening t => t.contract
  | .exercise e => e.contract

/-- The reference that was given for it, where a contract has many events of its kind. -/
def given : Event → Option String
  | .premium p => some p.period
  | .post t => some t.reference
  | .giveBack t => some t.reference
  | _ => none

/-- Its reference, without white space around it. -/
def reference (e : Event) : Option String := e.given.map Text.trimmed

/-! ## The name

  The seven builders make a name in two ways, with a reference and without one.  An event has what
  is given for its name, so one definition does for all of them. -/

/-- The name that kind, contract and reference make. -/
def id (e : Event) : Except BuildError TransactionId :=
  match e.given with
  | none => Instrument.eventId e.kind e.contract
  | some reference => Instrument.referencedId e.kind e.contract reference

/-- The last two steps of every builder: the transaction has the name that was made for it. -/
theorem named {i : Except BuildError TransactionId} {time : Instant} {moves : List Move}
    {t : Transaction} (h : (i >>= fun i => Instrument.transaction i time moves) = .ok t) :
    i = .ok t.id := by
  obtain ⟨i, rfl, htransaction⟩ := bind_eq_ok.mp h
  rw [Instrument.transaction, mapError_eq_ok, Transaction.ofMoves] at htransaction
  split at htransaction
  · obtain rfl := Except.ok.inj htransaction
    rfl
  · exact nomatch htransaction

/-- A transfer of collateral is named after its agreement and reference. -/
theorem moved_id {c : CollateralTransfer} {word : String} {source destination : AccountId}
    {t : Transaction} (h : c.moved word source destination = .ok t) :
    Instrument.referencedId word c.agreement c.reference = .ok t.id := by
  obtain ⟨amount, -, h⟩ := bind_eq_ok.mp h
  obtain ⟨-, -, h⟩ := bind_eq_ok.mp h
  exact named h

/-- A builder that succeeds names its transaction by the event. -/
theorem build_id {e : Event} {t : Transaction} (h : e.build = .ok t) : e.id = .ok t.id := by
  -- each builder is taken apart step by step until its last two, and only these name anything
  cases e with
  | equity trade =>
    obtain ⟨shares, -, h⟩ := bind_eq_ok.mp h
    obtain ⟨price, -, h⟩ := bind_eq_ok.mp h
    obtain ⟨due, -, h⟩ := bind_eq_ok.mp h
    obtain ⟨paid, -, h⟩ := bind_eq_ok.mp h
    obtain ⟨-, -, h⟩ := bind_eq_ok.mp h
    obtain ⟨-, -, h⟩ := bind_eq_ok.mp h
    exact named h
  | fx deal =>
    simp only [build, FxSpot.settle] at h
    split at h
    · exact nomatch h
    · obtain ⟨sold, -, h⟩ := bind_eq_ok.mp h
      obtain ⟨rate, -, h⟩ := bind_eq_ok.mp h
      obtain ⟨due, -, h⟩ := bind_eq_ok.mp h
      obtain ⟨bought, -, h⟩ := bind_eq_ok.mp h
      obtain ⟨-, -, h⟩ := bind_eq_ok.mp h
      exact named h
  | premium payment =>
    obtain ⟨notional, -, h⟩ := bind_eq_ok.mp h
    obtain ⟨spread, -, h⟩ := bind_eq_ok.mp h
    obtain ⟨fraction, -, h⟩ := bind_eq_ok.mp h
    obtain ⟨due, -, h⟩ := bind_eq_ok.mp h
    obtain ⟨paid, -, h⟩ := bind_eq_ok.mp h
    obtain ⟨-, -, h⟩ := bind_eq_ok.mp h
    exact named h
  | post transfer => exact moved_id h
  | giveBack transfer => exact moved_id h
  | opening trade =>
    obtain ⟨contracts, -, h⟩ := bind_eq_ok.mp h
    obtain ⟨premium, -, h⟩ := bind_eq_ok.mp h
    obtain ⟨-, -, h⟩ := bind_eq_ok.mp h
    obtain ⟨-, -, h⟩ := bind_eq_ok.mp h
    obtain ⟨token, -, h⟩ := bind_eq_ok.mp h
    exact named h
  | exercise event =>
    obtain ⟨contracts, -, h⟩ := bind_eq_ok.mp h
    split at h
    · exact nomatch h
    · obtain ⟨-, -, h⟩ := bind_eq_ok.mp h
      obtain ⟨-, -, h⟩ := bind_eq_ok.mp h
      obtain ⟨token, -, h⟩ := bind_eq_ok.mp h
      obtain ⟨owed, -, h⟩ := bind_eq_ok.mp h
      exact named h

/-! ## What the name says

  A name is taken apart from the left: the kind ends at the first colon.  Where the contract ends is
  not said. -/

/-- What stands behind the kind in a name. -/
def rest (e : Event) : List Char :=
  match e.reference with
  | none => e.contract.text.toList
  | some reference => e.contract.text.toList ++ ':' :: reference.toList

/-- A name begins with its kind and a colon. -/
theorem text_of_id {e : Event} {i : TransactionId} (h : e.id = .ok i) :
    i.text.toList = e.kind.toList ++ ':' :: e.rest := by
  unfold id at h
  cases hgiven : e.given with
  | none =>
    simp only [hgiven, Instrument.eventId, mapError_eq_ok, Ident.ofText_eq_ok_iff] at h
    rw [h, rest, reference, hgiven]
    simp [toString]
  | some given =>
    simp only [hgiven, Instrument.referencedId] at h
    split at h
    · exact nomatch h
    · rw [mapError_eq_ok, Ident.ofText_eq_ok_iff] at h
      rw [h, rest, reference, hgiven]
      simp [toString]

/-- No kind has a colon in it. -/
theorem colon_notMem_kind (e : Event) : ':' ∉ e.kind.toList := by
  cases e <;> simp [kind]

/-- A name is cut at its first colon. -/
theorem id_eq_iff {a b : Event} {i j : TransactionId} (hi : a.id = .ok i) (hj : b.id = .ok j) :
    i = j ↔ a.kind = b.kind ∧ a.rest = b.rest := by
  have htext : i = j ↔ i.text.toList = j.text.toList :=
    ⟨fun h => h ▸ rfl, fun h => Ident.ext_text (String.toList_inj.mp h)⟩
  rw [htext, text_of_id hi, text_of_id hj, append_cons_eq_append_cons_iff, String.toList_inj]
  constructor
  · rintro (hsame | ⟨ws, hkind, -⟩ | ⟨ws, hkind, -⟩)
    · exact hsame
    · exact absurd (hkind ▸ List.mem_append_right _ List.mem_cons_self) b.colon_notMem_kind
    · exact absurd (hkind ▸ List.mem_append_right _ List.mem_cons_self) a.colon_notMem_kind
  · intro hsame
    exact Or.inl hsame

/-- The kind decides whether there is a reference. -/
theorem isSome_reference (e : Event) : e.reference.isSome
    = ["cds-premium", "collateral-post", "collateral-return"].contains e.kind := by
  cases e <;> rfl

/-- The contract of `b` is that of `a`, a colon and more; and the reference of `a` is this more, a
    colon and the reference of `b`. -/
def Shifts (a b : Event) : Prop :=
  ∃ more reference, b.contract.text = a.contract.text ++ ":" ++ more ∧
    a.reference = some (more ++ ":" ++ reference) ∧ b.reference = some reference

/-- To be shifted is to have the contract of the other, a colon and more, with the rest taken from
    the reference. -/
theorem shifts_iff {a b : Event} {x y : String} (ha : a.reference = some x)
    (hb : b.reference = some y) : a.Shifts b ↔
      ∃ ws, b.contract.text.toList = a.contract.text.toList ++ ':' :: ws ∧
        x.toList = ws ++ ':' :: y.toList := by
  rw [Shifts, ha, hb]
  constructor
  · rintro ⟨more, reference, hcontract, hx, hy⟩
    obtain rfl := Option.some.inj hx
    obtain rfl := Option.some.inj hy
    exact ⟨more.toList, by simp [hcontract], by simp⟩
  · rintro ⟨ws, hcontract, hx⟩
    refine ⟨String.ofList ws, y, ?_, ?_, rfl⟩
    · rw [← String.toList_inj, hcontract]
      simp
    · rw [Option.some.injEq, ← String.toList_inj, hx]
      simp

/-- The texts behind the kind agree if the parts do, or if one is shifted against the other. -/
theorem rest_eq_iff {a b : Event} (hkind : a.kind = b.kind) : a.rest = b.rest ↔
    (a.contract = b.contract ∧ a.reference = b.reference) ∨ a.Shifts b ∨ b.Shifts a := by
  have hcontract : a.contract.text.toList = b.contract.text.toList ↔ a.contract = b.contract :=
    ⟨fun h => Ident.ext_text (String.toList_inj.mp h), fun h => h ▸ rfl⟩
  have hsome : a.reference.isSome = b.reference.isSome := by
    rw [isSome_reference, isSome_reference, hkind]
  rw [rest, rest]
  cases ha : a.reference with
  | none =>
    cases hb : b.reference with
    | none => simp [Shifts, ha, hb, hcontract]
    | some y => simp [ha, hb] at hsome
  | some x =>
    cases hb : b.reference with
    | none => simp [ha, hb] at hsome
    | some y =>
      dsimp only
      rw [append_cons_eq_append_cons_iff, ← shifts_iff ha hb, ← shifts_iff hb ha, hcontract,
        String.toList_inj, Option.some.injEq]

/-! ## The result

  Two names agree if the texts behind the kind do, which is the lemma about joined texts. -/

/-- Where a name is shifted, one of the contracts and one of the references have a colon. -/
theorem Shifts.colons {a b : Event} (h : a.Shifts b) : ':' ∈ b.contract.text.toList ∧
    ∃ r, a.reference = some r ∧ ':' ∈ r.toList := by
  obtain ⟨more, reference, hcontract, ha, -⟩ := h
  refine ⟨by simp [hcontract], _, ha, by simp⟩

/-- **When two events share the name of their transactions.**  Let the builders accept both.

    * They share it exactly if they are of one kind and have one contract and one reference, or if
      they are of one kind and a colon that joins contract and reference in one of them stands
      within the contract of the other.
    * So it is only the same in all three that share a name, if no contract has a colon in it, or no
      reference has.
    * A book that has just applied the one transaction, and did not know the other, takes the other
      for applied exactly if they share a name. -/
theorem same_id_iff {a b : Event} {s t : Transaction} (hs : a.build = .ok s)
    (ht : b.build = .ok t) :
    (s.id = t.id ↔ a.kind = b.kind ∧
      ((a.contract = b.contract ∧ a.reference = b.reference) ∨ a.Shifts b ∨ b.Shifts a)) ∧
    ((':' ∉ a.contract.text.toList ∧ ':' ∉ b.contract.text.toList) ∨
        (∀ r, a.reference = some r ∨ b.reference = some r → ':' ∉ r.toList) →
      (s.id = t.id ↔ a.kind = b.kind ∧ a.contract = b.contract ∧ a.reference = b.reference)) ∧
    ∀ book book' : Book, book.execute s = .ok (.applied, book') → t.id ∉ book.applied →
      (book'.execute t = .ok (.alreadyApplied, book') ↔ s.id = t.id) := by
  have hshared : s.id = t.id ↔ a.kind = b.kind ∧
      ((a.contract = b.contract ∧ a.reference = b.reference) ∨ a.Shifts b ∨ b.Shifts a) := by
    rw [id_eq_iff (build_id hs) (build_id ht)]
    exact and_congr_right fun hkind => rest_eq_iff hkind
  refine ⟨hshared, ?_, ?_⟩
  · intro hplain
    have hnot : ¬ a.Shifts b ∧ ¬ b.Shifts a := by
      rcases hplain with ⟨ha, hb⟩ | hreferences
      · exact ⟨fun h => hb h.colons.1, fun h => ha h.colons.1⟩
      · constructor
        · intro h
          obtain ⟨-, r, hr, hcolon⟩ := h.colons
          exact hreferences r (Or.inl hr) hcolon
        · intro h
          obtain ⟨-, r, hr, hcolon⟩ := h.colons
          exact hreferences r (Or.inr hr) hcolon
    rw [hshared, or_iff_left (not_or.mpr hnot)]
  · intro book book' happlies hnew
    obtain ⟨-, -, balances, -, rfl⟩ := Book.execute_applied_iff.mp happlies
    rw [Book.execute_alreadyApplied_iff, Book.isApplied, List.contains_iff_mem, List.mem_cons,
      or_iff_left hnew, eq_comm]
    exact and_iff_left rfl

end Event

/-! ## A payment that is swallowed -/

namespace Sample

/-- A premium of eight euros. -/
def premium (contract : ContractId) (period : String) (buyer seller : AccountId) : Event :=
  .premium ⟨contract, period, .epoch, buyer, seller, euro, two.value, two.value, two.value⟩

/-- A contract of a short name, and a period with a colon in it. -/
def shortContract : Event := premium ⟨"CDS", by decide⟩ "9:2024Q1" alice bob

/-- A contract with a colon in its name. -/
def longContract : Event := premium ⟨"CDS:9", by decide⟩ "2024Q1" carol dave

end Sample

/-- Both are named `cds-premium:CDS:9:2024Q1`. -/
theorem Event.same_id_iff_shifted : ∃ s t, Sample.shortContract.build = .ok s ∧
    Sample.longContract.build = .ok t ∧ s.id = t.id := by
  obtain ⟨s, hs⟩ : ∃ s, Sample.shortContract.build = .ok s := ⟨_, rfl⟩
  obtain ⟨t, ht⟩ : ∃ t, Sample.longContract.build = .ok t := ⟨_, rfl⟩
  obtain ⟨hshared, -, -⟩ := Event.same_id_iff hs ht
  have hshifts : Sample.shortContract.Shifts Sample.longContract :=
    ⟨"9", "2024Q1", by decide, by decide, by decide⟩
  exact ⟨s, t, hs, ht, hshared.mpr ⟨rfl, Or.inr (Or.inl hshifts)⟩⟩

/-- Not all events that share a name are of one contract and one reference. -/
theorem Event.same_id_of_other_contract :
    ¬ ∀ (a b : Event) (s t : Transaction), a.build = .ok s → b.build = .ok t → s.id = t.id →
      a.kind = b.kind ∧ a.contract = b.contract ∧ a.reference = b.reference := by
  intro h
  obtain ⟨s, hs⟩ : ∃ s, Sample.shortContract.build = .ok s := ⟨_, rfl⟩
  obtain ⟨t, ht⟩ : ∃ t, Sample.longContract.build = .ok t := ⟨_, rfl⟩
  have hshared : s.id = t.id := by
    obtain rfl := Except.ok.inj hs
    obtain rfl := Except.ok.inj ht
    decide
  obtain ⟨-, hcontract, -⟩ := h _ _ s t hs ht hshared
  exact absurd hcontract (by decide)

end Subledger
