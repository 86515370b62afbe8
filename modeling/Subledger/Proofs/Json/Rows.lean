/-
  RECORDS, WRITTEN AND READ: what a row of fields decodes from the named values it was written as.

  1. **Rows** (`Row.Spells`) — the named values of a record stand in the order of declaration, each a
     tree that can be written and that its field decodes.  Reading by names finds them all
     (`Row.Spells.decode_ofFields`): filling the draft of a row is filling the first field and then
     the draft of the others (`fill_of_not_named`).
  2. **Canonical values** (`Spells`) — the tree of `a` decodes as `b`.  From there to bytes is one
     step for all types (`Spells.parseBytes_eq`).
-/
import Mathlib
import Subledger.Json.Decode
import Subledger.Proofs.Except
import Subledger.Proofs.Json.RoundTrip

namespace Subledger.Json

open Subledger.Text

theorem regular_ofNat (n : Nat) : (ofNat n).Regular := ⟨n, rfl⟩

theorem natural_ofNat {n : Nat} (h : n ≤ Number.maxNatural) : natural (ofNat n) = .ok n := by
  rw [ofNat, natural, Number.held_ofNat h]

/-- A text that a check turns into the value. -/
theorem checked_text {α : Type} {check : String → Except String α} {s : String} {a : α}
    (h : check s = .ok a) : checked check (.text s) = .ok a := by
  rw [checked, show string (.text s) = .ok s from rfl]
  dsimp only [bind, Except.bind]
  rw [h]

/-- A text that is a code of a list. -/
theorem code_text {α : Type} {find : String → Option α} {s : String} {a : α}
    (h : find s = some a) : code find (.text s) = .ok a := by
  rw [code, h]

/-! ## Rows

  A row is read in any order of its names: each field fills its place in a draft, and the draft must
  be full in the end.  The writer has one order, that of the row, so the round trip is an induction
  over the row. -/

/-- Named values as the fields of a record. -/
def fieldsOf (fs : List (String × Value)) : Fields :=
  fs.foldr (fun f rest => .field f.1 f.2 rest) .close

namespace Row

/-- Named values that spell a record: in the order of declaration, each as its field decodes it. -/
inductive Spells : {α : Type} → Row α → List (String × Value) → α → Prop where
  | done : Spells .done [] ()
  | field {α β : Type} {name : String} {decode : Decoder α} {absent : Option α} {rest : Row β}
      {v : Value} {a : α} {fs : List (String × Value)} {b : β} (regular : v.Regular)
      (decoded : decode v = .ok a) (more : Spells rest fs b) :
      Spells (.field name decode absent rest) ((name, v) :: fs) (a, b)

/-- The names of the fields. -/
def names : {α : Type} → Row α → List String
  | _, .done => []
  | _, .field name _ _ rest => name :: rest.names

/-- The draft in which every field of a record is met. -/
def full : {α : Type} → (r : Row α) → α → r.Draft
  | _, .done, _ => ()
  | _, .field _ _ _ rest, a => (some a.1, rest.full a.2)

theorem finish_full {α : Type} (r : Row α) (a : α) : r.finish (r.full a) = .ok a := by
  induction r with
  | done => rfl
  | field name decode absent rest ih =>
    show (rest.finish (rest.full a.2)).map (fun b => (a.1, b)) = _
    rw [ih]
    rfl

/-- Fields of other names pass the first field of a row by. -/
theorem fill_of_not_named {α β : Type} {name : String} {decode : Decoder α} {absent : Option α}
    {rest : Row β} {fs : List (String × Value)} (h : name ∉ fs.map Prod.fst) (x : Option α)
    (d : rest.Draft) :
    (Row.field name decode absent rest).fill (x, d) (fieldsOf fs)
      = (rest.fill d (fieldsOf fs)).map fun more => (x, more) := by
  induction fs generalizing d with
  | nil => rfl
  | cons f fs ih =>
    rw [List.map_cons, List.mem_cons, not_or] at h
    have hput : (Row.field name decode absent rest).put f.1 f.2 (x, d)
        = (rest.put f.1 f.2 d).map fun more => (x, more) := if_neg fun hname => h.1 hname.symm
    show ((Row.field name decode absent rest).put f.1 f.2 (x, d) >>= fun d =>
      (Row.field name decode absent rest).fill d (fieldsOf fs)) = _
    rw [hput]
    show _ = ((rest.put f.1 f.2 d >>= fun d => rest.fill d (fieldsOf fs))).map _
    cases rest.put f.1 f.2 d with
    | error e => rfl
    | ok d' => exact ih h.2 d'

/-- Named values that spell a record have its names, in its order. -/
theorem Spells.names_eq {α : Type} {r : Row α} {fs : List (String × Value)} {a : α}
    (h : r.Spells fs a) : fs.map Prod.fst = r.names := by
  induction h with
  | done => rfl
  | field _ _ _ ih => rw [List.map_cons, ih, names]

/-- Every field is met. -/
theorem Spells.fill {α : Type} {r : Row α} {fs : List (String × Value)} {a : α}
    (h : r.Spells fs a) (hnames : r.names.Nodup) :
    r.fill r.blank (fieldsOf fs) = .ok (r.full a) := by
  induction h with
  | done => rfl
  | @field α β name decode absent rest v a fs b regular decoded more ih =>
    rw [names, List.nodup_cons, ← more.names_eq] at hnames
    have hput : (Row.field name decode absent rest).put name v (none, rest.blank)
        = .ok (some a, rest.blank) := by
      refine (if_pos rfl).trans ?_
      show (decode v).map (fun a => (some a, rest.blank)) = _
      rw [decoded]
      rfl
    show ((Row.field name decode absent rest).put name v (none, rest.blank) >>= fun d =>
      (Row.field name decode absent rest).fill d (fieldsOf fs)) = _
    rw [hput]
    show (Row.field name decode absent rest).fill (some a, rest.blank) (fieldsOf fs) = _
    rw [fill_of_not_named hnames.1, ih (more.names_eq ▸ hnames.2)]
    rfl

/-- **A record is read back** from its named values. -/
theorem Spells.decode_ofFields {α : Type} {r : Row α} {fs : List (String × Value)} {a : α}
    (h : r.Spells fs a) (hnames : r.names.Nodup) : r.decode (ofFields fs) = .ok a := by
  show (r.fill r.blank (fieldsOf fs) >>= fun d => r.finish d) = _
  rw [h.fill hnames]
  exact r.finish_full a

/-- The tree of a record that was spelled can be written. -/
theorem Spells.regular_ofFields {α : Type} {r : Row α} {fs : List (String × Value)} {a : α}
    (h : r.Spells fs a) : (ofFields fs).Regular := by
  show (fieldsOf fs).Regular
  induction h with
  | done => trivial
  | field regular _ _ ih => exact ⟨regular, ih⟩

end Row

/-! ## What is decoded

  The other way: whatever tree a record was decoded from, each of its fields was decoded by its own
  decoder, or was absent and had a value for that. -/

namespace Row

/-- Every field of a record was decoded from some tree, or has the value for when it is absent. -/
def Decoded : {α : Type} → Row α → α → Prop
  | _, .done, _ => True
  | _, .field _ decode absent rest, a =>
    ((∃ v, decode v = .ok a.1) ∨ absent = some a.1) ∧ rest.Decoded a.2

/-- Every field met so far was decoded from some tree. -/
def DraftDecoded : {α : Type} → (r : Row α) → r.Draft → Prop
  | _, .done, _ => True
  | _, .field _ decode _ rest, d => (∀ a ∈ d.1, ∃ v, decode v = .ok a) ∧ rest.DraftDecoded d.2

/-- A draft that is empty has no field that was not decoded. -/
theorem draftDecoded_blank {α : Type} (r : Row α) : r.DraftDecoded r.blank := by
  induction r with
  | done => trivial
  | field name decode absent rest ih => exact ⟨fun a ha => absurd ha (Option.not_mem_none a), ih⟩

/-- Filling one place keeps this of all places. -/
theorem DraftDecoded.put {α : Type} {r : Row α} {d d' : r.Draft} {k : String} {v : Value}
    (h : r.DraftDecoded d) (hput : r.put k v d = .ok d') : r.DraftDecoded d' := by
  induction r with
  | done => trivial
  | field name decode absent rest ih =>
    rw [Row.put] at hput
    split at hput
    · split at hput
      · cases hput
      · obtain ⟨a, hv, rfl⟩ := map_eq_ok.mp hput
        exact ⟨fun b hb => ⟨v, Option.some.inj hb ▸ hv⟩, h.2⟩
    · obtain ⟨more, hmore, rfl⟩ := map_eq_ok.mp hput
      exact ⟨h.1, ih h.2 hmore⟩

/-- So does filling the places of any fields, in any order. -/
theorem DraftDecoded.fill {α : Type} {r : Row α} : ∀ {fs : Fields} {d d' : r.Draft},
    r.DraftDecoded d → r.fill d fs = .ok d' → r.DraftDecoded d'
  | .close, _, _, h, hfill => Except.ok.inj hfill ▸ h
  | .field name v more, d, d', h, hfill => by
    rw [Row.fill] at hfill
    obtain ⟨d₁, hput, hmore⟩ := bind_eq_ok.mp hfill
    exact (h.put hput).fill hmore

/-- A full draft is a record all of whose fields were decoded. -/
theorem DraftDecoded.finish {α : Type} {r : Row α} {d : r.Draft} {a : α} (h : r.DraftDecoded d)
    (hfinish : r.finish d = .ok a) : r.Decoded a := by
  induction r with
  | done => trivial
  | field name decode absent rest ih =>
    rw [Row.finish] at hfinish
    split at hfinish
    · rename_i b hb
      obtain ⟨c, hrest, rfl⟩ := map_eq_ok.mp hfinish
      refine ⟨?_, ih h.2 hrest⟩
      cases hd : d.1 with
      | none =>
        rw [hd] at hb
        exact Or.inr hb
      | some x =>
        rw [hd] at hb
        exact Or.inl (h.1 b (hd.trans hb))
    · cases hfinish

/-- Of a record that is read from a list of values, without names, the same holds. -/
theorem decoded_of_ofItems {α : Type} {r : Row α} {is : Items} {a : α}
    (h : r.ofItems is = .ok a) : r.Decoded a := by
  induction r generalizing is with
  | done => trivial
  | field name decode absent rest ih =>
    cases is with
    | fault => cases h
    | close =>
      cases absent with
      | none => cases h
      | some b =>
        obtain ⟨c, hrest, rfl⟩ := map_eq_ok.mp h
        exact ⟨Or.inr rfl, ih hrest⟩
    | item v more =>
      obtain ⟨b, hv, hmore⟩ := bind_eq_ok.mp h
      obtain ⟨c, hrest, hpair⟩ := bind_eq_ok.mp hmore
      obtain rfl := Except.ok.inj hpair
      exact ⟨Or.inl ⟨v, hv⟩, ih hrest⟩

/-- **No field of a record that was read is made up.** -/
theorem decoded_of_decode {α : Type} {r : Row α} {v : Value} {a : α} (h : r.decode v = .ok a) :
    r.Decoded a := by
  unfold Row.decode at h
  split at h
  · obtain ⟨d, hfill, hfinish⟩ := bind_eq_ok.mp h
    exact (r.draftDecoded_blank.fill hfill).finish hfinish
  · exact decoded_of_ofItems h
  · cases h

end Row

/-- A document is decoded if its tree is, and nothing follows it. -/
theorem decodeBytes_eq_ok_iff {α : Type} {d : Decoder α} {bs : List UInt8} {a : α} :
    decodeBytes d bs = .ok a ↔ d (readBytes bs).value = .ok a ∧ (readBytes bs).ends = true := by
  rw [decodeBytes, Document.decode]
  cases d (readBytes bs).value with
  | error e => exact iff_of_false nofun (fun h => nomatch h.1)
  | ok b =>
    cases (readBytes bs).ends with
    | false => exact iff_of_false nofun (fun h => nomatch h.2)
    | true => exact ⟨fun h => ⟨h, rfl⟩, fun h => h.1⟩

/-! ## Canonical values

  A value may come back as another, a decimal in normal form.  The round trip is stated with both,
  and says more where they are equal. -/

/-- The tree of `a` can be written, and decodes as `b`. -/
structure Spells {α : Type} [Canonical α] (a b : α) : Prop where
  regular : (Canonical.encode a).Regular
  decoded : Canonical.decode (Canonical.encode a) = .ok b

section Canonical

variable {α β : Type} [Canonical α] {a b : α}

/-- The canonical bytes of a value are those of its characters. -/
theorem canonicalBytes_eq (a : α) :
    canonicalBytes a = Utf8.encode (writeValue (Canonical.encode a)) := by
  rw [canonicalBytes, canonical, write, String.toList_ofList]

/-- A value is read back from its canonical text. -/
theorem Spells.parse_eq (h : Spells a b) : parse (canonical a) = .ok b := by
  rw [parse, decodeText, canonical, read_write h.regular, Document.decode, h.decoded]
  rfl

/-- **A value is read back from its canonical bytes.** -/
theorem Spells.parseBytes_eq (h : Spells a b) : parseBytes (canonicalBytes a) = .ok b := by
  rw [parseBytes, decodeBytes, canonicalBytes, canonical, readBytes_write h.regular,
    Document.decode, h.decoded]
  rfl

/-- A field that holds a canonical value. -/
theorem Spells.field (h : Spells a b) (name : String) {rest : Row β} {fs : List (String × Value)}
    {c : β} (more : rest.Spells fs c) :
    (Row.required name Canonical.decode rest).Spells ((name, Canonical.encode a) :: fs) (b, c) :=
  .field h.regular h.decoded more

/-- A record is spelled as its row spells it. -/
theorem spells_of_row {γ : Type} {r : Row γ} {fs : List (String × Value)} {c : γ}
    (make : γ → Except Error α) (hencode : Canonical.encode a = ofFields fs)
    (hdecode : ∀ v, (Canonical.decode v : Except Error α) = r.decode v >>= make)
    (hnames : r.names.Nodup) (h : r.Spells fs c) (hmake : make c = .ok b) : Spells a b := by
  refine ⟨hencode ▸ h.regular_ofFields, ?_⟩
  rw [hdecode, hencode, h.decode_ofFields hnames]
  exact hmake

/-- A list can be written if each of its values can. -/
theorem regular_ofList (as : List α) (h : ∀ a ∈ as, (Canonical.encode a).Regular) :
    (ofList (as.map Canonical.encode)).Regular := by
  show ((as.map Canonical.encode).foldr Items.item .close).Regular
  induction as with
  | nil => trivial
  | cons a as ih =>
    exact ⟨h a List.mem_cons_self, ih fun b hb => h b (List.mem_cons_of_mem a hb)⟩

/-- A list is read back value by value. -/
theorem list_ofList {f : α → α} (as : List α) (h : ∀ a ∈ as, Spells a (f a)) :
    list Canonical.decode (ofList (as.map Canonical.encode)) = .ok (as.map f) := by
  show items Canonical.decode ((as.map Canonical.encode).foldr Items.item .close) = _
  induction as with
  | nil => rfl
  | cons a as ih =>
    have hrest := ih fun b hb => h b (List.mem_cons_of_mem a hb)
    show (Canonical.decode (Canonical.encode a) >>= fun a =>
      items Canonical.decode ((as.map Canonical.encode).foldr Items.item .close) >>= fun as =>
        pure (a :: as)) = _
    rw [(h a List.mem_cons_self).decoded, hrest]
    rfl

/-- A field that holds a list of canonical values. -/
theorem spells_list {f : α → α} {as : List α} (h : ∀ a ∈ as, Spells a (f a)) (name : String)
    {rest : Row β} {fs : List (String × Value)} {c : β} (more : rest.Spells fs c) :
    (Row.required name (list Canonical.decode) rest).Spells
      ((name, ofList (as.map Canonical.encode)) :: fs) (as.map f, c) :=
  .field (regular_ofList as fun a ha => (h a ha).regular) (list_ofList as h) more

end Canonical

end Subledger.Json
