/-
  UNGUARDED DECODERS: mappings and hashes are read as they stand.

  Names, quantities and transactions are read through their constructors.  A mapping and a hash are
  not: their decoders take any text, also one that the constructor refuses.

  1. **What gets in** (`decoding_enforced_iff`) — reading enforces the constructor of a mapping for the
     codes that are not blank, and of a hash for the texts of its form, and for nothing else: every
     other code and text has a document that is read.
  2. **What the program makes itself** — the mappings of a configuration are made by their constructor
     (`Config.glMappings_made`), a report has no other codes than its mappings
     (`GlReport.made_of_ofSnapshot`), and a digest has the form of a hash (`ContentHash.ofText_ofBytes`).
     So nothing that got in is printed.
-/
import Subledger.Proofs.Command.AsOf

namespace Subledger

/-! ## Mappings

  The constructor refuses a blank code; the decoder fills the fields. -/

namespace GlMapping

theorem spells (m : GlMapping) : Json.Spells m m :=
  Json.spells_of_row (r := row) (fun v => .ok ⟨v.1, v.2.1⟩) rfl (fun _ => rfl) (by decide)
    (.field trivial (show Json.string (.text m.code) = .ok m.code from rfl) <|
      (GlType.spells m.type).field "gl_account_type" .done) rfl

/-- The constructor makes this mapping. -/
def Made (m : GlMapping) : Prop := ofParts m.code m.type = .ok m

/-- What the constructor makes has a code that is not blank. -/
theorem made_of_ofParts {code : String} {type : GlType} {m : GlMapping}
    (h : ofParts code type = .ok m) : m.Made := by
  have hparts := h
  rw [ofParts] at hparts
  split at hparts
  · cases hparts
  · obtain rfl := Except.ok.inj hparts
    exact h

/-- And it makes exactly those. -/
theorem ofParts_eq_ok_iff {code : String} {type : GlType} :
    ofParts code type = .ok ⟨code, type⟩ ↔ Text.isBlank code = false := by
  rw [ofParts]
  cases Text.isBlank code with
  | true => exact iff_of_false error_ne_ok (by rintro ⟨⟩)
  | false => exact iff_of_true rfl rfl

end GlMapping

/-- The constructor makes the mappings of a setting. -/
theorem AccountSetting.glMapping_made {s : AccountSetting} {m : GlMapping}
    (h : s.glMapping = .ok (some m)) : m.Made := by
  unfold glMapping at h
  split at h
  · obtain ⟨g, hg, hsome⟩ := map_eq_ok.mp (mapError_eq_ok.mp h)
    obtain rfl := Option.some.inj hsome
    exact GlMapping.made_of_ofParts hg
  · cases h
  · cases h

/-- **The mappings of a configuration are made by their constructor.** -/
theorem Config.glMappings_made {c : Config} {mappings : GlMappings} (h : c.glMappings = .ok mappings) :
    ∀ id m, mappings.find? id = some m → m.Made := by
  apply foldlM_preserves (fun ms : GlMappings => ∀ id m, ms.find? id = some m → m.Made) ?_ ?_ h
  · intro ms s ms' hms hadd
    obtain ⟨found, hfound, hadd⟩ := bind_eq_ok.mp hadd
    cases found with
    | none => exact Except.ok.inj hadd ▸ hms
    | some g =>
      obtain rfl := Except.ok.inj hadd
      intro id m hm
      by_cases hid : id = s.account
      · rw [hid, Table.find?_insert_self] at hm
        exact Option.some.inj hm ▸ s.glMapping_made hfound
      · rw [Table.find?_insert_of_ne _ _ hid] at hm
        exact hms id m hm
  · intro id m hm
    cases hm

/-! ## Reports

  An entry of a report gets its code and class from the mapping of an account whose balance it
  holds, and from nowhere else. -/

/-- **A report has the codes and classes of its mappings**, so they are made as those are. -/
theorem GlReport.made_of_ofSnapshot {s : Snapshot} {mappings : GlMappings} {asOf : Instant}
    {r : GlReport} (h : ofSnapshot s mappings asOf = .ok r)
    (hmade : ∀ id m, mappings.find? id = some m → m.Made) :
    ∀ e ∈ r.entries, (⟨e.code, e.type⟩ : GlMapping).Made := by
  obtain ⟨g, hg, h⟩ := bind_eq_ok.mp h
  obtain ⟨totals, -, h⟩ := bind_eq_ok.mp h
  obtain rfl := Except.ok.inj h
  -- every key that a balance is booked on comes from a mapping
  have hkeys : ∀ k totals, g.find? k = some totals → (⟨k.code, k.type⟩ : GlMapping).Made := by
    apply foldlM_preserves (fun g : Table GlKey Totals => ∀ k totals, g.find? k = some totals →
      (⟨k.code, k.type⟩ : GlMapping).Made) ?_ ?_ hg
    · intro g e g' hbefore hgroup
      rw [group] at hgroup
      split at hgroup
      · exact Except.ok.inj hgroup ▸ hbefore
      · rename_i m hm
        dsimp only at hgroup
        split at hgroup
        · obtain rfl := Except.ok.inj hgroup
          intro k totals hk
          by_cases hkey : k = ⟨m.code, e.unit, m.type⟩
          · rw [hkey]
            exact hmade e.account m hm
          · rw [Table.find?_insert_of_ne _ _ hkey] at hk
            exact hbefore k totals hk
        · cases hgroup
    · intro k totals hk
      cases hk
  intro e he
  obtain ⟨⟨k, t⟩, hrow, rfl⟩ := List.mem_map.mp he
  exact hkeys k t (Table.mem_rows_iff.mp hrow)

/-! ## Hashes

  The constructor takes 64 lower-case hexadecimal digits; the decoder takes any text. -/

namespace Text.Hex

theorem isLowerDigit_digit : ∀ n, n < 16 → isLowerDigit (digit n) = true := by decide

/-- A digest of n bytes is written with two digits for each. -/
theorem length_ofBytes (bs : List UInt8) : (ofBytes bs).length = 2 * bs.length := by
  induction bs with
  | nil => rfl
  | cons b bs ih =>
    rw [ofBytes, List.flatMap_cons, List.length_append, ← ofBytes, ih, List.length_cons]
    show 2 + 2 * bs.length = 2 * (bs.length + 1)
    omega

/-- Digests are written in lower case, as the constructor wants them. -/
theorem all_ofBytes (bs : List UInt8) : (ofBytes bs).all isLowerDigit = true := by
  rw [ofBytes, List.all_flatMap, List.all_eq_true]
  intro b _
  have hb := b.toNat_lt
  have hhigh := isLowerDigit_digit (b.toNat / 16) (by omega)
  have hlow := isLowerDigit_digit (b.toNat % 16) (by omega)
  rw [List.all_cons, List.all_cons, hhigh, hlow]
  rfl

end Text.Hex

namespace ContentHash

theorem spells (h : ContentHash) : Json.Spells h h := ⟨trivial, rfl⟩

/-- Sixty-four hexadecimal digits, none of them a capital. -/
def IsForm (s : String) : Prop :=
  s.toList.length = 64 ∧ ∀ c ∈ s.toList, ('0' ≤ c ∧ c ≤ '9') ∨ ('a' ≤ c ∧ c ≤ 'f')

/-- The test for the form is the form. -/
theorem isWellFormed_iff {s : String} : isWellFormed s = true ↔ IsForm s := by
  simp only [isWellFormed, IsForm, Bool.and_eq_true, beq_iff_eq, List.all_eq_true,
    Text.Hex.isLowerDigit, Bool.or_eq_true, decide_eq_true_eq]

/-- The constructor takes exactly the texts of the form. -/
theorem ofText_eq_ok_iff {s : String} : ofText s = .ok ⟨s⟩ ↔ IsForm s := by
  rw [ofText, ← isWellFormed_iff]
  split
  · rename_i hform
    exact iff_of_true rfl hform
  · rename_i hnot
    exact iff_of_false error_ne_ok hnot

/-- **A digest has the form of a hash.** -/
theorem ofText_ofBytes (bs : List UInt8) : ofText (ofBytes bs).text = .ok (ofBytes bs) := by
  have hform : isWellFormed (ofBytes bs).text = true := by
    rw [isWellFormed, ofBytes, String.toList_ofList, Text.Hex.length_ofBytes,
      Digest.length_sha256, Text.Hex.all_ofBytes]
    rfl
  rw [ofText, if_pos hform]

end ContentHash

/-! ## The result

  Each of the two equivalences is one about the constructor: the decoder has a document for whatever
  code and text there is, so all of its documents are good only if the constructor takes the value
  itself. -/

/-- **When reading enforces the constructors.**  All documents of a code and a class are of one that the
    constructor makes exactly if the code is not blank, and all documents of a hash are of one that
    it accepts exactly if the text has the form of a hash.  The mappings of a configuration are made
    by their constructor in any case, and so are the codes and classes of a printed report and its
    hash. -/
theorem decoding_enforced_iff (code : String) (type : GlType) (text : String) (c : Config)
    (x : Index) (asOf : Option Instant) :
    ((∀ bs, Json.parseBytes bs = .ok (⟨code, type⟩ : GlMapping) →
      GlMapping.ofParts code type = .ok ⟨code, type⟩) ↔ Text.isBlank code = false) ∧
    ((∀ bs, Json.parseBytes bs = .ok (⟨text⟩ : ContentHash) →
      ContentHash.ofText text = .ok ⟨text⟩) ↔ ContentHash.IsForm text) ∧
    (∀ mappings, c.glMappings = .ok mappings →
      ∀ id m, mappings.find? id = some m → GlMapping.ofParts m.code m.type = .ok m) ∧
    ∀ s, Command.Statement.ofIndex c x asOf = .ok s →
      (∀ e ∈ s.report.entries, GlMapping.ofParts e.code e.type = .ok ⟨e.code, e.type⟩) ∧
      ContentHash.ofText s.hash.text = .ok s.hash := by
  refine ⟨?_, ?_, fun _ h => Config.glMappings_made h, ?_⟩
  · rw [← GlMapping.ofParts_eq_ok_iff]
    constructor
    · intro h
      exact h _ (GlMapping.spells ⟨code, type⟩).parseBytes_eq
    · intro h _ _
      exact h
  · rw [← ContentHash.ofText_eq_ok_iff]
    constructor
    · intro h
      exact h _ (ContentHash.spells ⟨text⟩).parseBytes_eq
    · intro h _ _
      exact h
  · intro s h
    rw [Command.Statement.ofIndex_eq] at h
    obtain ⟨R, -, h⟩ := bind_eq_ok.mp h
    obtain ⟨answer, -, h⟩ := bind_eq_ok.mp h
    obtain ⟨report, hbalances, rfl⟩ := Command.Statement.ofBook_eq_ok_iff.mp h
    obtain ⟨mappings, hmappings, hreport⟩ := hbalances.projected
    exact ⟨GlReport.made_of_ofSnapshot hreport (Config.glMappings_made hmappings),
      ContentHash.ofText_ofBytes _⟩

open Sample Command.Statement

/-- The document of a code and the one of the empty text, whose digest is a hash; a journal of one
    record is printed with codes that the constructor makes. -/
theorem decoding_enforced_iff_sample :
    (∃ bs, Json.parseBytes bs = .ok (⟨"1010", .asset⟩ : GlMapping) ∧
      GlMapping.ofParts "1010" .asset = .ok ⟨"1010", .asset⟩) ∧
    (∃ bs, Json.parseBytes bs = .ok (⟨(ContentHash.ofBytes []).text⟩ : ContentHash) ∧
      ContentHash.ofText (ContentHash.ofBytes []).text = .ok (ContentHash.ofBytes [])) ∧
    (∃ mappings, config.glMappings = .ok mappings ∧ mappings.size = 4 ∧
      ∀ id m, mappings.find? id = some m → GlMapping.ofParts m.code m.type = .ok m) ∧
    ∃ s, ofIndex config ⟨[⟨7, news⟩]⟩ none = .ok s ∧
      (∀ e ∈ s.report.entries, GlMapping.ofParts e.code e.type = .ok ⟨e.code, e.type⟩) ∧
      ContentHash.ofText s.hash.text = .ok s.hash := by
  obtain ⟨hcode, hhash, hmappings, hprinted⟩ :=
    decoding_enforced_iff "1010" .asset (ContentHash.ofBytes []).text config ⟨[⟨7, news⟩]⟩ none
  have hfour : config.glMappings.toOption.map Table.size = some 4 := by decide +kernel
  have hsome : (ofIndex config ⟨[⟨7, news⟩]⟩ none).toOption.isSome = true := by
    have hreplay : (⟨[⟨7, news⟩]⟩ : Index).replay = [⟨7, news⟩] := List.mergeSort_singleton _
    rw [ofIndex_eq]
    show (config.registry.mapError Command.Failure.config >>= fun R =>
      (rebuildFrom R (Index.replay _)).mapError Command.Failure.replay >>= _).toOption.isSome = true
    rw [hreplay]
    decide +kernel
  refine ⟨?_, ?_, ?_, ?_⟩
  · have hread := (GlMapping.spells ⟨"1010", .asset⟩).parseBytes_eq
    exact ⟨_, hread, hcode.mpr (by decide) _ hread⟩
  · have hread := (ContentHash.spells (ContentHash.ofBytes [])).parseBytes_eq
    have hform := ContentHash.ofText_eq_ok_iff.mp (ContentHash.ofText_ofBytes [])
    exact ⟨_, hread, hhash.mpr hform _ hread⟩
  · cases hm : config.glMappings with
    | error cause =>
      rw [hm] at hfour
      cases hfour
    | ok mappings =>
      rw [hm] at hfour
      exact ⟨mappings, rfl, Option.some.inj hfour, hmappings mappings hm⟩
  · cases hs : ofIndex config ⟨[⟨7, news⟩]⟩ none with
    | error cause =>
      rw [hs] at hsome
      cases hsome
    | ok s => exact ⟨s, rfl, hprinted s hs⟩

/-- A blank code and a text that is no hash, as documents have them. -/
theorem refused_but_read :
    Json.parse "\x7b\"gl_code\":\" \",\"gl_account_type\":\"ASSET\"\x7d"
        = .ok (⟨" ", .asset⟩ : GlMapping) ∧
      GlMapping.ofParts " " .asset = .error (.empty "gl_code") ∧
    Json.parse "\"not-a-hash\"" = .ok (⟨"not-a-hash"⟩ : ContentHash) ∧
      ContentHash.ofText "not-a-hash"
        = .error (.invalid "content_hash" "expected 64 lowercase hex characters") := by
  refine ⟨?_, ?_, ?_, ?_⟩
  · decide +kernel
  · decide
  · decide +kernel
  · decide

end Subledger
