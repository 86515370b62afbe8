/-
  ATTESTED BYTES over the calls of a store: each hash leads to what was kept under it first.

  1. **Many calls** (`find?_run`) — a store is the function that leads a hash to the first bytes with
     it, whatever is kept later.  So nothing is changed or removed (`find?_run_append`).
  2. **No collisions** (`Digest.CollisionFree`) — where the digests tell the bytes apart, each call is
     answered with a hash that leads to its own bytes (`find?_after_of_collisionFree`), and there are
     as many entries as different bytes (`size_after_eq_iff`).
  3. **Reports** — the canonical bytes of a report are a normal form of it.  So two reports have one
     hash exactly if they are equal, and the bytes that are found decode as the report.
-/
import Subledger.Attestation
import Subledger.Proofs.GeneralLedger.Aggregation

namespace Subledger

/-! ## Hashes

  Two hashes are equal if the digests are, as the digits are read back. -/

/-- No two of these byte strings have one digest. -/
def Digest.CollisionFree (bss : List (List UInt8)) : Prop :=
  ∀ a ∈ bss, ∀ b ∈ bss, sha256 a = sha256 b → a = b

instance (bss : List (List UInt8)) : Decidable (Digest.CollisionFree bss) :=
  inferInstanceAs (Decidable (∀ a ∈ bss, ∀ b ∈ bss, Digest.sha256 a = Digest.sha256 b → a = b))

namespace ContentHash

/-- A hash shows the whole digest. -/
theorem ofBytes_eq_iff {a b : List UInt8} :
    ofBytes a = ofBytes b ↔ Digest.sha256 a = Digest.sha256 b := by
  constructor
  · intro h
    have htext : Text.Hex.ofBytes (Digest.sha256 a) = Text.Hex.ofBytes (Digest.sha256 b) :=
      String.ofList_injective (ContentHash.mk.inj h)
    have hread := Text.Hex.toBytes?_ofBytes (Digest.sha256 a)
    rw [htext, Text.Hex.toBytes?_ofBytes] at hread
    exact (Option.some.inj hread).symm
  · intro h
    rw [ofBytes, h, ofBytes]

end ContentHash

/-- Where digests tell bytes apart, so do hashes. -/
theorem Digest.CollisionFree.eq_of_ofBytes {bss : List (List UInt8)} (h : CollisionFree bss)
    {a b : List UInt8} (ha : a ∈ bss) (hb : b ∈ bss)
    (heq : ContentHash.ofBytes a = ContentHash.ofBytes b) : a = b :=
  h a ha b hb (ContentHash.ofBytes_eq_iff.mp heq)

/-- What tells many strings apart tells some of them apart. -/
theorem Digest.CollisionFree.subset {bss bss' : List (List UInt8)} (h : CollisionFree bss)
    (hsub : bss' ⊆ bss) : CollisionFree bss' := fun a ha b hb => h a (hsub ha) b (hsub hb)

namespace AttestationStore

/-! ## One call

  Bytes are kept as they are given, and a report as its canonical bytes; both go by their bytes. -/

/-- A call that keeps something. -/
inductive Call where
  | attest (report : GlReport)
  | store (bytes : List UInt8)

namespace Call

/-- The bytes that a call keeps. -/
def bytes : Call → List UInt8
  | .attest r => Json.canonicalBytes r
  | .store bs => bs

/-- The hash of these bytes. -/
def hash (c : Call) : ContentHash := .ofBytes c.bytes

end Call

/-- What a call answers, and the store after it. -/
def answer (s : AttestationStore) : Call → ContentHash × AttestationStore
  | .attest r => s.attest r
  | .store bs => s.store bs

/-- A call is answered with the hash of its bytes. -/
theorem answer_eq (s : AttestationStore) (c : Call) : s.answer c = s.store c.bytes := by
  cases c <;> rfl

/-- Bytes are found under their hash, unless others were kept under it before. -/
theorem find?_store (s : AttestationStore) (bs : List UInt8) (id : ContentHash) :
    (s.store bs).2.find? id
      = (s.find? id).or (if ContentHash.ofBytes bs = id then some bs else none) := by
  show Table.find? (if s.contains (.ofBytes bs) then s else s.insert (.ofBytes bs) bs) id = _
  by_cases hid : ContentHash.ofBytes bs = id
  · subst hid
    rw [Table.contains, if_pos rfl]
    cases hfound : s.find? (ContentHash.ofBytes bs) with
    | some kept => exact hfound
    | none => exact Table.find?_insert_self s _ bs
  · rw [if_neg hid, Option.or_none]
    split
    · rfl
    · exact Table.find?_insert_of_ne s bs (Ne.symm hid)

/-! ## Many calls

  A hash that is there keeps its bytes, so the first ones under it stay. -/

/-- A store after some calls. -/
def run (s : AttestationStore) (cs : List Call) : AttestationStore :=
  cs.foldl (fun s c => (s.answer c).2) s

/-- Some calls, each with the hash that it is answered. -/
def answers (s : AttestationStore) : List Call → List (Call × ContentHash)
  | [] => []
  | c :: cs => (c, (s.answer c).1) :: (s.answer c).2.answers cs

/-- A call is answered the hash of its bytes, whatever was kept before. -/
theorem answers_eq (s : AttestationStore) (cs : List Call) :
    s.answers cs = cs.map fun c => (c, c.hash) := by
  induction cs generalizing s with
  | nil => rfl
  | cons c cs ih =>
    rw [answers, ih, answer_eq]
    rfl

/-- Each call is answered, with its own hash. -/
theorem mem_answers_iff {s : AttestationStore} {cs : List Call} {c : Call} {id : ContentHash} :
    (c, id) ∈ s.answers cs ↔ c ∈ cs ∧ c.hash = id := by
  rw [answers_eq, List.mem_map]
  constructor
  · rintro ⟨c', hc', heq⟩
    obtain ⟨rfl, rfl⟩ := Prod.mk.inj heq
    exact ⟨hc', rfl⟩
  · rintro ⟨hc, rfl⟩
    exact ⟨c, hc, rfl⟩

/-- **The first bytes with a hash count**, if there were none before. -/
theorem find?_run (s : AttestationStore) (cs : List Call) (id : ContentHash) :
    (s.run cs).find? id = (s.find? id).or ((cs.find? fun c => c.hash = id).map Call.bytes) := by
  induction cs generalizing s with
  | nil => exact (Option.or_none).symm
  | cons c cs ih =>
    show ((s.answer c).2.run cs).find? id = _
    rw [ih, answer_eq, find?_store, Option.or_assoc, List.find?_cons]
    congr 1
    by_cases hid : c.hash = id
    · rw [decide_eq_true hid, if_pos (show ContentHash.ofBytes c.bytes = id from hid)]
      rfl
    · rw [decide_eq_false hid, if_neg (show ContentHash.ofBytes c.bytes ≠ id from hid)]
      rfl

/-- Calls may be made in two parts. -/
theorem run_append (s : AttestationStore) (cs ds : List Call) :
    s.run (cs ++ ds) = (s.run cs).run ds := List.foldl_append

/-- **Nothing that is kept is changed or removed.** -/
theorem find?_run_append {s : AttestationStore} {cs : List Call} {id : ContentHash}
    {bs : List UInt8} (h : (s.run cs).find? id = some bs) (later : List Call) :
    (s.run (cs ++ later)).find? id = some bs := by
  rw [run_append, find?_run, h]
  rfl

/-- A new store after some calls. -/
def after (cs : List Call) : AttestationStore := run .empty cs

/-- In a store that was new a hash leads to the first bytes that have it. -/
theorem find?_after (cs : List Call) (id : ContentHash) :
    (after cs).find? id = (cs.find? fun c => c.hash = id).map Call.bytes := find?_run .empty cs id

/-- Something is kept under the hashes of the calls, and under no others. -/
theorem contains_after_iff {cs : List Call} {id : ContentHash} :
    (after cs).contains id = true ↔ ∃ c ∈ cs, c.hash = id := by
  rw [Table.contains, find?_after, Option.isSome_map, List.find?_isSome]
  simp only [decide_eq_true_eq]

/-- There are as many entries as different hashes. -/
theorem size_after (cs : List Call) : (after cs).size = (cs.map Call.hash).toFinset.card := by
  have hkeys : (after cs).keys.toFinset = (cs.map Call.hash).toFinset := by
    ext id
    rw [List.mem_toFinset, List.mem_toFinset, Table.mem_keys_iff, List.mem_map]
    exact contains_after_iff
  rw [← hkeys, List.toFinset_card_of_nodup (after cs).nodup_keys, Table.keys, List.length_map,
    Table.size]

/-! ## No collisions

  The assumption is about the byte strings that calls keep, and no others.  That it is one is seen
  where two of them would share a hash: then the second could not be found. -/

/-- **Each hash leads to the bytes that it was answered for.** -/
theorem find?_after_of_collisionFree {cs : List Call}
    (h : Digest.CollisionFree (cs.map Call.bytes)) {c : Call} (hc : c ∈ cs) :
    (after cs).find? c.hash = some c.bytes := by
  have hsome : (cs.find? fun c' => c'.hash = c.hash).isSome = true :=
    List.find?_isSome.mpr ⟨c, hc, decide_eq_true rfl⟩
  obtain ⟨first, hfirst⟩ := Option.isSome_iff_exists.mp hsome
  have hmem := List.mem_of_find?_eq_some hfirst
  have hhash := List.find?_some hfirst
  rw [find?_after, hfirst, Option.map_some,
    h.eq_of_ofBytes (List.mem_map_of_mem hmem) (List.mem_map_of_mem hc) (of_decide_eq_true hhash)]

/-- There are as many entries as different bytes exactly if no two of these collide. -/
theorem size_after_eq_iff {cs : List Call} :
    (after cs).size = (cs.map Call.bytes).toFinset.card ↔
      Digest.CollisionFree (cs.map Call.bytes) := by
  have himage : (cs.map Call.hash).toFinset
      = (cs.map Call.bytes).toFinset.image ContentHash.ofBytes := by
    ext id
    simp [Call.hash]
  rw [size_after, himage, Finset.card_image_iff, Digest.CollisionFree]
  simp only [Set.InjOn, Finset.mem_coe, List.mem_toFinset, ContentHash.ofBytes_eq_iff]

/-! ## The result

  The parts, as one statement about any calls and any later ones. -/

/-- **What is attested is found by its content.**  Let calls `cs` be made to a new store, and `later`
    ones after them, and let no two byte strings that they keep have one digest.

    * Two attested reports have one hash exactly if they are equal, amounts compared by value.
    * The hash of a report leads, after the later calls too, to bytes that decode as an equal report;
      the hash of bytes leads to these bytes.
    * Whatever is found under a hash is found under it after the later calls.
    * A hash exists exactly if something is found under it, and that is exactly if some call was
      answered with it.
    * There are as many entries as different byte strings. -/
theorem attested_by_content (cs later : List Call)
    (h : Digest.CollisionFree ((cs ++ later).map Call.bytes)) :
    (∀ r id r' id', (.attest r, id) ∈ answers .empty cs → (.attest r', id') ∈ answers .empty cs →
      (id = id' ↔ r.same r' = true)) ∧
    ((∀ r id, (.attest r, id) ∈ answers .empty cs →
        ∃ bs, (after (cs ++ later)).find? id = some bs ∧
          ∃ r' : GlReport, Json.parseBytes bs = .ok r' ∧ r'.same r = true) ∧
      ∀ bs id, (.store bs, id) ∈ answers .empty cs → (after (cs ++ later)).find? id = some bs) ∧
    (∀ id bs, (after cs).find? id = some bs → (after (cs ++ later)).find? id = some bs) ∧
    (∀ id, ((after cs).contains id = true ↔ ∃ bs, (after cs).find? id = some bs) ∧
      ((after cs).contains id = true ↔ ∃ c, (c, id) ∈ answers .empty cs)) ∧
    (after cs).size = (cs.map Call.bytes).toFinset.card := by
  have hcs : Digest.CollisionFree (cs.map Call.bytes) :=
    h.subset (List.map_subset _ (List.subset_append_left cs later))
  -- each hash that was answered leads to the bytes of its call, also later
  have hfound : ∀ c id, (c, id) ∈ answers .empty cs →
      (after (cs ++ later)).find? id = some c.bytes := by
    intro c id hc
    obtain ⟨hmem, rfl⟩ := mem_answers_iff.mp hc
    exact find?_after_of_collisionFree h (List.mem_append_left later hmem)
  refine ⟨?_, ⟨?_, fun bs id => hfound (.store bs) id⟩, fun id bs hid => find?_run_append hid later,
    ?_, size_after_eq_iff.mpr hcs⟩
  · intro r id r' id' hr hr'
    obtain ⟨hmem, rfl⟩ := mem_answers_iff.mp hr
    obtain ⟨hmem', rfl⟩ := mem_answers_iff.mp hr'
    rw [GlReport.faithful.same_iff r r' trivial trivial]
    constructor
    · exact hcs.eq_of_ofBytes (List.mem_map_of_mem hmem) (List.mem_map_of_mem hmem')
    · exact fun hbytes => congrArg ContentHash.ofBytes hbytes
  · intro r id hr
    obtain ⟨r', hread, hsame⟩ := GlReport.faithful.reads r trivial
    exact ⟨_, hfound _ id hr, r', hread, hsame⟩
  · intro id
    refine ⟨Option.isSome_iff_exists, contains_after_iff.trans ?_⟩
    simp only [mem_answers_iff]

end AttestationStore

/-! ## A sample store -/

namespace Sample

/-- A report of one entry that balances. -/
def balancedReport (amount : Decimal) : GlReport :=
  ⟨.epoch, [⟨"1000", euro, .asset, amount, amount⟩], amount, amount⟩

/-- A report, some bytes, the report again with two places less, and another one. -/
def attested : List AttestationStore.Call :=
  [.attest (balancedReport seventeenTenths), .store [0, 255],
    .attest (balancedReport seventeenTenths.normalize), .attest (balancedReport two.value)]

/-- The bytes of the first report, kept as such. -/
def attestedAgain : List AttestationStore.Call :=
  [.store (Json.canonicalBytes (balancedReport seventeenTenths))]

end Sample

open Sample

/-- The first and the third call are answered one hash, which leads to the report; the fourth is
    answered another; and there are three entries. -/
theorem AttestationStore.attested_by_content_again :
    Digest.CollisionFree ((attested ++ attestedAgain).map Call.bytes) ∧
    (∃ id id', (.attest (balancedReport seventeenTenths), id) ∈ answers .empty attested ∧
      (.attest (balancedReport seventeenTenths.normalize), id) ∈ answers .empty attested ∧
      (.attest (balancedReport two.value), id') ∈ answers .empty attested ∧ id ≠ id' ∧
      ∃ bs, (after (attested ++ attestedAgain)).find? id = some bs ∧
        ∃ r' : GlReport, Json.parseBytes bs = .ok r' ∧
          r'.same (balancedReport seventeenTenths.normalize) = true) ∧
    (after attested).size = 3 := by
  have hfree : Digest.CollisionFree ((attested ++ attestedAgain).map Call.bytes) := by
    simp only [attested, attestedAgain, List.cons_append, List.nil_append, List.map_cons,
      List.map_nil, Call.bytes, Json.canonicalBytes_eq]
    decide +kernel
  obtain ⟨hsame, ⟨hreports, -⟩, -, -, hsize⟩ := attested_by_content attested attestedAgain hfree
  have hanswered : ∀ c ∈ attested, (c, c.hash) ∈ answers .empty attested := fun c hc =>
    mem_answers_iff.mpr ⟨hc, rfl⟩
  have hfirst := hanswered (.attest (balancedReport seventeenTenths)) List.mem_cons_self
  have hthird := hanswered (.attest (balancedReport seventeenTenths.normalize))
    (List.mem_cons_of_mem _ (List.mem_cons_of_mem _ List.mem_cons_self))
  have hfourth := hanswered (.attest (balancedReport two.value))
    (List.mem_cons_of_mem _ (List.mem_cons_of_mem _ (List.mem_cons_of_mem _ List.mem_cons_self)))
  have hone := (hsame _ _ _ _ hfirst hthird).mpr (by decide +kernel)
  have htwo := mt (hsame _ _ _ _ hthird hfourth).mp (by decide +kernel)
  rw [hone] at hfirst
  refine ⟨hfree, ⟨_, _, hfirst, hthird, hfourth, htwo, hreports _ _ hthird⟩, ?_⟩
  rw [hsize]
  simp only [attested, List.map_cons, List.map_nil, Call.bytes, Json.canonicalBytes_eq]
  decide +kernel

end Subledger
