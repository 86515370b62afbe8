/-
  STATEMENTS AS OF A MOMENT: what was known decides what is printed.

  A statement is asked for as of a moment, or for the whole journal, and the two ways share neither
  the records that they replay nor the way they find the date of the report.

  1. **The latest instant** (`Instant.IsLatest.unique`) — a replay reports the latest knowledge time of
     its records (`isLatest_of_rebuildFrom`), in whatever order they stand, and there is only one.
  2. **The statement of a journal** (`Statement.ofIndex_congr`) — depends on what is replayed and on
     the date, and on nothing else of the journal or the request.
  3. **The result** (`knowledge_decides_statement`) — as of the latest moment everything is replayed,
     with the same date; and what became known later is not replayed, wherever it stands.
-/
import Subledger.Proofs.Canonical
import Subledger.Proofs.Command.Statement
import Subledger.Proofs.Journal.Forgetting
import Subledger.Proofs.Replay.Repetition

namespace Subledger

/-! ## The latest instant -/

/-- Instants in another order have the same latest one. -/
theorem Instant.IsLatest.unique {s t : Option Instant} {ts us : List Instant}
    (hs : IsLatest s ts) (ht : IsLatest t us) (hperm : ts.Perm us) : s = t := by
  cases s with
  | none =>
    obtain rfl : ts = [] := hs
    obtain rfl := List.nil_perm.mp hperm
    cases t with
    | none => rfl
    | some t => exact absurd ht.1 List.not_mem_nil
  | some s =>
    obtain ⟨hmem, hall⟩ := hs
    cases t with
    | none =>
      obtain rfl : us = [] := ht
      exact absurd (hperm.subset hmem) List.not_mem_nil
    | some t =>
      exact congrArg some
        (eq_of_notAfter (ht.2 s (hperm.subset hmem)) (hall t (hperm.symm.subset ht.1)))

/-- A rebuild reports the latest knowledge time of its records. -/
theorem isLatest_of_rebuildFrom {R : Registry} {rs : List Record} {report : ReplayReport}
    {b : Book} (h : rebuildFrom R rs = .ok (report, b)) :
    Instant.IsLatest report.lastKnowledgeTime (rs.map Record.knowledgeTime) := by
  have hreports := ReplayReport.Reports.of_replayInto (rebuildFrom_eq_ok_iff.mp h)
  exact hreports.lastKnowledgeTime

/-- As of the latest moment everything is replayed. -/
theorem Index.replayAsOf_of_isLatest {x : Index} {t : Instant}
    (h : Instant.IsLatest (some t) (x.records.map Record.knowledgeTime)) :
    x.replayAsOf t = x.replay := by
  apply List.filter_eq_self.mpr
  intro r hr
  exact h.2 r.knowledgeTime (List.mem_map_of_mem (x.replay_perm.subset hr))

namespace Command.Statement

/-! ## The statement of a journal -/

/-- Journals that replay alike have one statement, if its date is one. -/
theorem ofIndex_congr (c : Config) {x y : Index} {a b : Option Instant}
    (hreplayed : ∀ R, replayed R x a = replayed R y b)
    (hdate : ∀ R report book, replayed R x a = .ok (report, book) →
      date a report = date b report) : ofIndex c x a = ofIndex c y b := by
  rw [ofIndex_eq, ofIndex_eq]
  cases c.registry with
  | error cause => rfl
  | ok R =>
    show ((replayed R x a).mapError Failure.replay >>= _)
      = ((replayed R y b).mapError Failure.replay >>= _)
    rw [← hreplayed]
    cases hx : replayed R x a with
    | error cause => rfl
    | ok answer =>
      show ofBook c answer.1 answer.2 (date a answer.1) = ofBook c answer.1 answer.2 (date b answer.1)
      rw [hdate R answer.1 answer.2 hx]

/-- The whole journal has the statement as of its latest moment. -/
theorem ofIndex_of_isLatest (c : Config) {x : Index} {t : Instant}
    (h : Instant.IsLatest (some t) (x.records.map Record.knowledgeTime)) :
    ofIndex c x none = ofIndex c x (some t) := by
  apply ofIndex_congr
  · intro R
    show rebuild R x = rebuildAsOf R x t
    rw [rebuild, rebuildAsOf, Index.replayAsOf_of_isLatest h]
  · intro R report book hbook
    have hlast : report.lastKnowledgeTime = some t :=
      (isLatest_of_rebuildFrom hbook).unique h (x.replay_perm.map _)
    rw [date, date, hlast]
    rfl

/-- What became known after a moment is not in the statement of that moment. -/
theorem ofIndex_known (c : Config) (x : Index) (t : Instant) :
    ofIndex c ⟨x.records.filter fun r => r.envelope.knownAt t⟩ (some t)
      = ofIndex c x (some t) := by
  apply ofIndex_congr
  · intro R
    show rebuildFrom R _ = rebuildFrom R _
    rw [Index.replayAsOf_known]
  · intro _ _ _ _
    rfl

/-! ## The statement of a request -/

/-- **What is known decides the statement.**  Take any journal file that is opened, its records in any
    order and with any numbers, and any configuration.

    * The whole journal gives what it gives as of the latest knowledge time that it holds: the same
      failure, or the same statement with the same account of the replay; and the file is left alike.
    * If no transaction stands on two lines of the file, then deleting all lines whose records became
      known after a moment changes nothing about the statement as of that moment, be it a failure. -/
theorem knowledge_decides_statement (configPath logPath : String)
    (config : Except IoFailure (List UInt8)) {f f' : JournalFile} {x : Index}
    (hopened : f.load = (.ok x, f')) :
    (∀ t, Instant.IsLatest (some t) (x.records.map Record.knowledgeTime) →
      ofFiles ⟨configPath, logPath, none⟩ config f
        = ofFiles ⟨configPath, logPath, some t⟩ config f) ∧
    ((f.recorded.map Record.id).Nodup → ∀ t,
      (ofFiles ⟨configPath, logPath, some t⟩ config (f.forget t)).1
        = (ofFiles ⟨configPath, logPath, some t⟩ config f).1) := by
  constructor
  · intro t ht
    rw [ofFiles, ofFiles]
    dsimp only
    cases Config.ofFile configPath config with
    | error cause => rfl
    | ok c =>
      dsimp only
      rw [hopened]
      dsimp only
      rw [ofIndex_of_isLatest c ht]
  · intro hdistinct t
    rw [ofFiles_of_load _ config (JournalFile.load_forget (congrArg Prod.fst hopened) hdistinct t),
      ofFiles_of_load _ config (congrArg Prod.fst hopened)]
    cases Config.ofFile configPath config with
    | error cause => rfl
    | ok c => exact ofIndex_known c x t

end Command.Statement

/-! ## A sample journal

  Another journal's file: the numbers repeat, and what was known first stands in the middle. -/

namespace Sample

/-- An account that lands in the one place of the general ledger. -/
def setting (id : AccountId) : AccountSetting := ⟨id, .cash, some "1000", some .asset⟩

/-- The four accounts. -/
def config : Config := ⟨[alice, bob, carol, dave].map setting⟩

theorem spells_setting (id : AccountId) : Json.Spells (setting id) (setting id) :=
  Json.spells_of_row (r := AccountSetting.row) (fun v => .ok ⟨v.1, v.2.1, v.2.2.1, v.2.2.2.1⟩) rfl
    (fun _ => rfl) (by decide)
    ((Ident.spells id).field "account_id" <| (AccountType.spells .cash).field "account_type" <|
      .field trivial rfl <| .field trivial rfl .done) rfl

theorem spells_config : Json.Spells config config := by
  have hsettings : ∀ s ∈ config.settings, Json.Spells s s := by
    intro s hs
    obtain ⟨id, -, rfl⟩ := List.mem_map.mp hs
    exact spells_setting id
  exact Json.spells_of_row (r := Config.row) (fun v => .ok ⟨v.1⟩) rfl (fun _ => rfl) (by decide)
    (.field (Json.regular_ofList config.settings fun s hs => (hsettings s hs).regular)
      (Json.list_ofList config.settings hsettings) .done)
    (congrArg (fun settings => Except.ok (Config.mk settings)) (List.map_id _))

theorem ofText_config : Config.ofText (Json.canonical config) = .ok config := by
  rw [Config.ofText, spells_config.parse_eq]
  decide

/-- The bytes of the configuration's file. -/
def configBytes : Except IoFailure (List UInt8) := .ok (Json.canonicalBytes config)

/-- Two transfers of a later minute, and between them one of the epoch. -/
def foreignRecords : List Record :=
  [⟨7, news⟩, ⟨7, oldNews⟩, ⟨3, .epoch, news.knowledgeTime, transfer thirdId bob alice two⟩]

/-- Their lines, and the beginning of another one. -/
def foreignFile : JournalFile := ⟨.regular (foreignRecords.flatMap Record.line ++ [0x7B]), 0⟩

end Sample

namespace Command.Statement

open Sample

/-- The statement of the whole file is that of the later minute, and that of the epoch comes from one
    line of it. -/
theorem knowledge_decides_statement_foreign :
    ofFiles ⟨"config", "journal", none⟩ configBytes foreignFile
        = ofFiles ⟨"config", "journal", some news.knowledgeTime⟩ configBytes foreignFile ∧
      (foreignFile.forget .epoch).recorded = [⟨7, oldNews⟩] ∧
      (ofFiles ⟨"config", "journal", some .epoch⟩ configBytes (foreignFile.forget .epoch)).1
        = (ofFiles ⟨"config", "journal", some .epoch⟩ configBytes foreignFile).1 := by
  have hheld : ∀ r ∈ foreignRecords, r.Held := by decide
  have htorn : Record.newline ∉ [0x7B] := by decide
  have hdistinct : (foreignRecords.map Record.id).Nodup := by decide
  have hrecorded := JournalFile.recorded_records hheld htorn 0
  have hlatest : Instant.IsLatest (some news.knowledgeTime)
      (foreignRecords.map Record.knowledgeTime) := by
    refine ⟨List.mem_cons_self, ?_⟩
    decide
  obtain ⟨hwhole, hforgetting⟩ := knowledge_decides_statement "config" "journal" configBytes
    (JournalFile.load_records hheld hdistinct htorn 0)
  refine ⟨hwhole _ hlatest, ?_, hforgetting ?_ .epoch⟩
  · rw [JournalFile.recorded_forget, foreignFile, hrecorded]
    decide
  · rw [hrecorded]
    exact hdistinct

end Command.Statement
end Subledger
