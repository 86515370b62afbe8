/-
  LEGIBLE FILES: which files are opened, and which records the journal has then.

  1. **Lines** (`IsLegible`) — a line is blank, or a record, or cannot be read
     (`Index.load_cons_cases`).  Lines are taken in exactly if all are legible, and what is taken in
     comes from them.  If no transaction stands on two lines, every record is taken in
     (`Index.load_eq_ok_iff`).
  2. **Files** (`JournalFile.load_isOk_iff`) — so a file is opened exactly if it can be used as one and
     its whole lines are legible, whatever follows the last of them.
-/
import Subledger.Proofs.Journal.Reopening

namespace Subledger

/-! ## Lines

  A file is read line by line, and a line is read by itself.  So a file is legible if its lines are,
  and its records are those of its lines. -/

/-- The record of a line, if it is one. -/
def recordOfLine? (line : List UInt8) : Option Record :=
  if line.all Text.isAsciiSpace then none
  else (Json.parseBytes line : Except Json.Error Record).toOption

/-- A line holds a record if it is not blank and parses as one. -/
theorem recordOfLine?_eq_some_iff {line : List UInt8} {r : Record} : recordOfLine? line = some r ↔
    line.all Text.isAsciiSpace = false ∧ Json.parseBytes line = .ok r := by
  rw [recordOfLine?]
  cases line.all Text.isAsciiSpace with
  | true => exact iff_of_false (by rintro ⟨⟩) (by rintro ⟨⟨⟩, -⟩)
  | false =>
    rw [if_neg Bool.false_ne_true, and_iff_right rfl]
    cases (Json.parseBytes line : Except Json.Error Record) with
    | error e => exact iff_of_false (by rintro ⟨⟩) error_ne_ok
    | ok r' => exact ⟨fun h => congrArg Except.ok (Option.some.inj h),
        fun h => congrArg some (Except.ok.inj h)⟩

/-- The line of a record is read back as that record. -/
theorem recordOfLine?_body {r : Record} (hheld : r.Held) : recordOfLine? r.body = some r :=
  recordOfLine?_eq_some_iff.mpr ⟨r.body_not_blank, Record.parseBytes_body hheld⟩

/-- A line that is blank or a record. -/
def IsLegible (line : List UInt8) : Prop :=
  line.all Text.isAsciiSpace = true ∨ ∃ r, recordOfLine? line = some r

/-- A line is legible if it is blank or parses as a record. -/
theorem isLegible_iff {line : List UInt8} : IsLegible line ↔
    line.all Text.isAsciiSpace = true ∨ ∃ r : Record, Json.parseBytes line = .ok r := by
  rw [IsLegible]
  simp only [recordOfLine?_eq_some_iff]
  cases line.all Text.isAsciiSpace with
  | true => exact iff_of_true (Or.inl rfl) (Or.inl rfl)
  | false => simp only [true_and]

namespace Index

/-- What one line does: it adds a record, adds nothing, or cannot be read. -/
theorem load_cons_cases (x : Index) (n : Nat) (line : List UInt8) (lines : List (List UInt8)) :
    (line.all Text.isAsciiSpace = true ∧ recordOfLine? line = none ∧
      x.load n (line :: lines) = x.load (n + 1) lines) ∨
    (∃ r, recordOfLine? line = some r ∧ (x.sequenceOf? r.id).isSome = true ∧
      x.load n (line :: lines) = x.load (n + 1) lines) ∨
    (∃ r, recordOfLine? line = some r ∧ (x.sequenceOf? r.id).isSome = false ∧
      x.load n (line :: lines) = (x.push r).load (n + 1) lines) ∨
    (¬ IsLegible line ∧ x.load n (line :: lines) = .error (.corrupt n)) := by
  rw [load, IsLegible, recordOfLine?]
  cases hblank : line.all Text.isAsciiSpace with
  | true => exact Or.inl ⟨rfl, rfl, rfl⟩
  | false =>
    rw [if_neg Bool.false_ne_true, if_neg Bool.false_ne_true]
    cases (Json.parseBytes line : Except Json.Error Record) with
    | error e =>
      refine Or.inr (Or.inr (Or.inr ⟨?_, rfl⟩))
      rintro (hfalse | ⟨r, hr⟩)
      · exact absurd hfalse Bool.false_ne_true
      · exact absurd hr.symm (Option.some_ne_none r)
    | ok r =>
      dsimp only
      cases hseq : (x.sequenceOf? r.id).isSome with
      | true => exact Or.inr (Or.inl ⟨r, rfl, hseq, rfl⟩)
      | false => exact Or.inr (Or.inr (Or.inl ⟨r, rfl, hseq, rfl⟩))

/-- Lines are taken in exactly if all are legible. -/
theorem load_isOk_iff (x : Index) (n : Nat) (lines : List (List UInt8)) :
    (∃ y, x.load n lines = .ok y) ↔ ∀ line ∈ lines, IsLegible line := by
  induction lines generalizing x n with
  | nil => exact iff_of_true ⟨x, rfl⟩ (List.forall_mem_nil _)
  | cons line lines ih =>
    rw [List.forall_mem_cons]
    rcases x.load_cons_cases n line lines with
      ⟨hblank, -, hload⟩ | ⟨r, hr, -, hload⟩ | ⟨r, hr, -, hload⟩ | ⟨hnot, hload⟩
    · rw [hload, ih]
      exact (and_iff_right (Or.inl hblank)).symm
    · rw [hload, ih]
      exact (and_iff_right (Or.inr ⟨r, hr⟩)).symm
    · rw [hload, ih]
      exact (and_iff_right (Or.inr ⟨r, hr⟩)).symm
    · rw [hload]
      refine iff_of_false ?_ (fun h => hnot h.1)
      rintro ⟨y, hy⟩
      exact error_ne_ok hy

/-- What is taken in comes from the lines. -/
theorem mem_of_load {x y : Index} {n : Nat} {lines : List (List UInt8)}
    (h : x.load n lines = .ok y) :
    ∀ r ∈ y.records, r ∈ x.records ∨ r ∈ lines.filterMap recordOfLine? := by
  induction lines generalizing x n with
  | nil =>
    obtain rfl := Except.ok.inj h
    exact fun r hr => Or.inl hr
  | cons line lines ih =>
    rcases x.load_cons_cases n line lines with
      ⟨-, hnone, hload⟩ | ⟨r, hr, -, hload⟩ | ⟨r, hr, -, hload⟩ | ⟨-, hload⟩
    · rw [hload] at h
      rw [List.filterMap_cons_none hnone]
      exact ih h
    · rw [hload] at h
      rw [List.filterMap_cons_some hr]
      intro r' hr'
      exact (ih h r' hr').imp_right (List.mem_cons_of_mem r)
    · rw [hload] at h
      rw [List.filterMap_cons_some hr]
      intro r' hr'
      rcases ih h r' hr' with hold | hlater
      · rcases List.mem_append.mp hold with hmem | hnew
        · exact Or.inl hmem
        · exact Or.inr (List.mem_singleton.mp hnew ▸ List.mem_cons_self)
      · exact Or.inr (List.mem_cons_of_mem r hlater)
    · rw [hload] at h
      cases h

/-- **If no transaction stands on two lines**, lines are taken in exactly if each is blank or a
    record, and then all records are. -/
theorem load_eq_ok_iff {x y : Index} {lines : List (List UInt8)}
    (hdistinct : ((x.records ++ lines.filterMap recordOfLine?).map Record.id).Nodup) (n : Nat) :
    x.load n lines = .ok y ↔
      (∀ line ∈ lines, IsLegible line) ∧ y = ⟨x.records ++ lines.filterMap recordOfLine?⟩ := by
  induction lines generalizing x n with
  | nil =>
    rw [load, List.filterMap_nil, List.append_nil]
    constructor
    · intro h
      exact ⟨List.forall_mem_nil _, (Except.ok.inj h).symm⟩
    · intro h
      exact congrArg Except.ok h.2.symm
  | cons line lines ih =>
    rw [List.forall_mem_cons]
    rcases x.load_cons_cases n line lines with
      ⟨hblank, hnone, hload⟩ | ⟨r, hr, hold, -⟩ | ⟨r, hr, -, hload⟩ | ⟨hnot, hload⟩
    · rw [List.filterMap_cons_none hnone] at hdistinct ⊢
      rw [hload, ih hdistinct]
      have hlegible : IsLegible line := Or.inl hblank
      tauto
    · -- its transaction is there already, so it stands on two lines
      rw [List.filterMap_cons_some hr, List.map_append, List.map_cons, List.nodup_append]
        at hdistinct
      have hmem : r.id ∈ x.records.map Record.id := by
        by_contra hnew
        have hnone := sequenceOf?_eq_none_iff.mpr
          (show r.id ∉ x.envelopes.map Envelope.id by rwa [envelopes, List.map_map])
        rw [hnone] at hold
        exact absurd hold Bool.false_ne_true
      exact absurd rfl (hdistinct.2.2 r.id hmem r.id List.mem_cons_self)
    · have hsplit : x.records ++ r :: lines.filterMap recordOfLine?
          = (x.push r).records ++ lines.filterMap recordOfLine? := by
        rw [push, List.append_assoc, List.singleton_append]
      rw [List.filterMap_cons_some hr, hsplit] at hdistinct ⊢
      rw [hload, ih hdistinct]
      have hlegible : IsLegible line := Or.inr ⟨r, hr⟩
      tauto
    · rw [hload]
      constructor
      · intro h
        cases h
      · intro h
        exact absurd h.1.1 hnot

end Index

/-! ## Files

  Only the whole lines of a file are read; what stands behind the last newline is cut off, whether
  or not it could be read. -/

namespace JournalFile

/-- A usable file is loaded from its whole lines. -/
theorem load_of_usable {f : JournalFile} (h : ∀ cause, f.state ≠ .unusable cause) :
    f.load.1 = Index.ofLines (cutLines f.content).1 := by
  obtain ⟨state, limit⟩ := f
  cases state with
  | absent => rfl
  | regular bytes => rfl
  | unusable cause => exact absurd rfl (h cause)

/-- A file that was loaded can be read. -/
theorem usable_of_load {f : JournalFile} {x : Index} (h : f.load.1 = .ok x) :
    ∀ cause, f.state ≠ .unusable cause := by
  intro cause hcause
  rw [load, hcause] at h
  cases h

/-- **A file is opened** exactly if it can be used as one and its whole lines are legible. -/
theorem load_isOk_iff {f : JournalFile} : (∃ x, f.load.1 = .ok x) ↔
    (∀ cause, f.state ≠ .unusable cause) ∧ ∀ line ∈ (cutLines f.content).1, IsLegible line := by
  constructor
  · rintro ⟨x, hload⟩
    have husable := usable_of_load hload
    rw [load_of_usable husable] at hload
    exact ⟨husable, (Index.load_isOk_iff _ _ _).mp ⟨x, hload⟩⟩
  · rintro ⟨husable, hlegible⟩
    rw [load_of_usable husable]
    exact (Index.load_isOk_iff _ _ _).mpr hlegible

/-- The records on the lines of a file, in order. -/
def recorded (f : JournalFile) : List Record := (cutLines f.content).1.filterMap recordOfLine?

/-- The journal has no records but those of the file. -/
theorem mem_recorded_of_load {f : JournalFile} {x : Index} (h : f.load.1 = .ok x) :
    ∀ r ∈ x.records, r ∈ f.recorded := by
  rw [load_of_usable (usable_of_load h)] at h
  intro r hr
  exact (Index.mem_of_load h r hr).resolve_left List.not_mem_nil

/-- A file has the records whose lines were written. -/
theorem recorded_records {rs : List Record} (hheld : ∀ r ∈ rs, r.Held) {torn : List UInt8}
    (htorn : Record.newline ∉ torn) (limit : Nat) :
    (⟨.regular (rs.flatMap Record.line ++ torn), limit⟩ : JournalFile).recorded = rs := by
  have hread : ∀ r ∈ rs, (recordOfLine? ∘ Record.body) r = some r := by
    intro r hr
    rw [Function.comp_apply, recordOfLine?_body (hheld r hr)]
  show (cutLines (rs.flatMap Record.line ++ torn)).1.filterMap recordOfLine? = rs
  rw [← Record.joinLines_bodies,
    cutLines_joinLines (Record.newline_not_mem_bodies hheld) htorn, List.filterMap_map,
    List.filterMap_congr hread]
  exact List.filterMap_some

end JournalFile

end Subledger
