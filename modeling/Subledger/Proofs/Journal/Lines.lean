/-
  THE LINES OF A JOURNAL FILE: how records become lines, and lines records again.

  1. **Lines** (`cutLines_joinLines`) — lines that hold no newline are cut where they were joined, and
     what follows the last of them is the torn rest.  Whatever is cut holds no newline.
  2. **Prefixes** (`prefix_joinLines`) — a file that was cut off anywhere consists of some first lines
     and of a torn rest, and the lines that it has whole are these.
  3. **Records** (`parseBytes_body`) — the line of a record holds no newline, is not blank, and is
     read as that record, as long as its number is one of sixty-four bits.
  4. **Loading** (`load_append`, `load_records`) — lines are taken in one after the other, and the
     lines of records of different transactions give these records.
-/
import Subledger.Journal.Basic
import Subledger.Proofs.Canonical
import Subledger.Proofs.Journal.Replay

namespace Subledger

open Record (newline)

/-! ## Lines

  Joining ends each line with a newline; cutting ends a line at each newline and leaves what is
  behind the last.  They are inverse on lines without a newline inside. -/

/-- The first line stands first, with its newline. -/
theorem joinLines_cons (line : List UInt8) (lines : List (List UInt8)) :
    joinLines (line :: lines) = line ++ newline :: joinLines lines := by
  rw [joinLines, List.flatMap_cons, List.append_assoc]
  rfl

theorem joinLines_singleton (line : List UInt8) : joinLines [line] = line ++ [newline] :=
  List.flatMap_singleton _ _

/-- Lines may be joined in two parts. -/
theorem joinLines_append (lines more : List (List UInt8)) :
    joinLines (lines ++ more) = joinLines lines ++ joinLines more := List.flatMap_append

theorem cutLines_newline (bs : List UInt8) :
    cutLines (newline :: bs) = ([] :: (cutLines bs).1, (cutLines bs).2) := rfl

/-- A byte that is no newline belongs to the first line, or to the torn rest if there is none. -/
theorem cutLines_cons_of_ne {b : UInt8} (h : b ≠ newline) (bs : List UInt8) :
    cutLines (b :: bs) = match cutLines bs with
      | ([], torn) => ([], b :: torn)
      | (line :: lines, torn) => ((b :: line) :: lines, torn) := by
  rw [cutLines]
  dsimp only
  rw [if_neg h]
  generalize cutLines bs = p
  obtain ⟨_ | ⟨line, lines⟩, torn⟩ := p <;> rfl

/-- What ends without a newline is torn. -/
theorem cutLines_torn {torn : List UInt8} (h : newline ∉ torn) : cutLines torn = ([], torn) := by
  induction torn with
  | nil => rfl
  | cons b bs ih =>
    rw [List.mem_cons, not_or] at h
    rw [cutLines_cons_of_ne (Ne.symm h.1), ih h.2]

/-- The first line ends at the first newline. -/
theorem cutLines_line {line : List UInt8} (h : newline ∉ line) (rest : List UInt8) :
    cutLines (line ++ newline :: rest) = (line :: (cutLines rest).1, (cutLines rest).2) := by
  induction line with
  | nil => exact cutLines_newline rest
  | cons b bs ih =>
    rw [List.mem_cons, not_or] at h
    rw [List.cons_append, cutLines_cons_of_ne (Ne.symm h.1), ih h.2]

/-- **Lines are cut where they were joined.** -/
theorem cutLines_joinLines {lines : List (List UInt8)} (h : ∀ line ∈ lines, newline ∉ line)
    {torn : List UInt8} (htorn : newline ∉ torn) :
    cutLines (joinLines lines ++ torn) = (lines, torn) := by
  induction lines with
  | nil => exact cutLines_torn htorn
  | cons line lines ih =>
    have hrest := ih fun l hl => h l (List.mem_cons_of_mem line hl)
    rw [joinLines_cons, List.append_assoc, List.cons_append,
      cutLines_line (h line List.mem_cons_self), hrest]

/-- Whatever is cut holds no newline. -/
theorem newline_not_mem_cutLines (bs : List UInt8) :
    (∀ line ∈ (cutLines bs).1, newline ∉ line) ∧ newline ∉ (cutLines bs).2 := by
  induction bs with
  | nil => exact ⟨fun line h => absurd h List.not_mem_nil, List.not_mem_nil⟩
  | cons b bs ih =>
    by_cases hb : b = newline
    · rw [hb, cutLines_newline]
      exact ⟨List.forall_mem_cons.mpr ⟨List.not_mem_nil, ih.1⟩, ih.2⟩
    · rw [cutLines_cons_of_ne hb]
      generalize cutLines bs = p at ih
      obtain ⟨_ | ⟨line, lines⟩, torn⟩ := p
      · exact ⟨ih.1, List.not_mem_cons_of_ne_of_not_mem (Ne.symm hb) ih.2⟩
      · obtain ⟨hline, hlines⟩ := List.forall_mem_cons.mp ih.1
        exact ⟨List.forall_mem_cons.mpr
          ⟨List.not_mem_cons_of_ne_of_not_mem (Ne.symm hb) hline, hlines⟩, ih.2⟩

/-! ## Prefixes

  The first part of some bytes ends in the middle of a line or behind one. -/

/-- **A file that was cut off has its first lines**, and a torn rest. -/
theorem prefix_joinLines {lines : List (List UInt8)} (h : ∀ line ∈ lines, newline ∉ line)
    {bytes : List UInt8} (hbytes : bytes <+: joinLines lines) :
    ∃ n ≤ lines.length, (∃ torn, bytes = joinLines (lines.take n) ++ torn ∧ newline ∉ torn) ∧
      ∀ i < lines.length, (i < n ↔ joinLines (lines.take (i + 1)) <+: bytes) := by
  induction lines generalizing bytes with
  | nil =>
    obtain rfl := List.prefix_nil.mp hbytes
    exact ⟨0, Nat.le_refl 0, ⟨[], rfl, List.not_mem_nil⟩, fun i hi => absurd hi (Nat.not_lt_zero i)⟩
  | cons line lines ih =>
    obtain ⟨hline, hlines⟩ := List.forall_mem_cons.mp h
    rw [joinLines_cons] at hbytes
    by_cases hshort : bytes.length ≤ line.length
    · -- cut off within the first line
      have htorn : bytes <+: line :=
        List.prefix_of_prefix_length_le hbytes (List.prefix_append _ _) hshort
      refine ⟨0, Nat.zero_le _, ⟨bytes, rfl, fun hmem => hline (htorn.subset hmem)⟩, ?_⟩
      intro i _
      refine ⟨fun hi => absurd hi (Nat.not_lt_zero i), ?_⟩
      intro hwhole
      have hlength := hwhole.length_le
      rw [List.take_succ_cons, joinLines_cons, List.length_append, List.length_cons] at hlength
      omega
    · have hsplit : line ++ newline :: joinLines lines
          = (line ++ [newline]) ++ joinLines lines := by
        rw [List.append_assoc, List.singleton_append]
      rw [hsplit] at hbytes
      obtain ⟨more, rfl⟩ : line ++ [newline] <+: bytes := by
        refine List.prefix_of_prefix_length_le (List.prefix_append _ _) hbytes ?_
        rw [List.length_append, List.length_singleton]
        omega
      rw [List.prefix_append_right_inj] at hbytes
      obtain ⟨n, hn, ⟨torn, hmore, htorn⟩, hwhole⟩ := ih hlines hbytes
      refine ⟨n + 1, Nat.succ_le_succ hn, ⟨torn, ?_, htorn⟩, ?_⟩
      · rw [List.take_succ_cons, joinLines_cons, hmore]
        simp only [List.append_assoc, List.cons_append, List.nil_append]
      · intro i hi
        have hfirst : joinLines ((line :: lines).take (i + 1))
            = (line ++ [newline]) ++ joinLines (lines.take i) := by
          rw [List.take_succ_cons, joinLines_cons, List.append_assoc, List.singleton_append]
        rw [hfirst, List.prefix_append_right_inj]
        cases i with
        | zero => exact ⟨fun _ => List.nil_prefix, fun _ => Nat.succ_pos n⟩
        | succ i =>
          rw [← hwhole i (Nat.lt_of_succ_lt_succ hi)]
          exact ⟨Nat.lt_of_succ_lt_succ, Nat.succ_lt_succ⟩

/-! ## Records

  The line of a record is its canonical bytes, which hold no newline since the writer escapes it,
  and are not blank since they begin with a brace. -/

namespace Record

/-- The line of a record without its newline. -/
def body (r : Record) : List UInt8 := Json.canonicalBytes r

theorem line_eq (r : Record) : r.line = r.body ++ [newline] := rfl

theorem joinLines_bodies (rs : List Record) : joinLines (rs.map body) = rs.flatMap line :=
  List.flatMap_map _ _ rs

variable {r : Record} (h : r.Held)

include h

/-- **A record is written on one line.** -/
theorem newline_not_mem_body : newline ∉ r.body := Json.newline_not_mem_write (spells h).regular

omit h in
/-- No record is written with a newline inside. -/
theorem newline_not_mem_bodies {rs : List Record} (h : ∀ r ∈ rs, r.Held) :
    ∀ line ∈ rs.map body, newline ∉ line := by
  intro line hline
  obtain ⟨r, hr, rfl⟩ := List.mem_map.mp hline
  exact newline_not_mem_body (h r hr)

omit h in
/-- The line of a record is not blank: it begins with a brace. -/
theorem body_not_blank : r.body.all Text.isAsciiSpace = false := by
  obtain ⟨rest, hrest⟩ := Json.encode_write_object (Json.fieldsOf
    [("sequence_number", Json.ofNat r.sequence), ("envelope", Json.Canonical.encode r.envelope)])
  have hbody : r.body = 0x7B :: rest := hrest
  rw [hbody, List.all_cons]
  rfl

/-- **The line of a record is read as that record.** -/
theorem parseBytes_body : Json.parseBytes r.body = .ok r := (spells h).parseBytes_eq

end Record

/-! ## Loading

  Loading goes through the lines and numbers them for its errors; a record never gives one. -/

namespace Index

/-- Lines are taken in one after the other. -/
theorem load_append (x : Index) (n : Nat) (lines more : List (List UInt8)) :
    x.load n (lines ++ more) = (x.load n lines).bind fun y => y.load (n + lines.length) more := by
  induction lines generalizing x n with
  | nil => rfl
  | cons line lines ih =>
    rw [List.cons_append, load, load, List.length_cons, show n + (lines.length + 1)
      = n + 1 + lines.length by omega]
    split
    · exact ih x (n + 1)
    · split
      · rfl
      · split
        · exact ih x (n + 1)
        · exact ih _ (n + 1)

/-- The line of a record of another transaction is taken in. -/
theorem load_body {x : Index} {r : Record} (hheld : r.Held)
    (hnew : r.id ∉ x.envelopes.map Envelope.id) (n : Nat) :
    x.load n [r.body] = .ok (x.push r) := by
  have hseq : (x.sequenceOf? r.id).isSome = false := by
    rw [sequenceOf?_eq_none_iff.mpr hnew]
    rfl
  rw [load, Record.body_not_blank, if_neg (by decide), Record.parseBytes_body hheld]
  dsimp only
  rw [hseq, if_neg (by decide)]
  rfl

/-- **The lines of records give the records.** -/
theorem load_records {x : Index} {rs : List Record} (hheld : ∀ r ∈ rs, r.Held)
    (hdistinct : ((x.records ++ rs).map Record.id).Nodup) (n : Nat) :
    x.load n (rs.map Record.body) = .ok ⟨x.records ++ rs⟩ := by
  induction rs generalizing x n with
  | nil => rw [List.append_nil]; rfl
  | cons r rs ih =>
    obtain ⟨hr, hrs⟩ := List.forall_mem_cons.mp hheld
    have hsplit : x.records ++ r :: rs = (x.push r).records ++ rs := by
      rw [push, List.append_assoc, List.singleton_append]
    have hnew : r.id ∉ x.envelopes.map Envelope.id := by
      rw [List.map_append, List.nodup_append] at hdistinct
      rw [envelopes, List.map_map]
      intro hmem
      exact hdistinct.2.2 r.id hmem r.id List.mem_cons_self rfl
    rw [List.map_cons, ← List.singleton_append, load_append, load_body hr hnew]
    show (x.push r).load _ _ = _
    rw [hsplit] at hdistinct ⊢
    exact ih hrs hdistinct _

end Index

end Subledger
