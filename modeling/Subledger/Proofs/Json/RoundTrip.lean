/-
  STRUCTURED TEXT, WRITTEN AND READ: a written tree is read back as that tree.

  1. **The trees** (`Value.Regular`) — those in which nothing is missing or garbled and every number
     is a plain whole number.  All that the domain writes is of this kind.
  2. **Tokens** — a string ends at its closing quote, since every quote inside is escaped; a number
     ends where something follows that no number goes on with (`Closes`).
  3. **Trees** (`readValue_write`) — induction on the tree, with any text behind it.  The reader's
     bound on its depth counts two for each symbol: a step that takes none is followed by one that
     does.
  4. **The results** — `readBytes_write`, and of the bytes themselves that none is a control
     character (`newline_not_mem_write`), so that what is written stands on one line.
-/
import Mathlib
import Subledger.Json.Reader
import Subledger.Json.Writer
import Subledger.Proofs.Text.Digits
import Subledger.Proofs.Text.Utf8

namespace Subledger.Json

open Subledger.Text

/-! ## Trees that can be written -/

mutual

/-- A value without faults, whose numbers are plain whole numbers. -/
def Value.Regular : Value → Prop
  | .null => True
  | .bool _ => True
  | .number n => ∃ k, n = .ofNat k
  | .text _ => True
  | .garbled => False
  | .array items => items.Regular
  | .object fields => fields.Regular
  | .fault => False

/-- Values of a list up to its end. -/
def Items.Regular : Items → Prop
  | .close => True
  | .fault => False
  | .item v rest => v.Regular ∧ rest.Regular

/-- Fields of a record up to its end. -/
def Fields.Regular : Fields → Prop
  | .close => True
  | .fault => False
  | .field _ v rest => v.Regular ∧ rest.Regular
  | .garbled _ _ => False

end

/-- The symbols of a text of characters. -/
def symbolsOf (cs : List Char) : List Symbol := cs.map some

/-- The first symbol of a text of characters. -/
theorem symbolsOf_cons (c : Char) (cs : List Char) :
    symbolsOf (c :: cs) = some c :: symbolsOf cs := rfl

theorem symbolsOf_append (cs ds : List Char) :
    symbolsOf (cs ++ ds) = symbolsOf cs ++ symbolsOf ds := List.map_append

/-! ## Strings

  A string is a run of characters between quotes.  Each character is either written as it is or as
  an escape, and reading takes exactly one of these at a time, so a string is read back character by
  character; the closing quote is the first that is not escaped. -/

/-- An escape inside a string is read as the character that it names. -/
theorem readString_of_escape {rest rest' : List Symbol} {s : Symbol}
    (h : escape rest = some (s, rest')) :
    readString (some '\\' :: rest) = (readString rest').map fun p => (s :: p.1, p.2) := by
  rw [readString, if_neg (by decide), if_pos rfl]
  split
  · rename_i h'
    obtain ⟨rfl, rfl⟩ := Prod.mk.inj (Option.some.inj (h'.symm.trans h))
    rfl
  · rename_i h'
    rw [h'] at h
    cases h

/-- A control character is named by its two lower digits. -/
theorem escape_control {c : Char} (h : c < ' ') (rest : List Symbol) :
    escape (symbolsOf ['u', '0', '0', Hex.digit (c.toNat / 16), Hex.digit (c.toNat % 16)] ++ rest)
      = some (some c, rest) := by
  have hlt : c.toNat < 32 := h
  have hhigh := Hex.digitValue?_digit (c.toNat / 16) (by omega)
  have hlow := Hex.digitValue?_digit (c.toNat % 16) (by omega)
  have hunit : unitOf (some '0') (some '0') (some (Hex.digit (c.toNat / 16)))
      (some (Hex.digit (c.toNat % 16))) = some c.toNat := by
    have hzero : Hex.digitValue? '0' = some 0 := rfl
    simp only [unitOf, hzero, hhigh, hlow, Option.bind_eq_bind, Option.bind_some]
    rw [show ((0 * 16 + 0) * 16 + c.toNat / 16) * 16 + c.toNat % 16 = c.toNat by omega]
    rfl
  have hnotLow : isLow c.toNat = false := by
    rw [isLow, decide_eq_false (by omega), Bool.false_and]
  have hnotHigh : isHigh c.toNat = false := by
    rw [isHigh, decide_eq_false (by omega), Bool.false_and]
  simp only [symbolsOf, List.map_cons, List.map_nil, List.cons_append, List.nil_append, escape,
    hunit, hnotLow, hnotHigh, Char.ofNat_toNat]
  rfl

/-- A character is read back from the way in which it stands inside a string. -/
theorem readString_escaped (c : Char) (rest : List Symbol) :
    readString (symbolsOf (escaped c) ++ rest)
      = (readString rest).map fun (ss, r) => (some c :: ss, r) := by
  unfold escaped
  split
  iterate 7 exact readString_of_escape rfl
  rename_i hquote hslash _ _ _ _ _
  split
  · rename_i hcontrol
    exact readString_of_escape (escape_control hcontrol rest)
  · rename_i hprinted
    show readString (some c :: rest) = _
    rw [readString, if_neg hquote, if_neg hslash, if_neg hprinted]

/-- The inside of a string is read back up to its closing quote. -/
theorem readString_flatMap_escaped (cs : List Char) (rest : List Symbol) :
    readString (symbolsOf (cs.flatMap escaped) ++ some '"' :: rest)
      = some (symbolsOf cs, rest) := by
  induction cs with
  | nil =>
    show readString (some '"' :: rest) = _
    rw [readString, if_pos rfl]
    rfl
  | cons c cs ih =>
    rw [List.flatMap_cons, symbolsOf_append, List.append_assoc, readString_escaped, ih]
    rfl

/-- A string is read back from behind its opening quote. -/
theorem readString_write (s : String) (rest : List Symbol) :
    readString (symbolsOf (s.toList.flatMap escaped ++ ['"']) ++ rest)
      = some (symbolsOf s.toList, rest) := by
  rw [symbolsOf_append, List.append_assoc]
  exact readString_flatMap_escaped _ _

/-- A text without faulty symbols spells the text that it came from. -/
theorem spelled_symbolsOf (s : String) : spelled (symbolsOf s.toList) = some s := by
  have hall : ∀ cs : List Char, (symbolsOf cs).mapM id = some cs := by
    intro cs
    induction cs with
    | nil => rfl
    | cons c cs ih =>
      rw [symbolsOf_cons, List.mapM_cons, ih]
      rfl
  rw [spelled, hall, Option.map_some, String.ofList_toList]

/-! ## Numbers

  The domain writes only whole numbers, without sign, fraction and exponent.  The reader knows all
  of these and looks for each; it finds none, because what follows a written value begins none. -/

/-- What may stand behind a value: nothing, or a mark of the list or record around it. -/
def Closes (rest : List Symbol) : Prop :=
  rest = [] ∨ ∃ c more, rest = some c :: more ∧ (c = ',' ∨ c = ']' ∨ c = '}')

theorem closes_cons {c : Char} (h : c = ',' ∨ c = ']' ∨ c = '}') (more : List Symbol) :
    Closes (some c :: more) := Or.inr ⟨c, more, rfl, h⟩

/-- No digit follows a written number. -/
theorem scanDigits_of_closes {rest : List Symbol} (h : Closes rest) :
    scanDigits rest = ([], rest) := by
  rcases h with rfl | ⟨c, more, rfl, rfl | rfl | rfl⟩ <;> rfl

/-- A run of digits is taken up to its end. -/
theorem scanDigits_append {ds : List Char} (hds : ∀ c ∈ ds, c.isDigit = true) {rest : List Symbol}
    (h : Closes rest) : scanDigits (symbolsOf ds ++ rest) = (ds, rest) := by
  induction ds with
  | nil => exact scanDigits_of_closes h
  | cons c ds ih =>
    have hrest := ih fun d hd => hds d (List.mem_cons_of_mem c hd)
    rw [symbolsOf_cons, List.cons_append, scanDigits, if_pos (hds c List.mem_cons_self), hrest]

/-- The digits of a number are taken as its whole part.  The reader refuses a zero in front of other
    digits; a written number has none. -/
theorem readWhole_ofNat (n : Nat) {rest : List Symbol} (h : Closes rest) :
    readWhole (symbolsOf (Digits.ofNat n) ++ rest) = some (Digits.ofNat n, rest) := by
  obtain ⟨d, ds, hds, -⟩ := Digits.exists_ofNat_cons n
  rw [readWhole, scanDigits_append (Digits.ofNat_digits n) h]
  split
  · rename_i hnil
    rw [hds] at hnil
    cases hnil
  · rename_i hzero
    exact absurd (Prod.mk.inj hzero).1 (Digits.ofNat_ne_zero_cons n _ _)
  · rfl

theorem readFraction_of_closes {rest : List Symbol} (h : Closes rest) :
    readFraction rest = some ([], rest) := by
  rcases h with rfl | ⟨c, more, rfl, rfl | rfl | rfl⟩ <;> rfl

/-- A written number has no exponent. -/
theorem readExponent_of_closes {rest : List Symbol} (h : Closes rest) :
    readExponent rest = some (none, rest) := by
  rcases h with rfl | ⟨c, more, rfl, rfl | rfl | rfl⟩ <;> rfl

/-- A written number is read back. -/
theorem readUnsigned_ofNat (n : Nat) {rest : List Symbol} (h : Closes rest) :
    readUnsigned false (symbolsOf (Digits.ofNat n) ++ rest) = some (.ofNat n, rest) := by
  rw [readUnsigned, readWhole_ofNat n h]
  simp only [Option.bind_eq_bind, Option.bind_some, readFraction_of_closes h,
    readExponent_of_closes h]
  rfl

/-- A whole number is written with its digits alone. -/
theorem writeNumber_ofNat (n : Nat) : writeNumber (.ofNat n) = Digits.ofNat n := by
  show (([] ++ Digits.ofNat n) ++ []) ++ [] = Digits.ofNat n
  rw [List.nil_append, List.append_nil, List.append_nil]

/-! ## Single values

  A value that is neither list nor record is told by its first character, which is already taken
  when the rest is read. -/

/-- A text is read back from behind its opening quote. -/
theorem readScalar_text (s : String) (rest : List Symbol) :
    readScalar '"' (symbolsOf (s.toList.flatMap escaped ++ ['"']) ++ rest)
      = (.text s, some rest) := by
  rw [readScalar, if_neg (by decide), if_neg (by decide), if_neg (by decide), if_pos rfl,
    readString_write]
  dsimp only
  rw [spelled_symbolsOf]

/-- A number is read back from behind its first digit. -/
theorem readScalar_number (n : Nat) {d : Char} {ds : List Char} (hds : Digits.ofNat n = d :: ds)
    (hd : d.isDigit = true) {rest : List Symbol} (h : Closes rest) :
    readScalar d (symbolsOf ds ++ rest) = (.number (.ofNat n), some rest) := by
  have hread : readNumber (some d :: (symbolsOf ds ++ rest)) = some (.ofNat n, rest) := by
    have hunsigned := readUnsigned_ofNat n h
    rw [hds, symbolsOf_cons, List.cons_append] at hunsigned
    rw [readNumber]
    · exact hunsigned
    · rintro more ⟨⟩
      exact absurd hd (by decide)
  -- no digit begins a literal or a string
  have hne : ∀ {c : Char}, c.isDigit = false → d ≠ c := fun hc => Digits.isDigit_ne hd hc
  rw [readScalar, if_neg (hne (by decide)), if_neg (hne (by decide)), if_neg (hne (by decide)),
    if_neg (hne (by decide)), if_pos (Or.inr hd), hread]

/-! ## Trees

  A list is read value by value, and between two values there is a comma.  So what follows a value
  in it is the next comma or the closing bracket, and both end a number.  The same holds of a record
  and its fields.  The three functions of the reader call one another, and so do the three theorems
  below; each takes the text that follows as an argument. -/

/-- A character that begins a value: it is neither passed over nor taken for a mark of the list. -/
structure Opens (c : Char) : Prop where
  printed : isBlankSymbol (some c) = false
  not_comma : c ≠ ','
  not_bracket : c ≠ ']'

/-- A value is never written as nothing. -/
theorem exists_writeValue_cons {v : Value} (h : v.Regular) :
    ∃ c cs, writeValue v = c :: cs ∧ Opens c := by
  cases v with
  | null => exact ⟨_, _, rfl, by decide, by decide, by decide⟩
  | bool b => cases b <;> exact ⟨_, _, rfl, by decide, by decide, by decide⟩
  | number n =>
    obtain ⟨k, rfl⟩ := h
    obtain ⟨d, ds, hds, hd⟩ := Digits.exists_ofNat_cons k
    refine ⟨d, ds, by rw [writeValue, writeNumber_ofNat, hds], ?_, Digits.isDigit_ne hd (by decide),
      Digits.isDigit_ne hd (by decide)⟩
    have hspace := Digits.isDigit_ne hd (c := ' ') (by decide)
    have hline := Digits.isDigit_ne hd (c := '\n') (by decide)
    have htab := Digits.isDigit_ne hd (c := '\t') (by decide)
    have hreturn := Digits.isDigit_ne hd (c := '\r') (by decide)
    simp [isBlankSymbol, hspace, hline, htab, hreturn]
  | text s => exact ⟨_, _, rfl, by decide, by decide, by decide⟩
  | array items => exact ⟨_, _, rfl, by decide, by decide, by decide⟩
  | object fields => exact ⟨_, _, rfl, by decide, by decide, by decide⟩
  | garbled => exact h.elim
  | fault => exact h.elim

/-- Behind a value of a list a comma or the closing bracket follows. -/
theorem closes_writeItems {items : Items} (h : items.Regular) (rest : List Symbol) :
    Closes (symbolsOf (writeItems false items) ++ rest) := by
  cases items with
  | close => exact closes_cons (by decide) _
  | fault => exact h.elim
  | item v more => exact closes_cons (c := ',') (by decide) _

/-- Behind a field of a record a comma or the closing brace follows. -/
theorem closes_writeFields {fields : Fields} (h : fields.Regular) (rest : List Symbol) :
    Closes (symbolsOf (writeFields false fields) ++ rest) := by
  cases fields with
  | close => exact closes_cons (by decide) _
  | fault => exact h.elim
  | field name v more => exact closes_cons (c := ',') (by decide) _
  | garbled v more => exact h.elim

/-- Nothing is skipped where no white space stands; the writer never writes any. -/
theorem skipBlanks_cons {c : Char} (h : isBlankSymbol (some c) = false) (rest : List Symbol) :
    skipBlanks (some c :: rest) = some c :: rest := by
  rw [skipBlanks, List.dropWhile_cons_of_neg (by rw [h]; decide)]

/-- The first value of a list is found directly behind the bracket. -/
theorem nextItem_first {c : Char} (h : Opens c) (rest : List Symbol) :
    nextItem true (some c :: rest) = .value (some c :: rest) := by
  rw [nextItem, skipBlanks_cons h.printed]
  split
  · rename_i hnil
    cases hnil
  · rename_i hclose
    exact absurd (Option.some.inj (List.cons.inj hclose).1) h.not_bracket
  · rename_i hcomma
    exact absurd (Option.some.inj (List.cons.inj hcomma).1) h.not_comma
  · rfl

/-- Any other value of a list is found behind its comma. -/
theorem nextItem_next {c : Char} (h : Opens c) (rest : List Symbol) :
    nextItem false (some ',' :: some c :: rest) = .value (some c :: rest) := by
  have hcomma : skipBlanks (some ',' :: some c :: rest) = some ',' :: some c :: rest :=
    skipBlanks_cons (by decide) _
  rw [nextItem, hcomma]
  refine (if_neg Bool.false_ne_true).trans ?_
  rw [skipBlanks_cons h.printed]
  split
  · rename_i hnil
    cases hnil
  · rename_i hclose
    exact absurd (Option.some.inj (List.cons.inj hclose).1) h.not_bracket
  · rfl

/-- The next value of a written list is found, whether it is the first or not. -/
theorem nextItem_write {v : Value} (h : v.Regular) (first : Bool) (rest : List Symbol) :
    nextItem first (symbolsOf ((if first then [] else [',']) ++ writeValue v) ++ rest)
      = .value (symbolsOf (writeValue v) ++ rest) := by
  obtain ⟨c, cs, hcs, hopens⟩ := exists_writeValue_cons h
  rw [hcs]
  cases first with
  | true => exact nextItem_first hopens _
  | false => exact nextItem_next hopens _

/-- The next name of a written record is found. -/
theorem nextField_write (name : String) (first : Bool) (rest : List Symbol) :
    nextField first (symbolsOf ((if first then [] else [',']) ++ writeString name) ++ rest)
      = .name (some name) rest := by
  have hname : fieldName (symbolsOf (name.toList.flatMap escaped ++ ['"']) ++ rest)
      = .name (some name) rest := by
    rw [fieldName, readString_write]
    dsimp only
    rw [spelled_symbolsOf]
  cases first with
  | true => exact hname
  | false => exact hname

theorem afterColon_cons (rest : List Symbol) : afterColon (some ':' :: rest) = some rest := rfl

mutual

/-- A value is read back, whatever follows it. -/
theorem readValue_write : ∀ v : Value, v.Regular → ∀ (rest : List Symbol), Closes rest →
    ∀ fuel, 2 * (writeValue v).length ≤ fuel →
      readValue fuel (symbolsOf (writeValue v) ++ rest) = (v, some rest)
  | .null, _, rest, _, fuel + 1, _ => rfl
  | .bool true, _, rest, _, fuel + 1, _ => rfl
  | .bool false, _, rest, _, fuel + 1, _ => rfl
  | .number n, hn, rest, hrest, fuel + 1, _ => by
    obtain ⟨k, rfl⟩ := hn
    obtain ⟨d, ds, hds, hd⟩ := Digits.exists_ofNat_cons k
    have hopens := exists_writeValue_cons (v := .number (.ofNat k)) ⟨k, rfl⟩
    rw [writeValue, writeNumber_ofNat, hds] at hopens ⊢
    obtain ⟨_, _, ⟨⟩, hopens⟩ := hopens
    rw [symbolsOf_cons, List.cons_append, readValue, skipBlanks_cons hopens.printed]
    dsimp only
    rw [if_neg (Digits.isDigit_ne hd (by decide)), if_neg (Digits.isDigit_ne hd (by decide))]
    exact readScalar_number k hds hd hrest
  | .text s, _, rest, _, fuel + 1, _ => readScalar_text s rest
  | .array items, h, rest, _, fuel + 1, hfuel => by
    rw [writeValue, List.length_cons] at hfuel
    have hitems := readItems_write items h true rest fuel (by omega)
    show (match readItems fuel true (symbolsOf (writeItems true items) ++ rest) with
      | (items, rest) => (Value.array items, rest)) = _
    rw [hitems]
  | .object fields, h, rest, _, fuel + 1, hfuel => by
    rw [writeValue, List.length_cons] at hfuel
    have hfields := readFields_write fields h true rest fuel (by omega)
    show (match readFields fuel true (symbolsOf (writeFields true fields) ++ rest) with
      | (fields, rest) => (Value.object fields, rest)) = _
    rw [hfields]
  | v, h, _, _, 0, hfuel => by
    obtain ⟨c, cs, hcs, -⟩ := exists_writeValue_cons h
    rw [hcs, List.length_cons] at hfuel
    omega

/-- The values of a list are read back from behind its bracket or the value before. -/
theorem readItems_write : ∀ items : Items, items.Regular → ∀ (first : Bool) (rest : List Symbol)
    (fuel : Nat), 2 * (writeItems first items).length + 1 ≤ fuel →
      readItems fuel first (symbolsOf (writeItems first items) ++ rest) = (items, some rest)
  | .close, _, first, rest, fuel + 1, _ => by cases first <;> rfl
  | .item v more, h, first, rest, fuel + 1, hfuel => by
    rw [writeItems, List.length_append, List.length_append] at hfuel
    obtain ⟨c, cs, hcs, -⟩ := exists_writeValue_cons h.1
    have hlength : 0 < (writeValue v).length := by
      rw [hcs]
      exact Nat.succ_pos _
    rw [writeItems, symbolsOf_append, List.append_assoc, readItems, nextItem_write h.1]
    dsimp only
    rw [readValue_write v h.1 _ (closes_writeItems h.2 rest) fuel (by omega)]
    dsimp only
    rw [readItems_write more h.2 false rest fuel (by omega)]

/-- The fields of a record are read back from behind its brace or the field before. -/
theorem readFields_write : ∀ fields : Fields, fields.Regular → ∀ (first : Bool)
    (rest : List Symbol) (fuel : Nat), 2 * (writeFields first fields).length + 1 ≤ fuel →
      readFields fuel first (symbolsOf (writeFields first fields) ++ rest) = (fields, some rest)
  | .close, _, first, rest, fuel + 1, _ => by cases first <;> rfl
  | .field name v more, h, first, rest, fuel + 1, hfuel => by
    rw [writeFields, List.length_append, List.length_append, List.length_cons] at hfuel
    rw [writeFields, symbolsOf_append, symbolsOf_append, List.append_assoc, List.append_assoc,
      readFields, nextField_write]
    dsimp only
    rw [symbolsOf_cons, List.cons_append, afterColon_cons]
    dsimp only
    rw [readValue_write v h.1 _ (closes_writeFields h.2 rest) fuel (by omega)]
    dsimp only
    rw [readFields_write more h.2 false rest fuel (by omega)]
    rfl

end

/-! ## Whole texts -/

/-- **A written tree is read back**, and nothing is left behind it. -/
theorem readSymbols_write {v : Value} (h : v.Regular) :
    readSymbols (symbolsOf (writeValue v)) = ⟨v, true⟩ := by
  have hread := readValue_write v h [] (Or.inl rfl) (2 * (symbolsOf (writeValue v)).length + 2) (by
    rw [symbolsOf, List.length_map]
    omega)
  rw [List.append_nil] at hread
  rw [readSymbols, hread]
  rfl

/-- A written text is read back as its tree. -/
theorem read_write {v : Value} (h : v.Regular) : read (write v) = ⟨v, true⟩ := by
  rw [read, write, String.toList_ofList]
  exact readSymbols_write h

/-- The bytes of a written text are read back as its tree: writing them as UTF-8 and reading them
    back changes no symbol. -/
theorem readBytes_write {v : Value} (h : v.Regular) :
    readBytes (Utf8.encode (write v).toList) = ⟨v, true⟩ := by
  rw [readBytes, write, String.toList_ofList, Utf8.symbols_encode]
  exact readSymbols_write h

/-! ## What is written is printed

  Inside a string a control character is written as an escape, and outside there is none.  So a line
  break never stands in a written text, whatever names or texts the tree holds: a journal may put
  one tree on each line. -/

/-- Is it no control character? -/
def isPrinted (c : Char) : Bool := !decide (c < ' ')

theorem isPrinted_hexDigit : ∀ n, n < 16 → isPrinted (Hex.digit n) = true := by decide

theorem isPrinted_of_isDigit {c : Char} (h : c.isDigit = true) : isPrinted c = true := by
  have hzero : 48 ≤ c.toNat := by
    simp only [Char.isDigit, Bool.and_eq_true, decide_eq_true_eq] at h
    exact h.1
  rw [isPrinted, Bool.not_eq_true', decide_eq_false_iff_not]
  intro hlt
  have hspace : c.toNat < 32 := hlt
  omega

/-- However a character is written inside a string, nothing but printed characters is used. -/
theorem all_escaped (c : Char) : (escaped c).all isPrinted = true := by
  unfold escaped
  split
  iterate 7 rfl
  split
  · rename_i hcontrol
    have hlt : c.toNat < 32 := hcontrol
    have hhigh := isPrinted_hexDigit (c.toNat / 16) (by omega)
    have hlow := isPrinted_hexDigit (c.toNat % 16) (by omega)
    simp only [List.all_cons, List.all_nil, hhigh, hlow]
    rfl
  · rename_i hprinted
    simpa [isPrinted] using hprinted

/-- A string is printed from quote to quote. -/
theorem all_writeString (s : String) : (writeString s).all isPrinted = true := by
  have hinside : (s.toList.flatMap escaped).all isPrinted = true := by
    rw [List.all_flatMap]
    exact List.all_eq_true.mpr fun c _ => all_escaped c
  rw [writeString, List.cons_append, List.all_cons, List.all_append, hinside]
  rfl

theorem all_separator (first : Bool) :
    (if first then [] else [',']).all isPrinted = true := by
  cases first <;> rfl

mutual

/-- All that is written for a tree is printed.  This goes along the tree, like reading it back. -/
theorem all_writeValue : ∀ v : Value, v.Regular → (writeValue v).all isPrinted = true
  | .null, _ => rfl
  | .bool true, _ => rfl
  | .bool false, _ => rfl
  | .number n, hn => by
    obtain ⟨k, rfl⟩ := hn
    rw [writeValue, writeNumber_ofNat]
    exact List.all_eq_true.mpr fun c hc => isPrinted_of_isDigit (Digits.ofNat_digits k c hc)
  | .text s, _ => all_writeString s
  | .array items, h => by
    rw [writeValue, List.all_cons, all_writeItems items h true]
    rfl
  | .object fields, h => by
    rw [writeValue, List.all_cons, all_writeFields fields h true]
    rfl

theorem all_writeItems : ∀ items : Items, items.Regular → ∀ first : Bool,
    (writeItems first items).all isPrinted = true
  | .close, _, _ => rfl
  | .item v more, h, first => by
    rw [writeItems, List.all_append, List.all_append, all_separator, all_writeValue v h.1,
      all_writeItems more h.2 false]
    rfl

theorem all_writeFields : ∀ fields : Fields, fields.Regular → ∀ first : Bool,
    (writeFields first fields).all isPrinted = true
  | .close, _, _ => rfl
  | .field name v more, h, first => by
    rw [writeFields, List.all_append, List.all_append, List.all_append, List.all_cons,
      all_separator, all_writeString, all_writeValue v h.1, all_writeFields more h.2 false]
    rfl

end

/-- **What is written stands on one line.** -/
theorem newline_not_mem_write {v : Value} (h : v.Regular) :
    (0x0A : UInt8) ∉ Utf8.encode (write v).toList := by
  rw [write, String.toList_ofList]
  refine Utf8.newline_not_mem_encode ?_
  intro hmem
  exact absurd (List.all_eq_true.mp (all_writeValue v h) _ hmem) (by decide)

/-- A written record begins with its brace. -/
theorem encode_write_object (fields : Fields) :
    ∃ rest, Utf8.encode (write (.object fields)).toList = 0x7B :: rest := by
  rw [write, String.toList_ofList, writeValue]
  exact ⟨_, rfl⟩

end Subledger.Json
