/-
  CHECKED DECODERS: a value is read if its parts can be read and pass the check.

  A type with a check of its own is read through that check, wherever it stands in a document.  So one
  can read the parts of a whole document first, unchecked, and build the value afterwards.

  1. **Reading by name** (`Row.decode_object_iff`) — a record in form gives each field once, or not at
     all where it may be absent; fields of other names do not matter, and neither does the order.
     The draft that the reader fills is not seen any more (`Row.Takes` says how it is filled).
  2. **Checks** (`Checks`) — a decoder reads a value exactly if the decoder of the parts reads these
     and they make the value.  This passes from the fields to the record (`Row.Checks.decode`), from
     the items to the list (`Checks.list`), and from trees to bytes (`Checks.decodeBytes`).  The two
     may give different errors: whoever checks last has read more of the text by then.
-/
import Subledger.Proofs.Json.Rows

namespace Subledger.Json

/-! ## Reading by name

  The reader goes through the fields in the order of the document and fills a draft; the names
  decide where.  What comes out is said of the list of values that a name has. -/

namespace Fields

/-- The values that a record has under a name, in the order of the text. -/
def valuesOf (name : String) : Fields → List Value
  | .field k v more => if k = name then v :: more.valuesOf name else more.valuesOf name
  | _ => []

/-- The record is in form up to its end. -/
def Closed : Fields → Prop
  | .close => True
  | .field _ _ more => more.Closed
  | _ => False

/-- A name's values begin with the value under it. -/
theorem valuesOf_self (name : String) (v : Value) (more : Fields) :
    (Fields.field name v more).valuesOf name = v :: more.valuesOf name := if_pos rfl

/-- A field of another name adds nothing to them. -/
theorem valuesOf_of_ne {k name : String} (h : k ≠ name) (v : Value) (more : Fields) :
    (Fields.field k v more).valuesOf name = more.valuesOf name := if_neg h

end Fields

namespace Row

variable {α : Type}

/-- A record has each field once, or may lack it and does. -/
def Reads : {α : Type} → Row α → Fields → α → Prop
  | _, .done, _, _ => True
  | _, .field name decode absent rest, fs, a =>
    ((∃ v, fs.valuesOf name = [v] ∧ decode v = .ok a.1) ∨
      (fs.valuesOf name = [] ∧ absent = some a.1)) ∧ rest.Reads fs a.2

/-- A record takes one draft to another: each field stays as it is, or is met for the first time. -/
def Takes : {α : Type} → (r : Row α) → Fields → r.Draft → r.Draft → Prop
  | _, .done, _, _, _ => True
  | _, .field name decode _ rest, fs, d, d' =>
    ((fs.valuesOf name = [] ∧ d'.1 = d.1) ∨
      (d.1 = none ∧ ∃ v a, fs.valuesOf name = [v] ∧ decode v = .ok a ∧ d'.1 = some a)) ∧
    rest.Takes fs d.2 d'.2

/-- At the end of the fields the draft is as it was. -/
theorem takes_close {r : Row α} {d d' : r.Draft} : r.Takes .close d d' ↔ d' = d := by
  induction r with
  | done => exact iff_of_true trivial rfl
  | field name decode absent rest ih =>
    rw [Takes, ih]
    constructor
    · rintro ⟨⟨-, hx⟩ | ⟨-, v, a, hone, -⟩, hd⟩
      · exact Prod.ext hx hd
      · cases hone
    · rintro rfl
      exact ⟨Or.inl ⟨rfl, rfl⟩, rfl⟩

/-- A field of another name is passed over. -/
theorem takes_of_not_named {r : Row α} {k : String} (h : k ∉ r.names) {v : Value} {more : Fields}
    {d d' : r.Draft} : r.Takes (.field k v more) d d' ↔ r.Takes more d d' := by
  induction r with
  | done => exact Iff.rfl
  | field name decode absent rest ih =>
    rw [names, List.mem_cons, not_or] at h
    rw [Takes, Takes, Fields.valuesOf_of_ne h.1, ih h.2]

/-- To take a field, and then the others, is to take them all. -/
theorem takes_field_iff {r : Row α} (hnames : r.names.Nodup) {k : String} {v : Value}
    {more : Fields} {d d' : r.Draft} :
    r.Takes (.field k v more) d d' ↔ ∃ d₁, r.put k v d = .ok d₁ ∧ r.Takes more d₁ d' := by
  induction r with
  | done => exact iff_of_true trivial ⟨d, rfl, trivial⟩
  | field name decode absent rest ih =>
    rw [names, List.nodup_cons] at hnames
    rw [Takes, Row.put]
    obtain ⟨x, d⟩ := d
    -- a name that was met already must not come again, and one that is another's changes nothing here
    by_cases hk : k = name
    · subst hk
      rw [if_pos rfl, Fields.valuesOf_self, takes_of_not_named hnames.1]
      cases x with
      | some b =>
        constructor
        · rintro ⟨⟨hnil, -⟩ | ⟨hnone, -⟩, -⟩
          · cases hnil
          · cases hnone
        · rintro ⟨_, herror, -⟩
          cases herror
      | none =>
        constructor
        · rintro ⟨⟨hnil, -⟩ | ⟨-, w, a, hone, hdecode, hx'⟩, hrest⟩
          · cases hnil
          · obtain ⟨rfl, hnone⟩ := List.cons.inj hone
            exact ⟨(some a, d), map_eq_ok.mpr ⟨a, hdecode, rfl⟩, Or.inl ⟨hnone, hx'⟩, hrest⟩
        · rintro ⟨d₁, hput, hfirst, hrest⟩
          obtain ⟨a, hdecode, rfl⟩ := map_eq_ok.mp hput
          rcases hfirst with ⟨hnone, hx'⟩ | ⟨hmet, -⟩
          · exact ⟨Or.inr ⟨rfl, v, a, congrArg (List.cons v) hnone, hdecode, hx'⟩, hrest⟩
          · cases hmet
    · rw [if_neg hk, Fields.valuesOf_of_ne hk, ih hnames.2]
      constructor
      · rintro ⟨hfirst, d₁, hput, hrest⟩
        exact ⟨(x, d₁), map_eq_ok.mpr ⟨d₁, hput, rfl⟩, hfirst, hrest⟩
      · rintro ⟨_, hmap, hfirst, hrest⟩
        obtain ⟨d₁, hput, rfl⟩ := map_eq_ok.mp hmap
        exact ⟨hfirst, d₁, hput, hrest⟩

/-- A draft is filled from a record in form, which takes it to the filled one. -/
theorem fill_eq_ok_iff {r : Row α} (hnames : r.names.Nodup) : ∀ {fs : Fields} {d d' : r.Draft},
    r.fill d fs = .ok d' ↔ fs.Closed ∧ r.Takes fs d d'
  | .close, d, d' => by
    rw [Row.fill, takes_close]
    exact ⟨fun h => ⟨trivial, (Except.ok.inj h).symm⟩, fun h => congrArg Except.ok h.2.symm⟩
  | .fault, _, _ => iff_of_false error_ne_ok (fun h => h.1)
  | .garbled _ _, _, _ => iff_of_false error_ne_ok (fun h => h.1)
  | .field k v more, d, d' => by
    rw [Row.fill, bind_eq_ok, takes_field_iff hnames]
    constructor
    · rintro ⟨d₁, hput, hfill⟩
      obtain ⟨hclosed, htakes⟩ := (fill_eq_ok_iff hnames).mp hfill
      exact ⟨hclosed, d₁, hput, htakes⟩
    · rintro ⟨hclosed, d₁, hput, htakes⟩
      exact ⟨d₁, hput, (fill_eq_ok_iff hnames).mpr ⟨hclosed, htakes⟩⟩

/-- What is read is what the filled draft of a record comes to. -/
theorem reads_iff {r : Row α} {fs : Fields} {a : α} :
    r.Reads fs a ↔ ∃ d, r.Takes fs r.blank d ∧ r.finish d = .ok a := by
  induction r with
  | done => exact iff_of_true trivial ⟨(), trivial, rfl⟩
  | field name decode absent rest ih =>
    obtain ⟨b, a⟩ := a
    rw [Reads, ih]
    constructor
    · rintro ⟨⟨v, hone, hdecode⟩ | ⟨hnone, habsent⟩, d, htakes, hfinish⟩
      · exact ⟨(some b, d), ⟨Or.inr ⟨rfl, v, b, hone, hdecode, rfl⟩, htakes⟩,
          map_eq_ok.mpr ⟨a, hfinish, rfl⟩⟩
      · subst habsent
        exact ⟨(none, d), ⟨Or.inl ⟨hnone, rfl⟩, htakes⟩, map_eq_ok.mpr ⟨a, hfinish, rfl⟩⟩
    · rintro ⟨⟨x, d⟩, ⟨hfirst, htakes⟩, hmap⟩
      rcases hfirst with ⟨hnone, hx⟩ | ⟨-, v, c, hone, hdecode, hx⟩
      · obtain rfl : x = none := hx
        cases absent with
        | none => cases hmap
        | some c =>
          obtain ⟨a', hfinish, hpair⟩ := map_eq_ok.mp hmap
          obtain ⟨rfl, rfl⟩ := Prod.mk.inj hpair
          exact ⟨Or.inr ⟨hnone, rfl⟩, d, htakes, hfinish⟩
      · obtain rfl : x = some c := hx
        obtain ⟨a', hfinish, hpair⟩ := map_eq_ok.mp hmap
        obtain ⟨rfl, rfl⟩ := Prod.mk.inj hpair
        exact ⟨Or.inl ⟨v, hone, hdecode⟩, d, htakes, hfinish⟩

/-- **A record is read by name** if it is in form and has each field once, or may lack it. -/
theorem decode_object_iff {r : Row α} (hnames : r.names.Nodup) {fs : Fields} {a : α} :
    r.decode (.object fs) = .ok a ↔ fs.Closed ∧ r.Reads fs a := by
  rw [Row.decode, bind_eq_ok, reads_iff]
  constructor
  · rintro ⟨d, hfill, hfinish⟩
    obtain ⟨hclosed, htakes⟩ := (fill_eq_ok_iff hnames).mp hfill
    exact ⟨hclosed, d, htakes, hfinish⟩
  · rintro ⟨hclosed, d, htakes, hfinish⟩
    exact ⟨d, (fill_eq_ok_iff hnames).mpr ⟨hclosed, htakes⟩, hfinish⟩

end Row

/-! ## Checks

  A relation between two decoders, one with a check and one without, with a rule for each way of
  putting decoders together. -/

variable {α β α' β' : Type}

/-- A decoder reads what another one reads as parts that make a value. -/
def Checks (d : Decoder α) (raw : Decoder β) (make : β → α → Prop) : Prop :=
  ∀ v a, d v = .ok a ↔ ∃ b, raw v = .ok b ∧ make b a

/-- Nothing is checked. -/
theorem checks_self (d : Decoder α) : Checks d d Eq := by
  intro v a
  constructor
  · intro h
    exact ⟨a, h, rfl⟩
  · rintro ⟨b, h, rfl⟩
    exact h

/-- A text is read, and what a check makes of it. -/
theorem checked_eq_ok_iff {check : String → Except String α} {v : Value} {a : α} :
    checked check v = .ok a ↔ ∃ s, string v = .ok s ∧ check s = .ok a := by
  rw [checked, bind_eq_ok]
  apply exists_congr
  intro s
  apply and_congr_right
  intro _
  cases check s with
  | error reason => exact iff_of_false error_ne_ok error_ne_ok
  | ok b => exact ⟨fun h => congrArg Except.ok (Except.ok.inj h),
      fun h => congrArg Except.ok (Except.ok.inj h)⟩

/-- A check of a text. -/
theorem checks_string {check : String → Except String α} {make : String → α → Prop}
    (h : ∀ s a, check s = .ok a ↔ make s a) : Checks (checked check) string make := by
  intro v a
  rw [checked_eq_ok_iff]
  apply exists_congr
  intro s
  rw [h s a]

/-- A check of what an earlier check makes of a text. -/
theorem checks_checked {check : String → Except String α} {first : String → Except String β}
    {make : β → α → Prop} (h : ∀ s a, check s = .ok a ↔ ∃ b, first s = .ok b ∧ make b a) :
    Checks (checked check) (checked first) make := by
  intro v a
  simp only [checked_eq_ok_iff]
  constructor
  · rintro ⟨s, hs, hcheck⟩
    obtain ⟨b, hfirst, hmake⟩ := (h s a).mp hcheck
    exact ⟨b, ⟨s, hs, hfirst⟩, hmake⟩
  · rintro ⟨b, ⟨s, hs, hfirst⟩, hmake⟩
    exact ⟨s, hs, (h s a).mpr ⟨b, hfirst, hmake⟩⟩

section Combine

variable {d : Decoder α} {raw : Decoder β} {make : β → α → Prop}

/-- The items of a list are read if their parts are, and each makes its item. -/
theorem Checks.items (h : Checks d raw make) : ∀ (is : Items) (as : List α),
    items d is = .ok as ↔ ∃ bs, Json.items raw is = .ok bs ∧ List.Forall₂ make bs as
  | .fault, _ => error_eq_ok_iff_made
  | .close, as => by
    constructor
    · intro h
      obtain rfl := Except.ok.inj h
      exact ⟨[], rfl, .nil⟩
    · rintro ⟨bs, h, hbs⟩
      obtain rfl := Except.ok.inj h
      exact congrArg Except.ok (List.forall₂_nil_left_iff.mp hbs).symm
  | .item v rest, as => by
    rw [Json.items, Json.items, bind_eq_ok]
    constructor
    · rintro ⟨a, ha, hmore⟩
      obtain ⟨as', has, hcons⟩ := bind_eq_ok.mp hmore
      obtain rfl := Except.ok.inj hcons
      obtain ⟨b, hb, hmake⟩ := (h v a).mp ha
      obtain ⟨bs, hbs, hmakes⟩ := (h.items rest as').mp has
      exact ⟨b :: bs, bind_eq_ok.mpr ⟨b, hb, bind_eq_ok.mpr ⟨bs, hbs, rfl⟩⟩, .cons hmake hmakes⟩
    · rintro ⟨_, hraw, hmakes⟩
      obtain ⟨b, hb, hmore⟩ := bind_eq_ok.mp hraw
      obtain ⟨bs, hbs, hcons⟩ := bind_eq_ok.mp hmore
      obtain rfl := Except.ok.inj hcons
      obtain ⟨a, as', hmake, hall, rfl⟩ := List.forall₂_cons_left_iff.mp hmakes
      exact ⟨a, (h v a).mpr ⟨b, hb, hmake⟩,
        bind_eq_ok.mpr ⟨as', (h.items rest as').mpr ⟨bs, hbs, hall⟩, rfl⟩⟩

/-- A list is checked item by item. -/
theorem Checks.list (h : Checks d raw make) :
    Checks (list d) (Json.list raw) (List.Forall₂ make) := by
  intro v as
  cases v with
  | array is => exact h.items is as
  | _ => exact error_eq_ok_iff_made

/-- A further check of the value, with the parts put together in another form. -/
theorem Checks.andThen (h : Checks d raw make) (g : β → β') (k : α → Except Error α')
    {build : β' → α' → Prop} (hbuild : ∀ b c, build (g b) c ↔ ∃ a, make b a ∧ k a = .ok c) :
    Checks (fun v => d v >>= k) (fun v => (raw v).map g) build := by
  intro v c
  rw [bind_eq_ok]
  constructor
  · rintro ⟨a, ha, hc⟩
    obtain ⟨b, hb, hmake⟩ := (h v a).mp ha
    exact ⟨g b, map_eq_ok.mpr ⟨b, hb, rfl⟩, (hbuild b c).mpr ⟨a, hmake, hc⟩⟩
  · rintro ⟨_, hraw, hc⟩
    obtain ⟨b, hb, rfl⟩ := map_eq_ok.mp hraw
    obtain ⟨a, hmake, hc⟩ := (hbuild b c).mp hc
    exact ⟨a, (h v a).mpr ⟨b, hb, hmake⟩, hc⟩

/-- Value and parts put together in other forms. -/
theorem Checks.map (h : Checks d raw make) (g : β → β') (f : α → α') {build : β' → α' → Prop}
    (hbuild : ∀ b c, build (g b) c ↔ ∃ a, make b a ∧ f a = c) :
    Checks (fun v => (d v).map f) (fun v => (raw v).map g) build := by
  apply h.andThen g (fun a => .ok (f a))
  intro b c
  rw [hbuild]
  apply exists_congr
  intro a
  rw [Except.ok.injEq]

/-- A document is read from its bytes as from its tree. -/
theorem Checks.decodeBytes (h : Checks d raw make) (bs : List UInt8) (a : α) :
    Json.decodeBytes d bs = .ok a ↔ ∃ b, Json.decodeBytes raw bs = .ok b ∧ make b a := by
  simp only [decodeBytes_eq_ok_iff, h _ a]
  constructor
  · rintro ⟨⟨b, hb, hmake⟩, hend⟩
    exact ⟨b, ⟨hb, hend⟩, hmake⟩
  · rintro ⟨b, ⟨hb, hend⟩, hmake⟩
    exact ⟨⟨b, hb, hmake⟩, hend⟩

end Combine

/-! ## Checked records

  A record whose fields are checked is the record of their parts, checked field by field. -/

namespace Row

/-- The fields of a record are checked one by one. -/
inductive Checks : {α β : Type} → Row α → Row β → (β → α → Prop) → Prop where
  | done : Checks .done .done (fun _ _ => True)
  | field {α β αs βs : Type} {name : String} {d : Decoder α} {raw : Decoder β}
      {make : β → α → Prop} {rest : Row αs} {parts : Row βs} {build : βs → αs → Prop}
      (first : Json.Checks d raw make) (more : Checks rest parts build) :
      Checks (.required name d rest) (.required name raw parts)
        (fun b a => make b.1 a.1 ∧ build b.2 a.2)

variable {r : Row α} {parts : Row β} {build : β → α → Prop}

/-- Parts and wholes have the same names. -/
theorem Checks.names_eq (h : r.Checks parts build) : parts.names = r.names := by
  induction h with
  | done => rfl
  | field first more ih => exact congrArg (List.cons _) ih

/-- To read a checked record is to read its parts and build them. -/
theorem Checks.reads (h : r.Checks parts build) (fs : Fields) (a : α) :
    r.Reads fs a ↔ ∃ b, parts.Reads fs b ∧ build b a := by
  induction h with
  | done => exact iff_of_true trivial ⟨(), trivial, trivial⟩
  | field first more ih =>
    rw [required, Reads, ih]
    constructor
    · rintro ⟨⟨v, hone, hv⟩ | ⟨-, habsent⟩, bs, hreads, hbuild⟩
      · obtain ⟨b, hb, hmake⟩ := (first v a.1).mp hv
        exact ⟨(b, bs), ⟨Or.inl ⟨v, hone, hb⟩, hreads⟩, hmake, hbuild⟩
      · cases habsent
    · rintro ⟨⟨b, bs⟩, ⟨⟨v, hone, hb⟩ | ⟨-, habsent⟩, hreads⟩, hmake, hbuild⟩
      · exact ⟨Or.inl ⟨v, hone, (first v a.1).mpr ⟨b, hb, hmake⟩⟩, bs, hreads, hbuild⟩
      · cases habsent

/-- The same for a record that is given as a list of values. -/
theorem Checks.ofItems (h : r.Checks parts build) (is : Items) (a : α) :
    r.ofItems is = .ok a ↔ ∃ b, parts.ofItems is = .ok b ∧ build b a := by
  induction h generalizing is with
  | done =>
    cases is with
    | close => exact iff_of_true rfl ⟨(), rfl, trivial⟩
    | fault => exact error_eq_ok_iff_made
    | item v more => exact error_eq_ok_iff_made
  | field first more ih =>
    cases is with
    | close => exact error_eq_ok_iff_made
    | fault => exact error_eq_ok_iff_made
    | item v rest =>
      rw [required, required, Row.ofItems, Row.ofItems, bind_eq_ok]
      constructor
      · rintro ⟨x, hx, hmore⟩
        obtain ⟨xs, hxs, hpair⟩ := bind_eq_ok.mp hmore
        obtain rfl := Except.ok.inj hpair
        obtain ⟨b, hb, hmake⟩ := (first v x).mp hx
        obtain ⟨bs, hbs, hbuild⟩ := (ih rest xs).mp hxs
        exact ⟨(b, bs), bind_eq_ok.mpr ⟨b, hb, bind_eq_ok.mpr ⟨bs, hbs, rfl⟩⟩, hmake, hbuild⟩
      · rintro ⟨_, hraw, hmake, hbuild⟩
        obtain ⟨b, hb, hmore⟩ := bind_eq_ok.mp hraw
        obtain ⟨bs, hbs, hpair⟩ := bind_eq_ok.mp hmore
        obtain rfl := Except.ok.inj hpair
        exact ⟨a.1, (first v a.1).mpr ⟨b, hb, hmake⟩,
          bind_eq_ok.mpr ⟨a.2, (ih rest a.2).mpr ⟨bs, hbs, hbuild⟩, rfl⟩⟩

/-- **A record is read exactly if its parts are and make it**, by name or by position. -/
theorem Checks.decode (h : r.Checks parts build) (hnames : r.names.Nodup) :
    Json.Checks r.decode parts.decode build := by
  intro v a
  cases v with
  | object fs =>
    simp only [decode_object_iff hnames, decode_object_iff (h.names_eq ▸ hnames), h.reads fs a]
    constructor
    · rintro ⟨hclosed, b, hreads, hbuild⟩
      exact ⟨b, ⟨hclosed, hreads⟩, hbuild⟩
    · rintro ⟨b, ⟨hclosed, hreads⟩, hbuild⟩
      exact ⟨hclosed, b, hreads, hbuild⟩
  | array is => exact h.ofItems is a
  | _ => exact error_eq_ok_iff_made

end Row

end Subledger.Json
