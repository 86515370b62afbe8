/-
  CHECKED CONFIGURATIONS: what is checked, and that a checked configuration can be used.

  1. **The rules** (`Config.Sound`) — a code and a class are given together, no code is blank, and
     the settings of one account are one setting, however often it is listed.  `faultBehind?` is
     what is wrong with a setting that stands behind others.
  2. **The check** (`Config.check_eq_ok_iff`, `Config.check_eq_error_iff`) — it passes exactly if no
     rule is broken, and else tells the first fault.  A setting is compared with the first one of
     its account only; as long as no rule is broken, this is as good as with all before it.
  3. **The mappings** (`Config.glMappings_of_check`) — so mappings are made of it, and an account is
     mapped to a code and a class exactly if a setting of it says so.  Nothing is checked across
     accounts: of two accounts with one code each may have its own class.
  4. **The register** (`Config.registry_of_check`) — a register is made of it as well, in which each
     account has the type of its setting.
-/
import Subledger.Config
import Subledger.Proofs.Ledger.Registry

namespace Subledger

/-! ## The rules

  A setting can be wrong by itself, or beside an earlier one of the same account. -/

namespace AccountSetting

/-- What a setting maps its account to, if it gives both a code and a class. -/
def given (s : AccountSetting) : Option GlMapping :=
  match s.glCode, s.glType with
  | some code, some type => some ⟨code, type⟩
  | _, _ => none

/-- What is wrong with a setting by itself: it has a code or a class alone, or else its code is
    blank. -/
def fault? (s : AccountSetting) : Option ConfigError :=
  if s.glCode.isSome ≠ s.glType.isSome then some (.incompleteGlMapping s.account)
  else if s.glCode.any Text.isBlank then some (.value (.empty "gl_code"))
  else none

/-- What is wrong with a setting that stands behind others: something by itself, or else that one of
    the others is another setting of its account. -/
def faultBehind? (earlier : List AccountSetting) (s : AccountSetting) : Option ConfigError :=
  s.fault?.or
    (if ∃ s' ∈ earlier, s'.account = s.account ∧ s' ≠ s then some (.conflictingAccount s.account)
    else none)

/-- A setting without fault gives a mapping or none; one with a fault is refused for it. -/
theorem glMapping_eq (s : AccountSetting) : s.glMapping = match s.fault? with
    | some e => .error e
    | none => .ok s.given := by
  obtain ⟨account, type, glCode, glType⟩ := s
  cases glCode with
  | none => cases glType <;> rfl
  | some code =>
    cases glType with
    | none => rfl
    | some class' =>
      dsimp only [glMapping, GlMapping.ofParts, fault?, Option.isSome, Option.any]
      rw [if_neg (not_not.mpr rfl)]
      split <;> rfl

/-- A setting gives a mapping if it has both parts of it. -/
theorem given_eq_some_iff {s : AccountSetting} {m : GlMapping} :
    s.given = some m ↔ s.glCode = some m.code ∧ s.glType = some m.type := by
  obtain ⟨account, type, glCode, glType⟩ := s
  obtain ⟨code, class'⟩ := m
  cases glCode <;> cases glType <;> simp [given]

/-- By itself a setting is right if it has both parts or none, and a code that is not blank. -/
theorem fault?_eq_none_iff {s : AccountSetting} : s.fault? = none ↔
    s.glCode.isSome = s.glType.isSome ∧
      ∀ code, s.glCode = some code → Text.isBlank code = false := by
  obtain ⟨account, type, glCode, glType⟩ := s
  cases glCode <;> cases glType <;> simp [fault?]

/-- Behind others it is right if it is so by itself and repeats those of its account. -/
theorem faultBehind?_eq_none_iff {earlier : List AccountSetting} {s : AccountSetting} :
    s.faultBehind? earlier = none ↔
      s.fault? = none ∧ ∀ s' ∈ earlier, s'.account = s.account → s' = s := by
  rw [faultBehind?, Option.or_eq_none_iff]
  refine and_congr_right fun _ => ?_
  split
  · rename_i hother
    obtain ⟨s', hs', hsame, hne⟩ := hother
    exact iff_of_false (by rintro ⟨⟩) fun h => hne (h s' hs' hsame)
  · rename_i hnone
    refine iff_of_true rfl fun s' hs' hsame => ?_
    by_contra hne
    exact hnone ⟨s', hs', hsame, hne⟩

end AccountSetting

namespace Config

open AccountSetting

/-- Settings of one account are one setting. -/
def Consistent (settings : List AccountSetting) : Prop :=
  ∀ s ∈ settings, ∀ s' ∈ settings, s.account = s'.account → s = s'

/-- Settings that break no rule. -/
structure Sound (settings : List AccountSetting) : Prop where
  paired : ∀ s ∈ settings, s.glCode.isSome = s.glType.isSome
  named : ∀ s ∈ settings, ∀ code, s.glCode = some code → Text.isBlank code = false
  consistent : Consistent settings

/-- Each setting of a sound configuration is right by itself. -/
theorem Sound.fault? {settings : List AccountSetting} (h : Sound settings) {s : AccountSetting}
    (hs : s ∈ settings) : s.fault? = none :=
  fault?_eq_none_iff.mpr ⟨h.paired s hs, h.named s hs⟩

theorem sound_nil : Sound [] :=
  ⟨List.forall_mem_nil _, List.forall_mem_nil _, List.forall_mem_nil _⟩

/-- One more setting breaks no rule exactly if nothing is wrong with it behind the others. -/
theorem sound_concat_iff {settings : List AccountSetting} {s : AccountSetting} :
    Sound (settings ++ [s]) ↔ Sound settings ∧ s.faultBehind? settings = none := by
  have hmem : ∀ s' ∈ settings, s' ∈ settings ++ [s] := fun _ => List.mem_append_left _
  have hlast : s ∈ settings ++ [s] := List.mem_append_right _ List.mem_cons_self
  rw [faultBehind?_eq_none_iff]
  constructor
  · intro h
    refine ⟨⟨fun s' hs' => h.paired s' (hmem s' hs'), fun s' hs' => h.named s' (hmem s' hs'), ?_⟩,
      h.fault? hlast, fun s' hs' => h.consistent s' (hmem s' hs') s hlast⟩
    intro a ha b hb
    exact h.consistent a (hmem a ha) b (hmem b hb)
  · rintro ⟨h, hfault, hsame⟩
    obtain ⟨hpaired, hnamed⟩ := fault?_eq_none_iff.mp hfault
    refine ⟨?_, ?_, ?_⟩
    · intro s' hs'
      rcases List.mem_append.mp hs' with hs' | hs'
      · exact h.paired s' hs'
      · exact List.mem_singleton.mp hs' ▸ hpaired
    · intro s' hs'
      rcases List.mem_append.mp hs' with hs' | hs'
      · exact h.named s' hs'
      · exact List.mem_singleton.mp hs' ▸ hnamed
    · intro a ha b hb hab
      rcases List.mem_append.mp ha with ha | ha <;> rcases List.mem_append.mp hb with hb | hb
      · exact h.consistent a ha b hb hab
      · rw [List.mem_singleton.mp hb] at hab ⊢
        exact hsame a ha hab
      · rw [List.mem_singleton.mp ha] at hab ⊢
        exact (hsame b hb hab.symm).symm
      · rw [List.mem_singleton.mp ha, List.mem_singleton.mp hb]

/-! ## The check

  The check goes through the settings with those seen so far in hand, and makes the mapping of each
  only to see whether it can be made. -/

/-- The settings seen after one more, if it passes. -/
def checkOne (seen : List AccountSetting) (s : AccountSetting) :
    Except ConfigError (List AccountSetting) := do
  let _ ← s.glMapping
  match seen.find? fun s' => s'.account == s.account with
  | some s' => if s' = s then .ok seen else .error (.conflictingAccount s.account)
  | none => .ok (seen ++ [s])

/-- The check is a loop that hands on the settings seen. -/
theorem checkFrom_eq_foldlM (seen settings : List AccountSetting) :
    checkFrom seen settings = (settings.foldlM checkOne seen).map fun _ => () := by
  induction settings generalizing seen with
  | nil => rfl
  | cons s rest ih =>
    rw [checkFrom, List.foldlM_cons, checkOne]
    cases s.glMapping with
    | error e => rfl
    | ok g =>
      dsimp only [bind, Except.bind]
      cases seen.find? fun s' => s'.account == s.account with
      | none => exact ih _
      | some s' =>
        dsimp only
        split
        · exact ih _
        · rfl

/-- What is seen of settings that break no rule is each of them once, and a setting behind them is
    refused for its fault. -/
theorem checkOne_of_sound {seen front : List AccountSetting} (hfront : Sound front)
    (hseen : ∀ s, s ∈ seen ↔ s ∈ front) (s : AccountSetting) :
    (∃ e, s.faultBehind? front = some e ∧ checkOne seen s = .error e) ∨
    (s.faultBehind? front = none ∧
      ∃ seen', checkOne seen s = .ok seen' ∧ ∀ s', s' ∈ seen' ↔ s' ∈ front ++ [s]) := by
  rw [checkOne, glMapping_eq, faultBehind?]
  cases s.fault? with
  | some e => exact Or.inl ⟨e, rfl, rfl⟩
  | none =>
    rw [Option.none_or]
    dsimp only [bind, Except.bind]
    -- the check looks at the first setting of the account only; soundness makes it stand for all
    cases hfound : seen.find? fun s' => s'.account == s.account with
    | none =>
      have hnew : ∀ s' ∈ front, s'.account ≠ s.account := by
        intro s' hs' hsame
        exact List.find?_eq_none.mp hfound s' ((hseen s').mpr hs') (beq_iff_eq.mpr hsame)
      refine Or.inr ⟨if_neg ?_, seen ++ [s], rfl, ?_⟩
      · rintro ⟨s', hs', hsame, -⟩
        exact hnew s' hs' hsame
      · intro s'
        rw [List.mem_append, List.mem_append, hseen]
    | some first =>
      have hfirst := (hseen first).mp (List.mem_of_find?_eq_some hfound)
      have haccount : first.account = s.account := by
        have hid := List.find?_some hfound
        exact beq_iff_eq.mp hid
      dsimp only
      by_cases heq : first = s
      · -- every other setting of the account before it is the first one
        subst heq
        refine Or.inr ⟨if_neg ?_, seen, if_pos rfl, ?_⟩
        · rintro ⟨s', hs', hsame, hne⟩
          exact hne (hfront.consistent s' hs' first hfirst hsame)
        · intro s'
          rw [List.mem_append, List.mem_singleton, hseen]
          exact (or_iff_left_of_imp fun h => h ▸ hfirst).symm
      · exact Or.inl ⟨_, if_pos ⟨first, hfirst, haccount, heq⟩, if_neg heq⟩

/-- One setting fails with what is wrong with it behind those seen. -/
theorem checkOne_eq_error_iff {seen front : List AccountSetting} (hfront : Sound front)
    (hseen : ∀ s, s ∈ seen ↔ s ∈ front) {s : AccountSetting} {e : ConfigError} :
    checkOne seen s = .error e ↔ s.faultBehind? front = some e := by
  rcases checkOne_of_sound hfront hseen s with ⟨e', hfault, herror⟩ | ⟨hnone, seen', hok, -⟩
  · rw [herror, hfault]
    exact ⟨fun h => congrArg some (Except.error.inj h), fun h => congrArg _ (Option.some.inj h)⟩
  · rw [hok, hnone]
    exact iff_of_false (by rintro ⟨⟩) (by rintro ⟨⟩)

/-- Settings pass exactly if they break no rule, and what is seen then is each of them. -/
theorem foldlM_checkOne (settings : List AccountSetting) :
    ((∃ seen, settings.foldlM checkOne [] = .ok seen) ↔ Sound settings) ∧
      ∀ seen, settings.foldlM checkOne [] = .ok seen → ∀ s, s ∈ seen ↔ s ∈ settings := by
  induction settings using List.reverseRecOn with
  | nil =>
    refine ⟨iff_of_true ⟨[], rfl⟩ sound_nil, fun seen h s => ?_⟩
    rw [← Except.ok.inj h]
  | append_singleton front s ih =>
    obtain ⟨hsound, hmem⟩ := ih
    rw [List.foldlM_append, sound_concat_iff, ← hsound]
    cases hpassed : front.foldlM checkOne [] with
    | error e =>
      refine ⟨iff_of_false ?_ ?_, fun seen h => absurd h error_ne_ok⟩
      · rintro ⟨seen, h⟩
        exact error_ne_ok h
      · rintro ⟨⟨seen, h⟩, -⟩
        exact error_ne_ok h
    | ok seen =>
      have hfront := hsound.mp ⟨seen, hpassed⟩
      show ((∃ seen', checkOne seen s >>= pure = .ok seen') ↔ _) ∧
        ∀ seen', checkOne seen s >>= pure = .ok seen' → _
      rw [bind_pure]
      rcases checkOne_of_sound hfront (hmem seen hpassed) s with
        ⟨e, hfault, hone⟩ | ⟨hnone, seen', hone, hseen'⟩
      · rw [hone, hfault]
        refine ⟨iff_of_false ?_ ?_, fun seen' h => absurd h error_ne_ok⟩
        · rintro ⟨seen', h⟩
          exact error_ne_ok h
        · rintro ⟨-, h⟩
          cases h
      · rw [hone]
        refine ⟨iff_of_true ⟨seen', rfl⟩ ⟨⟨seen, rfl⟩, hnone⟩, fun _ h => ?_⟩
        rw [← Except.ok.inj h]
        exact hseen'

variable {c : Config}

/-- **A configuration passes exactly if it breaks no rule.** -/
theorem check_eq_ok_iff : c.check = .ok () ↔ Sound c.settings := by
  rw [← (foldlM_checkOne c.settings).1, check, checkFrom_eq_foldlM, map_eq_ok]
  exact exists_congr fun seen => and_iff_left rfl

/-- **Else the first fault is told**: that of a setting before which no rule is broken. -/
theorem check_eq_error_iff {e : ConfigError} : c.check = .error e ↔
    ∃ front s back, c.settings = front ++ s :: back ∧ Sound front ∧
      s.faultBehind? front = some e := by
  rw [check, checkFrom_eq_foldlM, map_eq_error, foldlM_eq_error_iff]
  constructor
  · rintro ⟨front, s, back, seen, heq, hpassed, hone⟩
    obtain ⟨hsound, hmem⟩ := foldlM_checkOne front
    have hfront := hsound.mp ⟨seen, hpassed⟩
    have hfault := (checkOne_eq_error_iff hfront (hmem seen hpassed)).mp hone
    exact ⟨front, s, back, heq, hfront, hfault⟩
  · rintro ⟨front, s, back, heq, hfront, hfault⟩
    obtain ⟨hsound, hmem⟩ := foldlM_checkOne front
    obtain ⟨seen, hpassed⟩ := hsound.mpr hfront
    have hone := (checkOne_eq_error_iff hfront (hmem seen hpassed)).mpr hfault
    exact ⟨front, s, back, seen, heq, hpassed, hone⟩

/-- A code has one class, in whatever settings it is given. -/
def OneClass (c : Config) (code : String) : Prop :=
  ∀ s ∈ c.settings, ∀ s' ∈ c.settings, s.glCode = some code → s'.glCode = some code →
    s.glType = s'.glType

instance (c : Config) (code : String) : Decidable (c.OneClass code) :=
  inferInstanceAs (Decidable (∀ s ∈ c.settings, ∀ s' ∈ c.settings, _ → _ → _))

/-! ## The mappings

  The mappings are made again after the check, from the same settings in the same order, so no step
  of this can fail. -/

/-- A setting that gives a mapping, or none, gives it to its account and leaves the others alone. -/
theorem addMapping_of_ok {s : AccountSetting} {g? : Option GlMapping} (h : s.glMapping = .ok g?)
    (m : GlMappings) : ∃ m', addMapping m s = .ok m' ∧
      m'.find? s.account = g?.or (m.find? s.account) ∧
      ∀ a, a ≠ s.account → m'.find? a = m.find? a := by
  rw [addMapping, h]
  cases g? with
  | none => exact ⟨m, rfl, rfl, fun _ _ => rfl⟩
  | some g =>
    exact ⟨m.insert s.account g, rfl, Table.find?_insert_self _ _ _,
      fun _ ha => Table.find?_insert_of_ne _ _ ha⟩

/-- Settings that give mappings or none are added one after the other: every mapping was there or is
    one of theirs, and none of theirs is missing. -/
theorem foldlM_addMapping {settings : List AccountSetting}
    (h : ∀ s ∈ settings, ∃ m, s.glMapping = .ok m) (m : GlMappings) :
    ∃ m', settings.foldlM addMapping m = .ok m' ∧
      (∀ a g, m'.find? a = some g → m.find? a = some g ∨
        ∃ s ∈ settings, s.account = a ∧ s.glMapping = .ok (some g)) ∧
      (∀ a, (m.find? a).isSome = true → (m'.find? a).isSome = true) ∧
      ∀ s ∈ settings, ∀ g, s.glMapping = .ok (some g) → (m'.find? s.account).isSome = true := by
  induction settings generalizing m with
  | nil => exact ⟨m, rfl, fun a g hg => Or.inl hg, fun a ha => ha, List.forall_mem_nil _⟩
  | cons s rest ih =>
    obtain ⟨⟨g?, hg?⟩, hrest⟩ := List.forall_mem_cons.mp h
    obtain ⟨m₁, hm₁, hself, hother⟩ := addMapping_of_ok hg? m
    obtain ⟨m', hm', hfrom, hkeeps, hadds⟩ := ih hrest m₁
    refine ⟨m', ?_, ?_, ?_, List.forall_mem_cons.mpr ⟨?_, hadds⟩⟩
    · rw [List.foldlM_cons, hm₁]
      exact hm'
    · intro a g hg
      rcases hfrom a g hg with hold | ⟨s', hs', hmade⟩
      · by_cases ha : a = s.account
        · subst ha
          rw [hself, Option.or_eq_some_iff] at hold
          rcases hold with rfl | ⟨-, hold⟩
          · exact Or.inr ⟨s, List.mem_cons_self, rfl, hg?⟩
          · exact Or.inl hold
        · rw [hother a ha] at hold
          exact Or.inl hold
      · exact Or.inr ⟨s', List.mem_cons_of_mem _ hs', hmade⟩
    · intro a ha
      apply hkeeps
      by_cases hs : a = s.account
      · rw [hs, hself, Option.isSome_or, ← hs, ha, Bool.or_true]
      · rw [hother a hs]
        exact ha
    · intro g hg
      obtain rfl := Except.ok.inj (hg?.symm.trans hg)
      apply hkeeps
      rw [hself]
      rfl

/-- In settings that break no rule, the mapping of an account is what any setting of it gives. -/
theorem find?_glMappings (h : Sound c.settings) : ∃ mappings, c.glMappings = .ok mappings ∧
    (∀ s ∈ c.settings, mappings.find? s.account = s.given) ∧
    ∀ a, (∀ s ∈ c.settings, s.account ≠ a) → mappings.find? a = none := by
  have hmade : ∀ s ∈ c.settings, s.glMapping = .ok s.given := by
    intro s hs
    rw [glMapping_eq, h.fault? hs]
  obtain ⟨mappings, hmappings, hfrom, -, hadds⟩ :=
    foldlM_addMapping (fun s hs => ⟨s.given, hmade s hs⟩) .empty
  have hset : ∀ {a m}, mappings.find? a = some m →
      ∃ s ∈ c.settings, s.account = a ∧ s.given = some m := by
    intro a m hm
    obtain ⟨s, hs, ha, hmapping⟩ := (hfrom a m hm).resolve_left (by rintro ⟨⟩)
    exact ⟨s, hs, ha, Except.ok.inj ((hmade s hs).symm.trans hmapping)⟩
  refine ⟨mappings, hmappings, ?_, ?_⟩
  · intro s hs
    -- whichever setting the mapping is from, it is this one
    have hsame : ∀ {m}, mappings.find? s.account = some m → s.given = some m := by
      intro m hm
      obtain ⟨s', hs', ha, hgiven⟩ := hset hm
      rw [← h.consistent s' hs' s hs ha]
      exact hgiven
    cases hfound : mappings.find? s.account with
    | some m => exact (hsame hfound).symm
    | none =>
      cases hgiven : s.given with
      | none => rfl
      | some m =>
        have hthere := hadds s hs m ((hmade s hs).trans (congrArg _ hgiven))
        rw [hfound] at hthere
        cases hthere
  · intro a hnone
    by_contra hsome
    obtain ⟨m, hm⟩ := Option.ne_none_iff_exists'.mp hsome
    obtain ⟨s, hs, ha, -⟩ := hset hm
    exact hnone s hs ha

/-- **An account of a checked configuration is mapped to what its setting says.** -/
theorem glMappings_of_check (h : c.check = .ok ()) : ∃ mappings, c.glMappings = .ok mappings ∧
    ∀ a m, mappings.find? a = some m ↔
      ∃ s ∈ c.settings, s.account = a ∧ s.glCode = some m.code ∧ s.glType = some m.type := by
  obtain ⟨mappings, hmappings, hset, hunset⟩ := find?_glMappings (check_eq_ok_iff.mp h)
  refine ⟨mappings, hmappings, fun a m => ⟨fun hm => ?_, ?_⟩⟩
  · by_contra hnone
    rw [hunset a fun s hs ha => hnone ⟨s, hs, ha, given_eq_some_iff.mp (by
      rw [← hset s hs, ha, hm])⟩] at hm
    cases hm
  · rintro ⟨s, hs, rfl, hgiven⟩
    rw [hset s hs]
    exact given_eq_some_iff.mpr hgiven

/-! ## The register

  A register refuses an account with two types.  The settings of one account are one setting, so
  there is one type. -/

/-- The account of each setting. -/
def configured (c : Config) : List Account := c.settings.map fun s => ⟨s.account, s.type⟩

/-- The accounts that are registered are those of the settings. -/
theorem mem_configured_iff {a : Account} :
    a ∈ c.configured ↔ ∃ s ∈ c.settings, s.account = a.id ∧ s.type = a.type := by
  obtain ⟨id, type⟩ := a
  simp only [configured, List.mem_map, Account.mk.injEq]

/-- In settings that break no rule, no account comes with two types. -/
theorem Sound.agree (h : Sound c.settings) : Account.Agree c.configured := by
  intro a ha b hb hid
  obtain ⟨s, hs, hsid, hstype⟩ := mem_configured_iff.mp ha
  obtain ⟨s', hs', hsid', hstype'⟩ := mem_configured_iff.mp hb
  obtain rfl := h.consistent s hs s' hs' (hsid.trans (hid.trans hsid'.symm))
  exact hstype.symm.trans hstype'

/-- **An account of a checked configuration is registered with the type of its setting.** -/
theorem registry_of_check (h : c.check = .ok ()) : ∃ registry, c.registry = .ok registry ∧
    ∀ a type, registry.typeOf? a = some type ↔ ∃ s ∈ c.settings, s.account = a ∧ s.type = type := by
  have hagree := (check_eq_ok_iff.mp h).agree
  refine ⟨Registry.empty.run c.configured, ?_, fun a type => ?_⟩
  · exact mapError_eq_ok.mpr (Registry.ofAccounts_eq_ok_iff.mpr ⟨rfl, hagree⟩)
  · rw [Registry.typeOf?_run_empty, hagree.firstType?_eq_some_iff]
    exact mem_configured_iff

/-! ## The result -/

/-- **A configuration that passes can be used.**

    * A configuration passes exactly if every setting gives a code and a class or neither, no code
      is blank, and any two settings of one account are the same setting.
    * Else it is refused for the first setting that is at fault: what is wrong with it by itself is
      told, before a conflict with the settings before it.
    * If it passes, a register and a table of mappings are made of it.  The register has the
      accounts of the settings, each with the type of its setting, and no others.  The mapping of an
      account is the one that its settings give, if they give one, and no other account has a
      mapping.
    * A configuration that is read from a text has passed. -/
theorem checked_config_builds (c : Config) :
    (c.check = .ok () ↔
      (∀ s ∈ c.settings, s.glCode.isSome = s.glType.isSome) ∧
      (∀ s ∈ c.settings, ∀ code, s.glCode = some code → Text.isBlank code = false) ∧
      ∀ s ∈ c.settings, ∀ s' ∈ c.settings, s.account = s'.account → s = s') ∧
    (∀ e, c.check = .error e ↔ ∃ front s back, c.settings = front ++ s :: back ∧
      Config.check ⟨front⟩ = .ok () ∧ s.faultBehind? front = some e) ∧
    (c.check = .ok () → ∃ registry mappings, c.registry = .ok registry ∧
      c.glMappings = .ok mappings ∧
      (∀ a type, registry.typeOf? a = some type ↔
        ∃ s ∈ c.settings, s.account = a ∧ s.type = type) ∧
      (∀ s ∈ c.settings, mappings.find? s.account = match s.glCode, s.glType with
        | some code, some type => some ⟨code, type⟩
        | _, _ => none) ∧
      ∀ a, (∀ s ∈ c.settings, s.account ≠ a) → mappings.find? a = none) ∧
    ∀ text, ofText text = .ok c → c.check = .ok () := by
  refine ⟨?_, ?_, ?_, ?_⟩
  · rw [check_eq_ok_iff]
    exact ⟨fun h => ⟨h.paired, h.named, h.consistent⟩, fun ⟨hp, hn, hc⟩ => ⟨hp, hn, hc⟩⟩
  · intro e
    simp only [check_eq_error_iff, check_eq_ok_iff]
  · intro h
    obtain ⟨registry, hregistry, htypes⟩ := registry_of_check h
    obtain ⟨mappings, hmappings, hset, hunset⟩ := find?_glMappings (check_eq_ok_iff.mp h)
    exact ⟨registry, mappings, hregistry, hmappings, htypes, hset, hunset⟩
  · intro text h
    obtain ⟨c', -, h⟩ := bind_eq_ok.mp h
    obtain ⟨⟨⟩, hcheck, h⟩ := bind_eq_ok.mp h
    obtain rfl : c' = c := Except.ok.inj h
    exact hcheck

end Config
end Subledger
