/-
  HISTORIES of a bus: subscriptions, messages, receipts and departures one after the other.

  1. **The run** — `step` is the bus after one call; the subscriptions are numbered in the order in
     which they were made, and `homes` lists their groups.
  2. **The invariant** (`Sound`) — a member of a group subscribed to it, and whoever subscribed
     to it and is still there is a member.  So nobody is in two groups, and a message is given to
     nobody twice (`Sound.queueOf_afterMessage`).
  3. **Who is there** (`Attends`) — a group has somebody who takes a message exactly if it has
     somebody there (`exists_taker_iff`).
  4. **What a queue gains** (`gained`) — the message, if its holder takes it.  What was in a queue
     and what comes to it is taken out or stays, unless its holder goes (`Sound.received_append`).
-/
import Subledger.Proofs.Bus.Round

namespace Subledger.Bus

variable {b : Bus} {name : GroupName} {m : Message} {n : Nat}

/-! ## The run

  Runs are taken apart at the end: what a history says so far is about a bus that some calls reach,
  and the next call is one step of it. -/

/-- What is asked of a bus. -/
inductive Call where
  | subscribe (name : GroupName)
  | publish (m : Message)
  | receive (n : Nat)
  /-- The holder of a subscription goes away. -/
  | drop (n : Nat)
  deriving DecidableEq, Repr

/-- The bus after a call, whatever the call answers. -/
def step (b : Bus) : Call → Bus
  | .subscribe name =>
    match b.subscribe name with
    | .ok answer => answer.2
    | .error _ => b
  | .publish m => b.afterMessage m
  | .receive n =>
    match b.receive n with
    | some answer => answer.2
    | none => b
  | .drop n => b.drop n

/-- The bus after some calls. -/
def run (b : Bus) (cs : List Call) : Bus := cs.foldl step b

/-- A new bus after some calls. -/
def after (cs : List Call) : Bus := empty.run cs

theorem run_append (b : Bus) (cs ds : List Call) : b.run (cs ++ ds) = (b.run cs).run ds :=
  List.foldl_append

/-- A history goes on from the bus it has reached. -/
theorem after_append (cs ds : List Call) : after (cs ++ ds) = (after cs).run ds :=
  run_append empty cs ds

theorem after_concat (cs : List Call) (c : Call) : after (cs ++ [c]) = (after cs).step c :=
  after_append cs [c]

/-- The group that a call joins. -/
def Call.home : Call → Option GroupName
  | .subscribe name => some name
  | _ => none

/-- The groups of the subscriptions; a subscription's number is its place in the list. -/
def homes (cs : List Call) : List GroupName := cs.filterMap Call.home

/-- Later subscriptions are numbered behind the earlier ones. -/
theorem homes_append (cs ds : List Call) : homes (cs ++ ds) = homes cs ++ homes ds :=
  List.filterMap_append

theorem homes_singleton (c : Call) : homes [c] = c.home.toList := by
  rw [homes, List.filterMap_cons]
  cases c.home <;> rfl

/-! ## The invariant

  A subscription is on the bus in two places: in the list of the subscriptions, with its queue, and
  in the members of its group.  The invariant says that the two agree, and the groups that were
  joined, in order, are the third thing they agree with. -/

/-- The members of the groups are those who subscribed to them, but for some who went away. -/
structure Sound (b : Bus) (joined : List GroupName) : Prop where
  opened : b.closed = false
  length : b.subscriptions.length = joined.length
  member : ∀ n name, joined[n]? = some name → b.isLive n = true → n ∈ (b.group name).members
  home : ∀ n name, n ∈ (b.group name).members → joined[n]? = some name
  distinct : ∀ name, (b.group name).members.Nodup

variable {joined : List GroupName}

/-- Nobody has subscribed to a new bus. -/
theorem sound_empty : Sound empty [] := by
  refine ⟨rfl, rfl, ?_, ?_, fun _ => List.nodup_nil⟩
  · rintro n name ⟨⟩
  · rintro n name ⟨⟩

/-- Whoever takes a message for a group subscribed to that group. -/
theorem Sound.home_of_taker (h : Sound b joined) (htaker : b.taker name = some n) :
    joined[n]? = some name := h.home n name (mem_members_of_taker htaker)

/-- Nobody takes a message for two groups. -/
theorem Sound.nodup_takers (h : Sound b joined) (m : Message) : (b.takers m).Nodup := by
  refine List.Nodup.filterMap ?_ ((Table.nodup_keys b.groups).filter _)
  intro name other n hn hn'
  exact Option.some.inj ((h.home_of_taker hn).symm.trans (h.home_of_taker hn'))

/-- A message is put at the end of the queues of those who take it. -/
theorem Sound.queueOf_afterMessage (h : Sound b joined) (m : Message) (n : Nat) :
    (b.afterMessage m).queueOf n = b.queueOf n ++ if n ∈ b.takers m then [m] else [] := by
  obtain ⟨count, -, hserved⟩ := served_publish h.opened m
  refine (hserved.queue n).trans ?_
  have hcount : (b.takers m).count n = if n ∈ b.takers m then 1 else 0 := (h.nodup_takers m).count
  show b.queueOf n ++ List.replicate ((b.takers m).count n) m = _
  rw [hcount]
  split <;> rfl

/-- A message takes members out of groups, those who are gone, and puts none in. -/
theorem Sound.afterMessage (h : Sound b joined) (m : Message) :
    Sound (b.afterMessage m) joined := by
  refine ⟨(closed_afterMessage b m).trans h.opened,
    (length_afterMessage h.opened m).trans h.length, fun n name hn hlive => ?_,
    fun n name hn => ?_, fun name => ?_⟩
  · rw [isLive_afterMessage h.opened] at hlive
    have hmem := h.member n name hn hlive
    rw [group_afterMessage h.opened]
    split
    · exact (Group.mem_take hlive).mpr hmem
    · exact hmem
  · rw [group_afterMessage h.opened] at hn
    split at hn
    · exact h.home n name (Group.take_members hn)
    · exact h.home n name hn
  · rw [group_afterMessage h.opened]
    split
    · exact (h.distinct name).sublist (Group.take_sublist _ _)
    · exact h.distinct name

/-- The bus after a subscription. -/
theorem step_subscribe (hopen : b.closed = false) (name : GroupName) :
    b.step (.subscribe name) = { b with
      groups := b.groups.insert name
        { b.group name with members := (b.group name).members ++ [b.subscriptions.length] }
      subscriptions := b.subscriptions ++ [⟨true, []⟩] } := by
  rw [step, subscribe, hopen]
  rfl

/-- A subscription adds one member at the end of one group, whose place in the rotation stays. -/
theorem group_step_subscribe (hopen : b.closed = false) (name other : GroupName) :
    (b.step (.subscribe name)).group other
      = if other = name then
          { b.group name with members := (b.group name).members ++ [b.subscriptions.length] }
        else b.group other := by
  rw [step_subscribe hopen]
  exact group_insert b name other _

/-- Whoever was there is there, and the new one. -/
theorem isLive_step_subscribe (hopen : b.closed = false) (name : GroupName) (n : Nat) :
    (b.step (.subscribe name)).isLive n = (b.isLive n || n == b.subscriptions.length) := by
  rw [step_subscribe hopen, isLive, isLive]
  dsimp only
  rcases Nat.lt_trichotomy n b.subscriptions.length with hlt | heq | hgt
  · rw [List.getElem?_append_left hlt, beq_eq_false_iff_ne.mpr hlt.ne, Bool.or_false]
  · rw [heq, List.getElem?_concat_length, beq_self_eq_true, Bool.or_true]
  · rw [List.getElem?_eq_none hgt.le, beq_eq_false_iff_ne.mpr hgt.ne',
      List.getElem?_eq_none (by rw [List.length_append]; exact hgt)]
    rfl

/-- A subscription gives nobody a message: a group that comes late has not missed anything, it
    starts with nothing. -/
theorem queueOf_step_subscribe (hopen : b.closed = false) (name : GroupName) (n : Nat) :
    (b.step (.subscribe name)).queueOf n = b.queueOf n := by
  rw [step_subscribe hopen, queueOf, queueOf]
  dsimp only
  rcases Nat.lt_trichotomy n b.subscriptions.length with hlt | heq | hgt
  · rw [List.getElem?_append_left hlt]
  · rw [heq, List.getElem?_concat_length, List.getElem?_eq_none (Nat.le_refl _)]
    rfl
  · rw [List.getElem?_eq_none hgt.le,
      List.getElem?_eq_none (by rw [List.length_append]; exact hgt)]

/-- The members after a subscription, as a membership: the form that the invariant needs. -/
theorem mem_group_step_subscribe (hopen : b.closed = false) {other : GroupName} :
    n ∈ ((b.step (.subscribe name)).group other).members ↔
      n ∈ (b.group other).members ∨ (other = name ∧ n = b.subscriptions.length) := by
  rw [group_step_subscribe hopen]
  by_cases hother : other = name
  · rw [if_pos hother, hother, List.mem_append, List.mem_singleton]
    exact or_congr_right (and_iff_right rfl).symm
  · rw [if_neg hother]
    exact (or_iff_left fun h => hother h.1).symm

/-- Whoever subscribes is a new member. -/
theorem Sound.subscribe (h : Sound b joined) (name : GroupName) :
    Sound (b.step (.subscribe name)) (joined ++ [name]) := by
  refine ⟨?_, ?_, fun n other hn hlive => ?_, fun n other hn => ?_, fun other => ?_⟩
  · rw [step_subscribe h.opened]
    exact h.opened
  · rw [step_subscribe h.opened, List.length_append, List.length_append, h.length]
    rfl
  · rw [mem_group_step_subscribe h.opened]
    rw [isLive_step_subscribe h.opened, Bool.or_eq_true, beq_iff_eq] at hlive
    rcases hlive with hlive | hlast
    · have hlt : n < joined.length := h.length ▸ lt_of_isLive hlive
      rw [List.getElem?_append_left hlt] at hn
      exact .inl (h.member n other hn hlive)
    · rw [hlast, h.length, List.getElem?_concat_length] at hn
      exact .inr ⟨(Option.some.inj hn).symm, hlast⟩
  · rcases (mem_group_step_subscribe h.opened).mp hn with hmem | ⟨rfl, rfl⟩
    · have hhome := h.home n other hmem
      rw [List.getElem?_append_left (List.getElem?_eq_some_iff.mp hhome).1, hhome]
    · rw [h.length, List.getElem?_concat_length]
  · rw [group_step_subscribe h.opened]
    split
    · refine List.nodup_append.mpr ⟨h.distinct name, List.nodup_singleton _, ?_⟩
      rintro k hk last hlast rfl
      -- the new number is nobody's yet
      have hhome := h.home k name hk
      rw [List.mem_singleton.mp hlast, h.length, List.getElem?_eq_none (Nat.le_refl _)] at hhome
      cases hhome
    · exact h.distinct other

/-- What a receipt does: nothing, or the first that waits is taken. -/
theorem step_receive (b : Bus) (n : Nat) :
    (b.step (.receive n) = b ∧ ∀ m c, b.receive n ≠ some (.message m, c)) ∨
    ∃ m rest, b.subscriptions[n]? = some ⟨true, m :: rest⟩ ∧
      b.receive n = some (.message m, b.step (.receive n)) ∧
      b.step (.receive n) = { b with subscriptions := b.subscriptions.set n ⟨true, rest⟩ } := by
  rw [step, receive]
  cases hs : b.subscriptions[n]? with
  | none => exact .inl ⟨rfl, by rintro m c ⟨⟩⟩
  | some s =>
    obtain ⟨live, queue⟩ := s
    cases live with
    | false => exact .inl ⟨rfl, by rintro m c ⟨⟩⟩
    | true =>
      cases queue with
      | nil =>
        refine .inl ⟨rfl, fun m c h => ?_⟩
        have hanswer := congrArg Prod.fst (Option.some.inj h)
        dsimp only at hanswer
        split at hanswer <;> cases hanswer
      | cons m rest => exact .inr ⟨m, rest, rfl, rfl, rfl⟩

/-- Who goes away is one. -/
theorem isLive_drop (b : Bus) (k n : Nat) : (b.drop k).isLive n = (b.isLive n && k != n) := by
  rw [isLive, isLive, drop]
  dsimp only
  by_cases hk : k = n
  · rw [hk, List.getElem?_modify_eq, bne_self_eq_false, Bool.and_false]
    cases b.subscriptions[n]? <;> rfl
  · rw [List.getElem?_modify_ne _ _ hk, bne_iff_ne.mpr hk, Bool.and_true]

/-- The messages of who goes away are lost with his queue, and no other queue is touched. -/
theorem queueOf_drop (b : Bus) (k n : Nat) :
    (b.drop k).queueOf n = if k = n then [] else b.queueOf n := by
  rw [queueOf, queueOf, drop]
  dsimp only
  by_cases hk : k = n
  · rw [hk, List.getElem?_modify_eq, if_pos rfl]
    cases b.subscriptions[n]? <;> rfl
  · rw [List.getElem?_modify_ne _ _ hk, if_neg hk]

/-- Receipts leave everybody where he is. -/
theorem isLive_step_receive (b : Bus) (k : Nat) : (b.step (.receive k)).isLive = b.isLive := by
  rcases step_receive b k with ⟨hsame, -⟩ | ⟨m, rest, hs, -, hstep⟩
  · rw [hsame]
  · funext n
    rw [hstep, isLive, isLive]
    dsimp only
    by_cases hk : k = n
    · subst hk
      rw [List.getElem?_set_self (List.getElem?_eq_some_iff.mp hs).1, hs]
    · rw [List.getElem?_set_ne hk]

/-- The invariant speaks of members and of who is there; a call that changes no group and brings
    nobody back keeps it. -/
theorem Sound.of_groups (h : Sound b joined) {c : Bus} (hgroups : c.groups = b.groups)
    (hopen : c.closed = b.closed) (hlength : c.subscriptions.length = b.subscriptions.length)
    (hlive : ∀ n, c.isLive n = true → b.isLive n = true) : Sound c joined := by
  have hgroup : ∀ name, c.group name = b.group name := by
    intro name
    rw [group, group, hgroups]
  refine ⟨hopen.trans h.opened, hlength.trans h.length, fun n name hn hl => ?_,
    fun n name hn => ?_, fun name => ?_⟩
  · rw [hgroup]
    exact h.member n name hn (hlive n hl)
  · rw [hgroup] at hn
    exact h.home n name hn
  · rw [hgroup]
    exact h.distinct name

/-- Every call keeps members and subscriptions in step. -/
theorem Sound.step (h : Sound b joined) (c : Call) :
    Sound (b.step c) (joined ++ c.home.toList) := by
  cases c with
  | subscribe name => exact h.subscribe name
  | publish m =>
    rw [show (Call.publish m).home.toList = [] from rfl, List.append_nil]
    exact h.afterMessage m
  | receive k =>
    rw [show (Call.receive k).home.toList = [] from rfl, List.append_nil]
    rcases step_receive b k with ⟨hsame, -⟩ | ⟨m, rest, -, -, hstep⟩
    · rwa [hsame]
    · refine h.of_groups ?_ ?_ ?_ ?_
      · rw [hstep]
      · rw [hstep]
      · rw [hstep]
        exact List.length_set
      · rw [isLive_step_receive]
        exact fun _ hn => hn
  | drop k =>
    rw [show (Call.drop k).home.toList = [] from rfl, List.append_nil]
    refine h.of_groups rfl rfl (List.length_modify _ _ _) ?_
    intro n hn
    exact (Bool.and_eq_true_iff.mp ((isLive_drop b k n).symm.trans hn)).1

/-- Who is there after a call was there and did not go, or came with it. -/
theorem Sound.isLive_step_iff (h : Sound b joined) (c : Call) (n : Nat) :
    (b.step c).isLive n = true ↔
      (b.isLive n = true ∧ c ≠ .drop n) ∨ (c.home.isSome = true ∧ n = joined.length) := by
  cases c with
  | subscribe name =>
    rw [isLive_step_subscribe h.opened, Bool.or_eq_true, beq_iff_eq, h.length]
    exact or_congr (and_iff_left (by simp)).symm (and_iff_right rfl).symm
  | publish m =>
    rw [Bus.step, isLive_afterMessage h.opened]
    simp [Call.home]
  | receive k =>
    rw [isLive_step_receive]
    simp [Call.home]
  | drop k =>
    rw [Bus.step, isLive_drop, Bool.and_eq_true, bne_iff_ne]
    simp [Call.home]

/-- The invariant holds of every bus that calls can reach. -/
theorem sound_after (cs : List Call) : Sound (after cs) (homes cs) := by
  induction cs using List.reverseRecOn with
  | nil => exact sound_empty
  | append_singleton cs c ih =>
    rw [after_concat, homes_append, homes_singleton]
    exact ih.step c

/-! ## Who is there

  The members of a group may still list somebody who has gone: he is taken out when his turn
  comes.  So who is there is said by both, the subscription and whether its holder is. -/

variable {cs : List Call}

/-- After some calls a group has this member, and he is there. -/
def Attends (cs : List Call) (name : GroupName) (n : Nat) : Prop :=
  (homes cs)[n]? = some name ∧ (after cs).isLive n = true

/-- Each message of a run, with the calls before it, is like this. -/
def EachMessage (cs : List Call) (P : List Call → Message → Prop) : Prop :=
  ∀ before m later, cs = before ++ .publish m :: later → P before m

/-- What is so for each message of a history is so for each message of its beginning. -/
theorem EachMessage.of_append {ds : List Call} {P : List Call → Message → Prop}
    (h : EachMessage (cs ++ ds) P) : EachMessage cs P := by
  intro before m later hsplit
  refine h before m (later ++ ds) ?_
  rw [hsplit, List.append_assoc, List.cons_append]

/-- Whenever a message of its topic is published after somebody joined it, a group has somebody
    there. -/
def Attended (cs : List Call) (name : GroupName) : Prop :=
  EachMessage cs fun before m =>
    m.topic = name.topic → name ∈ homes before → ∃ n, Attends before name n

/-- Nobody changes the group that he joined. -/
theorem homes_of_append (h : (homes cs)[n]? = some name) (ds : List Call) :
    (homes (cs ++ ds))[n]? = some name := by
  rw [homes_append, List.getElem?_append_left (List.getElem?_eq_some_iff.mp h).1, h]

/-- Whoever is there after a call was there before it, unless he has just come. -/
theorem isLive_of_step {c : Call} (h : (after (cs ++ [c])).isLive n = true)
    (hlt : n < (homes cs).length) : (after cs).isLive n = true ∧ c ≠ .drop n := by
  rw [after_concat, (sound_after cs).isLive_step_iff] at h
  exact h.resolve_right fun hnew => hlt.ne hnew.2

/-- Who is there in the end was there from his subscription on. -/
theorem attends_of_append (hhome : (homes cs)[n]? = some name) {ds : List Call}
    (h : (after (cs ++ ds)).isLive n = true) : Attends cs name n := by
  refine ⟨hhome, ?_⟩
  induction ds using List.reverseRecOn with
  | nil => rwa [List.append_nil] at h
  | append_singleton ds c ih =>
    rw [← List.append_assoc] at h
    exact ih (isLive_of_step h (List.getElem?_eq_some_iff.mp (homes_of_append hhome ds)).1).1

/-- Of those who joined a group, the bus lists at least the ones who are there. -/
theorem attends_iff :
    Attends cs name n ↔ n ∈ ((after cs).group name).members ∧ (after cs).isLive n = true := by
  have hsound := sound_after cs
  constructor
  · rintro ⟨hhome, hlive⟩
    exact ⟨hsound.member n name hhome hlive, hlive⟩
  · rintro ⟨hmem, hlive⟩
    exact ⟨hsound.home n name hmem, hlive⟩

/-- Whoever takes a message is a member and there. -/
theorem attends_of_taker (h : (after cs).taker name = some n) : Attends cs name n :=
  attends_iff.mpr ⟨mem_members_of_taker h, isLive_of_taker h⟩

/-- A group has somebody who takes a message exactly if it has somebody there. -/
theorem exists_taker_iff :
    (∃ n, (after cs).taker name = some n) ↔ ∃ n, Attends cs name n := by
  constructor
  · rintro ⟨n, hn⟩
    exact ⟨n, attends_of_taker hn⟩
  · rintro ⟨n, hn⟩
    refine Option.ne_none_iff_exists'.mp ?_
    intro hnone
    obtain ⟨hmem, hlive⟩ := attends_iff.mp hn
    exact Group.take_eq_none_iff.mp hnone n hmem hlive

/-- Members of other groups take nothing for a group. -/
theorem mem_takers_iff (h : (homes cs)[n]? = some name) (m : Message) :
    n ∈ (after cs).takers m ↔ name.topic = m.topic ∧ (after cs).taker name = some n := by
  rw [mem_takers]
  constructor
  · rintro ⟨other, htopic, hn⟩
    obtain rfl := Option.some.inj (h.symm.trans ((sound_after cs).home_of_taker hn))
    exact ⟨htopic, hn⟩
  · exact fun hn => ⟨name, hn⟩

/-! ## What a queue gains

  What a queue holds is what came to it, less what was taken from its front, until its holder
  goes.  Histories speak of what came and what was taken, and these do not change afterwards. -/

/-- What a call adds at the end of a queue. -/
def gained (n : Nat) (b : Bus) (c : Call) : List Message :=
  ((b.step c).queueOf n).drop (b.queueOf n).length

/-- What a call takes out of a queue. -/
def received (n : Nat) (b : Bus) : Call → List Message
  | .receive k =>
    if k = n then
      match b.receive k with
      | some (.message m, _) => [m]
      | _ => []
    else []
  | _ => []

/-- A message comes to the end of the queues of those who take it, and to no other. -/
theorem Sound.gained_publish (h : Sound b joined) (m : Message) (n : Nat) :
    gained n b (.publish m) = if n ∈ b.takers m then [m] else [] := by
  rw [gained, Bus.step, h.queueOf_afterMessage, List.drop_left]

/-- What is taken out of a queue stood at its front. -/
theorem received_append_step_receive (b : Bus) (k n : Nat) :
    received n b (.receive k) ++ (b.step (.receive k)).queueOf n = b.queueOf n := by
  rw [received]
  rcases step_receive b k with ⟨hsame, hnone⟩ | ⟨m, rest, hs, hanswer, hstep⟩
  · rw [hsame]
    split
    · split
      · rename_i m c hanswer
        exact absurd hanswer (hnone m c)
      · rfl
    · rfl
  · rw [hanswer, hstep]
    by_cases hk : k = n
    · subst hk
      rw [if_pos rfl, queueOf, queueOf, hs,
        List.getElem?_set_self (List.getElem?_eq_some_iff.mp hs).1]
      rfl
    · rw [if_neg hk, List.nil_append, queueOf, queueOf, List.getElem?_set_ne hk]

/-- Messages alone add to a queue. -/
theorem Sound.gained_eq_nil (h : Sound b joined) {c : Call} (hc : ∀ m, c ≠ .publish m) (n : Nat) :
    gained n b c = [] := by
  refine List.drop_eq_nil_of_le ?_
  cases c with
  | subscribe name => rw [Bus.step, ← Bus.step, queueOf_step_subscribe h.opened]
  | publish m => exact absurd rfl (hc m)
  | receive k =>
    rw [← received_append_step_receive b k n, List.length_append]
    exact Nat.le_add_left _ _
  | drop k =>
    rw [Bus.step, queueOf_drop]
    split
    · exact Nat.zero_le _
    · exact Nat.le_refl _

/-- What was in a queue and what comes to it is taken out or stays, unless its holder goes. -/
theorem Sound.received_append (h : Sound b joined) {c : Call} (hc : c ≠ .drop n) :
    received n b c ++ (b.step c).queueOf n = b.queueOf n ++ gained n b c := by
  cases c with
  | subscribe name =>
    rw [h.gained_eq_nil (by simp), List.append_nil, queueOf_step_subscribe h.opened]
    rfl
  | publish m =>
    rw [h.gained_publish, Bus.step, h.queueOf_afterMessage]
    rfl
  | receive k => rw [h.gained_eq_nil (by simp), List.append_nil, received_append_step_receive]
  | drop k =>
    have hk : k ≠ n := fun hk => hc (hk ▸ rfl)
    rw [h.gained_eq_nil (by simp), List.append_nil, Bus.step, queueOf_drop, if_neg hk]
    rfl

/-- What a run adds up to, call by call. -/
def trace (f : Bus → Call → List Message) : Bus → List Call → List Message
  | _, [] => []
  | b, c :: cs => f b c ++ trace f (b.step c) cs

/-- What a history adds up to is what its beginning does, and the rest from where it ended. -/
theorem trace_append (f : Bus → Call → List Message) (b : Bus) (cs ds : List Call) :
    trace f b (cs ++ ds) = trace f b cs ++ trace f (b.run cs) ds := by
  induction cs generalizing b with
  | nil => rfl
  | cons c cs ih =>
    rw [List.cons_append, trace, ih, trace, List.append_assoc]
    rfl

theorem trace_concat (f : Bus → Call → List Message) (b : Bus) (cs : List Call) (c : Call) :
    trace f b (cs ++ [c]) = trace f b cs ++ f (b.run cs) c := by
  rw [trace_append, trace, trace, List.append_nil]

/-- Everything that was put into a queue. -/
def gains (cs : List Call) (n : Nat) : List Message := trace (gained n) empty cs

/-- Everything that was taken out of a queue. -/
def receipts (cs : List Call) (n : Nat) : List Message := trace (received n) empty cs

end Subledger.Bus
