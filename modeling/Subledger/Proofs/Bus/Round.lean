/-
  ONE ROUND: what it does to publish a message.

  1. **One group** (`deliver_eq`) — it moves on, and who takes the message finds it at the end of
     his queue.
  2. **Some groups** (`Served`) — each of them once: nothing but them and the queues of those who
     take the message changes, and the answer counts those who take it.  Rounds of different groups
     add up (`Served.append`), so one group is enough.
  3. **All groups of the topic** (`publish_eq`, `group_afterMessage`) — a message makes one round
     through them, if the bus is open.
-/
import Subledger.Proofs.Bus.Turn

namespace Subledger.Bus

variable {b : Bus} {name : GroupName} {m : Message} {n : Nat}

/-! ## Groups and queues

  The bus keeps its groups in a table and its subscriptions in a list; a group names its members by
  their places in that list.  To follow a message only three readings of a bus are needed: the group
  of a name, who of it would take a message now, and what waits in a queue. -/

/-- The group of a name; one that nobody joined has no members. -/
def group (b : Bus) (name : GroupName) : Group := (b.groups.find? name).getD ⟨[], 0⟩

/-- The member of a group that takes a message now. -/
def taker (b : Bus) (name : GroupName) : Option Nat := ((b.group name).take b.isLive).1

/-- What waits for a subscription. -/
def queueOf (b : Bus) (n : Nat) : List Message :=
  ((b.subscriptions[n]?).map Subscription.queue).getD []

/-- Who is there has a place in the list of subscriptions. -/
theorem lt_of_isLive (h : b.isLive n = true) : n < b.subscriptions.length := by
  by_contra hlt
  rw [isLive, List.getElem?_eq_none (Nat.le_of_not_lt hlt)] at h
  exact Bool.noConfusion h

theorem isLive_of_taker (h : b.taker name = some n) : b.isLive n = true :=
  (Group.exists_take h).1

/-- Only a member of the group takes a message for it. -/
theorem mem_members_of_taker (h : b.taker name = some n) : n ∈ (b.group name).members :=
  Group.take_fst h

theorem group_of_find? {g : Group} (h : b.groups.find? name = some g) : b.group name = g := by
  rw [group, h]
  rfl

/-- A group that is not in the table is one without members. -/
theorem group_of_find?_eq_none (h : b.groups.find? name = none) : b.group name = ⟨[], 0⟩ := by
  rw [group, h]
  rfl

/-- Setting one group leaves the others as they are. -/
theorem group_insert (b : Bus) (name other : GroupName) (g : Group) :
    group { b with groups := b.groups.insert name g } other
      = if other = name then g else b.group other := by
  unfold group
  by_cases h : other = name
  · rw [if_pos h, h, Table.find?_insert_self]
    rfl
  · rw [if_neg h, Table.find?_insert_of_ne _ _ h]

/-- Putting a message into a queue makes nobody come or go. -/
theorem isLive_enqueue (b : Bus) (n : Nat) (m : Message) : (b.enqueue n m).isLive = b.isLive := by
  funext k
  rw [isLive, isLive, enqueue]
  dsimp only
  by_cases hk : n = k
  · rw [hk, List.getElem?_modify_eq]
    cases b.subscriptions[k]? <;> rfl
  · rw [List.getElem?_modify_ne _ _ hk]

/-- The message stands at the end of that queue, and no other queue changes. -/
theorem queueOf_enqueue (h : b.isLive n = true) (m : Message) (k : Nat) :
    (b.enqueue n m).queueOf k = b.queueOf k ++ if n = k then [m] else [] := by
  rw [queueOf, queueOf, enqueue]
  dsimp only
  by_cases hk : n = k
  · subst hk
    rw [List.getElem?_modify_eq, if_pos rfl, List.getElem?_eq_getElem (lt_of_isLive h)]
    rfl
  · rw [List.getElem?_modify_ne _ _ hk, if_neg hk, List.append_nil]

/-- Who is there is told by the subscriptions alone. -/
theorem isLive_congr {c : Bus} (h : c.subscriptions = b.subscriptions) : c.isLive = b.isLive := by
  funext n
  rw [isLive, isLive, h]

/-- What waits is told by the subscriptions alone. -/
theorem queueOf_congr {c : Bus} (h : c.subscriptions = b.subscriptions) (n : Nat) :
    c.queueOf n = b.queueOf n := by rw [queueOf, queueOf, h]

/-! ## One round -/

/-- All that giving a message to one group does: the group moves on, and who takes the message finds
    it at the end of his queue. -/
theorem deliver_eq (m : Message) (count : Nat) (b : Bus) (name : GroupName) :
    ∃ moved : Bus, moved.subscriptions = b.subscriptions ∧
      (∀ other, moved.group other
        = if other = name then ((b.group name).take b.isLive).2 else b.group other) ∧
      deliver m (count, b) name = match b.taker name with
        | none => (count, moved)
        | some n => (count + 1, moved.enqueue n m) := by
  unfold taker deliver
  dsimp only
  cases hg : b.groups.find? name with
  | none =>
    have htake : (b.group name).take b.isLive = (none, b.group name) := by
      rw [group_of_find?_eq_none hg, Group.take_of_nil rfl]
    rw [htake]
    refine ⟨b, rfl, fun other => ?_, rfl⟩
    split
    · rename_i hother
      rw [hother]
    · rfl
  | some g =>
    rw [group_of_find? hg]
    refine ⟨{ b with groups := b.groups.insert name (g.take b.isLive).2 }, rfl,
      fun other => group_insert b name other _, ?_⟩
    dsimp only
    cases g.take b.isLive with
    | mk found left => cases found <;> rfl

/-- The answer is what was found after a message was given to some groups. -/
structure Served (m : Message) (names : List GroupName) (found answer : Nat × Bus) : Prop where
  count : answer.1 = found.1 + (names.filterMap found.2.taker).length
  live : answer.2.isLive = found.2.isLive
  length : answer.2.subscriptions.length = found.2.subscriptions.length
  group : ∀ name, answer.2.group name
    = if name ∈ names then ((found.2.group name).take found.2.isLive).2 else found.2.group name
  queue : ∀ n, answer.2.queueOf n
    = found.2.queueOf n ++ List.replicate ((names.filterMap found.2.taker).count n) m

/-- No group, nothing done. -/
theorem served_nil (m : Message) (found : Nat × Bus) : Served m [] found found := by
  refine ⟨rfl, rfl, rfl, fun _ => rfl, fun n => ?_⟩
  exact (List.append_nil _).symm

/-- Giving a message to one group is a round of that group. -/
theorem served_deliver (m : Message) (count : Nat) (b : Bus) (name : GroupName) :
    Served m [name] (count, b) (deliver m (count, b) name) := by
  -- the turn of the group is moved on first, whether or not somebody takes the message
  obtain ⟨moved, hsame, hgroup, hdeliver⟩ := deliver_eq m count b name
  have hgroup' : ∀ other, moved.group other
      = if other ∈ [name] then ((b.group other).take b.isLive).2 else b.group other := by
    intro other
    rw [hgroup, if_congr List.mem_singleton rfl rfl]
    split
    · rename_i hother
      rw [hother]
    · rfl
  rw [hdeliver]
  cases htaker : b.taker name with
  | none =>
    have hnone : [name].filterMap b.taker = [] := List.filterMap_cons_none htaker
    refine ⟨?_, isLive_congr hsame, congrArg List.length hsame, hgroup', fun n => ?_⟩
    · rw [hnone]
      rfl
    · rw [hnone]
      exact (queueOf_congr hsame n).trans (List.append_nil _).symm
  | some k =>
    have hsome : [name].filterMap b.taker = [k] := List.filterMap_cons_some htaker
    have hlive : moved.isLive k = true := by
      rw [isLive_congr hsame]
      exact isLive_of_taker htaker
    refine ⟨?_, (isLive_enqueue moved k m).trans (isLive_congr hsame),
      (List.length_modify _ _ _).trans (congrArg List.length hsame), hgroup', fun n => ?_⟩
    · rw [hsome]
      rfl
    · rw [hsome]
      refine (queueOf_enqueue hlive m n).trans ?_
      rw [queueOf_congr hsame, List.count_singleton]
      by_cases hk : k = n
      · rw [if_pos hk, if_pos (beq_iff_eq.mpr hk)]
        rfl
      · rw [if_neg hk, if_neg (mt beq_iff_eq.mp hk)]
        rfl

/-- A round of some groups and a round of others are a round of them all. -/
theorem Served.append {xs ys : List GroupName} {s t u : Nat × Bus} (h : Served m xs s t)
    (h' : Served m ys t u) (hother : ∀ name ∈ ys, name ∉ xs) : Served m (xs ++ ys) s u := by
  have htaker : ys.filterMap t.2.taker = ys.filterMap s.2.taker := by
    refine List.filterMap_congr ?_
    intro name hname
    rw [taker, taker, h.group, if_neg (hother name hname), h.live]
  refine ⟨?_, h'.live.trans h.live, h'.length.trans h.length, fun name => ?_, fun n => ?_⟩
  · rw [h'.count, h.count, htaker, List.filterMap_append, List.length_append, Nat.add_assoc]
  · rw [h'.group, h.group, h.live]
    by_cases hys : name ∈ ys
    · rw [if_pos hys, if_neg (hother name hys), if_pos (List.mem_append_right _ hys)]
    · rw [if_neg hys]
      exact if_congr (by rw [List.mem_append, or_iff_left hys]) rfl rfl
  · rw [h'.queue, h.queue, htaker, List.filterMap_append, List.count_append, List.append_assoc,
      List.replicate_append_replicate]

/-- A message is given to some groups, one after the other. -/
theorem served_foldl {names : List GroupName} (hdistinct : names.Nodup) (m : Message)
    (found : Nat × Bus) : Served m names found (names.foldl (deliver m) found) := by
  induction names generalizing found with
  | nil => exact served_nil m found
  | cons name names ih =>
    obtain ⟨hnew, hdistinct⟩ := List.nodup_cons.mp hdistinct
    refine (served_deliver m found.1 found.2 name).append (ih hdistinct _) ?_
    intro other hother hone
    exact hnew (List.mem_singleton.mp hone ▸ hother)

/-! ## A message -/

/-- Those who take a message, each from another group. -/
def takers (b : Bus) (m : Message) : List Nat :=
  (b.groups.keys.filter fun name => name.topic == m.topic).filterMap b.taker

/-- Whoever takes a message for a group, the group is one that somebody joined. -/
theorem mem_keys_of_taker (h : b.taker name = some n) : name ∈ b.groups.keys := by
  rw [Table.mem_keys_iff]
  cases hg : b.groups.find? name with
  | some g => rfl
  | none =>
    have hn := mem_members_of_taker h
    rw [group_of_find?_eq_none hg] at hn
    exact absurd hn List.not_mem_nil

/-- A subscription takes a message exactly if it is the one that takes it for some group of the
    topic. -/
theorem mem_takers : n ∈ b.takers m ↔ ∃ name, name.topic = m.topic ∧ b.taker name = some n := by
  rw [takers, List.mem_filterMap]
  constructor
  · rintro ⟨name, hname, htaker⟩
    exact ⟨name, beq_iff_eq.mp (List.mem_filter.mp hname).2, htaker⟩
  · rintro ⟨name, htopic, htaker⟩
    exact ⟨name, List.mem_filter.mpr ⟨mem_keys_of_taker htaker, beq_iff_eq.mpr htopic⟩, htaker⟩

/-- A bus that is open gives a message to all groups of its topic. -/
theorem served_publish (hopen : b.closed = false) (m : Message) : ∃ count,
    b.publish true m = .ok (count, b.afterMessage m) ∧
      Served m (b.groups.keys.filter fun name => name.topic == m.topic) (0, b)
        (count, b.afterMessage m) := by
  obtain ⟨count, hpublish, hserved⟩ := publish_of_open hopen m
  refine ⟨count, hpublish, ?_⟩
  rw [hserved]
  exact served_foldl ((Table.nodup_keys b.groups).filter _) m (0, b)

/-- The answer to a message counts those who take it. -/
theorem publish_eq (hopen : b.closed = false) (m : Message) :
    b.publish true m = .ok ((b.takers m).length, b.afterMessage m) := by
  obtain ⟨count, hpublish, hserved⟩ := served_publish hopen m
  rw [hpublish, show count = (b.takers m).length from hserved.count.trans (Nat.zero_add _)]

/-- A message makes nobody come or go. -/
theorem isLive_afterMessage (hopen : b.closed = false) (m : Message) :
    (b.afterMessage m).isLive = b.isLive := by
  obtain ⟨count, -, hserved⟩ := served_publish hopen m
  exact hserved.live

theorem length_afterMessage (hopen : b.closed = false) (m : Message) :
    (b.afterMessage m).subscriptions.length = b.subscriptions.length := by
  obtain ⟨count, -, hserved⟩ := served_publish hopen m
  exact hserved.length

/-- The groups of the topic move on. -/
theorem group_afterMessage (hopen : b.closed = false) (m : Message) (name : GroupName) :
    (b.afterMessage m).group name
      = if name.topic = m.topic then ((b.group name).take b.isLive).2 else b.group name := by
  obtain ⟨count, -, hserved⟩ := served_publish hopen m
  refine (hserved.group name).trans ?_
  dsimp only
  by_cases hkey : name ∈ b.groups.keys
  · refine if_congr ?_ rfl rfl
    rw [List.mem_filter, beq_iff_eq, and_iff_right hkey]
  · -- nobody ever joined it
    have hnone : b.groups.find? name = none := by
      rwa [Table.mem_keys_iff, Bool.not_eq_true, Option.isSome_eq_false_iff,
        Option.isNone_iff_eq_none] at hkey
    rw [group_of_find?_eq_none hnone, Group.take_of_nil rfl, ite_self, ite_self]

end Subledger.Bus
