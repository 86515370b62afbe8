/-
  EXACTLY ONCE: what becomes of a message.

  1. **One message** (`Spreads`) — in each group of its topic that has somebody there, one of those
     who are there finds it at the end of his queue; no other queue changes; and the answer is how
     many such groups there are.
  2. **One queue** — what it gained is some of what was published on its topic, in that order
     (`gains_sublist`), and its holder takes it out in that order (`receipts_append_queueOf`).
  3. **One group** (`flatMap_gains_perm`) — if somebody was there for every message, what the queues
     of a group gained together is what was published since it was first joined, by induction over
     the run: a message goes to one queue of the group, so the gains of all of them grow by it once.
-/
import Subledger.Proofs.Bus.History

namespace Subledger.Bus

variable {cs : List Call} {name : GroupName} {m : Message} {n : Nat}

/-! ## One message

  The takers of a message, one for each group with somebody there, are the whole effect of
  publishing it. -/

/-- What it does to publish a message after some calls. -/
structure Spreads (cs : List Call) (m : Message) (count : Nat) : Prop where
  /-- In each group with somebody there, one of those who are there finds the message. -/
  once : ∀ name, name.topic = m.topic → (∃ n, Attends cs name n) →
    ∃! n, Attends cs name n ∧
      (after (cs ++ [.publish m])).queueOf n = (after cs).queueOf n ++ [m]
  /-- A queue that changes is one of those. -/
  others : ∀ n, (after (cs ++ [.publish m])).queueOf n = (after cs).queueOf n ∨
    (∃ name, name.topic = m.topic ∧ Attends cs name n) ∧
      (after (cs ++ [.publish m])).queueOf n = (after cs).queueOf n ++ [m]
  /-- The answer is how many groups have somebody there. -/
  counted : ∃ served : List GroupName, served.Nodup ∧
    (∀ name, name ∈ served ↔ name.topic = m.topic ∧ ∃ n, Attends cs name n) ∧
    count = served.length

/-- What publishing does to a queue depends on whether its holder takes the message, and on nothing
    else. -/
theorem queueOf_publish (cs : List Call) (m : Message) (n : Nat) :
    (after (cs ++ [.publish m])).queueOf n
      = (after cs).queueOf n ++ if n ∈ (after cs).takers m then [m] else [] := by
  rw [after_concat]
  exact (sound_after cs).queueOf_afterMessage m n

/-- A queue gains a message exactly if its holder takes it. -/
theorem queueOf_publish_iff : (after (cs ++ [.publish m])).queueOf n = (after cs).queueOf n ++ [m] ↔
    n ∈ (after cs).takers m := by
  rw [queueOf_publish, List.append_cancel_left_eq]
  split
  · exact iff_of_true rfl ‹_›
  · refine iff_of_false ?_ ‹_›
    rintro ⟨⟩

/-- The groups that somebody takes a message for are as many as those who take it. -/
theorem length_takers (b : Bus) (m : Message) : (b.takers m).length
    = ((b.groups.keys.filter fun name => name.topic == m.topic).filter
        fun name => (b.taker name).isSome).length := by
  rw [takers, List.length_filterMap_eq_countP, List.countP_eq_length_filter]

/-- Publishing does what it should, for as many groups as there are takers. -/
theorem spreads (cs : List Call) (m : Message) :
    Spreads cs m ((after cs).takers m).length := by
  refine ⟨fun name htopic hattends => ?_, fun n => ?_, ?_⟩
  · obtain ⟨n, hn⟩ := exists_taker_iff.mpr hattends
    have hthere := attends_of_taker hn
    refine ⟨n, ⟨hthere, ?_⟩, ?_⟩
    · exact queueOf_publish_iff.mpr ((mem_takers_iff hthere.1 m).mpr ⟨htopic, hn⟩)
    · rintro k ⟨hk, hgains⟩
      have htakes := (mem_takers_iff hk.1 m).mp (queueOf_publish_iff.mp hgains)
      exact Option.some.inj (htakes.2.symm.trans hn)
  · by_cases hn : n ∈ (after cs).takers m
    · obtain ⟨name, htopic, htaker⟩ := mem_takers.mp hn
      exact .inr ⟨⟨name, htopic, attends_of_taker htaker⟩, queueOf_publish_iff.mpr hn⟩
    · left
      rw [queueOf_publish, if_neg hn, List.append_nil]
  · refine ⟨_, ((Table.nodup_keys (after cs).groups).filter _).filter _, fun name => ?_,
      length_takers (after cs) m⟩
    rw [List.mem_filter, List.mem_filter, beq_iff_eq, Option.isSome_iff_exists, exists_taker_iff,
      and_assoc]
    refine ⟨And.right, fun h => ⟨?_, h⟩⟩
    obtain ⟨n, hn⟩ := exists_taker_iff.mpr h.2
    exact mem_keys_of_taker hn

/-! ## One queue

  Gains and receipts are traces of the history, so each of them is a sum over its calls, and what is
  in the queue is their difference. -/

/-- The gains grow call by call. -/
theorem gains_concat (cs : List Call) (c : Call) (n : Nat) :
    gains (cs ++ [c]) n = gains cs n ++ gained n (after cs) c := trace_concat _ _ _ _

theorem receipts_concat (cs : List Call) (c : Call) (n : Nat) :
    receipts (cs ++ [c]) n = receipts cs n ++ received n (after cs) c := trace_concat _ _ _ _

/-- Who is there gains messages, and nobody else. -/
theorem isLive_of_gained {c : Call} (h : gained n (after cs) c ≠ []) :
    (after cs).isLive n = true := by
  have hsound := sound_after cs
  by_cases hc : ∃ m, c = .publish m
  · obtain ⟨m, rfl⟩ := hc
    rw [hsound.gained_publish] at h
    split at h
    · rename_i hn
      obtain ⟨name, -, htaker⟩ := mem_takers.mp hn
      exact isLive_of_taker htaker
    · exact absurd rfl h
  · exact absurd (hsound.gained_eq_nil (not_exists.mp hc) n) h

/-- Nothing is kept for those who come later. -/
theorem gained_eq_nil_of_le (h : (homes cs).length ≤ n) (c : Call) :
    gained n (after cs) c = [] := by
  by_contra hgained
  have hlt := lt_of_isLive (isLive_of_gained hgained)
  rw [(sound_after cs).length] at hlt
  exact absurd hlt (Nat.not_lt.mpr h)

/-- A subscription that is yet to be made has gained nothing. -/
theorem gains_eq_nil_of_le (h : (homes cs).length ≤ n) : gains cs n = [] := by
  induction cs using List.reverseRecOn with
  | nil => rfl
  | append_singleton cs c ih =>
    rw [homes_append, List.length_append] at h
    have hle : (homes cs).length ≤ n := (Nat.le_add_right _ _).trans h
    rw [gains_concat, ih hle, gained_eq_nil_of_le hle]
    rfl

/-- The message that a call publishes on a topic. -/
def Call.published (topic : String) : Call → Option Message
  | .publish m => if topic = m.topic then some m else none
  | _ => none

/-- What was published on a topic. -/
def published (topic : String) (cs : List Call) : List Message :=
  cs.filterMap (Call.published topic)

/-- What was published is a trace, too. -/
theorem published_append (topic : String) (cs ds : List Call) :
    published topic (cs ++ ds) = published topic cs ++ published topic ds := List.filterMap_append

/-- A message is published on its own topic only. -/
theorem published_publish (topic : String) (m : Message) :
    published topic [.publish m] = if topic = m.topic then [m] else [] := by
  rw [published, List.filterMap_cons, Call.published]
  split_ifs <;> rfl

/-- Calls that publish nothing add nothing to what was published. -/
theorem published_eq_nil {c : Call} (hc : ∀ m, c ≠ .publish m) (topic : String) :
    published topic [c] = [] := by
  cases c with
  | publish m => exact absurd rfl (hc m)
  | subscribe name => rfl
  | receive k => rfl
  | drop k => rfl

/-- Of what is published on its topic, a queue gains what its holder takes. -/
theorem gained_eq (h : (homes cs)[n]? = some name) (c : Call) : gained n (after cs) c
    = if (after cs).taker name = some n then published name.topic [c] else [] := by
  have hsound := sound_after cs
  by_cases hc : ∃ m, c = .publish m
  · obtain ⟨m, rfl⟩ := hc
    rw [hsound.gained_publish, if_congr ((mem_takers_iff h m).trans and_comm) rfl rfl,
      published_publish, ite_and]
  · have hc := not_exists.mp hc
    rw [hsound.gained_eq_nil hc, published_eq_nil hc, ite_self]

/-- A queue gains its messages in the order in which they are published. -/
theorem gains_sublist (h : (homes cs)[n]? = some name) :
    (gains cs n).Sublist (published name.topic cs) := by
  induction cs using List.reverseRecOn with
  | nil => cases h
  | append_singleton cs c ih =>
    rw [gains_concat, published_append]
    rcases Nat.lt_or_ge n (homes cs).length with hlt | hge
    · rw [homes_append, List.getElem?_append_left hlt] at h
      refine (ih h).append ?_
      rw [gained_eq h]
      split
      · exact List.Sublist.refl _
      · exact List.nil_sublist _
    · rw [gains_eq_nil_of_le hge, gained_eq_nil_of_le hge]
      exact List.nil_sublist _

/-- Whatever was taken out of a queue and what waits there is what it gained, up to the time when
    its holder went away. -/
theorem receipts_append_queueOf (cs : List Call) (n : Nat) :
    receipts cs n ++ (after cs).queueOf n <+: gains cs n ∧
    ((after cs).isLive n = true → receipts cs n ++ (after cs).queueOf n = gains cs n) := by
  induction cs using List.reverseRecOn with
  | nil => exact ⟨List.prefix_refl _, fun _ => rfl⟩
  | append_singleton cs c ih =>
    obtain ⟨ihstart, iheq⟩ := ih
    have hsound := sound_after cs
    have hstart : receipts (cs ++ [c]) n ++ (after (cs ++ [c])).queueOf n
        <+: gains (cs ++ [c]) n := by
      rw [receipts_concat, gains_concat, after_concat, List.append_assoc]
      by_cases hc : c = .drop n
      · subst hc
        rw [show received n (after cs) (.drop n) = [] from rfl, step, queueOf_drop, if_pos rfl,
          List.append_nil, List.append_nil]
        exact (List.prefix_append _ _).trans (ihstart.trans (List.prefix_append _ _))
      · rw [hsound.received_append hc, ← List.append_assoc]
        by_cases hgained : gained n (after cs) c = []
        · rw [hgained, List.append_nil, List.append_nil]
          exact ihstart
        · rw [iheq (isLive_of_gained hgained)]
    refine ⟨hstart, fun hlive => ?_⟩
    rcases Nat.lt_or_ge n (homes cs).length with hlt | hge
    · obtain ⟨hlive', hc⟩ := isLive_of_step hlive hlt
      rw [receipts_concat, gains_concat, after_concat, List.append_assoc,
        hsound.received_append hc, ← List.append_assoc, iheq hlive']
    · -- who comes now has nothing yet
      have hnone : gains (cs ++ [c]) n = [] := by
        rw [gains_concat, gains_eq_nil_of_le hge, gained_eq_nil_of_le hge]
        rfl
      rw [hnone] at hstart ⊢
      exact List.prefix_nil.mp hstart

/-! ## One group

  The queues of a group share out what is published on its topic.  The order of the union is not
  that of the topic, as the messages are in different queues: the statement is up to a permutation,
  and each queue by itself is in order. -/

/-- The subscriptions of a group. -/
def subscribers (cs : List Call) (name : GroupName) : List Nat :=
  (List.range (homes cs).length).filter fun n => (homes cs)[n]? = some name

/-- A subscriber is a subscription that named the group. -/
theorem mem_subscribers : n ∈ subscribers cs name ↔ (homes cs)[n]? = some name := by
  rw [subscribers, List.mem_filter, List.mem_range, decide_eq_true_iff]
  exact and_iff_right_of_imp fun h => (List.getElem?_eq_some_iff.mp h).1

theorem nodup_subscribers (cs : List Call) (name : GroupName) : (subscribers cs name).Nodup :=
  List.nodup_range.filter _

/-- What was published on the topic of a group since it was first joined. -/
def publishedSince (name : GroupName) (cs : List Call) : List Message :=
  published name.topic (cs.dropWhile fun c => c ≠ .subscribe name)

/-- A group was joined if some call did it. -/
theorem mem_homes : name ∈ homes cs ↔ .subscribe name ∈ cs := by
  rw [homes, List.mem_filterMap]
  constructor
  · rintro ⟨c, hc, hhome⟩
    cases c with
    | subscribe other => exact Option.some.inj hhome ▸ hc
    | publish m => cases hhome
    | receive k => cases hhome
    | drop k => cases hhome
  · exact fun h => ⟨_, h, rfl⟩

/-- The history from the first joining on is empty for a group that nobody joined. -/
theorem dropWhile_eq_nil_iff :
    (cs.dropWhile fun c => c ≠ .subscribe name) = [] ↔ name ∉ homes cs := by
  rw [List.dropWhile_eq_nil_iff, mem_homes]
  constructor
  · intro h hmem
    exact absurd rfl (of_decide_eq_true (h _ hmem))
  · intro h c hc
    refine decide_eq_true ?_
    rintro rfl
    exact h hc

/-- A message counts for a group once the group has been joined. -/
theorem publishedSince_concat (name : GroupName) (cs : List Call) (c : Call) :
    publishedSince name (cs ++ [c])
      = publishedSince name cs ++ if name ∈ homes cs then published name.topic [c] else [] := by
  rw [publishedSince, publishedSince, List.dropWhile_append]
  by_cases hjoined : name ∈ homes cs
  · have hsome := mt dropWhile_eq_nil_iff.mp (not_not_intro hjoined)
    rw [if_neg (mt List.isEmpty_iff.mp hsome), if_pos hjoined, published_append]
  · have hnone := dropWhile_eq_nil_iff.mpr hjoined
    rw [if_pos (List.isEmpty_iff.mpr hnone), if_neg hjoined, hnone, List.append_nil,
      List.dropWhile_cons]
    split
    · rfl
    · rename_i hfirst
      obtain rfl : c = .subscribe name := by simpa using hfirst
      rfl

/-- One member of a list that holds nobody twice is picked once. -/
theorem flatMap_pick {l : List Nat} (hdistinct : l.Nodup) (hn : n ∈ l) (ms : List Message) :
    (l.flatMap fun k => if some n = some k then ms else []) = ms := by
  obtain ⟨before, behind, rfl⟩ := List.append_of_mem hn
  have hmiddle := List.nodup_middle.mp hdistinct
  have hnone : ∀ l' : List Nat, n ∉ l' →
      (l'.flatMap fun k => if some n = some k then ms else []) = [] := by
    intro l' hn'
    refine List.flatMap_eq_nil_iff.mpr ?_
    intro k hk
    refine if_neg ?_
    rintro ⟨⟩
    exact hn' hk
  have hnot := (List.nodup_cons.mp hmiddle).1
  rw [List.flatMap_append, List.flatMap_cons, if_pos rfl,
    hnone before (fun h => hnot (List.mem_append_left _ h)),
    hnone behind (fun h => hnot (List.mem_append_right _ h)), List.append_nil, List.nil_append]

/-- Of a message for a group with somebody there, its queues together gain it once. -/
theorem flatMap_gained {c : Call} (hattended : Attended (cs ++ [c]) name) :
    ((subscribers cs name).flatMap fun n => gained n (after cs) c)
      = if name ∈ homes cs then published name.topic [c] else [] := by
  have hgained : ((subscribers cs name).flatMap fun n => gained n (after cs) c)
      = (subscribers cs name).flatMap fun n =>
          if (after cs).taker name = some n then published name.topic [c] else [] := by
    refine List.flatMap_congr ?_
    intro n hn
    exact gained_eq (mem_subscribers.mp hn) c
  rw [hgained]
  cases htaker : (after cs).taker name with
  | some k =>
    have hthere := attends_of_taker htaker
    rw [flatMap_pick (nodup_subscribers cs name) (mem_subscribers.mpr hthere.1),
      if_pos (List.mem_of_getElem? hthere.1)]
  | none =>
    -- so this is no message of its topic, or nobody joined the group yet
    have hnothing : name ∈ homes cs → published name.topic [c] = [] := by
      intro hjoined
      by_cases hc : ∃ m, c = .publish m
      · obtain ⟨m, rfl⟩ := hc
        rw [published_publish]
        refine if_neg ?_
        intro htopic
        obtain ⟨k, hk⟩ := exists_taker_iff.mpr (hattended cs m [] rfl htopic.symm hjoined)
        rw [htaker] at hk
        cases hk
      · exact published_eq_nil (not_exists.mp hc) name.topic
    have hright : (if name ∈ homes cs then published name.topic [c] else []) = [] := by
      split
      · exact hnothing ‹_›
      · rfl
    rw [hright]
    refine List.flatMap_eq_nil_iff.mpr ?_
    rintro n -
    exact if_neg (by rintro ⟨⟩)

/-- Who joins now has gained nothing yet. -/
theorem flatMap_subscribers_concat (c : Call) :
    (subscribers (cs ++ [c]) name).flatMap (gains (cs ++ [c]))
      = (subscribers cs name).flatMap (gains (cs ++ [c])) := by
  rw [subscribers, homes_append, List.length_append, List.range_add, List.filter_append,
    List.flatMap_append]
  have hold : (List.range (homes cs).length).filter
      (fun n => (homes cs ++ homes [c])[n]? = some name) = subscribers cs name := by
    refine List.filter_congr ?_
    intro n hn
    rw [List.getElem?_append_left (List.mem_range.mp hn)]
  rw [hold]
  refine (congrArg _ (List.flatMap_eq_nil_iff.mpr ?_)).trans (List.append_nil _)
  intro n hn
  obtain ⟨k, -, rfl⟩ := List.mem_map.mp (List.mem_filter.mp hn).1
  have hge : (homes cs).length ≤ (homes cs).length + k := Nat.le_add_right _ _
  rw [gains_concat, gains_eq_nil_of_le hge, gained_eq_nil_of_le hge]
  rfl

/-- **Nothing is lost or given twice**: what the queues of a group gained together is what was
    published since it was first joined, if somebody was there for every message. -/
theorem flatMap_gains_perm (hattended : Attended cs name) :
    ((subscribers cs name).flatMap (gains cs)).Perm (publishedSince name cs) := by
  induction cs using List.reverseRecOn with
  | nil => exact List.Perm.refl _
  | append_singleton cs c ih =>
    have hsplit : (subscribers cs name).flatMap (gains (cs ++ [c]))
        = (subscribers cs name).flatMap fun n => gains cs n ++ gained n (after cs) c := by
      refine List.flatMap_congr ?_
      intro n _
      exact gains_concat cs c n
    rw [flatMap_subscribers_concat, hsplit, publishedSince_concat, ← flatMap_gained hattended]
    exact (List.flatMap_append_perm _ _ _).symm.trans
      ((ih hattended.of_append).append_right _)

/-- **Each group gets each message exactly once.**  Of the groups of its topic that have somebody
    there, each has one who is there and finds the message at the end of his queue, and no other
    queue changes; the answer is how many groups they are.  So every queue gains its messages in
    the order of their publication, and its holder takes them out in that order; and the queues of
    a group that always had somebody there have gained together what was published since the group
    was first joined. -/
theorem each_group_gets_each_message_once (cs : List Call) :
    (∀ m, ∃ count, (after cs).publish true m = .ok (count, after (cs ++ [.publish m])) ∧
      Spreads cs m count) ∧
    (∀ n name, (homes cs)[n]? = some name →
      (gains cs n).Sublist (published name.topic cs) ∧
      receipts cs n ++ (after cs).queueOf n <+: gains cs n ∧
      ((after cs).isLive n = true → receipts cs n ++ (after cs).queueOf n = gains cs n)) ∧
    ∀ name, Attended cs name →
      ((subscribers cs name).flatMap (gains cs)).Perm (publishedSince name cs) := by
  refine ⟨fun m => ⟨_, ?_, spreads cs m⟩, fun n name h => ?_, fun name => flatMap_gains_perm⟩
  · rw [after_concat]
    exact publish_eq (sound_after cs).opened m
  · exact ⟨gains_sublist h, receipts_append_queueOf cs n⟩

end Subledger.Bus
