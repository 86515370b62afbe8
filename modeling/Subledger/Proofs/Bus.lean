/-
  WHAT A LISTENER HEARS: everything that is published on its topic, in order and once.

  1. **Turns** (`take_fst`, `take_members`) — a group gives a message to one of its members, and only
     strikes members off.
  2. **Sole listeners** (`Hears`) — a group of one member, which is there and in no other group, gives
     it every message.  Giving the message to the other groups does not touch its queue.
  3. **Many messages** (`Hears.publishAll`) — so what was published on the topic stands at the end of
     its queue.
-/
import Mathlib
import Subledger.Bus
import Subledger.Proofs.Table

namespace Subledger

/-! ## Turns

  Whatever the order of turns is, a message goes to a member who is there; if there is one member,
  to him. -/

namespace Group

/-- Whoever takes a message is a member, and there. -/
theorem take_fst {live : Nat → Bool} {g : Group} {n : Nat} (h : (g.take live).1 = some n) :
    n ∈ g.members := by
  fun_induction Group.take live g with
  | case1 g hlength i hi hlive => exact Option.some.inj h ▸ List.getElem_mem hi
  | case2 g hlength i hi hgone ih => exact List.mem_of_mem_eraseIdx (ih h)
  | case3 g hempty => exact nomatch h

/-- Nobody joins a group when a message is given to it. -/
theorem take_members {live : Nat → Bool} {g : Group} {n : Nat}
    (h : n ∈ (g.take live).2.members) : n ∈ g.members := by
  fun_induction Group.take live g with
  | case1 g hlength i hi hlive => exact h
  | case2 g hlength i hi hgone ih => exact List.mem_of_mem_eraseIdx (ih h)
  | case3 g hempty => exact h

/-- The sole member of a group takes every message. -/
theorem take_singleton {live : Nat → Bool} {n next : Nat} (h : live n = true) :
    Group.take live ⟨[n], next⟩ = (some n, ⟨[n], 1⟩) := by
  have hturn : next % 1 = 0 := Nat.mod_one next
  rw [Group.take, dif_pos (show 0 < (Group.mk [n] next).members.length from Nat.succ_pos 0)]
  dsimp only
  simp only [List.length_singleton, hturn, List.getElem_cons_zero, h, if_true]

end Group

namespace Bus

/-! ## Sole listeners

  The condition is about all groups, for the other ones must not reach the queue either. -/

/-- The subscription `n` is `s` and there, the only member of its group, and in no other group. -/
structure Hears (b : Bus) (name : GroupName) (n : Nat) (s : Subscription) : Prop where
  group : ∃ next, b.groups.find? name = some ⟨[n], next⟩
  subscription : b.subscriptions[n]? = some s
  live : s.live = true
  sole : ∀ other g, b.groups.find? other = some g → n ∈ g.members → other = name

variable {b : Bus} {name : GroupName} {n : Nat} {s : Subscription}

/-- A sole listener is there. -/
theorem Hears.isLive (h : b.Hears name n s) : b.isLive n = true := by
  rw [Bus.isLive, h.subscription]
  exact h.live

/-- A message for another group passes a sole listener by. -/
theorem Hears.deliver_of_ne (h : b.Hears name n s) (m : Message) (count : Nat) {other : GroupName}
    (hother : other ≠ name) : (deliver m (count, b) other).2.Hears name n s := by
  unfold deliver
  cases hg : b.groups.find? other with
  | none => exact h
  | some g =>
    have hnot : n ∉ g.members := fun hn => hother (h.sole other g hg hn)
    obtain ⟨next, hgroup⟩ := h.group
    cases ht : g.take b.isLive with
    | mk taker taken =>
      -- the other group has the members it had, or fewer
      have hgroup' : ∃ next, (b.groups.insert other taken).find? name = some ⟨[n], next⟩ :=
        ⟨next, by rw [Table.find?_insert_of_ne _ _ (Ne.symm hother), hgroup]⟩
      have hsole' : ∀ o g', (b.groups.insert other taken).find? o = some g' → n ∈ g'.members →
          o = name := by
        intro o g' hg' hn
        by_cases ho : o = other
        · rw [ho, Table.find?_insert_self] at hg'
          obtain rfl := Option.some.inj hg'
          have hmember : n ∈ (g.take b.isLive).2.members := by rwa [ht]
          exact absurd (Group.take_members hmember) hnot
        · rw [Table.find?_insert_of_ne _ _ ho] at hg'
          exact h.sole o g' hg' hn
      cases taker with
      | none =>
        simp only [ht]
        exact ⟨hgroup', h.subscription, h.live, hsole'⟩
      | some k =>
        have hk : k ≠ n := by
          rintro rfl
          exact hnot (Group.take_fst (congrArg Prod.fst ht))
        simp only [ht]
        refine ⟨hgroup', ?_, h.live, hsole'⟩
        show (b.subscriptions.modify k _)[n]? = some s
        rw [List.getElem?_modify_ne _ _ hk, h.subscription]

/-- A sole listener takes every message for its group. -/
theorem Hears.deliver_self (h : b.Hears name n s) (m : Message) (count : Nat) :
    (deliver m (count, b) name).2.Hears name n { s with queue := s.queue ++ [m] } := by
  obtain ⟨next, hgroup⟩ := h.group
  unfold deliver
  simp only [hgroup, Group.take_singleton h.isLive]
  refine ⟨⟨1, Table.find?_insert_self _ _ _⟩, ?_, h.live, ?_⟩
  · show (b.subscriptions.modify n _)[n]? = _
    rw [List.getElem?_modify_eq, h.subscription]
    rfl
  · intro other g hg hn
    by_cases hother : other = name
    · exact hother
    · exact h.sole other g (by rwa [← Table.find?_insert_of_ne _ _ hother]) hn

/-- Of all groups that are served, its own counts, and once. -/
theorem Hears.foldl_deliver {names : List GroupName} (hnames : names.Nodup) (m : Message)
    (count : Nat) (h : b.Hears name n s) :
    (names.foldl (deliver m) (count, b)).2.Hears name n
      (if name ∈ names then { s with queue := s.queue ++ [m] } else s) := by
  induction names generalizing b s count with
  | nil => exact h
  | cons other names ih =>
    obtain ⟨hnot, hnames⟩ := List.nodup_cons.mp hnames
    rw [List.foldl_cons]
    by_cases hother : other = name
    · subst hother
      have hrest := ih hnames (deliver m (count, b) other).1 (h.deliver_self m count)
      rw [if_neg hnot] at hrest
      rwa [if_pos List.mem_cons_self]
    · have hrest := ih hnames (deliver m (count, b) other).1 (h.deliver_of_ne m count hother)
      have hiff : name ∈ other :: names ↔ name ∈ names := by
        rw [List.mem_cons]
        exact or_iff_right (Ne.symm hother)
      rwa [if_congr hiff rfl rfl]

/-! ## Many messages

  Messages one after the other, without any call in between. -/

/-- The bus after a message, should it be published. -/
def afterMessage (b : Bus) (m : Message) : Bus :=
  match b.publish true m with
  | .ok answer => answer.2
  | .error _ => b

/-- The bus after some messages, published one after the other. -/
def publishAll (b : Bus) (ms : List Message) : Bus := ms.foldl afterMessage b

/-- Messages may be published in two parts. -/
theorem publishAll_append (b : Bus) (ms ns : List Message) :
    b.publishAll (ms ++ ns) = (b.publishAll ms).publishAll ns := List.foldl_append

/-- Delivering neither opens nor closes a bus. -/
theorem closed_deliver (m : Message) (state : Nat × Bus) (name : GroupName) :
    (deliver m state name).2.closed = state.2.closed := by
  unfold deliver
  split
  · rfl
  · split <;> rfl

/-- Delivering to many groups does not either. -/
theorem closed_foldl_deliver (m : Message) (names : List GroupName) (state : Nat × Bus) :
    (names.foldl (deliver m) state).2.closed = state.2.closed := by
  induction names generalizing state with
  | nil => rfl
  | cons name names ih => rw [List.foldl_cons, ih, closed_deliver]

/-- A bus that is open serves all groups of the topic. -/
theorem publish_of_open (h : b.closed = false) (m : Message) :
    ∃ count, b.publish true m = .ok (count, b.afterMessage m) ∧
      (count, b.afterMessage m)
        = (b.groups.keys.filter fun name => name.topic == m.topic).foldl (deliver m) (0, b) := by
  have hpublish : b.publish true m = .ok
      ((b.groups.keys.filter fun name => name.topic == m.topic).foldl (deliver m) (0, b)) := by
    rw [publish, h]
    rfl
  rw [afterMessage, hpublish]
  exact ⟨_, rfl, rfl⟩

/-- A bus that is closed takes nothing. -/
theorem afterMessage_of_closed (h : b.closed = true) (m : Message) : b.afterMessage m = b := by
  rw [afterMessage, publish, h]
  rfl

/-- Messages neither close nor open a bus. -/
theorem closed_afterMessage (b : Bus) (m : Message) : (b.afterMessage m).closed = b.closed := by
  cases h : b.closed with
  | true => rw [afterMessage_of_closed h, h]
  | false =>
    obtain ⟨count, -, hserved⟩ := publish_of_open h m
    rw [show b.afterMessage m = (count, b.afterMessage m).2 from rfl, hserved,
      closed_foldl_deliver]
    exact h

/-- Nor does publishing. -/
theorem closed_publishAll (b : Bus) (ms : List Message) :
    (b.publishAll ms).closed = b.closed := by
  induction ms generalizing b with
  | nil => rfl
  | cons m ms ih => exact (ih (b.afterMessage m)).trans (closed_afterMessage b m)

/-- A message on its topic is put at the end of a sole listener's queue. -/
theorem Hears.afterMessage (h : b.Hears name n s) (hopen : b.closed = false) {m : Message}
    (htopic : m.topic = name.topic) :
    (b.afterMessage m).Hears name n { s with queue := s.queue ++ [m] } := by
  obtain ⟨count, -, hserved⟩ := publish_of_open hopen m
  have hnames : (b.groups.keys.filter fun name => name.topic == m.topic).Nodup :=
    (Table.nodup_keys b.groups).filter _
  have hmem : name ∈ b.groups.keys.filter fun name => name.topic == m.topic := by
    obtain ⟨next, hgroup⟩ := h.group
    refine List.mem_filter.mpr ⟨?_, beq_iff_eq.mpr htopic.symm⟩
    rw [Table.mem_keys_iff, hgroup]
    rfl
  have hserves := h.foldl_deliver hnames m 0
  rwa [if_pos hmem, ← hserved] at hserves

/-- **A sole listener hears every message of its topic**, in order and once. -/
theorem Hears.publishAll (h : b.Hears name n s) (hopen : b.closed = false) {ms : List Message}
    (htopic : ∀ m ∈ ms, m.topic = name.topic) :
    (b.publishAll ms).Hears name n { s with queue := s.queue ++ ms } := by
  induction ms generalizing b s with
  | nil => rwa [List.append_nil]
  | cons m ms ih =>
    obtain ⟨hm, hms⟩ := List.forall_mem_cons.mp htopic
    have hrest := ih (h.afterMessage hopen hm) ((closed_afterMessage b m).trans hopen) hms
    rwa [List.append_assoc, List.singleton_append] at hrest

end Bus

end Subledger
