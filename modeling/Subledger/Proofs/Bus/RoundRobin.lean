/-
  ROUND ROBIN: in which order the members of a group are served.

  1. **The promise** (`RoundRobin`) — between two messages to the same member, every other one gets
     a message who was a member at the first and is there at the second.  It is not kept: a member
     is passed over when the list is begun again and its first went away (`served_again_too_soon`).
  2. **In line** (`InLine`) — whether each message goes to the first in the line of those who are
     there.  Then whoever waits stays before whoever was served after he came (`precedes_run`),
     which is the promise (`roundRobin_of_inLine`).
  3. **Who waits** (`WaitsSince`) — of two members before the place, the first waits since the
     second was served (`Kept`).  So if a message does not go to the first in the line, one who is
     there waits since whoever takes it was served, and the promise is broken
     (`inLine_of_roundRobin`).
  4. **When it is kept** (`BegunWell`) — it is if, whenever nobody from the place on is there, the
     first of the list is; so it is if nobody goes away.
-/
import Subledger.Proofs.Bus.ExactlyOnce

namespace Subledger.Bus

variable {cs : List Call} {name : GroupName} {m : Message} {n x y z : Nat}

/-! ## The promise -/

/-- Between two messages to the same member of a group, every other one gets a message who was a
    member at the first and is there at the second. -/
def RoundRobin (cs : List Call) (name : GroupName) : Prop :=
  ∀ before m between m' later,
    cs = before ++ .publish m :: (between ++ .publish m' :: later) →
    ∀ x y, x ≠ y → (homes before)[x]? = some name → (homes before)[y]? = some name →
      gained x (after before) (.publish m) ≠ [] →
      gained x (after (before ++ .publish m :: between)) (.publish m') ≠ [] →
      (after (before ++ .publish m :: between)).isLive y = true →
      trace (gained y) (after (before ++ [.publish m])) between ≠ []

/-- Whenever a message of its topic is published and the place of a group is one of its list, the
    first in the line of those who are there takes the message. -/
def InLine (cs : List Call) (name : GroupName) : Prop :=
  EachMessage cs fun before m => m.topic = name.topic →
    ((after before).group name).next ≤ ((after before).group name).members.length →
    Group.InTurn (after before).isLive ((after before).group name)

/-- A message of its topic makes a group move on. -/
theorem group_publish (htopic : m.topic = name.topic) (cs : List Call) :
    (after (cs ++ [.publish m])).group name
      = (((after cs).group name).take (after cs).isLive).2 := by
  rw [after_concat, step, group_afterMessage (sound_after cs).opened, if_pos htopic.symm]

/-- What a call is to a group: somebody joins it, or it gets a message, or it stays as it is. -/
theorem group_cases (cs : List Call) (c : Call) (name : GroupName) :
    (c = .subscribe name ∧ (after (cs ++ [c])).group name
      = { (after cs).group name with
          members := ((after cs).group name).members ++ [(homes cs).length] }) ∨
    (∃ m, c = .publish m ∧ m.topic = name.topic) ∨
    ((∀ m, c = .publish m → m.topic ≠ name.topic) ∧
      (after (cs ++ [c])).group name = (after cs).group name) := by
  have hsound := sound_after cs
  rw [after_concat]
  cases c with
  | subscribe other =>
    rw [group_step_subscribe hsound.opened, hsound.length]
    by_cases hother : name = other
    · subst hother
      exact .inl ⟨rfl, if_pos rfl⟩
    · exact .inr (.inr ⟨by simp, if_neg hother⟩)
  | publish m =>
    by_cases htopic : m.topic = name.topic
    · exact .inr (.inl ⟨m, rfl, htopic⟩)
    · rw [step, group_afterMessage hsound.opened]
      refine .inr (.inr ⟨?_, if_neg (Ne.symm htopic)⟩)
      rintro m' ⟨⟩
      exact htopic
  | receive k =>
    refine .inr (.inr ⟨by simp, ?_⟩)
    rcases step_receive (after cs) k with ⟨hsame, -⟩ | ⟨m, rest, -, -, hstep⟩
    · rw [hsame]
    · rw [hstep]
      rfl
  | drop k => exact .inr (.inr ⟨by simp, rfl⟩)

/-- Whoever takes a message gains it. -/
theorem gained_of_taker (h : (after cs).taker name = some n) (htopic : m.topic = name.topic) :
    gained n (after cs) (.publish m) = [m] := by
  rw [gained_eq (attends_of_taker h).1, if_pos h, published_publish, if_pos htopic.symm]

/-- Whoever gains a message took it. -/
theorem taker_of_gained (hhome : (homes cs)[n]? = some name)
    (h : gained n (after cs) (.publish m) ≠ []) :
    (after cs).taker name = some n ∧ m.topic = name.topic := by
  rw [gained_eq hhome, published_publish] at h
  split at h
  · split at h
    · exact ⟨‹_›, Eq.symm ‹_›⟩
    · exact absurd rfl h
  · exact absurd rfl h

/-! ## Those who are served in line -/

/-- `y` stands before `x` in the line of a group. -/
structure Precedes (cs : List Call) (name : GroupName) (y x : Nat) : Prop where
  place : ((after cs).group name).next ≤ ((after cs).group name).members.length
  line : [y, x].Sublist ((after cs).group name).line

/-- After a message everybody stands before the one who took it. -/
theorem precedes_of_taker (hx : (after cs).taker name = some x) (htopic : m.topic = name.topic)
    (hy : Attends cs name y) (hne : x ≠ y) : Precedes (cs ++ [.publish m]) name y x := by
  obtain ⟨hmem, hlive⟩ := attends_iff.mp hy
  obtain ⟨-, before, behind, htake⟩ := Group.exists_take hx
  have hmem' := (Group.mem_take hlive).mpr hmem
  rw [htake] at hmem'
  refine ⟨?_, ?_⟩
  · rw [group_publish htopic]
    exact Group.next_le_of_take hx
  · rw [group_publish htopic, htake, Group.line_served]
    have hother : y ∈ before ∨ y ∈ behind := by
      simpa [hne.symm] using hmem'
    have hahead : [y].Sublist (behind ++ before) :=
      List.singleton_sublist.mpr (List.mem_append.mpr hother.symm)
    exact hahead.append (List.Sublist.refl [x])

/-- As long as all are served in line, one stays before the other until he is served. -/
theorem Precedes.step (h : Precedes cs name y x) {c : Call} (hline : InLine (cs ++ [c]) name)
    (hy : Attends cs name y) (hx : (after cs).isLive x = true)
    (hnot : gained y (after cs) c = []) : Precedes (cs ++ [c]) name y x := by
  rcases group_cases cs c name with ⟨-, hgroup⟩ | ⟨m, rfl, htopic⟩ | ⟨-, hgroup⟩
  · refine ⟨?_, ?_⟩
    · rw [hgroup, List.length_append]
      exact h.place.trans (Nat.le_add_right _ _)
    · rw [hgroup]
      exact Group.precedes_join h.place h.line _
  · obtain ⟨k, hk⟩ := exists_taker_iff.mpr ⟨y, hy⟩
    have hky : k ≠ y := by
      rintro rfl
      rw [gained_of_taker hk htopic] at hnot
      cases hnot
    have hturn := hline cs m [] rfl htopic h.place
    refine ⟨?_, ?_⟩
    · rw [group_publish htopic]
      exact Group.next_le_of_take hk
    · rw [group_publish htopic]
      exact (Group.precedes_take ((sound_after cs).distinct name) hturn hy.2 hx h.line hk hky).1
  · exact ⟨hgroup ▸ h.place, hgroup ▸ h.line⟩

/-- Over any calls, one who stands before another stays there until he is served. -/
theorem precedes_run {ds : List Call} (h : Precedes cs name y x) (hline : InLine (cs ++ ds) name)
    (hhomey : (homes cs)[y]? = some name) (hhomex : (homes cs)[x]? = some name)
    (hy : (after (cs ++ ds)).isLive y = true) (hx : (after (cs ++ ds)).isLive x = true)
    (hnot : trace (gained y) (after cs) ds = []) : Precedes (cs ++ ds) name y x := by
  induction ds using List.reverseRecOn with
  | nil => rwa [List.append_nil]
  | append_singleton ds c ih =>
    rw [trace_concat, List.append_eq_nil_iff, ← after_append] at hnot
    rw [← List.append_assoc] at hline hy hx ⊢
    have hy' := attends_of_append (homes_of_append hhomey ds) hy
    have hx' := attends_of_append (homes_of_append hhomex ds) hx
    exact (ih hline.of_append hy'.2 hx'.2 hnot.1).step hline hy' hx'.2 hnot.2

/-- If all are served in line, the promise is kept. -/
theorem roundRobin_of_inLine (hline : InLine cs name) : RoundRobin cs name := by
  rintro before m between m' later rfl x y hne hhomex hhomey hfirst hsecond hy hnot
  obtain ⟨hx, htopic⟩ := taker_of_gained hhomex hfirst
  have hassoc : ∀ ds, before ++ .publish m :: ds = (before ++ [.publish m]) ++ ds := by
    intro ds
    rw [List.append_assoc, List.singleton_append]
  rw [hassoc] at hsecond hy
  rw [hassoc, ← List.append_assoc] at hline
  have hhomex' := homes_of_append hhomex [.publish m]
  have hhomey' := homes_of_append hhomey [.publish m]
  obtain ⟨hx', htopic'⟩ := taker_of_gained (homes_of_append hhomex' between) hsecond
  have hlivex := isLive_of_taker hx'
  -- `y` was there from the first message on, and stood before `x` after it
  have hfrom : (after (before ++ ([.publish m] ++ between))).isLive y = true := by
    rwa [← List.append_assoc]
  have hattends : Attends before name y := attends_of_append hhomey hfrom
  have hprecedes := precedes_run (precedes_of_taker hx htopic hattends hne) hline.of_append
    hhomey' hhomex' hy hlivex hnot
  have hturn := hline _ m' later rfl htopic' hprecedes.place
  exact (Group.precedes_take ((sound_after _).distinct name) hturn hy hlivex hprecedes.line hx'
    hne).2 rfl

/-! ## Those who wait -/

/-- `z` was served when `y` was a member already, and `y` was not served since. -/
def WaitsSince (cs : List Call) (name : GroupName) (y z : Nat) : Prop :=
  ∃ before m since, cs = before ++ .publish m :: since ∧
    (homes before)[y]? = some name ∧ (homes before)[z]? = some name ∧
    gained z (after before) (.publish m) ≠ [] ∧
    trace (gained y) (after (before ++ [.publish m])) since = []

/-- Who is not served by a call goes on waiting. -/
theorem WaitsSince.concat (h : WaitsSince cs name y z) {c : Call}
    (hnot : gained y (after cs) c = []) : WaitsSince (cs ++ [c]) name y z := by
  obtain ⟨before, m, since, rfl, hy, hz, hserved, hwaits⟩ := h
  refine ⟨before, m, since ++ [c], ?_, hy, hz, hserved, ?_⟩
  · rw [List.append_assoc, List.cons_append]
  · rw [trace_concat, hwaits, ← after_append, List.append_assoc, List.singleton_append, hnot]
    rfl

/-- The place of a group is one of its list, and of two members before it the first waits since the
    second was served. -/
structure Kept (cs : List Call) (name : GroupName) : Prop where
  place : ((after cs).group name).next ≤ ((after cs).group name).members.length
  waits : (((after cs).group name).members.take ((after cs).group name).next).Pairwise
    (WaitsSince cs name)

/-- Whoever does not take a message waits on. -/
theorem gained_eq_nil_of_taker_ne (hy : (homes cs)[y]? = some name)
    (h : (after cs).taker name ≠ some y) (c : Call) : gained y (after cs) c = [] := by
  rw [gained_eq hy, if_neg h]

/-- A message of another topic, or no message at all, adds to no queue of a group. -/
theorem gained_eq_nil_of_topic (hy : (homes cs)[y]? = some name) {c : Call}
    (hc : ∀ m, c = .publish m → m.topic ≠ name.topic) : gained y (after cs) c = [] := by
  by_contra hgained
  by_cases hmessage : ∃ m, c = .publish m
  · obtain ⟨m, rfl⟩ := hmessage
    exact hc m rfl (taker_of_gained hy hgained).2
  · exact hgained ((sound_after cs).gained_eq_nil (not_exists.mp hmessage) y)

/-- Who waits for a group is one of its members. -/
theorem WaitsSince.home (h : WaitsSince cs name y z) : (homes cs)[y]? = some name := by
  obtain ⟨before, m, since, rfl, hy, -⟩ := h
  exact homes_of_append hy _

/-- A call that is no message of the topic leaves the order of the group alone. -/
theorem Kept.of_quiet (h : Kept cs name) {c : Call}
    (hc : ∀ m, c = .publish m → m.topic ≠ name.topic)
    (hplace : ((after (cs ++ [c])).group name).next
      ≤ ((after (cs ++ [c])).group name).members.length)
    (hsame : ((after (cs ++ [c])).group name).members.take ((after (cs ++ [c])).group name).next
      = ((after cs).group name).members.take ((after cs).group name).next) :
    Kept (cs ++ [c]) name := by
  refine ⟨hplace, ?_⟩
  rw [hsame]
  refine h.waits.imp ?_
  intro y z hwaits
  exact hwaits.concat (gained_eq_nil_of_topic hwaits.home hc)

/-- A message: whoever took it is the last before the new place, and the others before it wait. -/
theorem Kept.of_taker (h : Kept cs name) (hk : (after cs).taker name = some n)
    (htopic : m.topic = name.topic) : Kept (cs ++ [.publish m]) name := by
  have hsound := sound_after cs
  obtain ⟨before, behind, htake, hsub⟩ := Group.exists_before h.place hk
  have hdistinct : (before ++ n :: behind).Nodup := by
    have hmembers := (hsound.distinct name).sublist (Group.take_sublist (after cs).isLive _)
    rwa [htake] at hmembers
  have hhome : ∀ y ∈ before, (homes cs)[y]? = some name := fun y hy =>
    hsound.home y name (List.mem_of_mem_take (hsub.subset hy))
  have hother : ∀ y ∈ before, (after cs).taker name ≠ some y := by
    intro y hy heq
    obtain rfl := Option.some.inj (hk.symm.trans heq)
    exact (List.nodup_append.mp hdistinct).2.2 n hy n List.mem_cons_self rfl
  have hfront : (before ++ n :: behind).take (before.length + 1) = before ++ [n] := by
    rw [List.take_length_add_append]
    rfl
  refine ⟨?_, ?_⟩
  · rw [group_publish htopic]
    exact Group.next_le_of_take hk
  · rw [group_publish htopic, htake]
    dsimp only
    rw [hfront, List.pairwise_append]
    refine ⟨?_, List.pairwise_singleton _ _, ?_⟩
    · refine (h.waits.sublist hsub).imp_of_mem ?_
      intro y z hy _ hwaits
      exact hwaits.concat (gained_eq_nil_of_taker_ne (hhome y hy) (hother y hy) _)
    · intro y hy z hz
      obtain rfl := List.mem_singleton.mp hz
      refine ⟨cs, m, [], rfl, hhome y hy, (attends_of_taker hk).1, ?_, rfl⟩
      rw [gained_of_taker hk htopic]
      exact List.cons_ne_nil _ _

/-- As long as somebody is there for every message, the group is kept in order. -/
theorem kept (hattended : Attended cs name) : Kept cs name := by
  induction cs using List.reverseRecOn with
  | nil => exact ⟨Nat.le_refl 0, List.Pairwise.nil⟩
  | append_singleton cs c ih =>
    have h := ih hattended.of_append
    rcases group_cases cs c name with ⟨rfl, hgroup⟩ | ⟨m, rfl, htopic⟩ | ⟨hc, hgroup⟩
    · refine h.of_quiet (by simp) ?_ ?_
      · rw [hgroup, List.length_append]
        exact h.place.trans (Nat.le_add_right _ _)
      · rw [hgroup]
        exact List.take_append_of_le_length h.place
    · by_cases hjoined : name ∈ homes cs
      · obtain ⟨n, hn⟩ := exists_taker_iff.mpr (hattended cs m [] rfl htopic hjoined)
        exact h.of_taker hn htopic
      · -- a group that nobody joined has no members, and stays as it is
        have hempty : ((after cs).group name).members = [] := by
          refine List.eq_nil_iff_forall_not_mem.mpr ?_
          intro n hn
          exact hjoined (List.mem_of_getElem? ((sound_after cs).home n name hn))
        have hgroup : (after (cs ++ [.publish m])).group name = (after cs).group name := by
          rw [group_publish htopic, Group.take_of_nil hempty]
        refine ⟨hgroup ▸ h.place, ?_⟩
        rw [hgroup, hempty, List.take_nil]
        exact List.Pairwise.nil
    · exact h.of_quiet hc (hgroup ▸ h.place) (by rw [hgroup])

/-- If somebody was there for every message, only serving them in line keeps the promise. -/
theorem inLine_of_roundRobin (hattended : Attended cs name) (hpromise : RoundRobin cs name) :
    InLine cs name := by
  rintro before m later rfl htopic hplace
  by_contra hout
  cases htaker : (after before).taker name with
  | none => exact hout (Group.inTurn_of_take_eq_none htaker)
  | some n =>
    obtain ⟨k, hlive, hsub⟩ := Group.passed_over hplace htaker hout
    have hwaits := List.pairwise_iff_forall_sublist.mp (kept hattended.of_append).waits hsub
    have hne : n ≠ k := by
      have hdistinct := ((sound_after before).distinct name).sublist
        (hsub.trans (List.take_sublist _ _))
      rintro rfl
      exact (List.nodup_cons.mp hdistinct).1 (List.mem_singleton_self _)
    obtain ⟨first, m', since, rfl, hk, hn, hserved, hnot⟩ := hwaits
    refine hpromise first m' since m later ?_ n k hne hn hk hserved ?_ hlive hnot
    · rw [List.append_assoc, List.cons_append]
    · rw [gained_of_taker htaker htopic]
      exact List.cons_ne_nil _ _

/-! ## When the promise is kept -/

/-- Whenever a message of its topic is published and nobody from the place of a group on is there,
    the first of its list is. -/
def BegunWell (cs : List Call) (name : GroupName) : Prop :=
  EachMessage cs fun before m => m.topic = name.topic →
    (∃ n ∈ ((after before).group name).members.drop ((after before).group name).next,
      (after before).isLive n = true) ∨
    ∀ n, ((after before).group name).members.head? = some n → (after before).isLive n = true

/-- A group that has begun well is served in line. -/
theorem inLine_of_begunWell (h : BegunWell cs name) : InLine cs name := by
  intro before m later hsplit htopic hplace
  rcases h before m later hsplit htopic with ⟨n, hn, hlive⟩ | hhead
  · obtain ⟨k, hk⟩ := Option.isSome_iff_exists.mp (List.find?_isSome.mpr ⟨n, hn, hlive⟩)
    exact Group.inTurn_of_behind hplace hk
  · cases hmembers : ((after before).group name).members.head? with
    | some n => exact Group.inTurn_of_head hplace hmembers (hhead n hmembers)
    | none =>
      refine Group.inTurn_of_take_eq_none (Group.take_eq_none_iff.mpr ?_)
      intro n hn
      rw [List.head?_eq_none_iff.mp hmembers] at hn
      exact absurd hn List.not_mem_nil

/-- Without departures everybody is there. -/
theorem isLive_of_no_drop (hstay : ∀ n, .drop n ∉ cs) (hlt : n < (homes cs).length) :
    (after cs).isLive n = true := by
  induction cs using List.reverseRecOn with
  | nil => exact absurd hlt (Nat.not_lt_zero n)
  | append_singleton cs c ih =>
    have hc : c ≠ .drop n := by
      rintro rfl
      exact hstay n (List.mem_append_right _ (List.mem_singleton_self _))
    rw [after_concat, (sound_after cs).isLive_step_iff]
    rcases Nat.lt_or_ge n (homes cs).length with hold | hnew
    · exact .inl ⟨ih (fun k hk => hstay k (List.mem_append_left _ hk)) hold, hc⟩
    · right
      rw [homes_append, homes_singleton, List.length_append] at hlt
      cases hhome : c.home with
      | none =>
        rw [hhome] at hlt
        exact absurd hlt (Nat.not_lt.mpr hnew)
      | some name =>
        rw [hhome] at hlt
        exact ⟨rfl, Nat.le_antisymm (Nat.le_of_lt_succ hlt) hnew⟩

/-- **As long as nobody goes away, the members of a group take turns.** -/
theorem roundRobin_of_no_drop (hstay : ∀ n, .drop n ∉ cs) (name : GroupName) :
    RoundRobin cs name := by
  refine roundRobin_of_inLine (inLine_of_begunWell ?_)
  rintro before m later rfl -
  right
  intro n hn
  have hhome := (sound_after before).home n name (List.mem_of_head? hn)
  refine isLive_of_no_drop ?_ (List.getElem?_eq_some_iff.mp hhome).1
  intro k hk
  exact hstay k (List.mem_append_left _ hk)

/-- **When the members of a group take turns**: if each message goes to the first in the line of
    those who are there; and only then, if somebody was there for every message.  Each does if,
    whenever nobody from the place on is there, the first of the list is. -/
theorem round_robin_exact_condition (cs : List Call) (name : GroupName) :
    (InLine cs name → RoundRobin cs name) ∧
    (Attended cs name → RoundRobin cs name → InLine cs name) ∧
    (BegunWell cs name → InLine cs name) :=
  ⟨roundRobin_of_inLine, inLine_of_roundRobin, inLine_of_begunWell⟩

/-! ## When it is not -/

namespace Sample

/-- A group of workers. -/
def workers : GroupName := ⟨"t", "workers"⟩

/-- A message for them. -/
def job (key : String) : Message := ⟨"t", key, []⟩

/-- Three workers got a job each, in turn. -/
def threeJobs : List Call :=
  [.subscribe workers, .subscribe workers, .subscribe workers,
    .publish (job "1"), .publish (job "2"), .publish (job "3")]

end Sample

/-- Three members were served in turn, and then the first goes away.  The next message goes to the
    third again, although the second, who is there, was to have it. -/
theorem served_again_too_soon : ¬ ∀ cs name, RoundRobin cs name := by
  intro h
  have hpromise := h (Sample.threeJobs ++ [.drop 0, .publish (Sample.job "4")]) Sample.workers
    (Sample.threeJobs.take 5) (Sample.job "3") [.drop 0] (Sample.job "4") [] rfl 2 1
    (by decide) (by decide) (by decide)
  refine hpromise ?_ ?_ ?_ ?_
  · decide +kernel
  · decide +kernel
  · decide +kernel
  · decide +kernel

end Subledger.Bus
