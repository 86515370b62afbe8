/-
  TURNS: which member of a group takes a message.

  A group looks for the member whose turn it is from a place in its list on, which the last message
  left there.  Members that went away are struck off when they are found, and the place stays what
  it was, also when the list becomes shorter than that.

  1. **Whoever takes** (`take_eq_none_iff`, `exists_take`) — somebody takes the message exactly if
     somebody is there.  He stands right before the new place, and nobody who is there is struck
     off.
  2. **The line** (`line`) — the members in the order of their turns: from the place on, and then
     from the beginning.  In turn, those who are there move up by one and whoever took the message
     goes to their end (`line_take`); both lines are rotations of one list.
  3. **Out of turn** (`inTurn_of_behind`, `inTurn_of_head`) — as long as somebody from the place on
     is there, the first in the line takes the message.  If nobody is, the list is begun again, and
     the first in the line takes the message if he is the first of the list.  If that one went away
     too, he is struck off and the place is one too far.
  4. **Who was passed over** (`exists_before`, `passed_over`) — both stand before the old place, the
     one who was passed over before the one who took the message.
-/
import Subledger.Proofs.Bus

namespace Subledger.Group

variable {live : Nat → Bool} {g : Group} {n : Nat}

/-! ## Whoever takes -/

/-- To strike off somebody who is gone does not change who is there. -/
theorem filter_eraseIdx {l : List Nat} {i : Nat} (hi : i < l.length) (h : ¬ live l[i] = true) :
    (l.eraseIdx i).filter live = l.filter live := by
  have hsplit : l.filter live = (l.take i ++ l[i] :: l.drop (i + 1)).filter live := by
    rw [← List.drop_eq_getElem_cons hi, List.take_append_drop]
  rw [hsplit, List.eraseIdx_eq_take_drop_succ, List.filter_append, List.filter_append,
    List.filter_cons_of_neg h]

/-- Nobody who is there is struck off. -/
theorem filter_take (live : Nat → Bool) (g : Group) :
    (g.take live).2.members.filter live = g.members.filter live := by
  fun_induction Group.take live g with
  | case1 g hlength i hi hlive => rfl
  | case2 g hlength i hi hgone ih => exact ih.trans (filter_eraseIdx hi hgone)
  | case3 g hempty => rfl

/-- Who is left keeps his place among the others. -/
theorem take_sublist (live : Nat → Bool) (g : Group) :
    (g.take live).2.members.Sublist g.members := by
  fun_induction Group.take live g with
  | case1 g hlength i hi hlive => exact List.Sublist.refl _
  | case2 g hlength i hi hgone ih => exact ih.trans (List.eraseIdx_sublist _ _)
  | case3 g hempty => exact List.Sublist.refl _

/-- Whoever takes a message is there, and stands right before the new place. -/
theorem exists_take (h : (g.take live).1 = some n) : live n = true ∧
    ∃ before behind, (g.take live).2 = ⟨before ++ n :: behind, before.length + 1⟩ := by
  fun_induction Group.take live g with
  | case1 g hlength i hi hlive =>
    obtain rfl := Option.some.inj h
    refine ⟨hlive, g.members.take i, g.members.drop (i + 1), ?_⟩
    rw [← List.drop_eq_getElem_cons hi, List.take_append_drop, List.length_take_of_le hi.le]
  | case2 g hlength i hi hgone ih => exact ih h
  | case3 g hempty => cases h

/-- After a message the place is one of the list. -/
theorem next_le_of_take (h : (g.take live).1 = some n) :
    (g.take live).2.next ≤ (g.take live).2.members.length := by
  obtain ⟨-, before, behind, htake⟩ := exists_take h
  rw [htake, List.length_append, List.length_cons]
  exact Nat.add_le_add_left (Nat.succ_le_succ (Nat.zero_le _)) _

/-- Nobody takes a message exactly if nobody is there. -/
theorem take_eq_none_iff : (g.take live).1 = none ↔ ∀ n ∈ g.members, ¬ live n = true := by
  constructor
  · intro h
    have hall : (g.take live).2.members = [] := by
      fun_induction Group.take live g with
      | case1 g hlength i hi hlive => cases h
      | case2 g hlength i hi hgone ih => exact ih h
      | case3 g hempty => exact List.eq_nil_of_length_eq_zero (Nat.eq_zero_of_not_pos hempty)
    rw [← List.filter_eq_nil_iff, ← filter_take, hall, List.filter_nil]
  · intro h
    refine Option.eq_none_iff_forall_ne_some.mpr ?_
    intro n hn
    exact h n (take_fst hn) (exists_take hn).1

/-- A group without members stays as it is. -/
theorem take_of_nil (h : g.members = []) : g.take live = (none, g) := by
  have hempty : ¬ 0 < g.members.length := by
    rw [h]
    exact Nat.not_lt_zero 0
  rw [Group.take, dif_neg hempty]

/-- Who is there stays a member. -/
theorem mem_take (h : live n = true) : n ∈ (g.take live).2.members ↔ n ∈ g.members := by
  have hfilter := congrArg (n ∈ ·) (filter_take live g)
  simp only [List.mem_filter, h, and_true, eq_iff_iff] at hfilter
  exact hfilter

/-! ## The line -/

/-- The members in the order of their turns. -/
def line (g : Group) : List Nat := g.members.rotate g.next

/-- Is it the first in the line of those who are there that takes a message? -/
def InTurn (live : Nat → Bool) (g : Group) : Prop := (g.take live).1 = g.line.find? live

/-- The line begins at the place of the next turn, goes to the end, and then on from the beginning.
    -/
theorem line_eq (hplace : g.next ≤ g.members.length) :
    g.line = g.members.drop g.next ++ g.members.take g.next :=
  List.rotate_eq_drop_append_take hplace

theorem nodup_line (hdistinct : g.members.Nodup) : g.line.Nodup := List.nodup_rotate.mpr hdistinct

/-- Whoever is a member stands in line. -/
theorem mem_line : n ∈ g.line ↔ n ∈ g.members := List.mem_rotate

/-- If nobody is there, nobody is first in the line. -/
theorem inTurn_of_take_eq_none (h : (g.take live).1 = none) : InTurn live g := by
  rw [InTurn, h, eq_comm, List.find?_eq_none]
  exact fun k hk => take_eq_none_iff.mp h k (mem_line.mp hk)

/-- Those in the line who are there, in turn and in the order of the list. -/
theorem filter_line (live : Nat → Bool) (g : Group) :
    g.line.filter live ~r g.members.filter live := by
  have hsplit : g.members.filter live
      = (g.members.take (g.next % g.members.length)).filter live
        ++ (g.members.drop (g.next % g.members.length)).filter live := by
    rw [← List.filter_append, List.take_append_drop]
  rw [line, List.rotate_eq_drop_append_take_mod, List.filter_append, hsplit]
  exact List.isRotated_append

/-- A line that begins with one member is the only rotation that does. -/
theorem eq_of_isRotated_cons {xs ys : List Nat} (hdistinct : (n :: xs).Nodup)
    (h : (n :: xs) ~r (n :: ys)) : xs = ys := by
  obtain ⟨k, hk, heq⟩ := List.isRotated_iff_mod.mp h
  cases k with
  | zero =>
    rw [List.rotate_zero] at heq
    exact (List.cons.inj heq).2
  | succ k =>
    rw [List.rotate_eq_drop_append_take hk, List.drop_succ_cons, List.take_succ_cons] at heq
    cases hdrop : xs.drop k with
    | nil =>
      rw [hdrop] at heq
      rw [← (List.cons.inj heq).2, List.take_of_length_le (List.drop_eq_nil_iff.mp hdrop)]
    | cons j later =>
      rw [hdrop] at heq
      obtain rfl := (List.cons.inj heq).1
      exact absurd (List.mem_of_mem_drop (hdrop ▸ List.mem_cons_self))
        (List.nodup_cons.mp hdistinct).1

/-- After a message the line ends with who took it. -/
theorem line_served (before behind : List Nat) (n : Nat) :
    line ⟨before ++ n :: behind, before.length + 1⟩ = (behind ++ before) ++ [n] := by
  have hsplit : before ++ n :: behind = (before ++ [n]) ++ behind := by
    rw [List.append_assoc, List.singleton_append]
  have hlength : before.length + 1 = (before ++ [n]).length := by
    rw [List.length_append, List.length_singleton]
  show (before ++ n :: behind).rotate (before.length + 1) = _
  rw [hsplit, hlength, List.rotate_append_length_eq, List.append_assoc]

/-- In turn, those who are there move up by one, and who took the message goes to their end. -/
theorem line_take (hdistinct : g.members.Nodup) (h : (g.take live).1 = some n) {rest : List Nat}
    (hline : g.line.filter live = n :: rest) :
    (g.take live).2.line.filter live = rest ++ [n] := by
  obtain ⟨hlive, before, behind, htake⟩ := exists_take h
  have hend : (g.take live).2.line.filter live = (behind ++ before).filter live ++ [n] := by
    rw [htake, line_served, List.filter_append, List.filter_singleton, hlive]
    rfl
  -- both lines are rotations of one list, and so is this one that begins with `n`
  have hbefore := filter_line live g
  have hafter := filter_line live (g.take live).2
  rw [filter_take, hend] at hafter
  rw [hline] at hbefore
  have hrotated : (n :: rest) ~r (n :: (behind ++ before).filter live) :=
    hbefore.trans (hafter.symm.trans List.isRotated_append)
  have hnodup : (n :: rest).Nodup := hline ▸ (nodup_line hdistinct).filter live
  rw [hend, eq_of_isRotated_cons hnodup hrotated]

/-! ## Out of turn -/

/-- The member at the place of the turn gets the message if he is there, and the turn moves on
    behind him. -/
theorem take_at {i : Nat} (hi : i < g.members.length) (hturn : g.next % g.members.length = i) :
    g.take live = if live g.members[i] then (some g.members[i], { g with next := i + 1 })
      else Group.take live { g with members := g.members.eraseIdx i } := by
  subst hturn
  rw [Group.take, dif_pos (Nat.zero_lt_of_lt hi)]

/-- Who stands at the place and is there takes the message. -/
theorem take_here (hlive : live n = true) (before behind : List Nat) :
    Group.take live ⟨before ++ n :: behind, before.length⟩
      = (some n, ⟨before ++ n :: behind, before.length + 1⟩) := by
  have hlt : before.length < (before ++ n :: behind).length := by simp
  rw [take_at hlt (Nat.mod_eq_of_lt hlt)]
  dsimp only
  rw [List.getElem_append_right (le_refl _)]
  simp only [Nat.sub_self, List.getElem_cons_zero, hlive, if_true]

/-- Those from the place on who went away are struck off. -/
theorem take_gone {gone : List Nat} (hgone : ∀ k ∈ gone, ¬ live k = true)
    (before behind : List Nat) : Group.take live ⟨before ++ (gone ++ behind), before.length⟩
      = Group.take live ⟨before ++ behind, before.length⟩ := by
  induction gone with
  | nil => rfl
  | cons k gone ih =>
    obtain ⟨hk, hrest⟩ := List.forall_mem_cons.mp hgone
    have hlt : before.length < (before ++ (k :: gone ++ behind)).length := by simp
    have hfound : (before ++ (k :: gone ++ behind))[before.length] = k := by
      rw [List.getElem_append_right (le_refl _)]
      simp only [Nat.sub_self, List.cons_append, List.getElem_cons_zero]
    have hstruck : (before ++ (k :: gone ++ behind)).eraseIdx before.length
        = before ++ (gone ++ behind) := by
      rw [List.eraseIdx_append_of_length_le (le_refl _), Nat.sub_self, List.cons_append,
        List.eraseIdx_cons_zero]
    rw [take_at hlt (Nat.mod_eq_of_lt hlt)]
    dsimp only
    rw [hfound, hstruck, if_neg hk, ih hrest]

/-- The list up to the place and from the place on. -/
theorem eq_split (hplace : g.next ≤ g.members.length) :
    g = ⟨g.members.take g.next ++ g.members.drop g.next, (g.members.take g.next).length⟩ := by
  rw [List.take_append_drop, List.length_take_of_le hplace]

/-- If somebody from the place on is there, the first of them takes the message, and those up to the
    place stay. -/
theorem take_of_behind (hplace : g.next ≤ g.members.length)
    (h : (g.members.drop g.next).find? live = some n) :
    ∃ behind, g.take live
      = (some n, ⟨g.members.take g.next ++ n :: behind, (g.members.take g.next).length + 1⟩) := by
  obtain ⟨hlive, gone, behind, hsplit, hgone⟩ := List.find?_eq_some_iff_append.mp h
  have hgone' : ∀ k ∈ gone, ¬ live k = true := fun k hk => by simpa using hgone k hk
  refine ⟨behind, ?_⟩
  rw [eq_split hplace, hsplit, take_gone hgone', take_here hlive]
  simp

/-- If nobody from the place on is there, the list is begun again. -/
theorem take_of_none_behind (hplace : g.next ≤ g.members.length)
    (h : (g.members.drop g.next).find? live = none) :
    g.take live
      = Group.take live ⟨g.members.take g.next, (g.members.take g.next).length⟩ := by
  have hgone := List.find?_eq_none.mp h
  have hsame := take_gone hgone (g.members.take g.next) []
  rw [List.append_nil, List.append_nil] at hsame
  rw [← hsame, ← eq_split hplace]

/-- As long as somebody from the place on is there, the first in the line takes the message. -/
theorem inTurn_of_behind (hplace : g.next ≤ g.members.length)
    (h : (g.members.drop g.next).find? live = some n) : InTurn live g := by
  obtain ⟨behind, htake⟩ := take_of_behind hplace h
  rw [InTurn, htake, line_eq hplace, List.find?_append, h]
  rfl

/-- If nobody is, he does if he is the first of the list. -/
theorem inTurn_of_head (hplace : g.next ≤ g.members.length) (hhead : g.members.head? = some n)
    (hlive : live n = true) : InTurn live g := by
  cases hbehind : (g.members.drop g.next).find? live with
  | some k => exact inTurn_of_behind hplace hbehind
  | none =>
    rw [InTurn, take_of_none_behind hplace hbehind, line_eq hplace, List.find?_append, hbehind,
      Option.none_or]
    obtain ⟨rest, hmembers⟩ := List.head?_eq_some_iff.mp hhead
    cases hnext : g.next with
    | zero =>
      rw [hnext, List.drop_zero, hmembers] at hbehind
      exact absurd hlive (List.find?_eq_none.mp hbehind n List.mem_cons_self)
    | succ k =>
      rw [hmembers, List.take_succ_cons, List.find?_cons_of_pos hlive,
        take_at (Nat.succ_pos _) (Nat.mod_self _)]
      simp only [List.getElem_cons_zero, hlive, if_true]

/-! ## Who was passed over -/

/-- Who stands before the one that took the message stood before the old place, in that order. -/
theorem exists_before (hplace : g.next ≤ g.members.length) (h : (g.take live).1 = some n) :
    ∃ before behind, (g.take live).2 = ⟨before ++ n :: behind, before.length + 1⟩ ∧
      before.Sublist (g.members.take g.next) := by
  cases hbehind : (g.members.drop g.next).find? live with
  | some k =>
    obtain ⟨behind, htake⟩ := take_of_behind hplace hbehind
    rw [htake] at h ⊢
    obtain rfl := Option.some.inj h
    exact ⟨_, behind, rfl, List.Sublist.refl _⟩
  | none =>
    have hagain := take_of_none_behind hplace hbehind
    obtain ⟨-, before, behind, htake⟩ := exists_take h
    refine ⟨before, behind, htake, ?_⟩
    have hsub := take_sublist live ⟨g.members.take g.next, (g.members.take g.next).length⟩
    rw [← hagain, htake] at hsub
    exact (List.sublist_append_left before _).trans hsub

/-- Out of turn, somebody who is there was passed over, and stood before the one that took the
    message. -/
theorem passed_over (hplace : g.next ≤ g.members.length) (h : (g.take live).1 = some n)
    (hout : ¬ InTurn live g) :
    ∃ k, live k = true ∧ [k, n].Sublist (g.members.take g.next) := by
  cases hbehind : (g.members.drop g.next).find? live with
  | some k => exact absurd (inTurn_of_behind hplace hbehind) hout
  | none =>
    have hlive := (exists_take h).1
    have hmem : n ∈ g.members.take g.next := by
      have hn := take_fst h
      rw [← List.take_append_drop g.next g.members, List.mem_append] at hn
      exact hn.resolve_right fun hn => List.find?_eq_none.mp hbehind n hn hlive
    rw [InTurn, h, line_eq hplace, List.find?_append, hbehind, Option.none_or] at hout
    obtain ⟨k, hk⟩ := Option.isSome_iff_exists.mp (List.find?_isSome.mpr ⟨n, hmem, hlive⟩)
    obtain ⟨hlivek, gone, rest, hsplit, hgone⟩ := List.find?_eq_some_iff_append.mp hk
    refine ⟨k, hlivek, ?_⟩
    rw [hsplit] at hmem ⊢
    rcases List.mem_append.mp hmem with hn | hn
    · exact absurd hlive (by simpa using hgone n hn)
    · rcases List.mem_cons.mp hn with rfl | hn
      · exact absurd hk.symm hout
      · exact ((List.singleton_sublist.mpr hn).cons_cons k).trans (List.sublist_append_right _ _)

/-! ## Who comes before whom -/

/-- Of two in the line who are there, the one before stays before the other, unless he takes the
    message himself. -/
theorem precedes_take (hdistinct : g.members.Nodup) (hturn : InTurn live g) {y x : Nat}
    (hy : live y = true) (hx : live x = true) (hline : [y, x].Sublist g.line)
    (h : (g.take live).1 = some n) (hn : n ≠ y) :
    [y, x].Sublist (g.take live).2.line ∧ n ≠ x := by
  have hthere : [y, x].Sublist (g.line.filter live) := by
    have hfilter := hline.filter live
    rwa [List.filter_cons_of_pos hy, List.filter_cons_of_pos hx, List.filter_nil] at hfilter
  have hfirst : (g.line.filter live).head? = some n := by
    rw [List.head?_filter, ← hturn, h]
  obtain ⟨rest, hrest⟩ := List.head?_eq_some_iff.mp hfirst
  have hnodup : (n :: rest).Nodup := hrest ▸ (nodup_line hdistinct).filter live
  rw [hrest, List.sublist_cons_iff] at hthere
  have hbehind : [y, x].Sublist rest := by
    rcases hthere with hsub | ⟨r, heq, -⟩
    · exact hsub
    · exact absurd (List.cons.inj heq).1.symm hn
  refine ⟨?_, ?_⟩
  · refine (hbehind.trans (List.sublist_append_left rest [n])).trans ?_
    rw [← line_take hdistinct h hrest]
    exact List.filter_sublist
  · rintro rfl
    exact (List.nodup_cons.mp hnodup).1 (hbehind.subset (by simp))

/-- A new member changes nothing between the others. -/
theorem precedes_join (hplace : g.next ≤ g.members.length) {y x : Nat}
    (hline : [y, x].Sublist g.line) (k : Nat) :
    [y, x].Sublist (line { g with members := g.members ++ [k] }) := by
  have hplace' : g.next ≤ (g.members ++ [k]).length :=
    hplace.trans (List.sublist_append_left g.members [k]).length_le
  rw [line_eq hplace] at hline
  rw [line_eq hplace', List.drop_append_of_le_length hplace, List.take_append_of_le_length hplace]
  exact hline.trans ((List.sublist_append_left _ [k]).append_right _)

end Subledger.Group
