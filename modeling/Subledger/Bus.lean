/-
  THE BUS: messages by topic, to groups of consumers.

  Each group that subscribed to a topic gets each message of it once, and the members of a group
  take turns.  A member that went away is noticed when its turn comes; the message goes to the next
  one.  Messages wait in the queue of the member they were given to; nothing is kept for those who
  come later.
-/
import Subledger.Table

namespace Subledger

/-- A published message. -/
structure Message where
  topic : String
  key : String
  payload : List UInt8
  deriving DecidableEq, Repr

/-- Why the bus does not serve. -/
inductive BusError where
  /-- The broker does not answer. -/
  | unreachable
  | closed
  deriving DecidableEq, Repr

/-- The wording of an error. -/
def BusError.message : BusError → String
  | .unreachable => "broker unreachable"
  | .closed => "bus closed"

/-- A group of one topic. -/
structure GroupName where
  topic : String
  group : String
  deriving DecidableEq, Repr

namespace GroupName

instance : Ord GroupName := ⟨compareLex (compareOn topic) (compareOn group)⟩

instance : Std.TransOrd GroupName :=
  inferInstanceAs (Std.TransCmp (compareLex (compareOn topic) (compareOn group)))

instance : Std.LawfulEqOrd GroupName where
  eq_of_compare {a b} h := by
    have h' := compareLex_eq_eq.1 h
    cases a
    cases b
    simp only [GroupName.mk.injEq]
    exact ⟨Std.LawfulEqCmp.eq_of_compare h'.1, Std.LawfulEqCmp.eq_of_compare h'.2⟩

end GroupName

/-- The members of a group by the numbers of their subscriptions, and whose turn is next. -/
structure Group where
  members : List Nat
  next : Nat
  deriving DecidableEq, Repr

/-- A subscription: is its holder still there, and what waits for it. -/
structure Subscription where
  live : Bool
  queue : List Message
  deriving DecidableEq, Repr

/-- Groups and subscriptions; a subscription's number is its place in the list. -/
structure Bus where
  groups : Table GroupName Group
  subscriptions : List Subscription
  closed : Bool
  deriving DecidableEq

/-- What a member finds in its queue. -/
inductive Received where
  | message (m : Message)
  /-- Nothing waits, but something may come. -/
  | nothing
  /-- Nothing waits and nothing will come. -/
  | disconnected
  deriving DecidableEq, Repr

namespace Group

/-- The member whose turn it is; those who went away are struck off on the way. -/
def take (live : Nat → Bool) (g : Group) : Option Nat × Group :=
  if h : 0 < g.members.length then
    let i := g.next % g.members.length
    have hi : i < g.members.length := Nat.mod_lt _ h
    if live g.members[i] then (some g.members[i], { g with next := i + 1 })
    else take live { g with members := g.members.eraseIdx i }
  else (none, g)
termination_by g.members.length
decreasing_by
  simp only [List.length_eraseIdx]
  split <;> omega

end Group

namespace Bus

/-- A bus without subscriptions. -/
def empty : Bus := ⟨.empty, [], false⟩

/-- Is the holder of a subscription still there? -/
def isLive (b : Bus) (n : Nat) : Bool :=
  match b.subscriptions[n]? with
  | some s => s.live
  | none => false

/-- Puts a message at the end of a subscription's queue. -/
def enqueue (b : Bus) (n : Nat) (m : Message) : Bus :=
  { b with subscriptions := b.subscriptions.modify n fun s => { s with queue := s.queue ++ [m] } }

/-- Gives a message to one group, and counts it if somebody took it. -/
def deliver (m : Message) (state : Nat × Bus) (name : GroupName) : Nat × Bus :=
  match state.2.groups.find? name with
  | none => state
  | some g =>
    match g.take state.2.isLive with
    | (some n, g) =>
      (state.1 + 1, { state.2 with groups := state.2.groups.insert name g }.enqueue n m)
    | (none, g) => (state.1, { state.2 with groups := state.2.groups.insert name g })

/-- Publishes a message; the answer is how many groups took it.  A broker that cannot be reached is
    noticed before a bus that is closed. -/
def publish (b : Bus) (reachable : Bool) (m : Message) : Except BusError (Nat × Bus) :=
  if !reachable then .error .unreachable
  else if b.closed then .error .closed
  else .ok ((b.groups.keys.filter fun name => name.topic == m.topic).foldl (deliver m) (0, b))

/-- Subscribes to a topic as a member of a group; the answer is the subscription's number.  The
    broker is not asked. -/
def subscribe (b : Bus) (name : GroupName) : Except BusError (Nat × Bus) :=
  if b.closed then .error .closed
  else
    let n := b.subscriptions.length
    let g := (b.groups.find? name).getD ⟨[], 0⟩
    .ok (n, { b with
      groups := b.groups.insert name { g with members := g.members ++ [n] }
      subscriptions := b.subscriptions ++ [⟨true, []⟩] })

/-- Takes the first message that waits for a subscription; `none` if its holder went away. -/
def receive (b : Bus) (n : Nat) : Option (Received × Bus) :=
  match b.subscriptions[n]? with
  | none => none
  | some s =>
    if !s.live then none
    else
      match s.queue with
      | m :: rest => some (.message m,
          { b with subscriptions := b.subscriptions.set n { s with queue := rest } })
      | [] => some (if b.closed then .disconnected else .nothing, b)

/-- The holder of a subscription goes away. -/
def drop (b : Bus) (n : Nat) : Bus :=
  { b with subscriptions := b.subscriptions.modify n fun _ => ⟨false, []⟩ }

/-- Closes the bus; what waits can still be taken. -/
def close (b : Bus) : Bus := { b with closed := true }

end Bus
end Subledger
