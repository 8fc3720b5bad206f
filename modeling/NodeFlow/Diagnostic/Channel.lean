import NodeFlow.Diagnostic.Basic
import NodeFlow.Run.Listener
import NodeFlow.Value.Combine
/-!
# The diagnostics channel

A channel keeps the newest records, all of them or up to a limit, and hands every record to its
subscribers in the order in which they subscribed. A subscriber that fails does not keep the record
from the others.
-/

set_option autoImplicit false

namespace NodeFlow

/-- A record as a subscriber is handed it. -/
structure Delivery where
  tag : String
  record : Diagnostic

/-- A channel: how many records it keeps, the records, oldest first, and its subscribers. -/
structure Channel where
  limit : Option Nat
  records : List Diagnostic
  subscribers : List Listener

namespace Channel

/-- A channel with so many records at most. -/
def ofLimit (limit : Option Nat) : Channel := ⟨limit, [], []⟩

/-- A channel with a limit that has yet to be checked: null is no limit. A limit is a number of places
that a list can have, so a number far beyond either end is too large before it is negative. -/
def make : Value → Except Fault Channel
  | .null => .ok (ofLimit none)
  | .int n =>
    if n < -(Value.placesEnd : Int) || (Value.placesEnd : Int) ≤ n then .error .overflow
    else if n < 0 then .error .value
    else .ok (ofLimit (some n.toNat))
  | .bool b => .ok (ofLimit (some (if b then 1 else 0)))
  | _ => .error .type

/-- The limit of a channel that is made without one being named. -/
def standardLimit : Nat := 1000

/-- The last elements of a list, up to a limit. -/
def newest {α : Type} (limit : Option Nat) (xs : List α) : List α :=
  match limit with
  | none => xs
  | some n => xs.drop (xs.length - n)

/-- Takes a record in, and hands it to the subscribers. -/
def emit (c : Channel) (d : Diagnostic) : Channel × List Delivery :=
  ({ c with records := newest c.limit (c.records ++ [d]) },
    Listener.told (fun s => ⟨s.tag, d⟩) c.subscribers)

/-- Adds a subscriber. -/
def subscribe (c : Channel) (s : Listener) : Channel :=
  { c with subscribers := c.subscribers ++ [s] }

/-- Removes every subscription of a number. -/
def unsubscribe (c : Channel) (number : Nat) : Channel :=
  { c with subscribers := Listener.without number c.subscribers }

/-- The records of a code. -/
def byCode (c : Channel) (code : String) : List Diagnostic :=
  c.records.filter fun d => d.code = code

/-- Forgets all records. -/
def clear (c : Channel) : Channel := { c with records := [] }

/-- How a message shows a channel. -/
def notate (c : Channel) : String :=
  "Diagnostics(records=" ++ toString c.records.length ++ ")"

end Channel

end NodeFlow
