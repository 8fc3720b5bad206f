/-!
# Ordered members

The members of an object as a list of keys with what they hold, in the order in which the keys were
first put. A key that is put again keeps its place. The same operations serve objects of values and
the cells of a run's memory, so they are stated for any content.
-/

set_option autoImplicit false

universe u

namespace NodeFlow

/-- Keys with what they hold, oldest first. -/
abbrev Members (α : Type u) := List (String × α)

namespace Members

variable {α : Type u}

/-- What a key holds. -/
def get? (ms : Members α) (key : String) : Option α :=
  ms.lookup key

/-- Is there such a key? -/
def has (ms : Members α) (key : String) : Bool :=
  ms.any fun m => m.1 = key

/-- Puts a key: in its place if it is there, at the end otherwise. -/
def put (key : String) (a : α) : Members α → Members α
  | [] => [(key, a)]
  | m :: rest => if m.1 = key then (key, a) :: rest else m :: put key a rest

/-- Takes a key away. -/
def erase (key : String) : Members α → Members α
  | [] => []
  | m :: rest => if m.1 = key then rest else m :: erase key rest

/-- The keys in order. -/
def keys (ms : Members α) : List String :=
  ms.map (·.1)

/-- Puts one list of members after another into the first. -/
def putAll (ms more : Members α) : Members α :=
  more.foldl (fun acc m => put m.1 m.2 acc) ms

/-- The members that a list of pairs amounts to: a repeated key keeps its first place and its last
content. -/
def ofPairs (pairs : List (String × α)) : Members α :=
  putAll [] pairs

end Members

end NodeFlow
