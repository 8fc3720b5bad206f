/-!
# Node kinds

The kinds of nodes that a description may declare, the names they are declared under, and the words
that descriptions and graphs have in common: the label that is followed when a node gives none, the
label that matches any other, and the label of a loop guard that keeps its node from running.
-/

set_option autoImplicit false

namespace NodeFlow

/-- The label of a node that gives none. -/
def defaultLabel : String := "default"

/-- The label under which a node leads on for any label that has no edge of its own. -/
def wildcardLabel : String := "*"

/-- The label of a node whose loop guard keeps it from running, unless the guard names one. -/
def loopExitLabel : String := "loop_exit"

/-- The built-in kinds of nodes. -/
inductive Kind
  | llmCall | httpCall | router | staticData | batch | cooperative | cooperativeParallel
  deriving DecidableEq

namespace Kind

/-- The full name of a kind. -/
def name : Kind → String
  | .llmCall => "llm-call"
  | .httpCall => "http-call"
  | .router => "router"
  | .staticData => "static-data"
  | .batch => "batch"
  | .cooperative => "cooperative"
  | .cooperativeParallel => "cooperative-parallel"

/-- The names that descriptions may use, five of them short ones. -/
def named : List (String × Kind) := [
  ("llm-call", .llmCall), ("http-call", .httpCall), ("router", .router),
  ("static-data", .staticData), ("batch", .batch), ("cooperative", .cooperative),
  ("cooperative-parallel", .cooperativeParallel),
  ("llm", .llmCall), ("http", .httpCall), ("data", .staticData), ("async", .cooperative),
  ("parallel", .cooperativeParallel)]

/-- The kind of a name. -/
def ofName? (n : String) : Option Kind := named.lookup n

/-- All names of kinds. -/
def names : List String := named.map (·.1)

/-- The names of kinds whose cases are labels that the node can give. -/
def routerNames : List String := ["router"]

end Kind

end NodeFlow
