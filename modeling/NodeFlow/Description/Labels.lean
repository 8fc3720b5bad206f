import NodeFlow.Description.Kind
import NodeFlow.Value.Compare
/-!
# The labels that a node can give

What a declared node may answer when it has run, read off its declaration alone: the default label,
the label it names as its next one, the labels of a router's cases, and the exit of its loop guard.
Only non-empty texts are labels; anything else in these places is passed over here.
-/

set_option autoImplicit false

namespace NodeFlow.Description

/-- Names in the order of their code points, each once. -/
def sortedNames (names : List String) : List String :=
  names.eraseDups.mergeSort fun s t => s ≤ t

/-- The label that a node names as its next one. -/
def nextLabels (node : Value) : List String :=
  (((node.field "post").field "next").name?).toList

/-- The labels of a list of cases. -/
def caseLabels (cases : Value) : List String :=
  cases.items.filterMap fun c => (c.field "label").name?

/-- The exit of a loop guard. -/
def guardLabels (node : Value) : List String :=
  match node.field "loop_guard" with
  | .dict _ ms => ((Value.ofMembers ms).field "exit" |>.orElse (.str loopExitLabel)).name?.toList
  | _ => []

/-- Is a kind among some names? A container is not even a possible name. -/
def kindAmong (names : List String) : Value → Except Fault Bool
  | .str k => .ok (names.contains k)
  | .list _ _ | .dict _ _ => .error .type
  | _ => .ok false

/-- The labels of a declaration, whose cases count if it declares a router. -/
def labelsGiven (isRouter : Bool) (node : Value) : List String :=
  defaultLabel :: nextLabels node ++
    (if isRouter then caseLabels ((node.field "exec").field "cases") else []) ++ guardLabels node

/-- The labels that a declared node can give. -/
def producibleLabels (routers : List String) (node : Value) : Except Fault (List String) :=
  if !node.isDict then .error .attribute
  else
    match kindAmong routers (node.field "kind") with
    | .error f => .error f
    | .ok isRouter => .ok (labelsGiven isRouter node)

/-- The labels that a declared node can give if the router kinds are a list of any values, among which
its kind is looked for by equality. -/
def producibleLabelsAmong (routers : List Value) (node : Value) : Except Fault (List String) :=
  if !node.isDict then .error .attribute
  else .ok (labelsGiven (routers.any (Value.equalHeld (node.field "kind"))) node)

end NodeFlow.Description
