import NodeFlow.Description.Labels
import NodeFlow.Description.Problem
import NodeFlow.Text.Digit
import NodeFlow.Value.Compare
/-!
# Checking a description

Every problem of a description, in the order in which a reader meets them: the fields at the top, the
nodes in turn, the entry, the edges in turn. A description without problems can be compiled.

Two defects end the search at once, because nothing further can be read: a description that is no
object, and one without its required fields. One defect is a fault and not a problem: an edge that
leaves a node whose kind is a container, since such a kind cannot be looked up.
-/

set_option autoImplicit false

namespace NodeFlow.Description

/-! ## 1. Small tests -/

/-- A problem unless a condition holds. -/
def demand (ok : Bool) (p : Problem) : List Problem := if ok then [] else [p]

/-- Is a value absent or a non-empty text? -/
def absentOrName (v : Value) : Bool := v.isNull || v.name?.isSome

/-- Is a value absent or an object? -/
def absentOrDict (v : Value) : Bool := v.isNull || v.isDict

/-- A text that a version may be: `pf-js/`, digits, a point, digits, and perhaps one line end. -/
def isVersion (s : String) : Bool :=
  match s.toList with
  | 'p' :: 'f' :: '-' :: 'j' :: 's' :: '/' :: rest =>
    match rest.span Text.isDigit with
    | (_ :: _, '.' :: more) =>
      match more.span Text.isDigit with
      | (_ :: _, []) => true
      | (_ :: _, ['\n']) => true
      | _ => false
    | _ => false
  | _ => false

/-- The fields that a description must have. -/
def requiredFields : List String := ["version", "entry", "nodes", "edges"]

/-- Is a required field there? An empty list is, any other value that counts as false is not. -/
def isPresent (v : Value) : Bool := v.truthy || v.isList

/-! ## 2. Nodes -/

/-- Is a value a whole number of at least one? -/
def isPositive : Value → Bool
  | .int n => 1 ≤ n
  | _ => false

/-- Is a value a number that is not below zero? -/
def isWait : Value → Bool
  | .int n => 0 ≤ n
  | .float x => x.orderInt? 0 != some .lt
  | _ => false

/-- Is a value one of the two ways in which waits may grow? -/
def isBackoff : Value → Bool
  | .str s => s = "fixed" || s = "exponential"
  | _ => false

/-- What an object holds under a key, another value if it has no such key. -/
def fieldOr (v : Value) (key : String) (other : Value) : Value :=
  (Members.get? v.members key).getD other

/-- The problems of a node's retries. -/
def retryProblems (id : String) (retry : Value) : List Problem :=
  match retry with
  | .null => []
  | .dict _ _ =>
    let most := fieldOr retry "max" (.int 1)
    let wait := fieldOr retry "wait" (.int 0)
    let backoff := fieldOr retry "backoff" (.str "fixed")
    demand (isPositive most) (.retryMax id most) ++
      demand (isWait wait) (.retryWait id wait) ++
      demand (isBackoff backoff) (.retryBackoff id backoff)
  | _ => [.retryNotObject id]

/-- The problems of a node's loop guard. -/
def guardProblems (id : String) (guard : Value) : List Problem :=
  match guard with
  | .null => []
  | _ =>
    demand (isPositive (guard.field "max_iterations")) (.guardLimit id) ++
      demand (absentOrName (guard.field "exit")) (.guardExit id)

/-- The elements of a list that fail a test, by their places. -/
def failing (ok : Value → Bool) (p : Nat → Problem) : Nat → List Value → List Problem
  | _, [] => []
  | i, x :: xs => demand (ok x) (p i) ++ failing ok p (i + 1) xs

/-- Is a value an object with a non-empty text under a key? -/
def hasName (key : String) (v : Value) : Bool := (v.field key).name?.isSome

/-- The problems of what a node reads before it runs. -/
def prepProblems (id : String) (prep : Value) : List Problem :=
  let inputs := prep.field "inputs"
  demand (absentOrName (prep.field "path")) (.inputPath id) ++
    demand (inputs.isNull || (inputs.isList && inputs.items.all (hasName "path"))) (.inputList id)

/-- The problems of what a node saves. -/
def outputProblems (id : String) (outputs : Value) : List Problem :=
  match outputs with
  | .null => []
  | .dict _ _ =>
    let saves := outputs.field "save"
    demand (saves.isNull || saves.isList) (.savesNotList id) ++
      failing (hasName "path") (.savePath id) 0 saves.items
  | _ => [.outputsNotObject id]

/-- The problems of what a node does after it has run. -/
def postProblems (id : String) (post : Value) : List Problem :=
  let next := post.field "next"
  demand (absentOrName next) (.nextLabel id next) ++ outputProblems id (post.field "outputs")

/-- The problems of a router's cases. -/
def caseProblems (id : String) (cases : Value) : List Problem :=
  demand (cases.isNull || cases.isList) (.casesNotList id) ++
    failing (hasName "label") (.caseLabel id) 0 cases.items

/-- The problems of the sections of a node. -/
def shapeProblems (id : String) (node : Value) (isRouter : Bool) : List Problem :=
  (["prep", "exec", "post"].flatMap fun part =>
      demand (absentOrDict (node.field part)) (.sectionNotObject id part)) ++
    prepProblems id (node.field "prep") ++ postProblems id (node.field "post") ++
    (if isRouter then caseProblems id ((node.field "exec").field "cases") else [])

/-- Is a value one of some names? -/
def isAmong (names : List String) : Value → Bool
  | .str s => names.contains s
  | _ => false

/-- The problems of a node with an id of its own. -/
def nodeProblems (kinds routers : List String) (id : String) (node : Value) : List Problem :=
  let kind := node.field "kind"
  demand (isAmong kinds kind) (.unknownKind kind id (sortedNames kinds)) ++
    retryProblems id (node.field "retry") ++ guardProblems id (node.field "loop_guard") ++
    shapeProblems id node (isAmong routers kind)

/-- The declared nodes of a list from a place on, with the problems on the way. A node counts as
declared under its id the first time the id occurs. -/
def checkNodes (kinds routers : List String) :
    Nat → Members Value → List Value → Members Value × List Problem
  | _, declared, [] => (declared, [])
  | i, declared, node :: rest =>
    let go (declared : Members Value) (found : List Problem) :=
      let r := checkNodes kinds routers (i + 1) declared rest
      (r.1, found ++ r.2)
    if !node.isDict then go declared [.nodeNotObject i]
    else
      match (node.field "id").name? with
      | none => go declared [.nodeWithoutId i]
      | some id =>
        if Members.has declared id then go declared [.duplicateNode id]
        else go (declared ++ [(id, node)]) (nodeProblems kinds routers id node)

/-! ## 3. Entry and edges -/

/-- The problems of the entry. -/
def entryProblems (declared : Members Value) (anyNodes : Bool) : Value → List Problem
  | .str e => if anyNodes && !Members.has declared e then [.entryUnknown e] else []
  | v => [.entryNotText v]

/-- The routes that edges have taken so far: source and label, with the target. -/
abbrev Routes := List ((String × String) × String)

/-- The problems of an edge between two named nodes, and the routes with it. -/
def routeProblems (routers : List String) (declared : Members Value) (routes : Routes)
    (source target label : String) : Except Fault (Routes × List Problem) :=
  match Members.get? declared source with
  | none =>
    .ok (routes, .edgeUnknownNode source ::
      demand (Members.has declared target) (.edgeUnknownNode target))
  | some node =>
    let unknown := demand (Members.has declared target) (.edgeUnknownNode target)
    let taken := routes.lookup (source, label)
    let double := match taken with
      | some other => [Problem.duplicateEdge source label other]
      | none => []
    let routes := if taken.isSome then routes else routes ++ [((source, label), target)]
    match producibleLabels routers node with
    | .error f => .error f
    | .ok valid =>
      .ok (routes, unknown ++ double ++
        demand (valid.contains label) (.badRoute source target label (sortedNames valid)))

/-- The problems of the edges of a list from a place on. -/
def edgeProblems (routers : List String) (declared : Members Value) :
    Nat → Routes → List Value → Except Fault (List Problem)
  | _, _, [] => .ok []
  | i, routes, edge :: rest =>
    let go (routes : Routes) (found : List Problem) :=
      (edgeProblems routers declared (i + 1) routes rest).map (found ++ ·)
    if !edge.isDict then go routes [.edgeNotObject i]
    else
      match ["from", "to"].filter fun f => !Members.has edge.members f with
      | f :: fs => go routes [.edgeMissing i (f :: fs)]
      | [] =>
        match edge.field "from", edge.field "to",
            (edge.field "label").orElse (.str defaultLabel) with
        | .str source, .str target, .str label =>
          match routeProblems routers declared routes source target label with
          | .error f => .error f
          | .ok (routes, found) => go routes found
        | source, target, label =>
          let mistyped := [("from", source), ("to", target), ("label", label)].filterMap fun p =>
            match p.2 with
            | .str _ => none
            | _ => some p.1
          go routes [.edgeMistyped i mistyped]

/-! ## 4. The whole -/

/-- The problems of a description that has its required fields. -/
def fieldProblems (kinds routers : List String) (d : Value) : Except Fault (List Problem) :=
  let version := d.field "version"
  let nodes := d.field "nodes"
  let edges := d.field "edges"
  let versionOk := match version with
    | .str s => isVersion s
    | _ => false
  let checked := checkNodes kinds routers 0 [] nodes.items
  match edgeProblems routers checked.1 0 [] edges.items with
  | .error f => .error f
  | .ok found =>
    .ok (demand versionOk (.badVersion version) ++
      demand (!nodes.items.isEmpty) .noNodes ++
      demand edges.isList .noEdges ++
      demand (absentOrDict (d.field "globals")) .globalsNotObject ++
      checked.2 ++
      entryProblems checked.1 (!nodes.items.isEmpty) (d.field "entry") ++
      found)

/-- Every problem of a description, given the names of kinds and of router kinds. -/
def problems (kinds routers : List String) (d : Value) : Except Fault (List Problem) :=
  if !d.isDict then .ok [.notObject]
  else
    match requiredFields.filter fun f => !isPresent (d.field f) with
    | f :: fs => .ok [.missingFields (f :: fs)]
    | [] => fieldProblems kinds routers d

end NodeFlow.Description
