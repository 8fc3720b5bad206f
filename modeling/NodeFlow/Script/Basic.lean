import NodeFlow.Failure
/-!
# Scripts

What a node does in its stages, written down as data: where it takes what it works on, how its work
fails and what it results in, what stands in for a failed result, and what it leaves in the shared
context. Every stage that runs is put on the journal, so a script shows what an engine does with a
node.

A value that a script names is made anew each time a stage gives it: what happens to one of its copies
later does not change the script.

A stage that a script leaves out is the one that a node has by nature: nothing is prepared, nothing
results, a failure stays one, and the visit ends without a label (a flow ends with the label of its
walk).
-/

set_option autoImplicit false

namespace NodeFlow

namespace Script

/-- What a node prepares. -/
inductive Source
  /-- nothing: preparing fails -/
  | failing (e : Failure)
  /-- what stands at a dotted path of the shared context -/
  | path (path : String)
  /-- a copy of the parameters -/
  | params
  /-- one of the parameters -/
  | param (key : String)
  | value (v : Value)

/-- What work results in. -/
inductive Outcome
  | value (v : Value)
  /-- the input and something added to it -/
  | plus (n : Value)
  /-- the input multiplied -/
  | times (n : Value)
  /-- an object with the input under a key -/
  | under (key : String)
  /-- one of the parameters -/
  | param (key : String)
  | input

/-- How often cooperative work gives up control. -/
inductive Turns
  /-- so often, if it is a whole number -/
  | fixed (n : Value)
  /-- as often as its input says -/
  | input

/-- How work goes. -/
structure Work where
  /-- up to this call all fail -/
  failFirst : Value
  /-- inputs that fail, and how often each does -/
  failOn : List (Value × Int)
  /-- the failure, if the work fails otherwise than in the standard way -/
  failure : Option Failure
  turns : Turns
  outcome : Outcome

/-- What stands in for the result of work that has failed for good. -/
inductive Fallback
  | value (v : Value)
  /-- a text and the wording of the failure behind it -/
  | wording (start : String)

/-- The label that a visit ends with. -/
inductive Label
  | value (v : Value)
  /-- one after another, and the last from then on; without any, ending fails -/
  | series (labels : List Value)
  /-- the result of the work -/
  | result

/-- How a visit ends: it may fail; else the result may be saved under a key and appended to the list
under another, the parameters appended likewise, and a count raised. -/
structure Ending where
  failure : Option Failure
  save : Option String
  append : Option String
  appendParams : Option String
  count : Option String
  label : Label

end Script

/-- What a node does in its stages. -/
structure Script where
  prep : Option Script.Source
  exec : Option Script.Work
  fallback : Option Script.Fallback
  post : Option Script.Ending

end NodeFlow
