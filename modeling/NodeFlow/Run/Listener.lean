import NodeFlow.Run.Act
/-!
# Listeners

Whoever asks to be told of writes, records or the steps of a flow. A listener is told and has no say:
if it fails, that is its own affair, and neither the others nor the work itself notice. Listeners are
numbered as they are made, so that one of several under the same tag can be removed again.
-/

set_option autoImplicit false

namespace NodeFlow

/-- Someone who is told of something. -/
structure Listener where
  number : Nat
  tag : String
  /-- does it fail whenever it is told of something? -/
  fails : Bool

namespace Listener

/-- The listeners without those of a number. -/
def without (number : Nat) (ls : List Listener) : List Listener :=
  ls.filter fun l => l.number != number

/-- What a listener that fails complains of. -/
def complaint (l : Listener) : Failure := .reported .runtime (l.tag ++ " failed")

variable {ε : Type}

/-- How it goes to tell a listener of something, after so much has been told. -/
def hear (l : Listener) (fails : List ε → Listener → Bool) (told : List ε) : Except Failure Unit :=
  if fails told l then .error l.complaint else .ok ()

/-- Tells listeners one after another. One that fails has been told, its failure is dropped, and the
next one is told. Who fails may depend on what has been told before. -/
def tellEach (fails : List ε → Listener → Bool) (entry : Listener → ε) : List Listener → Act (List ε) Unit
  | [], told => (.ok (), told)
  | l :: ls, told =>
    match l.hear fails told with
    | .ok () => tellEach fails entry ls (told ++ [entry l])
    | .error _ => tellEach fails entry ls (told ++ [entry l])

/-- What listeners have been told of in the end. -/
def told (entry : Listener → ε) (ls : List Listener) : List ε :=
  (tellEach (fun _ l => l.fails) entry ls []).2

end Listener

end NodeFlow
