import NodeFlow.Memory.Path
import NodeFlow.Run.Act
import NodeFlow.Run.Listener
/-!
# The shared context

The one thing that the nodes of a run have in common: an object in memory, plain or as a store. A
store has a name, may demand types of some keys, and tells observers of every write to a key at the
top. A plain context has none of this; otherwise the two behave alike.

The awkward thing up front: a write at a dotted path changes the objects below first and writes the
key at the top last. Only that last write is checked and observed, so observers who ask for the old
value see it as it has become, and a rejected write has already changed what lies below.
-/

set_option autoImplicit false

namespace NodeFlow

/-! ## 1. Types that a schema demands -/

/-- A type that a schema can name. -/
inductive TypeName
  | str | int | float | bool | list | dict | null
  deriving DecidableEq

namespace TypeName

/-- The type of a name. -/
def ofName? : String → Option TypeName
  | "str" => some .str
  | "int" => some .int
  | "float" => some .float
  | "bool" => some .bool
  | "list" => some .list
  | "dict" => some .dict
  | "null" => some .null
  | _ => none

/-- How a message shows a type. -/
def notate : TypeName → String
  | .str => "<class 'str'>"
  | .int => "<class 'int'>"
  | .float => "<class 'float'>"
  | .bool => "<class 'bool'>"
  | .list => "<class 'list'>"
  | .dict => "<class 'dict'>"
  | .null => "<class 'NoneType'>"

/-- Is a value of a type? A boolean is a whole number too. -/
def admits : TypeName → Value → Bool
  | .str, .str _ => true
  | .int, .int _ => true
  | .int, .bool _ => true
  | .float, .float _ => true
  | .bool, .bool _ => true
  | .list, .list _ _ => true
  | .dict, .dict _ _ => true
  | .null, .null => true
  | _, _ => false

end TypeName

/-- What a schema demands of a key: one type, or one of several. -/
inductive Demand
  | one (t : TypeName)
  | among (ts : List TypeName)

namespace Demand

/-- How a message shows a demand. -/
def notate : Demand → String
  | .one t => t.notate
  | .among [t] => "(" ++ t.notate ++ ",)"
  | .among ts => "(" ++ joinWith ", " (ts.map TypeName.notate) ++ ")"

/-- Does a value meet a demand? -/
def admits : Demand → Value → Bool
  | .one t, v => t.admits v
  | .among ts, v => ts.any (·.admits v)

end Demand

/-! ## 2. Stores -/

/-- A write as an observer is told of it. -/
structure Write where
  tag : String
  key : String
  old : Value
  new : Value

/-- What a store has beside its content. -/
structure StoreInfo where
  name : String
  schema : Members Demand
  observers : List Listener

/-- The shared context of a run: an object in memory, perhaps as a store. -/
structure Shared where
  data : Addr
  store : Option StoreInfo

/-- Memory, and the writes that observers have been told of, oldest first. -/
structure Ledger where
  heap : Heap
  writes : List Write

namespace Shared

/-- The context as a datum. -/
def datum (s : Shared) : Datum :=
  match s.store with
  | some info => .store s.data info.name
  | none => .ref s.data

/-- The context as a value. -/
def view (s : Shared) (h : Heap) : Value := h.view s.datum

/-- The content of the context as an object. -/
def content (s : Shared) (h : Heap) : Value := h.view (.ref s.data)

/-- What the context holds under a key. -/
def get? (s : Shared) (h : Heap) (key : String) : Option Datum :=
  Members.get? (h.membersAt s.data) key

/-- Why a value may not be written under a key, if it may not. -/
def refusal? (s : Shared) (key : String) (v : Value) : Option Failure :=
  match s.store with
  | none => none
  | some info =>
    match Members.get? info.schema key with
    | none => none
    | some demand =>
      if demand.admits v then none
      else some (.wrongType info.name key demand.notate v.typeName)

/-- What the observers are told of a write, when it has been made. -/
def reports (s : Shared) (h : Heap) (key : String) (old new : Datum) : List Write :=
  match s.store with
  | none => []
  | some info => Listener.told (fun o => ⟨o.tag, key, h.view old, h.view new⟩) info.observers

/-- Writes a key at the top. -/
def set (s : Shared) (key : String) (d : Datum) : Act Ledger Unit := fun l =>
  match s.refusal? key (l.heap.view d) with
  | some e => (.error e, l)
  | none =>
    let old := (s.get? l.heap key).getD .null
    let heap := l.heap.putMember s.data key d
    (.ok (), ⟨heap, l.writes ++ s.reports heap key old d⟩)

/-- Takes a key away. No observer is told of it. -/
def delete (s : Shared) (key : String) : Act Ledger Unit := fun l =>
  match s.get? l.heap key with
  | none => (.error (.fault .key), l)
  | some _ =>
    let cell := Cell.dict (Members.erase key (l.heap.membersAt s.data))
    (.ok (), { l with heap := l.heap.write s.data cell })

/-- What a key holds. -/
def getItem (s : Shared) (key : String) : Act Ledger Datum := fun l =>
  match s.get? l.heap key with
  | none => (.error (.fault .key), l)
  | some d => (.ok d, l)

/-- Writes a key unless it is there, and answers what it holds. -/
def setDefault (s : Shared) (key : String) (d : Datum) : Act Ledger Datum := do
  if (s.get? (← Act.get).heap key).isNone then s.set key d
  s.getItem key

/-- Writes several keys in order, up to the first that is refused. -/
def update (s : Shared) : Members Datum → Act Ledger Unit
  | [] => pure ()
  | (k, d) :: rest => do
    s.set k d
    s.update rest

/-- Writes at a dotted path: below first, the key at the top last. -/
def setPath (s : Shared) (path : String) (d : Datum) : Act Ledger Unit :=
  match Path.segments path with
  | [] => pure ()
  | [key] => s.set key d
  | key :: first :: rest => fun l =>
    let r := l.heap.objectUnder s.data key
    s.set key (.ref r.1) { l with heap := r.2.writeBelow r.1 first rest d }

/-- What stands at the end of a dotted path. -/
def getPath? (s : Shared) (h : Heap) (path : String) : Option Value :=
  (s.content h).atPath? path

/-- Adds an observer behind the others. -/
def observe (s : Shared) (l : Listener) : Shared :=
  { s with store := s.store.map fun info => { info with observers := info.observers ++ [l] } }

/-- Takes an observer away. -/
def unobserve (s : Shared) (number : Nat) : Shared :=
  { s with store := s.store.map fun info => { info with observers := Listener.without number info.observers } }

/-- The keys of the schema that the context lacks. -/
def missingKeys (info : StoreInfo) (ms : Members Datum) : List String :=
  (info.schema.map (·.1)).filter fun k => !Members.has ms k

/-- Fails if a key of the schema is missing. -/
def validate (s : Shared) : Act Ledger Unit := fun l =>
  match s.store with
  | none => (.ok (), l)
  | some info =>
    match missingKeys info (l.heap.membersAt s.data) with
    | [] => (.ok (), l)
    | keys => (.error (.missingKeys info.name keys), l)

end Shared

end NodeFlow
