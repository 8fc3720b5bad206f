import NodeFlow.Description.Check
import Mathlib.Data.List.TakeDrop
import Mathlib.Data.List.TakeWhile
import Mathlib.Tactic.MkIffOfInductiveProp
/-!
# Well-formed descriptions

What a description has to be, said without the checker: which fields there are, what each of them
holds, and how nodes, entry and edges refer to each other. The checker walks lists with a table of what
it has seen so far; here the same demands are about all nodes and all pairs of edges at once.

The awkward thing up front is absence. A key that is missing reads as null, and for most fields the two
are the same; the three settings of `retry` are the exception, where a missing key stands for a default
and a null is a defect. So those three are stated over what `Members.get?` finds, all others over
`Value.field`.

Each check of a part of a node finds no problem exactly if the part has its shape. The parts are
independent of each other, so there is one equivalence for each of them and the node's own is put
together from these.
-/

set_option autoImplicit false

namespace NodeFlow.Description

/-! ## 1. Shapes of single values -/

/-- An object. -/
def IsObject (v : Value) : Prop := ∃ cell ms, v = .dict cell ms

/-- A non-empty text. -/
def IsName (v : Value) : Prop := ∃ s, v = .str s ∧ s ≠ ""

/-- Null, as a missing key reads, or something of a shape. -/
def Optionally (shape : Value → Prop) (v : Value) : Prop := v = .null ∨ shape v

/-- A list whose elements all have a shape. -/
def IsListOf (shape : Value → Prop) (v : Value) : Prop :=
  ∃ cell xs, v = .list cell xs ∧ ∀ x ∈ xs, shape x

/-- An object with a non-empty text under a key. -/
def IsNamedBy (key : String) (v : Value) : Prop := IsObject v ∧ IsName (v.field key)

/-- A non-empty row of digits. -/
def AreDigits (cs : List Char) : Prop := cs ≠ [] ∧ ∀ c ∈ cs, Text.isDigit c = true

/-- The text of a version: `pf-js/`, a number, a point, a number. One line end may follow. -/
def IsVersion (s : String) : Prop :=
  ∃ major minor lineEnd, AreDigits major ∧ AreDigits minor ∧ (lineEnd = [] ∨ lineEnd = ['\n']) ∧
    s.toList = ['p', 'f', '-', 'j', 's', '/'] ++ major ++ ['.'] ++ minor ++ lineEnd

/-! ## 2. Nodes -/

/-- The retries of a node: each setting is missing or in its range. -/
structure IsRetry (v : Value) : Prop where
  isObject : IsObject v
  max : ∀ x, Members.get? v.members "max" = some x → ∃ n : Int, x = .int n ∧ 1 ≤ n
  wait : ∀ x, Members.get? v.members "wait" = some x →
    x.isNumber = true ∧ Value.ordered .lt x (.int 0) = .ok false
  backoff : ∀ x, Members.get? v.members "backoff" = some x →
    x = .str "fixed" ∨ x = .str "exponential"

/-- The loop guard of a node: a limit of at least one, and perhaps a label. -/
@[mk_iff] structure IsGuard (v : Value) : Prop where
  isObject : IsObject v
  limit : ∃ n : Int, v.field "max_iterations" = .int n ∧ 1 ≤ n
  exit : Optionally IsName (v.field "exit")

/-- What a node reads before it runs. -/
@[mk_iff] structure IsPrep (v : Value) : Prop where
  isObject : IsObject v
  path : Optionally IsName (v.field "path")
  inputs : Optionally (IsListOf (IsNamedBy "path")) (v.field "inputs")

/-- What a node saves: each entry names a path. -/
@[mk_iff] structure IsOutputs (v : Value) : Prop where
  isObject : IsObject v
  save : Optionally (IsListOf (IsNamedBy "path")) (v.field "save")

/-- What a node does after it has run. -/
@[mk_iff] structure IsPost (v : Value) : Prop where
  isObject : IsObject v
  next : Optionally IsName (v.field "next")
  outputs : Optionally IsOutputs (v.field "outputs")

/-- Is the node declared with one of some kinds? -/
def KindIn (names : List String) (node : Value) : Prop := ∃ k ∈ names, node.field "kind" = .str k

/-- A node by itself, given the registered kinds and the router kinds among them. -/
@[mk_iff] structure IsNode (kinds routers : List String) (v : Value) : Prop where
  isObject : IsObject v
  id : IsName (v.field "id")
  kind : KindIn kinds v
  retry : Optionally IsRetry (v.field "retry")
  guard : Optionally IsGuard (v.field "loop_guard")
  prep : Optionally IsPrep (v.field "prep")
  exec : Optionally IsObject (v.field "exec")
  post : Optionally IsPost (v.field "post")
  cases : KindIn routers v →
    Optionally (IsListOf (IsNamedBy "label")) ((v.field "exec").field "cases")

/-- The labels that a declared node can give: the default, the one it names as its next, those of a
router's cases, and the exit of its loop guard. -/
inductive Produces (routers : List String) (node : Value) : String → Prop
  | default : Produces routers node defaultLabel
  | next {l : String} : (node.field "post").field "next" = .str l → l ≠ "" → Produces routers node l
  | case {l : String} {case : Value} : KindIn routers node →
    case ∈ ((node.field "exec").field "cases").items → case.field "label" = .str l → l ≠ "" →
    Produces routers node l
  | exit {l : String} : IsObject (node.field "loop_guard") →
    ((node.field "loop_guard").field "exit").orElse (.str loopExitLabel) = .str l → l ≠ "" →
    Produces routers node l

/-! ## 3. Edges -/

/-- An edge leads from a source to a target under a label; what counts as false as a label stands for
the default one. -/
@[mk_iff] structure Leads (edge : Value) (source label target : String) : Prop where
  isObject : IsObject edge
  source : edge.field "from" = .str source
  target : edge.field "to" = .str target
  label : (edge.field "label").orElse (.str defaultLabel) = .str label

/-- The declared nodes of a description, and its edges. -/
def nodesOf (d : Value) : List Value := (d.field "nodes").items

/-- The edges of a description. -/
def edgesOf (d : Value) : List Value := (d.field "edges").items

/-- A node of a description is declared under an id. -/
def Declares (d : Value) (id : String) (node : Value) : Prop :=
  node ∈ nodesOf d ∧ node.field "id" = .str id

/-- An edge of a description: both ends are declared, and its source can give its label. -/
def IsEdge (routers : List String) (d edge : Value) : Prop :=
  ∃ source label target node, Leads edge source label target ∧ Declares d source node ∧
    Produces routers node label ∧ ∃ other, Declares d target other

/-- Two edges leave one node under one label. -/
def Compete (e f : Value) : Prop :=
  ∃ source label target other, Leads e source label target ∧ Leads f source label other

/-! ## 4. The whole -/

/-- A well-formed description. -/
structure WellFormed (kinds routers : List String) (d : Value) : Prop where
  isObject : IsObject d
  present : ∀ f ∈ ["version", "entry", "nodes", "edges"],
    (d.field f).truthy = true ∨ ∃ cell, d.field f = .list cell []
  version : ∃ s, d.field "version" = .str s ∧ IsVersion s
  nodes : IsListOf (IsNode kinds routers) (d.field "nodes")
  someNode : nodesOf d ≠ []
  distinct : (nodesOf d).Pairwise fun n m => n.field "id" ≠ m.field "id"
  globals : Optionally IsObject (d.field "globals")
  entry : ∃ e node, d.field "entry" = .str e ∧ Declares d e node
  edges : IsListOf (IsEdge routers d) (d.field "edges")
  unambiguous : (edgesOf d).Pairwise fun e f => ¬ Compete e f

theorem WellFormed.isNode {kinds routers : List String} {d : Value} (h : WellFormed kinds routers d) :
    ∀ n ∈ nodesOf d, IsNode kinds routers n := by
  obtain ⟨cell, xs, hlist, hxs⟩ := h.nodes
  rw [nodesOf, hlist]
  exact hxs

theorem WellFormed.isEdge {kinds routers : List String} {d : Value} (h : WellFormed kinds routers d) :
    ∀ e ∈ edgesOf d, IsEdge routers d e := by
  obtain ⟨cell, xs, hlist, hxs⟩ := h.edges
  rw [edgesOf, hlist]
  exact hxs

/-! ## 5. Small tests -/

@[simp] theorem demand_eq_nil (ok : Bool) (p : Problem) : demand ok p = [] ↔ ok = true := by
  cases ok <;> simp [demand]

theorem isDict_iff (v : Value) : v.isDict = true ↔ IsObject v := by
  cases v <;> simp [Value.isDict, IsObject]

theorem isNull_iff (v : Value) : v.isNull = true ↔ v = .null := by
  cases v <;> simp [Value.isNull]

theorem isList_iff (v : Value) : v.isList = true ↔ ∃ cell xs, v = .list cell xs := by
  cases v <;> simp [Value.isList]

theorem ordered_lt_int (m n : Int) : Value.ordered .lt (.int m) (.int n) = .ok (decide (m < n)) := by
  by_cases h : m < n
  · simp [Value.ordered, Value.orderAtoms, Value.magnitude?, Number.order?, Comparison.holds,
      Int.compare_eq_lt.2 h, h]
  · simp only [Value.ordered, Value.orderAtoms, Value.magnitude?, Number.order?, Option.any_some,
      Comparison.holds, h, decide_false]
    rw [decide_eq_false]
    exact fun hc => h (Int.compare_eq_lt.1 hc)

theorem name?_eq_some_iff (v : Value) (s : String) : v.name? = some s ↔ v = .str s ∧ s ≠ "" := by
  cases v with
  | str t =>
    -- the empty text is the one text that is no name
    by_cases ht : t = ""
    · simp only [Value.name?, ht, if_true, reduceCtorEq, Value.str.injEq, false_iff]
      rintro ⟨hs, hne⟩
      exact hne hs.symm
    · simp only [Value.name?, ht, if_false, Option.some.injEq, Value.str.injEq]
      constructor
      · rintro rfl
        exact ⟨rfl, ht⟩
      · intro h
        exact h.1
  | _ => simp [Value.name?]

theorem name?_isSome_iff (v : Value) : v.name?.isSome = true ↔ IsName v := by
  rw [Option.isSome_iff_exists]
  exact exists_congr fun s => name?_eq_some_iff v s

theorem absentOrName_iff (v : Value) : absentOrName v = true ↔ Optionally IsName v := by
  rw [absentOrName, Bool.or_eq_true, isNull_iff, name?_isSome_iff, Optionally]

theorem absentOrDict_iff (v : Value) : absentOrDict v = true ↔ Optionally IsObject v := by
  rw [absentOrDict, Bool.or_eq_true, isNull_iff, isDict_iff, Optionally]

/-- Only objects hold anything under a key. -/
theorem isObject_of_field_ne_null {v : Value} {key : String} (h : v.field key ≠ .null) :
    IsObject v := by
  cases v with
  | dict cell ms => exact ⟨cell, ms, rfl⟩
  | _ => exact absurd rfl h

theorem IsName.ne_null {v : Value} (h : IsName v) : v ≠ .null := by
  obtain ⟨s, rfl, -⟩ := h
  intro h
  cases h

theorem hasName_iff (key : String) (v : Value) : hasName key v = true ↔ IsNamedBy key v := by
  rw [hasName, name?_isSome_iff]
  constructor
  · intro h
    exact ⟨isObject_of_field_ne_null h.ne_null, h⟩
  · intro h
    exact h.2

@[simp] theorem failing_eq_nil (ok : Value → Bool) (p : Nat → Problem) (i : Nat) (xs : List Value) :
    failing ok p i xs = [] ↔ ∀ x ∈ xs, ok x = true := by
  induction xs generalizing i with
  | nil => simp [failing]
  | cons x xs ih =>
    rw [failing, List.append_eq_nil_iff, demand_eq_nil, ih, List.forall_mem_cons]

/-- An optional list of named objects, as the checker asks for one: a problem if there is something
else than a list, and one for each element without a name. -/
theorem optionally_listOf_iff (key : String) (v : Value) :
    ((v.isNull || v.isList) = true ∧ ∀ x ∈ v.items, hasName key x = true) ↔
      Optionally (IsListOf (IsNamedBy key)) v := by
  simp only [hasName_iff, Bool.or_eq_true, isNull_iff, isList_iff, Optionally, IsListOf]
  constructor
  · rintro ⟨rfl | ⟨cell, xs, rfl⟩, h⟩
    · exact Or.inl rfl
    · exact Or.inr ⟨cell, xs, rfl, h⟩
  · rintro (rfl | ⟨cell, xs, rfl, h⟩)
    · exact ⟨Or.inl rfl, fun x hx => absurd hx List.not_mem_nil⟩
    · exact ⟨Or.inr ⟨cell, xs, rfl⟩, h⟩

/-! ## 6. Versions -/

theorem span_isDigit {ds rest : List Char} (hds : ∀ c ∈ ds, Text.isDigit c = true)
    (hrest : ∀ c cs, rest = c :: cs → Text.isDigit c = false) :
    (ds ++ rest).span Text.isDigit = (ds, rest) := by
  rw [List.span_eq_takeWhile_dropWhile, List.takeWhile_append_of_pos hds,
    List.dropWhile_append_of_pos hds]
  -- the span stops at once in the rest
  cases rest with
  | nil => simp
  | cons c cs =>
    have hc := hrest c cs rfl
    rw [List.takeWhile_cons_of_neg (by simp [hc]), List.dropWhile_cons_of_neg (by simp [hc]),
      List.append_nil]

/-- The two parts of a `span` by a digit test. -/
theorem span_isDigit_eq {cs ds rest : List Char} (h : cs.span Text.isDigit = (ds, rest)) :
    cs = ds ++ rest ∧ ∀ c ∈ ds, Text.isDigit c = true := by
  rw [List.span_eq_takeWhile_dropWhile, Prod.mk.injEq] at h
  obtain ⟨rfl, rfl⟩ := h
  exact ⟨List.takeWhile_append_dropWhile.symm, fun c hc => List.mem_takeWhile_imp hc⟩

/-- After `pf-js/` a version is read in two spans of digits with a point between them. -/
theorem isVersion_of_spans {s : String} {rest more : List Char} {c d : Char}
    {cs ds lineEnd : List Char} (hs : s.toList = 'p' :: 'f' :: '-' :: 'j' :: 's' :: '/' :: rest)
    (hmajor : rest.span Text.isDigit = (c :: cs, '.' :: more))
    (hminor : more.span Text.isDigit = (d :: ds, lineEnd))
    (hend : lineEnd = [] ∨ lineEnd = ['\n']) : IsVersion s := by
  obtain ⟨hrest, hcs⟩ := span_isDigit_eq hmajor
  obtain ⟨hmore, hds⟩ := span_isDigit_eq hminor
  refine ⟨c :: cs, d :: ds, lineEnd, ⟨List.cons_ne_nil _ _, hcs⟩, ⟨List.cons_ne_nil _ _, hds⟩,
    hend, ?_⟩
  rw [hs, hrest, hmore]
  simp

theorem isVersion_iff (s : String) : isVersion s = true ↔ IsVersion s := by
  constructor
  · intro h
    unfold isVersion at h
    -- each of the nested tests has to be passed: the prefix, the major part, the minor part
    split at h
    · next rest hs =>
      split at h
      · next c cs more hmajor =>
        split at h
        · next d ds hminor => exact isVersion_of_spans hs hmajor hminor (Or.inl rfl)
        · next d ds hminor => exact isVersion_of_spans hs hmajor hminor (Or.inr rfl)
        · cases h
      · cases h
    · cases h
  · rintro ⟨major, minor, lineEnd, ⟨hmajor, hcs⟩, ⟨hminor, hds⟩, hend, hs⟩
    obtain ⟨c, cs, rfl⟩ := List.exists_cons_of_ne_nil hmajor
    obtain ⟨d, ds, rfl⟩ := List.exists_cons_of_ne_nil hminor
    -- neither the point nor the end of the line is a digit, so the spans are the two parts
    have hpoint : (c :: cs ++ '.' :: (d :: ds ++ lineEnd)).span Text.isDigit
        = (c :: cs, '.' :: (d :: ds ++ lineEnd)) := by
      refine span_isDigit hcs ?_
      intro x xs hx
      rw [List.cons.injEq] at hx
      rw [← hx.1]
      decide
    have htail : (d :: ds ++ lineEnd).span Text.isDigit = (d :: ds, lineEnd) := by
      refine span_isDigit hds ?_
      intro x xs hx
      rcases hend with rfl | rfl
      · cases hx
      · rw [List.cons.injEq] at hx
        rw [← hx.1]
        decide
    have hlist : s.toList = 'p' :: 'f' :: '-' :: 'j' :: 's' :: '/' ::
        (c :: cs ++ '.' :: (d :: ds ++ lineEnd)) := by
      rw [hs]
      simp
    unfold isVersion
    rw [hlist]
    simp only [hpoint, htail]
    rcases hend with rfl | rfl <;> rfl

/-! ## 7. Settings

`retry` is the one section whose settings have defaults: a test of `fieldOr` with a good default is a
test of the key only where it is there. -/

theorem isPositive_iff (v : Value) : isPositive v = true ↔ ∃ n : Int, v = .int n ∧ 1 ≤ n := by
  cases v <;> simp [isPositive]

theorem isWait_iff (v : Value) :
    isWait v = true ↔ v.isNumber = true ∧ Value.ordered .lt v (.int 0) = .ok false := by
  cases v with
  | int n =>
    simp only [isWait, Value.isNumber, Value.ordered, Value.orderAtoms, Value.magnitude?,
      Number.order?, Option.any_some, Comparison.holds, true_and, decide_eq_true_eq,
      Except.ok.injEq, decide_eq_false_iff_not]
    -- the checker asks for no negative integer, the shape for one that is not below zero
    rw [Int.compare_eq_lt]
    omega
  | float x =>
    simp only [isWait, Value.isNumber, Value.ordered, Value.orderAtoms, Value.magnitude?,
      Number.order?, true_and, Except.ok.injEq]
    -- a not-a-number has no order, and so is not below zero either
    cases x.orderInt? 0 with
    | none => simp
    | some o => cases o <;> simp [Comparison.holds]
  | _ => simp [isWait, Value.isNumber]

theorem isBackoff_iff (v : Value) :
    isBackoff v = true ↔ v = .str "fixed" ∨ v = .str "exponential" := by
  cases v <;> simp [isBackoff]

/-- A test that the default passes is a test of the key where it is there. -/
theorem fieldOr_iff (ok : Value → Bool) (v : Value) (key : String) {other : Value}
    (h : ok other = true) :
    ok (fieldOr v key other) = true ↔ ∀ x, Members.get? v.members key = some x → ok x = true := by
  rw [fieldOr]
  cases Members.get? v.members key with
  | none => simp [h]
  | some x => simp

theorem retryProblems_eq_nil (id : String) (v : Value) :
    retryProblems id v = [] ↔ Optionally IsRetry v := by
  cases v with
  | dict cell ms =>
    simp only [retryProblems, List.append_eq_nil_iff, demand_eq_nil]
    rw [fieldOr_iff isPositive _ _ rfl, fieldOr_iff isWait _ _ (by decide),
      fieldOr_iff isBackoff _ _ (by decide)]
    simp only [isPositive_iff, isWait_iff, isBackoff_iff]
    constructor
    · rintro ⟨⟨hmax, hwait⟩, hbackoff⟩
      exact Or.inr ⟨⟨cell, ms, rfl⟩, hmax, hwait, hbackoff⟩
    · rintro (h | h)
      · cases h
      · exact ⟨⟨h.max, h.wait⟩, h.backoff⟩
  | null => exact ⟨fun _ => Or.inl rfl, fun _ => rfl⟩
  -- anything else than an object is a problem by itself
  | _ =>
    refine ⟨fun h => absurd h (List.cons_ne_nil _ _), ?_⟩
    rintro (h | ⟨⟨cell, ms, h⟩, -, -, -⟩) <;> cases h

theorem guardProblems_eq_nil (id : String) (v : Value) :
    guardProblems id v = [] ↔ Optionally IsGuard v := by
  have hshape : (isPositive (v.field "max_iterations") = true ∧
      absentOrName (v.field "exit") = true) ↔ IsGuard v := by
    rw [isPositive_iff, absentOrName_iff]
    constructor
    -- that the guard is an object follows from its limit being there
    · rintro ⟨⟨n, hn, hpos⟩, hexit⟩
      refine ⟨@isObject_of_field_ne_null _ "max_iterations" ?_, ⟨n, hn, hpos⟩, hexit⟩
      rw [hn]
      intro h
      cases h
    · intro h
      exact ⟨h.limit, h.exit⟩
  by_cases hv : v = .null
  · subst hv
    exact ⟨fun _ => Or.inl rfl, fun _ => rfl⟩
  · rw [guardProblems, List.append_eq_nil_iff, demand_eq_nil, demand_eq_nil, hshape, Optionally]
    · exact ⟨Or.inr, fun h => h.resolve_left hv⟩
    · exact hv

/-! ## 8. What a node reads and writes -/

/-- A section that is neither null nor an object holds nothing, so its own fields cannot be at fault. -/
theorem optionally_of_fields {shape : Value → Prop} {v : Value} (h : Optionally IsObject v)
    (hs : IsObject v → shape v) : Optionally shape v :=
  h.imp id hs

theorem prepProblems_eq_nil (id : String) (v : Value) :
    (absentOrDict v = true ∧ prepProblems id v = []) ↔ Optionally IsPrep v := by
  have hinputs : ∀ w : Value, (w.isNull || (w.isList && w.items.all (hasName "path"))) = true ↔
      Optionally (IsListOf (IsNamedBy "path")) w := by
    intro w
    rw [← optionally_listOf_iff]
    cases w <;> simp [Value.isNull, Value.isList, Value.items]
  rw [absentOrDict_iff, prepProblems, List.append_eq_nil_iff, demand_eq_nil, demand_eq_nil,
    absentOrName_iff, hinputs]
  constructor
  · rintro ⟨h, hpath, hin⟩
    exact optionally_of_fields h fun ho => ⟨ho, hpath, hin⟩
  · rintro (rfl | h)
    · exact ⟨Or.inl rfl, Or.inl rfl, Or.inl rfl⟩
    · exact ⟨Or.inr h.isObject, h.path, h.inputs⟩

theorem outputProblems_eq_nil (id : String) (v : Value) :
    outputProblems id v = [] ↔ Optionally IsOutputs v := by
  cases v with
  | dict cell ms =>
    simp only [outputProblems, List.append_eq_nil_iff, demand_eq_nil, failing_eq_nil]
    rw [optionally_listOf_iff]
    constructor
    · intro h
      exact Or.inr ⟨⟨cell, ms, rfl⟩, h⟩
    · rintro (h | h)
      · cases h
      · exact h.save
  | null => exact ⟨fun _ => Or.inl rfl, fun _ => rfl⟩
  | _ =>
    refine ⟨fun h => absurd h (List.cons_ne_nil _ _), ?_⟩
    rintro (h | ⟨⟨cell, ms, h⟩, -⟩) <;> cases h

theorem postProblems_eq_nil (id : String) (v : Value) :
    (absentOrDict v = true ∧ postProblems id v = []) ↔ Optionally IsPost v := by
  rw [absentOrDict_iff, postProblems, List.append_eq_nil_iff, demand_eq_nil, absentOrName_iff,
    outputProblems_eq_nil]
  constructor
  · rintro ⟨h, hnext, hout⟩
    exact optionally_of_fields h fun ho => ⟨ho, hnext, hout⟩
  · rintro (rfl | h)
    · exact ⟨Or.inl rfl, Or.inl rfl, Or.inl rfl⟩
    · exact ⟨Or.inr h.isObject, h.next, h.outputs⟩

theorem caseProblems_eq_nil (id : String) (v : Value) :
    caseProblems id v = [] ↔ Optionally (IsListOf (IsNamedBy "label")) v := by
  rw [caseProblems, List.append_eq_nil_iff, demand_eq_nil, failing_eq_nil, optionally_listOf_iff]

/-! ## 9. A node -/

theorem isAmong_iff (names : List String) (node : Value) :
    isAmong names (node.field "kind") = true ↔ KindIn names node := by
  rw [KindIn]
  cases node.field "kind" <;> simp [isAmong]

theorem shapeProblems_eq_nil (id : String) (node : Value) (isRouter : Bool) :
    shapeProblems id node isRouter = [] ↔
      Optionally IsPrep (node.field "prep") ∧ Optionally IsObject (node.field "exec") ∧
      Optionally IsPost (node.field "post") ∧
      (isRouter = true →
        Optionally (IsListOf (IsNamedBy "label")) ((node.field "exec").field "cases")) := by
  rw [← prepProblems_eq_nil id, ← postProblems_eq_nil id, ← absentOrDict_iff,
    ← caseProblems_eq_nil id, shapeProblems]
  cases isRouter <;>
    simp only [List.flatMap_cons, List.flatMap_nil, List.append_nil, List.append_eq_nil_iff,
      demand_eq_nil, Bool.false_eq_true, if_false, if_true, false_implies, true_implies, and_true]
  -- what is asked of the fields comes first, what is asked within them after
  · constructor
    · rintro ⟨⟨⟨hp, he, hq⟩, hpp⟩, hqq⟩
      exact ⟨⟨hp, hpp⟩, he, hq, hqq⟩
    · rintro ⟨⟨hp, hpp⟩, he, hq, hqq⟩
      exact ⟨⟨⟨hp, he, hq⟩, hpp⟩, hqq⟩
  · constructor
    · rintro ⟨⟨⟨⟨hp, he, hq⟩, hpp⟩, hqq⟩, hc⟩
      exact ⟨⟨hp, hpp⟩, he, ⟨hq, hqq⟩, hc⟩
    · rintro ⟨⟨hp, hpp⟩, he, ⟨hq, hqq⟩, hc⟩
      exact ⟨⟨⟨⟨hp, he, hq⟩, hpp⟩, hqq⟩, hc⟩

/-- A node with an id of its own has no problems exactly if it is well-formed by itself. -/
theorem nodeProblems_eq_nil {kinds routers : List String} {id : String} {node : Value}
    (hid : (node.field "id").name? = some id) :
    nodeProblems kinds routers id node = [] ↔ IsNode kinds routers node := by
  have hname : IsName (node.field "id") := ⟨id, (name?_eq_some_iff _ _).1 hid⟩
  simp only [nodeProblems, List.append_eq_nil_iff, demand_eq_nil]
  rw [isAmong_iff, retryProblems_eq_nil, guardProblems_eq_nil, shapeProblems_eq_nil, isAmong_iff]
  constructor
  · rintro ⟨⟨⟨hkind, hretry⟩, hguard⟩, hprep, hexec, hpost, hcases⟩
    exact ⟨isObject_of_field_ne_null hname.ne_null, hname, hkind, hretry, hguard, hprep, hexec,
      hpost, hcases⟩
  · intro h
    exact ⟨⟨⟨h.kind, h.retry⟩, h.guard⟩, h.prep, h.exec, h.post, h.cases⟩

end NodeFlow.Description
