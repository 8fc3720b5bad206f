import NodeFlow.Proofs.Value.Renaming
/-!
# Marks and reports

The problems of a description are worded alike whether its containers carry marks or not. So a compiler,
which checks the description that memory holds, reports what the checker reports of the one that it was
given.

Some problems hold the value that they complain about, marks and all, so the problems found without
marks are those found with them, their marks removed. Each part of the checker is compared by itself, in
the order in which the checker is built up.
-/

set_option autoImplicit false

namespace NodeFlow

/-! ## 1. Values and problems without marks -/

namespace Value

@[simp] theorem notate_fresh (v : Value) : v.fresh.notate = v.notate := by
  induction v using Value.induction with
  | plain v hp => rw [fresh_of_isPlain hp]
  | list cell xs ih =>
    have hall : xs.map (fun x => x.fresh.notate) = xs.map notate := List.map_congr_left ih
    rw [fresh_list, notate, notate, notateItems_eq, notateItems_eq, List.map_map]
    exact congrArg (fun parts => "[" ++ joinWith ", " parts ++ "]") hall
  | dict cell ms ih =>
    have hall : ms.map (fun m => Text.quoted m.1 ++ ": " ++ m.2.fresh.notate) =
        ms.map fun m => Text.quoted m.1 ++ ": " ++ m.2.notate :=
      List.map_congr_left fun m hm => by rw [ih m hm]
    rw [fresh_dict, notate, notate, notateMembers_eq, notateMembers_eq, List.map_map]
    exact congrArg (fun parts => "\x7b" ++ joinWith ", " parts ++ "\x7d") hall
  | store cell name ms ih => rfl

@[simp] theorem isNull_fresh (v : Value) : v.fresh.isNull = v.isNull := by
  cases v <;> simp [isNull, fresh]

@[simp] theorem isList_fresh (v : Value) : v.fresh.isList = v.isList := by
  cases v <;> simp [isList, fresh]

end Value

/-- A problem without the marks of the value that it complains about. -/
def Problem.fresh : Problem → Problem
  | .badVersion v => .badVersion v.fresh
  | .unknownKind kind id valid => .unknownKind kind.fresh id valid
  | .retryMax id v => .retryMax id v.fresh
  | .retryWait id v => .retryWait id v.fresh
  | .retryBackoff id v => .retryBackoff id v.fresh
  | .nextLabel id v => .nextLabel id v.fresh
  | .entryNotText v => .entryNotText v.fresh
  | p => p

@[simp] theorem Problem.message_fresh (p : Problem) : p.fresh.message = p.message := by
  cases p <;> unfold fresh message <;> dsimp only <;> rw [Value.notate_fresh]

namespace Description

@[simp] theorem map_demand (f : Problem → Problem) (ok : Bool) (p : Problem) :
    (demand ok p).map f = demand ok (f p) := by
  cases ok <;> rfl

/-! ## 2. Tests of single values -/

@[simp] theorem absentOrName_fresh (v : Value) : absentOrName v.fresh = absentOrName v := by
  simp [absentOrName, Value.name?_fresh]

@[simp] theorem absentOrDict_fresh (v : Value) : absentOrDict v.fresh = absentOrDict v := by
  simp [absentOrDict]

@[simp] theorem isPresent_fresh (v : Value) : isPresent v.fresh = isPresent v := by
  simp [isPresent]

@[simp] theorem hasName_fresh (key : String) (v : Value) : hasName key v.fresh = hasName key v := by
  simp [hasName, Value.name?_fresh]

@[simp] theorem isPositive_fresh (v : Value) : isPositive v.fresh = isPositive v := by
  cases v <;> simp [isPositive, Value.fresh]

@[simp] theorem isWait_fresh (v : Value) : isWait v.fresh = isWait v := by
  cases v <;> simp [isWait, Value.fresh]

@[simp] theorem isBackoff_fresh (v : Value) : isBackoff v.fresh = isBackoff v := by
  cases v <;> simp [isBackoff, Value.fresh]

@[simp] theorem isAmong_fresh (names : List String) (v : Value) :
    isAmong names v.fresh = isAmong names v := by
  cases v <;> simp [isAmong, Value.fresh]

theorem fieldOr_fresh (v : Value) (key : String) {other : Value} (h : other.fresh = other) :
    fieldOr v.fresh key other = (fieldOr v key other).fresh := by
  rw [fieldOr, fieldOr, Value.get?_members_fresh]
  cases Members.get? v.members key with
  | none => exact h.symm
  | some x => rfl

/-! ## 3. Nodes -/

@[simp] theorem retryProblems_fresh (id : String) (v : Value) :
    retryProblems id v.fresh = (retryProblems id v).map Problem.fresh := by
  have hmax := @fieldOr_fresh v "max" (.int 1) rfl
  have hwait := @fieldOr_fresh v "wait" (.int 0) rfl
  have hbackoff := @fieldOr_fresh v "backoff" (.str "fixed") rfl
  cases v with
  | dict cell ms =>
    rw [Value.fresh_dict] at hmax hwait hbackoff ⊢
    simp [retryProblems, hmax, hwait, hbackoff, Problem.fresh]
  | _ => simp [retryProblems, Value.fresh, Problem.fresh]

/-- A loop guard is read by its fields, if there is one. -/
theorem guardProblems_eq (id : String) (guard : Value) :
    guardProblems id guard =
      if guard.isNull then [] else
        demand (isPositive (guard.field "max_iterations")) (.guardLimit id) ++
          demand (absentOrName (guard.field "exit")) (.guardExit id) := by
  cases guard <;> rfl

@[simp] theorem guardProblems_fresh (id : String) (v : Value) :
    guardProblems id v.fresh = (guardProblems id v).map Problem.fresh := by
  rw [guardProblems_eq, guardProblems_eq, Value.isNull_fresh]
  split
  · rfl
  · simp [Problem.fresh]

/-- The elements that fail a test are named by their places alone. -/
theorem failing_fresh {ok : Value → Bool} (hok : ∀ v : Value, ok v.fresh = ok v)
    {p : Nat → Problem} (hp : ∀ i, (p i).fresh = p i) (i : Nat) (xs : List Value) :
    failing ok p i (xs.map Value.fresh) = (failing ok p i xs).map Problem.fresh := by
  induction xs generalizing i with
  | nil => rfl
  | cons x xs ih => rw [List.map_cons, failing, failing, hok, ih, List.map_append, map_demand, hp]

@[simp] theorem prepProblems_fresh (id : String) (v : Value) :
    prepProblems id v.fresh = (prepProblems id v).map Problem.fresh := by
  simp [prepProblems, Value.items_fresh, Function.comp_def, Problem.fresh]

@[simp] theorem outputProblems_fresh (id : String) (v : Value) :
    outputProblems id v.fresh = (outputProblems id v).map Problem.fresh := by
  have hsaves := Value.field_fresh v "save"
  have hplaces := failing_fresh (p := .savePath id) (hasName_fresh "path") (fun _ => rfl) 0
  cases v with
  | dict cell ms =>
    rw [Value.fresh_dict] at hsaves ⊢
    simp [outputProblems, hsaves, Value.items_fresh, hplaces, Problem.fresh]
  | _ => simp [outputProblems, Value.fresh, Problem.fresh]

@[simp] theorem postProblems_fresh (id : String) (v : Value) :
    postProblems id v.fresh = (postProblems id v).map Problem.fresh := by
  simp [postProblems, Problem.fresh]

@[simp] theorem caseProblems_fresh (id : String) (v : Value) :
    caseProblems id v.fresh = (caseProblems id v).map Problem.fresh := by
  have hplaces := failing_fresh (p := .caseLabel id) (hasName_fresh "label") (fun _ => rfl) 0
  simp [caseProblems, Value.items_fresh, hplaces, Problem.fresh]

@[simp] theorem shapeProblems_fresh (id : String) (node : Value) (isRouter : Bool) :
    shapeProblems id node.fresh isRouter = (shapeProblems id node isRouter).map Problem.fresh := by
  cases isRouter <;> simp [shapeProblems, Problem.fresh]

@[simp] theorem nodeProblems_fresh (kinds routers : List String) (id : String) (node : Value) :
    nodeProblems kinds routers id node.fresh =
      (nodeProblems kinds routers id node).map Problem.fresh := by
  simp [nodeProblems, Problem.fresh]

/-- A table of values without their marks. -/
def freshTable (ms : Members Value) : Members Value := ms.map fun m => (m.1, m.2.fresh)

@[simp] theorem has_freshTable (ms : Members Value) (key : String) :
    Members.has (freshTable ms) key = Members.has ms key := by
  simp [Members.has, freshTable, Function.comp_def]

@[simp] theorem get?_freshTable (ms : Members Value) (key : String) :
    Members.get? (freshTable ms) key = (Members.get? ms key).map Value.fresh :=
  Members.get?_map Value.fresh ms key

/-- The loop over nodes puts the same nodes into its table, and finds the same. -/
theorem checkNodes_fresh (kinds routers : List String) (i : Nat) (declared : Members Value)
    (nodes : List Value) :
    checkNodes kinds routers i (freshTable declared) (nodes.map Value.fresh) =
      (freshTable (checkNodes kinds routers i declared nodes).1,
        (checkNodes kinds routers i declared nodes).2.map Problem.fresh) := by
  induction nodes generalizing i declared with
  | nil => rfl
  | cons node rest ih =>
    have hgrown : ∀ id : String, freshTable declared ++ [(id, node.fresh)] =
        freshTable (declared ++ [(id, node)]) := by
      intro id
      simp [freshTable]
    simp only [List.map_cons, checkNodes, Value.isDict_fresh, Value.field_fresh, Value.name?_fresh,
      has_freshTable, hgrown, ih]
    split
    · simp [Problem.fresh]
    split
    · simp [Problem.fresh]
    split
    · simp [Problem.fresh]
    · simp

/-! ## 4. Entry and edges -/

theorem entryProblems_fresh (declared : Members Value) (anyNodes : Bool) (v : Value) :
    entryProblems (freshTable declared) anyNodes v.fresh =
      (entryProblems declared anyNodes v).map Problem.fresh := by
  cases v with
  | str e =>
    simp only [Value.fresh, entryProblems, has_freshTable]
    split <;> rfl
  | _ => simp [entryProblems, Value.fresh, Problem.fresh]

theorem nextLabels_fresh (node : Value) : nextLabels node.fresh = nextLabels node := by
  simp [nextLabels, Value.name?_fresh]

theorem caseLabels_fresh (v : Value) : caseLabels v.fresh = caseLabels v := by
  simp [caseLabels, Value.items_fresh, List.filterMap_map, Value.name?_fresh]

theorem orElse_fresh_eq (v : Value) (s : String) :
    v.fresh.orElse (.str s) = (v.orElse (.str s)).fresh := by
  rw [Value.orElse, Value.orElse, Value.truthy_fresh]
  split <;> rfl

theorem guardLabels_fresh (node : Value) : guardLabels node.fresh = guardLabels node := by
  have hfields : ∀ n : Value, guardLabels n =
      if (n.field "loop_guard").isDict then
        (((n.field "loop_guard").field "exit").orElse (.str loopExitLabel)).name?.toList
      else [] := by
    intro n
    rw [guardLabels]
    cases n.field "loop_guard" <;> rfl
  rw [hfields, hfields, Value.field_fresh, Value.isDict_fresh, Value.field_fresh, orElse_fresh_eq,
    Value.name?_fresh]

theorem labelsGiven_fresh (isRouter : Bool) (node : Value) :
    labelsGiven isRouter node.fresh = labelsGiven isRouter node := by
  simp only [labelsGiven, nextLabels_fresh, Value.field_fresh, caseLabels_fresh, guardLabels_fresh]

theorem producibleLabels_fresh (routers : List String) (node : Value) :
    producibleLabels routers node.fresh = producibleLabels routers node := by
  have hkind : kindAmong routers (node.field "kind").fresh = kindAmong routers (node.field "kind") := by
    cases node.field "kind" <;> simp [kindAmong, Value.fresh]
  simp only [producibleLabels, Value.isDict_fresh, Value.field_fresh, hkind, labelsGiven_fresh]

theorem routeProblems_fresh (routers : List String) (declared : Members Value) (routes : Routes)
    (s t l : String) :
    routeProblems routers (freshTable declared) routes s t l =
      (routeProblems routers declared routes s t l).map fun r => (r.1, r.2.map Problem.fresh) := by
  rw [routeProblems, routeProblems, get?_freshTable]
  cases Members.get? declared s with
  | none => simp [Except.map, Problem.fresh]
  | some node =>
    cases hvalid : producibleLabels routers node with
    | error f => simp [producibleLabels_fresh, hvalid, Except.map]
    | ok valid =>
      cases routes.lookup (s, l) <;>
        simp [producibleLabels_fresh, hvalid, Except.map, Problem.fresh]

/-- What is told of the entries of a table without their marks is told of them with marks. -/
theorem filterMap_freshTable {f : String × Value → Option String}
    (hf : ∀ key v, f (key, v.fresh) = f (key, v)) (ms : Members Value) :
    (freshTable ms).filterMap f = ms.filterMap f := by
  rw [freshTable, List.filterMap_map]
  exact List.filterMap_congr fun m _ => hf m.1 m.2

theorem map_append_fresh (found : List Problem) (r : Except Fault (List Problem)) :
    (r.map (List.map Problem.fresh)).map (found.map Problem.fresh ++ ·) =
      (r.map (found ++ ·)).map (List.map Problem.fresh) := by
  cases r <;> simp [Except.map]

theorem edgeProblems_fresh (routers : List String) (declared : Members Value) (i : Nat)
    (routes : Routes) (edges : List Value) :
    edgeProblems routers (freshTable declared) i routes (edges.map Value.fresh) =
      (edgeProblems routers declared i routes edges).map (List.map Problem.fresh) := by
  induction edges generalizing i routes with
  | nil => rfl
  | cons edge rest ih =>
    have hmissing : ∀ f : String, Members.has edge.fresh.members f = Members.has edge.members f := by
      intro f
      rw [Value.members_fresh]
      exact has_freshTable edge.members f
    simp only [List.map_cons, edgeProblems, Value.isDict_fresh, hmissing, routeProblems_fresh, ih,
      Value.field_fresh, orElse_fresh_eq]
    split
    · exact map_append_fresh [.edgeNotObject i] _
    split
    · next fields _ => exact map_append_fresh [.edgeMissing i _] _
    split
    · next s t l hs ht hl =>
      simp only [(Value.fresh_eq_str _ _).1 hs, (Value.fresh_eq_str _ _).1 ht,
        (Value.fresh_eq_str _ _).1 hl]
      cases routeProblems routers declared routes s t l with
      | error f => rfl
      | ok r => exact map_append_fresh r.2 _
    · next hmistyped =>
      split
      · next s t l hs ht hl =>
        exact absurd ((Value.fresh_eq_str _ _).2 hl)
          (hmistyped s t l ((Value.fresh_eq_str _ _).2 hs) ((Value.fresh_eq_str _ _).2 ht))
      · refine Eq.trans ?_ (map_append_fresh [.edgeMistyped i _] _)
        refine congrArg (fun fs => Except.map ([Problem.edgeMistyped i fs] ++ ·) _) ?_
        exact filterMap_freshTable (fun f v => by cases v <;> simp [Value.fresh])
          [("from", _), ("to", _), ("label", _)]

/-! ## 5. The whole -/

/-- **Marks make no difference to a report.** What the checker finds without marks is what it finds with
them, and it fails in the same cases. -/
theorem problems_fresh (kinds routers : List String) (d : Value) :
    problems kinds routers d.fresh = (problems kinds routers d).map (List.map Problem.fresh) := by
  have hchecked := checkNodes_fresh kinds routers 0 [] (d.field "nodes").items
  rw [freshTable, List.map_nil] at hchecked
  rw [problems, problems, Value.isDict_fresh]
  split
  · rfl
  simp only [Value.field_fresh, isPresent_fresh]
  split
  · rfl
  simp only [fieldProblems, Value.field_fresh, Value.items_fresh, List.isEmpty_map, Value.isList_fresh,
    absentOrDict_fresh, hchecked, edgeProblems_fresh, entryProblems_fresh]
  cases edgeProblems routers (checkNodes kinds routers 0 [] (d.field "nodes").items).1 0 []
      (d.field "edges").items with
  | error f => rfl
  | ok found =>
    simp only [Except.map, List.map_append, map_demand, Problem.fresh]
    cases d.field "version" <;> rfl

end Description

end NodeFlow
