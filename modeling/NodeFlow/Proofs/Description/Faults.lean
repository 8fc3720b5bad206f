import NodeFlow.Proofs.Description.Marks
/-!
# When the checker cannot report

The checker looks the kind of a node up among the router kinds when it comes to an edge that leaves the
node. A kind that is a list or an object cannot be looked up at all, and the checker then ends with a
fault in place of its report. This is the only way in which it fails, and it is said here without the
checker: an edge leads on from a declared node of such a kind.

The awkward thing up front: the two loops go on after a problem, so what they have seen is not the
well-formed part of a description. An id that is declared twice stands for its first declaration, and
an edge asks for the labels of its source also if its target is not there.
-/

set_option autoImplicit false

namespace NodeFlow.Description

/-! ## 1. Kinds that cannot be looked up -/

/-- The kind of a declaration is a container. -/
def HasContainerKind (node : Value) : Prop :=
  (node.field "kind").isList = true ∨ (node.field "kind").isDict = true

/-- The first declaration of an id in a list of nodes. -/
def firstOf? (nodes : List Value) (id : String) : Option Value :=
  if id = "" then none else nodes.find? fun n => idOf n = id

/-- An edge leads on from a node whose kind cannot be looked up. -/
def LeavesContainerKind (find : String → Option Value) (e : Value) : Prop :=
  ∃ s l t node, Leads e s l t ∧ find s = some node ∧ HasContainerKind node

/-- The checker comes as far as the edges of a description, and one of them leads on from a node whose
kind cannot be looked up. -/
structure Baffles (d : Value) : Prop where
  isObject : IsObject d
  present : ∀ f ∈ requiredFields, (d.field f).truthy = true ∨ ∃ cell, d.field f = .list cell []
  leaves : ∃ e ∈ edgesOf d, LeavesContainerKind (firstOf? (nodesOf d)) e

theorem kindAmong_eq_error {names : List String} {v : Value} {f : Fault} :
    kindAmong names v = .error f ↔ f = .type ∧ (v.isList = true ∨ v.isDict = true) := by
  cases v <;> simp [kindAmong, Value.isList, Value.isDict, eq_comm]

/-- The labels of an object can be told unless its kind is a container. -/
theorem producibleLabels_eq_error (routers : List String) {node : Value} (hnode : IsObject node)
    (f : Fault) :
    producibleLabels routers node = .error f ↔ f = .type ∧ HasContainerKind node := by
  rw [producibleLabels, (isDict_iff node).2 hnode, HasContainerKind, ← kindAmong_eq_error]
  cases kindAmong routers (node.field "kind") <;> simp

/-! ## 2. The table of declared nodes -/

theorem idOf_of_not_isDict {node : Value} (h : node.isDict = false) : idOf node = "" := by
  cases node with
  | dict cell ms => cases h
  | _ => rfl

theorem get?_append_single {α : Type} (ms : Members α) (key : String) (a : α) (id : String) :
    Members.get? (ms ++ [(key, a)]) id =
      (Members.get? ms id).or (if key = id then some a else none) := by
  rw [Members.get?, List.lookup_append]
  congr 1
  by_cases h : key = id
  · simp [h]
  · simp [h, Ne.symm h]

/-- Whatever else the loop over nodes finds, its table holds the first declaration of every id that it
did not hold before. -/
theorem get?_checkNodes (kinds routers : List String) (i : Nat) (declared : Members Value)
    (nodes : List Value) (id : String) :
    Members.get? (checkNodes kinds routers i declared nodes).1 id =
      (Members.get? declared id).or (firstOf? nodes id) := by
  -- the table grows along the loop, so the induction is for all tables
  induction nodes generalizing i declared with
  | nil => simp [checkNodes, firstOf?]
  | cons node rest ih =>
    have hskip : idOf node ≠ id ∨ id = "" → firstOf? (node :: rest) id = firstOf? rest id := by
      rintro (hne | rfl)
      · simp [firstOf?, hne]
      · rfl
    simp only [checkNodes]
    split
    · next hdict =>
      simp only [Bool.not_eq_true'] at hdict
      rw [ih, hskip]
      rw [idOf_of_not_isDict hdict]
      exact (eq_or_ne id "").symm.imp_left Ne.symm
    split
    · next hid =>
      rw [ih, hskip]
      rw [idOf, hid]
      exact (eq_or_ne id "").symm.imp_left Ne.symm
    next key hkey =>
    have hidOf := idOf_eq hkey
    split
    · next hdup =>
      rw [ih]
      by_cases h : key = id
      · -- an id that is taken is found where it was before
        obtain ⟨a, ha⟩ := (has_iff_get? _ _).1 hdup
        rw [← h, ha, Option.some_or, Option.some_or]
      · rw [hskip (Or.inl (hidOf ▸ h))]
    · rw [ih, get?_append_single, Option.or_assoc]
      by_cases h : key = id
      · have hne : id ≠ "" := h ▸ ((name?_eq_some_iff _ _).1 hkey).2
        rw [if_pos h, Option.some_or, firstOf?, if_neg hne, List.find?_cons_of_pos (by simpa [hidOf])]
      · rw [if_neg h, Option.none_or, hskip (Or.inl (hidOf ▸ h))]

theorem isObject_of_firstOf? {nodes : List Value} {id : String} {node : Value}
    (h : firstOf? nodes id = some node) : IsObject node := by
  rw [firstOf?] at h
  split at h
  · cases h
  next hne =>
  have hid : idOf node = id := by simpa using List.find?_some h
  rw [← isDict_iff]
  by_contra hdict
  exact hne (hid ▸ idOf_of_not_isDict (Bool.not_eq_true _ ▸ hdict))

/-! ## 3. The edges -/

/-- The check of one route fails only for the labels of its source. -/
theorem routeProblems_eq_error (routers : List String) {declared : Members Value} (routes : Routes)
    (s t l : String) (hobjects : ∀ id node, Members.get? declared id = some node → IsObject node)
    (f : Fault) :
    routeProblems routers declared routes s t l = .error f ↔
      f = .type ∧ ∃ node, Members.get? declared s = some node ∧ HasContainerKind node := by
  rw [routeProblems]
  cases hnode : Members.get? declared s with
  | none => simp
  | some node =>
    have hlabels := producibleLabels_eq_error routers (hobjects s node hnode) f
    cases hvalid : producibleLabels routers node with
    | error g =>
      rw [hvalid] at hlabels
      simpa [hvalid] using hlabels
    | ok valid =>
      rw [hvalid] at hlabels
      simpa [hvalid] using hlabels

theorem map_append_eq_error {found : List Problem} {r : Except Fault (List Problem)} {f : Fault} :
    r.map (found ++ ·) = .error f ↔ r = .error f := by
  cases r <;> simp [Except.map]

/-- An edge that leads nowhere is a problem, and the loop goes on behind it. -/
theorem edgeProblems_cons_of_not_leads {edge : Value} (h : ¬ ∃ s l t, Leads edge s l t)
    (routers : List String) (declared : Members Value) (i : Nat) (routes : Routes)
    (rest : List Value) :
    ∃ found, edgeProblems routers declared i routes (edge :: rest) =
      (edgeProblems routers declared (i + 1) routes rest).map (found ++ ·) := by
  simp only [edgeProblems]
  split
  · exact ⟨_, rfl⟩
  next hdict =>
  split
  · exact ⟨_, rfl⟩
  split
  · next source target label hs ht hl =>
    simp only [Bool.not_eq_true', Bool.not_eq_false] at hdict
    exact absurd ⟨source, label, target, (isDict_iff edge).1 hdict, hs, ht, hl⟩ h
  · exact ⟨_, rfl⟩

/-- The loop over edges fails exactly if one of them leads on from a node whose kind cannot be looked
up. -/
theorem edgeProblems_eq_error (routers : List String) {declared : Members Value}
    (hobjects : ∀ id node, Members.get? declared id = some node → IsObject node) (i : Nat)
    (routes : Routes) (edges : List Value) (f : Fault) :
    edgeProblems routers declared i routes edges = .error f ↔
      f = .type ∧ ∃ e ∈ edges, LeavesContainerKind (Members.get? declared) e := by
  induction edges generalizing i routes with
  | nil => simp [edgeProblems]
  | cons edge rest ih =>
    simp only [List.exists_mem_cons_iff]
    by_cases hleads : ∃ s l t, Leads edge s l t
    · obtain ⟨s, l, t, h⟩ := hleads
      have hroute := routeProblems_eq_error routers routes s t l hobjects f
      have hleaves : LeavesContainerKind (Members.get? declared) edge ↔
          ∃ node, Members.get? declared s = some node ∧ HasContainerKind node := by
        constructor
        · rintro ⟨s', l', t', node, h', hnode⟩
          obtain ⟨rfl, -, -⟩ := h.unique h'
          exact ⟨node, hnode⟩
        · rintro ⟨node, hnode⟩
          exact ⟨s, l, t, node, h, hnode⟩
      rw [edgeProblems_cons _ _ _ _ h, hleaves, and_or_left, ← hroute]
      cases hr : routeProblems routers declared routes s t l with
      | error g =>
        -- a fault at this edge is the only one there is
        have hg : g = .type := ((routeProblems_eq_error _ _ _ _ _ hobjects _).1 hr).1
        simp only [Except.error.injEq]
        refine ⟨Or.inl, ?_⟩
        rintro (heq | ⟨rfl, -⟩)
        · exact heq
        · exact hg
      | ok r =>
        rw [map_append_eq_error, ih]
        simp
    · obtain ⟨found, hcons⟩ := edgeProblems_cons_of_not_leads hleads routers declared i routes rest
      have hstays : ¬ LeavesContainerKind (Members.get? declared) edge := by
        rintro ⟨s, l, t, node, h, -⟩
        exact hleads ⟨s, l, t, h⟩
      rw [hcons, map_append_eq_error, ih, or_iff_right hstays]

/-! ## 4. The whole -/

/-- The checker fails exactly over the descriptions that baffle it, and always with the same fault. -/
theorem problems_eq_error_iff (kinds routers : List String) (d : Value) (f : Fault) :
    problems kinds routers d = .error f ↔ f = .type ∧ Baffles d := by
  have htable : Members.get? (checkNodes kinds routers 0 [] (nodesOf d)).1 = firstOf? (nodesOf d) := by
    funext id
    rw [get?_checkNodes]
    rfl
  have hedges := edgeProblems_eq_error routers
    (fun id node h => isObject_of_firstOf? (htable ▸ h)) 0 [] (edgesOf d) f
  rw [htable] at hedges
  rw [problems]
  split
  · next hdict =>
    refine ⟨(fun h => by cases h), ?_⟩
    rintro ⟨-, hbaffles⟩
    rw [(isDict_iff d).2 hbaffles.isObject] at hdict
    cases hdict
  next hdict =>
  simp only [Bool.not_eq_true', Bool.not_eq_false] at hdict
  split
  · next hmissing =>
    refine ⟨(fun h => by cases h), ?_⟩
    rintro ⟨-, hbaffles⟩
    rw [missing_eq_nil.2 hbaffles.present] at hmissing
    cases hmissing
  next hpresent =>
  have hfields : fieldProblems kinds routers d = .error f ↔
      edgeProblems routers (checkNodes kinds routers 0 [] (nodesOf d)).1 0 [] (edgesOf d) =
        .error f := by
    rw [fieldProblems, ← nodesOf, ← edgesOf]
    cases edgeProblems routers (checkNodes kinds routers 0 [] (nodesOf d)).1 0 [] (edgesOf d) <;> simp
  rw [hfields, hedges]
  exact and_congr_right fun _ =>
    ⟨fun h => ⟨(isDict_iff d).1 hdict, missing_eq_nil.1 hpresent, h⟩, Baffles.leaves⟩

/-- So it reports on every other description. -/
theorem exists_problems_iff (kinds routers : List String) (d : Value) :
    (∃ ps, problems kinds routers d = .ok ps) ↔ ¬ Baffles d := by
  have hfaults := problems_eq_error_iff kinds routers d
  cases h : problems kinds routers d with
  | ok ps =>
    refine ⟨fun _ hbaffles => ?_, fun _ => ⟨ps, rfl⟩⟩
    have herror := (hfaults .type).2 ⟨rfl, hbaffles⟩
    rw [h] at herror
    cases herror
  | error f =>
    refine ⟨(fun ⟨ps, hps⟩ => by cases hps), fun hreports => absurd ((hfaults f).1 h).2 hreports⟩

end NodeFlow.Description
