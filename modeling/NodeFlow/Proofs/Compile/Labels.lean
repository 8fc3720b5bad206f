import NodeFlow.Proofs.Collaborator.Terms
import NodeFlow.Proofs.Compile.Faithful
import NodeFlow.Proofs.Compile.Total
import NodeFlow.Proofs.Memory.Parts
/-!
# Labels at run time

A compiled graph reads its declarations from memory as it runs, and what it reads must be what was
checked. Most of a description is never handed on and so can be sealed. Two things are: the parameters
that it declares, which templates see, and what the nodes work with. A router works with its cases only,
and of those it hands on the labels, which are texts.

The awkward thing up front: nothing keeps an exposed part from being changed by a run. That this changes
no sealed part rests on every cell having one place in the description.

The checker tells from a declaration which labels its node can give, and judges edges by that. Whatever
happens in a run, no visit ends with any other label: the parts of the declaration that labels are read
from are as they were declared, since they are sealed, and each of the ways to end a visit gives one of
those labels.
-/

set_option autoImplicit false

namespace NodeFlow

namespace Compiler

open Description

/-! ## 1. What is sealed -/

/-- Is a declaration that of a router? -/
def isRouter (m : Value) : Bool :=
  match m.field "kind" with
  | .str name => Kind.ofName? name == some .router
  | _ => false

/-- The cells of a description that a run may hand on. -/
def exposed (d : Value) : List Addr :=
  (d.field "globals").marks ++
    (nodesOf d).flatMap fun m => if isRouter m then [] else (m.field "exec").marks

/-- All other cells of a description, with what they hold. -/
def sealOf (d : Value) (h : Heap) : Seal := fun a =>
  if a ∈ d.marks ∧ a ∉ exposed d then h.cell? a else none

variable {d : Value} {h : Heap} {a : Addr}

theorem sealOf_of_not_mem (ha : a ∉ d.marks) : sealOf d h a = none :=
  if_neg fun hmem => ha hmem.1

theorem sealOf_of_exposed (ha : a ∈ exposed d) : sealOf d h a = none :=
  if_neg fun hmem => hmem.2 ha

theorem sealOf_eq (hmem : a ∈ d.marks) (ha : a ∉ exposed d) : sealOf d h a = h.cell? a :=
  if_pos ⟨hmem, ha⟩

theorem mem_exposed_globals (ha : a ∈ (d.field "globals").marks) : a ∈ exposed d :=
  List.mem_append_left _ ha

theorem mem_exposed_exec {m : Value} (hm : m ∈ nodesOf d) (hrouter : isRouter m = false)
    (ha : a ∈ (m.field "exec").marks) : a ∈ exposed d := by
  refine List.mem_append_right _ (List.mem_flatMap.2 ⟨m, hm, ?_⟩)
  rwa [hrouter, if_neg Bool.false_ne_true]

theorem mem_marks_of_node {m : Value} (hm : m ∈ nodesOf d) (ha : a ∈ m.marks) :
    a ∈ (d.field "nodes").marks :=
  Value.marks_item_subset hm a ha

/-- What is declared of a node is not exposed, except for what a node that is no router works with. -/
theorem not_mem_exposed (hnodup : d.marks.Nodup) {m : Value} (hm : m ∈ nodesOf d)
    (ha : a ∈ m.marks) (hexec : isRouter m = true ∨ a ∉ (m.field "exec").marks) :
    a ∉ exposed d := by
  intro hexposed
  rcases List.mem_append.1 hexposed with hglobals | hwork
  · exact Value.not_mem_marks_of_field_ne hnodup (by decide) (mem_marks_of_node hm ha) hglobals
  · -- it is exposed as what some node works with: of this node, or of another
    obtain ⟨n, hn, han⟩ := List.mem_flatMap.1 hwork
    split at han
    · exact absurd han List.not_mem_nil
    · next hrouter =>
      by_cases heq : m = n
      · subst heq
        exact hexec.elim hrouter fun hnot => hnot han
      · exact Value.not_mem_marks_of_item_ne (Value.nodup_field hnodup "nodes") hm hn heq ha
          (Value.marks_field_subset n "exec" a han)

/-! ## 2. Compiling obeys the seal -/

variable {h₀ kept : Heap} {d₀ : Value}

/-- The parts of a description that a run may hand on. -/
def exposedParts (d : Value) : List Value :=
  d.field "globals" :: (nodesOf d).flatMap fun m => if isRouter m then [] else [m.field "exec"]

theorem marks_exposedParts (d : Value) : (exposedParts d).flatMap Value.marks = exposed d := by
  rw [exposedParts, List.flatMap_cons, exposed, List.flatMap_assoc]
  refine congrArg _ (congrArg (List.flatMap · _) (funext fun m => ?_))
  split
  · rfl
  · exact List.flatMap_singleton ..

theorem sealOf_eq_sealBut (d : Value) (h : Heap) : sealOf d h = h.sealBut d (exposedParts d) := by
  funext a
  rw [sealOf, Heap.sealBut, marks_exposedParts]

theorem obeys_kept (hkept : Heap.Kept h₀ d₀ d kept) (hclosed : h₀.Closed) :
    kept.Obeys (sealOf d kept) := by
  rw [sealOf_eq_sealBut]
  refine Heap.obeys_sealBut hkept hclosed fun p hp => ?_
  rcases List.mem_cons.1 hp with rfl | hp
  · exact hkept.holds.field "globals"
  · obtain ⟨m, hm, hpart⟩ := List.mem_flatMap.1 hp
    split at hpart
    · exact absurd hpart List.not_mem_nil
    · rw [List.mem_singleton.1 hpart]
      exact ((hkept.holds.field "nodes").item hm).field "exec"

theorem free_paramsFor (hobeys : kept.Obeys (sealOf d kept)) {common : Members Datum}
    (hcommon : ∀ m ∈ common, m.2.Free (sealOf d kept)) :
    ∀ m ∈ paramsFor common kept d, m.2.Free (sealOf d kept) := by
  rw [paramsFor]
  refine Members.forall_putAll hcommon ?_
  split
  · next a ms hglobals =>
    refine hobeys.membersAt (sealOf_of_exposed (mem_exposed_globals ?_))
    rw [hglobals, Value.marks_dict]
    exact List.mem_append_left _ (List.mem_singleton_self a)
  · intro m hm
    exact absurd hm List.not_mem_nil

theorem free_globals {env : Environment} (hkept : Heap.Kept h₀ d₀ d kept)
    (hglobals : env.HasGlobals h₀) : env.globals.Free (sealOf d kept) := by
  rcases hglobals with hnull | ⟨a, ms, href, hcell⟩
  · rw [hnull]
    exact Datum.free_null
  · rw [href, Datum.free_ref]
    exact sealOf_of_not_mem fun hmem =>
      absurd (Heap.cell?_lt hcell) (Nat.not_lt.2 (hkept.new a hmem))

/-- After compiling nothing outside of the sealed memory refers to it. -/
theorem obeys_compiled {env : Environment} (hkept : Heap.Kept h₀ d₀ d kept) (hclosed : h₀.Closed)
    (hglobals : env.HasGlobals h₀) {common : Members Datum}
    (hcommon : env.commonMembers? kept = some common) :
    ((kept.alloc (.dict [])).2.alloc (.dict (paramsFor common kept d))).2.Obeys (sealOf d kept) := by
  have hobeys := obeys_kept hkept hclosed
  have hfree := Terms.free_commonMembers hobeys.free (free_globals hkept hglobals) hcommon
  exact (hobeys.alloc Cell.free_empty).alloc (Cell.free_dict.2 (free_paramsFor hobeys hfree))

end Compiler

open Description

/-- What a visit of a declared node may end with: nothing, which stands for the default label, or a
label that can be told from the declaration. -/
def Description.Gives (m : Value) (d : Datum) : Prop :=
  d = .null ∨ ∃ l, d = .str l ∧ Produces Kind.routerNames m l

theorem Heap.Holds.marks_fresh {h : Heap} {v : Value} (hv : h.Holds v) : v.fresh.marks = [] := by
  induction hv with
  | plain hp => rw [Value.fresh_of_isPlain hp, Value.marks_of_isPlain hp]
  | list _ _ _ ih =>
    rw [Value.fresh_list, Value.marks_list, Option.toList_none, List.nil_append,
      List.flatMap_eq_nil_iff]
    exact List.forall_mem_map.2 ih
  | dict _ _ _ ih =>
    rw [Value.fresh_dict, Value.marks_dict, Option.toList_none, List.nil_append,
      List.flatMap_eq_nil_iff, List.forall_mem_map, List.forall_mem_map]
    exact ih

/-- Only one name is that of routers. -/
theorem eq_router_of_ofName? {name : String} (h : Kind.ofName? name = some .router) :
    name = "router" := by
  have hmem : (name, Kind.router) ∈ Kind.named := Members.mem_of_get? h
  simpa [Kind.named] using hmem

namespace Compiler

variable {h₀ kept : Heap} {d₀ d m : Value}

/-! ## 3. Declarations in memory -/

section

variable {h : Heap}

theorem datum_of_held (hm : kept.Holds m) (hobject : IsObject m) : m.datum = .ref (addressOf m) := by
  obtain ⟨cell, ms, rfl⟩ := hobject
  cases hm with
  | plain hp => cases hp
  | dict _ _ _ => rfl

theorem addressOf_mem_marks (hm : kept.Holds m) (hobject : IsObject m) : addressOf m ∈ m.marks := by
  refine m.refs_datum_subset _ ?_
  rw [datum_of_held hm hobject]
  exact List.mem_singleton_self _

theorem addressOf_not_mem_marks_field (hm : kept.Holds m) (hobject : IsObject m) (hnodup : m.marks.Nodup)
    (key : String) : addressOf m ∉ (m.field key).marks := by
  refine hm.not_mem_field hnodup key _ ?_
  rw [datum_of_held hm hobject]
  exact List.mem_singleton_self _

/-- A field of a declaration whose cell stays as it was is read as the view of what was declared. -/
theorem field_contentIn_of_cell (hm : kept.Holds m) (hobject : IsObject m)
    (hcell : h.cell? (addressOf m) = kept.cell? (addressOf m)) (key : String) :
    ((Terms.declaredOf m).contentIn h).field key =
      h.viewWithin h.cells.size [addressOf m] (m.field key).datum := by
  have hdatum := datum_of_held hm hobject
  have hread : ∀ a ∈ m.datum.refs, h.cell? a = kept.cell? a := by simpa [hdatum, Datum.refs] using hcell
  have hview := hm.field_viewWithin hread (fun _ _ => List.not_mem_nil) h.cells.size key
  rwa [hdatum] at hview

/-- It is read as it was declared if all of it is as it was. -/
theorem field_contentIn_of_holds (hm : kept.Holds m) (hobject : IsObject m) (hnodup : m.marks.Nodup)
    (hcell : h.cell? (addressOf m) = kept.cell? (addressOf m)) {key : String} (hfield : h.Holds (m.field key)) :
    ((Terms.declaredOf m).contentIn h).field key = m.field key := by
  rw [field_contentIn_of_cell hm hobject hcell]
  exact hfield.viewWithin_datum hfield.mark_lt
    (List.forall_mem_singleton.2 (addressOf_not_mem_marks_field hm hobject hnodup key))

end

section

variable (hkept : Heap.Kept h₀ d₀ d kept) (hm : m ∈ nodesOf d) {h : Heap}
  (hh : h.Obeys (sealOf d kept))

include hkept hm

theorem holds_node : kept.Holds m := (hkept.holds.field "nodes").item hm

theorem nodup_node : m.marks.Nodup :=
  (List.nodup_flatMap.1 (Value.nodup_items (Value.nodup_field hkept.nodup "nodes"))).1 _ hm

theorem sealed_of_node {a : Addr} (ha : a ∈ m.marks)
    (hexec : isRouter m = true ∨ a ∉ (m.field "exec").marks) : sealOf d kept a = kept.cell? a :=
  sealOf_eq (Value.marks_field_subset d "nodes" a (mem_marks_of_node hm ha))
    (not_mem_exposed hkept.nodup hm ha hexec)

include hh

/-- The declaration itself is sealed, so its members are where they were. -/
theorem cell?_node (hobject : IsObject m) : h.cell? (addressOf m) = kept.cell? (addressOf m) := by
  have hheld := holds_node hkept hm
  have hmem := addressOf_mem_marks hheld hobject
  refine hh.cell?_eq (sealed_of_node hkept hm hmem (Or.inr ?_)) (hheld.mark_lt _ hmem)
  exact addressOf_not_mem_marks_field hheld hobject (nodup_node hkept hm) "exec"

/-- A field of a declaration is read as the view of what was declared. -/
theorem field_contentIn (hobject : IsObject m) (key : String) :
    ((Terms.declaredOf m).contentIn h).field key =
      h.viewWithin h.cells.size [addressOf m] (m.field key).datum :=
  field_contentIn_of_cell (holds_node hkept hm) hobject (cell?_node hkept hm hh hobject) key

/-- A field of a declaration that is sealed is read as it was declared. -/
theorem field_contentIn_sealed (hobject : IsObject m) {key : String}
    (hkey : isRouter m = true ∨ key ≠ "exec") :
    ((Terms.declaredOf m).contentIn h).field key = m.field key := by
  have hheld := holds_node hkept hm
  have hnodup := nodup_node hkept hm
  refine field_contentIn_of_holds hheld hobject hnodup (cell?_node hkept hm hh hobject) ?_
  -- the whole field is sealed, so memory holds all of it
  refine (hheld.field key).of_obeys hh fun a ha => sealed_of_node hkept hm (Value.marks_field_subset m key a ha) ?_
  exact hkey.imp_right fun hne => Value.not_mem_marks_of_field_ne hnodup hne ha

/-- What a node that is no router works with is exposed, and so it is free. -/
theorem free_exec (hobject : IsObject m) (hrouter : isRouter m = false) :
    (((Terms.declaredOf m).contentIn h).field "exec").Free (sealOf d kept) := by
  rw [field_contentIn hkept hm hh hobject]
  refine hh.viewWithin _ _ fun a ha => sealOf_of_exposed (mem_exposed_exec hm hrouter ?_)
  exact (m.field "exec").refs_datum_subset a ha

end

/-! ## 4. Labels -/

theorem labels_null {S : Seal} : Value.null.Labels S (Gives m) :=
  ⟨Value.free_of_isPlain rfl, fun _ => Or.inl rfl⟩

theorem labels_str {S : Seal} {l : String} (hl : Produces Kind.routerNames m l) :
    (Value.str l).Labels S (Gives m) :=
  ⟨Value.free_of_isPlain rfl, fun _ => Or.inr ⟨l, rfl, hl⟩⟩

theorem truthy_str {s : String} (hs : s ≠ "") : (Value.str s).truthy = true := by
  simpa [Value.truthy] using hs

/-- The exit of a guard can be told from the declaration. -/
theorem gives_exit (hnode : IsNode Kind.names Kind.routerNames m) {g : Guard}
    (hg : Declared.guardOf m = some g) : Gives m (.str g.exit) := by
  rw [Declared.guardOf] at hg
  split at hg
  · -- there is a limit, so there is a guard, with a name for its exit or with none
    next limit hlimit =>
    obtain rfl := Option.some.inj hg
    rcases hnode.guard with hnull | hguard
    · rw [hnull] at hlimit
      cases hlimit
    · refine Or.inr ⟨_, rfl, .exit hguard.isObject ?_ ?_⟩
      · rcases hguard.exit with hnull | ⟨s, hs, hne⟩
        · rw [hnull]
          rfl
        · rw [hs, Value.orElse, if_pos (truthy_str hne), Value.name?, if_neg hne, Option.getD_some]
      · rcases hguard.exit with hnull | ⟨s, hs, hne⟩
        · rw [hnull]
          show loopExitLabel ≠ ""
          decide
        · rwa [hs, Value.name?, if_neg hne, Option.getD_some]
  · cases hg

/-- So can the label that a node names as its next. -/
theorem labels_next {S : Seal} (hnode : IsNode Kind.names Kind.routerNames m) :
    (((m.field "post").field "next").orElse .null).Labels S (Gives m) := by
  have hnext : Optionally IsName ((m.field "post").field "next") := by
    rcases hnode.post with hnull | hpost
    · rw [hnull]
      exact Or.inl rfl
    · exact hpost.next
  rcases hnext with hnull | ⟨s, hs, hne⟩
  · rw [hnull]
    exact labels_null
  · rw [hs, Value.orElse, if_pos (truthy_str hne)]
    exact labels_str (.next hs hne)

theorem kindIn_routers (hrouter : isRouter m = true) : KindIn Kind.routerNames m := by
  rw [isRouter] at hrouter
  split at hrouter
  · next name hname =>
    exact ⟨name, List.mem_singleton.2 (eq_router_of_ofName? (beq_iff_eq.1 hrouter)), hname⟩
  · cases hrouter

/-- The cases that a router goes through are those of its list. -/
theorem mem_items_of_casesOf (hnode : IsNode Kind.names Kind.routerNames m) (hrouter : isRouter m = true)
    {cs : List Value} (hcs : Declared.casesOf ((m.field "exec").field "cases") = .ok cs) {c : Value} (hc : c ∈ cs) :
    c ∈ ((m.field "exec").field "cases").items := by
  rcases hnode.cases (kindIn_routers hrouter) with hnull | ⟨cell, xs, hlist, -⟩
  · rw [hnull] at hcs
    obtain rfl := Except.ok.inj hcs
    exact absurd hc List.not_mem_nil
  · rw [hlist] at hcs ⊢
    rw [Declared.casesOf] at hcs
    split at hcs
    · obtain rfl := Except.ok.inj hcs
      exact absurd hc List.not_mem_nil
    · exact Except.ok.inj hcs ▸ hc

/-- And so can the labels of a router's cases. -/
theorem labels_case {S : Seal} (hnode : IsNode Kind.names Kind.routerNames m)
    (hrouter : isRouter m = true) {cs : List Value}
    (hcs : Declared.casesOf ((m.field "exec").field "cases") = .ok cs) :
    ∀ c ∈ cs, (c.field "label").Labels S (Gives m) := by
  intro c hc
  have hitem := mem_items_of_casesOf hnode hrouter hcs hc
  have hkind := kindIn_routers hrouter
  rcases hnode.cases hkind with hnull | ⟨cell, xs, hlist, hxs⟩
  · rw [hnull] at hitem
    exact absurd hitem List.not_mem_nil
  · -- each of the cases has a name for its label
    rw [hlist] at hitem
    obtain ⟨-, l, hl, hne⟩ := hxs c hitem
    rw [hl]
    refine labels_str (.case hkind ?_ hl hne)
    rw [hlist]
    exact hitem

/-- A declaration of a well-formed description that is kept in memory honors its seal. -/
theorem honors (hkept : Heap.Kept h₀ d₀ d kept) (hm : m ∈ nodesOf d)
    (hnode : IsNode Kind.names Kind.routerNames m) :
    (Terms.declaredOf m).Honors (sealOf d kept) (Gives m) (isRouter m) where
  exit g hg := gives_exit hnode hg
  next _ h hh := by
    rw [field_contentIn_sealed hkept hm hh hnode.isObject (Or.inr (by decide))]
    exact labels_next hnode
  saves _ h hh := by
    rw [field_contentIn_sealed hkept hm hh hnode.isObject (Or.inr (by decide)), Value.Free,
      (((hkept.holds.field "nodes").item hm).field "post").marks_fresh]
    intro a ha
    exact absurd ha List.not_mem_nil
  work hrouter h hh := free_exec hkept hm hh hnode.isObject hrouter
  cases hrouter h hh cs hcs := by
    rw [field_contentIn_sealed hkept hm hh hnode.isObject (Or.inl hrouter)] at hcs
    exact labels_case hnode hrouter hcs
  none _ := Or.inl rfl

end Compiler

end NodeFlow
