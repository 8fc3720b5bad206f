import NodeFlow.Proofs.Compile.Accord
import NodeFlow.Proofs.Compile.Labels
import NodeFlow.Proofs.Description.Cycles
import NodeFlow.Proofs.Description.Reports
/-!
# The expressions of a description

What a declared node evaluates depends on its kind: nodes that call a model have a prompt, requests are filled part by
part, routers have conditions, and all but routers save outputs. A demand on all of these expressions is a demand on
the description; marks make no difference to it.

A node whose declaration is read as it was declared suits an accord if its expressions do.
-/

set_option autoImplicit false

namespace NodeFlow

open Description

/-! ## 1. Templates and conditions -/

namespace Description

/-- The kind of a declared node. -/
def kindOf? (m : Value) : Option Kind :=
  match m.field "kind" with
  | .str name => Kind.ofName? name
  | _ => none

/-- What is filled only if it is a text. -/
def filledText (v : Value) : List Value := if v.isText then [v] else []

/-- The value that an output is saved as. -/
def savedValue (save : Value) : Value := fieldOr save "value" (save.field "valueTemplate")

/-- The prompt of a node that calls a model. -/
def promptOf (exec : Value) : Value := fieldOr exec "prompt" (.str "")

/-- The templates of what a node of a kind works with. -/
def workTemplates (k : Kind) (exec : Value) : List Value :=
  if k.prompts then filledText (promptOf exec)
  else if k = .httpCall then
    filledText (fieldOr exec "url" (.str "")) ++
      [(exec.field "headers").orElse (.ofMembers []), (exec.field "body").orElse (.ofMembers [])]
  else []

/-- All templates of a declared node of a kind. A router saves nothing. -/
def templatesOf (k : Kind) (m : Value) : List Value :=
  workTemplates k (m.field "exec") ++ if k = .router then [] else (savesOf m).map savedValue

/-- The conditions of the cases of a router. -/
def conditionsOf (m : Value) : List Value :=
  ((m.field "exec").field "cases").items.map (·.field "when") |>.filter fun c => !c.isNull

/-- What holds of every expression that a declared node may evaluate. -/
structure Evaluates (P : List Char → Prop) (m : Value) : Prop where
  template : ∀ k, kindOf? m = some k → ∀ t ∈ templatesOf k m, Template.Every P t
  condition : kindOf? m = some .router → ∀ c ∈ conditionsOf m, P c.plain.toList

end Description

/-! ## 2. Marks -/

namespace Value

@[simp] theorem plain_fresh (v : Value) : v.fresh.plain = v.plain := by
  cases v with
  | list cell xs => exact notate_fresh (.list cell xs)
  | dict cell ms => exact notate_fresh (.dict cell ms)
  | _ => rfl

theorem isText_fresh (v : Value) : v.fresh.isText = v.isText := by
  cases v <;> simp [isText, fresh]

theorem orElse_nothing_fresh (v : Value) : v.fresh.orElse (.ofMembers []) = (v.orElse (.ofMembers [])).fresh := by
  rw [orElse, orElse, truthy_fresh]
  split
  · rfl
  · exact (fresh_dict none []).symm

end Value

namespace Template

variable {P : List Char → Prop}

theorem every_of_fresh {v : Value} (h : Every P v.fresh) : Every P v := by
  induction v using Value.induction with
  | plain v hp => rwa [Value.fresh_of_isPlain hp] at h
  | list cell xs ih =>
    rw [Value.fresh_list] at h
    cases h with
    | list hxs => exact .list fun x hx => ih x hx (hxs _ (List.mem_map_of_mem hx))
    | other _ hlist _ => cases hlist
  | dict cell ms ih =>
    rw [Value.fresh_dict] at h
    cases h with
    | dict hms => exact .dict fun m hm => ih m hm (hms _ (List.mem_map_of_mem hm))
    | other _ _ hdict => cases hdict
  | store cell name ms _ => exact .other rfl rfl rfl

end Template

namespace Description

theorem kindOf?_fresh (m : Value) : kindOf? m.fresh = kindOf? m := by
  rw [kindOf?, kindOf?, Value.field_fresh]
  cases m.field "kind" <;> simp [Value.fresh]

theorem filledText_fresh (v : Value) : filledText v.fresh = (filledText v).map Value.fresh := by
  rw [filledText, filledText, Value.isText_fresh]
  split <;> rfl

theorem fieldOr_empty_fresh (v : Value) (key : String) :
    fieldOr v.fresh key (.str "") = (fieldOr v key (.str "")).fresh :=
  Terms.fieldOr_fresh v (.str "") key

theorem workTemplates_fresh (k : Kind) (exec : Value) :
    workTemplates k exec.fresh = (workTemplates k exec).map Value.fresh := by
  rw [workTemplates, workTemplates, promptOf, promptOf, fieldOr_empty_fresh, fieldOr_empty_fresh, filledText_fresh,
    filledText_fresh, Value.field_fresh, Value.field_fresh, Value.orElse_nothing_fresh, Value.orElse_nothing_fresh]
  split
  · rfl
  · split
    · rw [List.map_append]
      rfl
    · rfl

theorem savedValue_fresh (save : Value) : savedValue save.fresh = (savedValue save).fresh := by
  rw [savedValue, savedValue, Value.field_fresh, Terms.fieldOr_fresh]

theorem templatesOf_fresh (k : Kind) (m : Value) : templatesOf k m.fresh = (templatesOf k m).map Value.fresh := by
  rw [templatesOf, templatesOf, Value.field_fresh, workTemplates_fresh, savesOf_fresh, List.map_append]
  split
  · rfl
  · rw [List.map_map, List.map_map]
    exact congrArg _ (List.map_congr_left fun save _ => savedValue_fresh save)

theorem conditionsOf_fresh (m : Value) : conditionsOf m.fresh = (conditionsOf m).map Value.fresh := by
  have hwhen : (fun c : Value => c.field "when") ∘ Value.fresh = Value.fresh ∘ fun c => c.field "when" :=
    funext fun c => Value.field_fresh c "when"
  have hnull : (fun c : Value => !c.isNull) ∘ Value.fresh = fun c => !c.isNull :=
    funext fun c => congrArg (!·) (Value.isNull_fresh c)
  rw [conditionsOf, conditionsOf, Value.field_fresh, Value.field_fresh, Value.items_fresh, List.map_map, hwhen,
    ← List.map_map, List.filter_map, hnull]

theorem Evaluates.of_fresh {P : List Char → Prop} {m : Value} (h : Evaluates P m.fresh) : Evaluates P m where
  template k hk t ht := by
    refine Template.every_of_fresh (h.template k ((kindOf?_fresh m).trans hk) _ ?_)
    rw [templatesOf_fresh]
    exact List.mem_map_of_mem ht
  condition hk c hc := by
    have hfresh := h.condition ((kindOf?_fresh m).trans hk) c.fresh
    rw [conditionsOf_fresh, Value.plain_fresh] at hfresh
    exact hfresh (List.mem_map_of_mem hc)

end Description

/-! ## 3. What is read as it was declared -/

namespace Accord

open Compiler

variable {A : Accord} {k : Kind} {m u : Value}

theorem isEnding_of_labels {S : Seal} {v : Value} (h : v.Labels S (Gives m)) : v.IsEnding := by
  rcases h.kept ⟨#[], 1⟩ with hnull | ⟨l, hl, -⟩
  · cases v with
    | null => exact Or.inl rfl
    | list cell xs => cases cell <;> cases hnull
    | dict cell ms => cases cell <;> cases hnull
    | float x =>
      cases x with
      | nan label => cases label <;> cases hnull
      | _ => cases hnull
    | _ => cases hnull
  · cases v with
    | str s => exact Or.inr ⟨s, rfl⟩
    | list cell xs => cases cell <;> cases hl
    | dict cell ms => cases cell <;> cases hl
    | float x =>
      cases x with
      | nan label => cases label <;> cases hl
      | _ => cases hl
    | _ => cases hl

theorem free_of_rel {o o' : Option Value} (h : Option.Rel A.Values o o') : ∀ v, o = some v → v.Free A.sealed := by
  rintro v rfl
  cases h with
  | some h => exact h.1

theorem Scopes.free (hparams : ∀ v, A.params v → v.Free A.sealed) {s s' : Scope} (hs : A.Scopes s s') :
    s.Free A.sealed :=
  ⟨hs.ctx_free, hs.result.1, free_of_rel hs.exec, free_of_rel hs.item, hparams _ hs.params⟩

theorem isRouter_of_kindOf? (hkind : kindOf? m = some k) : isRouter m = (k == .router) := by
  rw [kindOf?] at hkind
  rw [isRouter]
  cases hname : m.field "kind" with
  | str name =>
    rw [hname] at hkind
    dsimp only at hkind ⊢
    rw [hkind]
    cases k <;> rfl
  | _ =>
    rw [hname] at hkind
    cases hkind

/-- A declaration without cells saves nothing but free values, whatever its expressions come to. -/
theorem free_savedValue {S : Seal} (hm : m.fresh.Free S) {save : Value} (hsave : save ∈ savesOf m) :
    (savedValue save).fresh.Free S := by
  have hfresh : save.fresh ∈ savesOf m.fresh := by
    rw [savesOf_fresh]
    exact List.mem_map_of_mem hsave
  have hfree := Terms.free_items (Terms.free_field (Terms.free_field (Terms.free_field hm "post") "outputs") "save") _
    hfresh
  rw [← savedValue_fresh]
  exact Terms.free_fieldOr hfree (Terms.free_field hfree _) _

theorem mem_filledText {v : Value} {s : String} (h : v = .str s) : Value.str s ∈ filledText v := by
  subst h
  exact List.mem_singleton_self _

/-- A declaration of which the same is read as was declared suits an accord that its expressions suit. Of what a node
that calls a model works with only the prompt matters, and that only if it is a text. -/
theorem suits_of_read (hnode : IsNode Kind.names Kind.routerNames m) (hkind : kindOf? m = some k)
    (hpost : u.field "post" = m.field "post")
    (hexec : k.prompts = false → u.field "exec" = m.field "exec")
    (hprompt : k.prompts = true → ∀ t, promptOf (u.field "exec") = .str t → promptOf (m.field "exec") = .str t)
    (hprompt_free : k.prompts = true → (promptOf (u.field "exec")).Free A.sealed)
    (hmodel_free : k.prompts = true → ((u.field "exec").field "model").Free A.sealed)
    (hdata_free : (m.field "exec").fresh.Free A.sealed)
    (hfills : ∀ t ∈ templatesOf k m, A.Fills t)
    (hsaved : k ≠ .router → ∀ save ∈ savesOf m, ∀ s s', A.Scopes s s' → ∀ node v,
      (Template.render s node (savedValue save)).result = .ok v → v.Free A.sealed)
    (hconditions : k = .router → ∀ c ∈ conditionsOf m, ∀ s s', A.Scopes s s' →
      Template.Agree A.names s s' c.plain.toList) : A.Suits k u := by
  have hwork : ∀ t ∈ workTemplates k (m.field "exec"), A.Fills t := fun t ht =>
    hfills t (List.mem_append_left _ ht)
  have hrequest : k = .httpCall → ∀ t ∈ filledText (fieldOr (m.field "exec") "url" (.str "")) ++
      [((m.field "exec").field "headers").orElse (.ofMembers []),
        ((m.field "exec").field "body").orElse (.ofMembers [])], A.Fills t := by
    rintro rfl
    exact hwork
  have hcases : k = .router → ∀ cs, Declared.casesOf ((u.field "exec").field "cases") = .ok cs →
      Declared.casesOf ((m.field "exec").field "cases") = .ok cs := by
    rintro rfl cs hcs
    rwa [hexec rfl] at hcs
  refine ⟨fun hk => ?_, fun hk save hsave => ⟨?_, hsaved hk save ?_⟩, fun hk t ht => ?_, hprompt_free, hmodel_free,
    fun hk t ht => ?_, fun hk => ?_, fun hk => ?_, fun hk => ?_, fun hk cs hcs c hc => ?_,
    fun hk cs hcs c hc hwhen => ?_⟩
  · rw [hpost]
    exact isEnding_of_labels (S := A.sealed) (labels_next hnode)
  · rw [hpost] at hsave
    refine hfills _ (List.mem_append_right _ ?_)
    rw [if_neg hk]
    exact List.mem_map_of_mem hsave
  · rwa [hpost] at hsave
  · refine hwork _ ?_
    rw [workTemplates, if_pos hk]
    exact mem_filledText (hprompt hk t ht)
  · subst hk
    rw [hexec rfl] at ht
    exact hrequest rfl _ (List.mem_append_left _ (mem_filledText ht))
  · subst hk
    rw [hexec rfl]
    exact hrequest rfl _ (List.mem_append_right _ List.mem_cons_self)
  · subst hk
    rw [hexec rfl]
    exact hrequest rfl _ (List.mem_append_right _ (List.mem_cons_of_mem _ List.mem_cons_self))
  · subst hk
    rw [hexec rfl, ← Value.orElse_nothing_fresh]
    exact Value.free_orElse hdata_free Value.free_nothing
  · have hrouter := (isRouter_of_kindOf? hkind).trans (beq_iff_eq.2 hk)
    exact isEnding_of_labels (S := A.sealed) (labels_case hnode hrouter (hcases hk cs hcs) c hc)
  · have hrouter := (isRouter_of_kindOf? hkind).trans (beq_iff_eq.2 hk)
    refine hconditions hk _ (List.mem_filter.2 ⟨List.mem_map_of_mem ?_, ?_⟩)
    · exact mem_items_of_casesOf hnode hrouter (hcases hk cs hcs) hc
    · revert hwhen
      cases c.field "when" <;> simp [Value.isNull]

end Accord

end NodeFlow
