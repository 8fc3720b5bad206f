import NodeFlow.Proofs.Expr.Renaming
import NodeFlow.Proofs.Run.Lockstep
import NodeFlow.Proofs.Template.Free
/-!
# Templates over scopes that agree

Two scopes agree on an expression if it comes to the same in both, up to a renaming. What a template becomes then
only depends on its expressions: if the scopes agree on each of them the results are the same up to the renaming,
with the same diagnostics.

Renamed scopes agree on every expression. Other scopes may agree on some expressions only.
-/

set_option autoImplicit false

namespace NodeFlow

variable {σ : Renaming}

/-! ## 1. Results with diagnostics -/

/-- Two results that correspond, with the same diagnostics. -/
structure Noted.Alike {α β : Type} (R : α → β → Prop) (x : Noted α) (y : Noted β) : Prop where
  result : EndsAlike R x.result y.result
  notes : y.notes = x.notes

namespace Noted

variable {α β γ δ : Type} {R : α → β → Prop} {S : γ → δ → Prop}

theorem Alike.pure {a : α} {b : β} (h : R a b) : Alike R (.pure a) (.pure b) := ⟨.ok h, rfl⟩

theorem Alike.bind {x : Noted α} {y : Noted β} {f : α → Noted γ} {g : β → Noted δ} (h : x.Alike R y)
    (hfg : ∀ a b, R a b → (f a).Alike S (g b)) : (x.bind f).Alike S (y.bind g) := by
  obtain ⟨r, notes⟩ := x
  obtain ⟨r', notes'⟩ := y
  obtain ⟨hend, hnotes⟩ := h
  dsimp only at hend hnotes
  subst hnotes
  cases hend with
  | ok hab => exact ⟨(hfg _ _ hab).result, congrArg (notes' ++ ·) (hfg _ _ hab).notes⟩
  | error e => exact ⟨.error e, rfl⟩

theorem Alike.map {x : Noted α} {y : Noted β} {f : α → γ} {g : β → δ} (h : x.Alike R y)
    (hfg : ∀ a b, R a b → S (f a) (g b)) : (x.map f).Alike S (y.map g) :=
  ⟨h.result.map hfg, h.notes⟩

end Noted

/-! ## 2. Scopes -/

/-- A scope of renamed values. -/
def Scope.renamed (σ : Renaming) (s : Scope) : Scope where
  ctx := s.ctx.renamed σ
  result := s.result.renamed σ
  exec := s.exec.map (Value.renamed σ)
  item := s.item.map (Value.renamed σ)
  params := s.params.renamed σ

theorem Scope.names_renamed (s : Scope) : (s.renamed σ).names = Expr.renamedNames σ s.names := by
  have hnothing : (Value.ofMembers []).renamed σ = .ofMembers [] := by simp
  have hctx : (if (s.ctx.renamed σ).isNull then Value.ofMembers [] else s.ctx.renamed σ) =
      (if s.ctx.isNull then Value.ofMembers [] else s.ctx).renamed σ := by
    rw [Value.isNull_renamed]
    split
    · exact hnothing.symm
    · rfl
  have hexec : (s.exec.map (Value.renamed σ)).getD (s.result.renamed σ) = (s.exec.getD s.result).renamed σ := by
    cases s.exec <;> rfl
  have hitem : (s.item.map (Value.renamed σ)).getD .undefined = (s.item.getD .undefined).renamed σ := by
    cases s.item <;> rfl
  have hparams := Value.orElse_renamed (σ := σ) s.params (.ofMembers [])
  rw [hnothing] at hparams
  simp only [names, renamed, Expr.renamedNames, List.map_cons, List.map_nil, hexec, hitem, hparams]
  exact congrArg (fun ctx => ("ctx", ctx) :: _) hctx

namespace Template

/-- Two scopes agree on an expression: it comes to the same in both, up to a renaming. -/
def Agree (σ : Renaming) (scope scope' : Scope) (expr : List Char) : Prop :=
  Expr.Alike (fun v v' => v' = v.renamed σ) (evaluateIn scope expr) (evaluateIn scope' expr)

theorem agree_renamed (scope : Scope) (expr : List Char) : Agree σ scope (scope.renamed σ) expr := by
  rw [Agree, evaluateIn, evaluateIn, Scope.names_renamed]
  exact evaluate_renamed _ _

/-! ## 3. The expressions of a template -/

/-- The expressions of placeholders. -/
def holes (ps : List Piece) : List (List Char) :=
  ps.filterMap fun
    | .hole body => some (expressionOf body)
    | .plain _ => none

/-- The expressions of a template text, with the blanks around it and without them. -/
def expressions (s : String) : List (List Char) := holes (pieces s.toList) ++ holes (pieces (Text.strip s.toList))

/-- What holds of every expression of a template. -/
inductive Every (P : List Char → Prop) : Value → Prop
  | text {s : String} : (∀ e ∈ expressions s, P e) → Every P (.str s)
  | list {cell : Option Nat} {xs : List Value} : (∀ x ∈ xs, Every P x) → Every P (.list cell xs)
  | dict {cell : Option Nat} {ms : List (String × Value)} : (∀ m ∈ ms, Every P m.2) → Every P (.dict cell ms)
  | other {v : Value} : v.isText = false → v.isList = false → v.isDict = false → Every P v

variable {P Q : List Char → Prop} {scope scope' : Scope} {node : String}

theorem Every.mono {v : Value} (h : Every P v) (himp : ∀ e, P e → Q e) : Every Q v := by
  induction h with
  | text hs => exact .text fun e he => himp e (hs e he)
  | list _ ih => exact .list ih
  | dict _ ih => exact .dict ih
  | other ht hl hd => exact .other ht hl hd

theorem every_of_forall (h : ∀ e, P e) (v : Value) : Every P v := by
  induction v using Value.induction with
  | plain v hp =>
    cases v with
    | str s => exact .text fun e _ => h e
    | list | dict => cases hp
    | _ => exact .other rfl rfl rfl
  | list cell xs ih => exact .list ih
  | dict cell ms ih => exact .dict ih
  | store cell name ms _ => exact .other rfl rfl rfl

/-! ## 4. Filling -/

theorem failure_congr {shown expr : List Char} {r r' : Reason} (h : r'.message = r.message) :
    failure node shown expr r' = failure node shown expr r := by
  delta failure
  rw [h]

theorem fill_alike {p : Piece} (h : ∀ e ∈ holes [p], Agree σ scope scope' e) :
    (fill scope node p).Alike Eq (fill scope' node p) := by
  cases p with
  | plain c => exact .pure rfl
  | hole body =>
    have hbody : Agree σ scope scope' (expressionOf body) := h _ (List.mem_singleton_self _)
    rw [fill, fill]
    dsimp only
    rw [Agree] at hbody
    generalize evaluateIn scope (expressionOf body) = r at hbody ⊢
    generalize evaluateIn scope' (expressionOf body) = r' at hbody ⊢
    cases hbody with
    | ok hv => exact .pure (by rw [hv, Value.display_renamed])
    | refused hreason => exact ⟨.ok rfl, congrArg (· :: []) (failure_congr hreason)⟩
    | escaped f => exact ⟨.error f, rfl⟩

theorem fillAll_alike {ps : List Piece} (h : ∀ e ∈ holes ps, Agree σ scope scope' e) :
    (fillAll scope node ps).Alike Eq (fillAll scope' node ps) := by
  induction ps with
  | nil => exact .pure rfl
  | cons p ps ih =>
    have hsplit : holes (p :: ps) = holes [p] ++ holes ps := by
      rw [holes, holes, holes, ← List.filterMap_append, List.singleton_append]
    rw [hsplit, List.forall_mem_append] at h
    refine (fill_alike h.1).bind fun cs cs' hcs => (ih h.2).map fun ds ds' hds => ?_
    rw [hcs, hds]

theorem fillText_alike {s : String} (h : ∀ e ∈ expressions s, Agree σ scope scope' e) :
    (fillText scope node s).Alike Eq (fillText scope' node s) :=
  (fillAll_alike fun e he => h e (List.mem_append_left _ he)).map fun _ _ => congrArg _

theorem interpolate_of_not_text {t : Value} (h : t.isText = false) : interpolate scope node t = .pure t := by
  cases t with
  | str => cases h
  | _ => rfl

/-- A filled template is the same for scopes that agree. -/
theorem interpolate_alike {t : Value} (h : Every (Agree σ scope scope') t) :
    (interpolate scope node t).Alike (fun v v' => v' = v.renamed σ) (interpolate scope' node (t.renamed σ)) := by
  have hother : t.isText = false →
      (interpolate scope node t).Alike (fun v v' => v' = v.renamed σ) (interpolate scope' node (t.renamed σ)) := by
    intro htext
    rw [interpolate_of_not_text htext, interpolate_of_not_text (by rwa [Value.isText_renamed])]
    exact .pure rfl
  cases h with
  | text hs => exact (fillText_alike hs).map fun s s' hs => by rw [hs, Value.renamed_str]
  | list => exact hother rfl
  | dict => exact hother rfl
  | other htext => exact hother htext

/-! ## 5. Values -/

theorem renderText_alike {s : String} (h : ∀ e ∈ expressions s, Agree σ scope scope' e) :
    (renderText scope node s).Alike (fun v v' => v' = v.renamed σ) (renderText scope' node s) := by
  have hfilled : (fillText scope node s).Alike Eq (fillText scope' node s) := fillText_alike h
  have htext := hfilled.map (S := fun v v' => v' = v.renamed σ) (f := Value.str)
    (g := Value.str) fun s s' hs => by rw [hs, Value.renamed_str]
  have hstripped : ∀ e ∈ holes (pieces (Text.strip s.toList)), Agree σ scope scope' e :=
    fun e he => h e (List.mem_append_right _ he)
  rw [renderText, renderText]
  split
  · next body hpieces =>
    rw [hpieces] at hstripped
    have hbody : Agree σ scope scope' (expressionOf body) := hstripped _ (List.mem_singleton_self _)
    rw [Agree] at hbody
    dsimp only
    generalize evaluateIn scope (expressionOf body) = r at hbody ⊢
    generalize evaluateIn scope' (expressionOf body) = r' at hbody ⊢
    cases hbody with
    | @ok v v' hv =>
      subst hv
      cases v with
      | list =>
        rw [Value.renamed_list]
        exact .pure (Value.renamed_list _ _).symm
      | dict =>
        rw [Value.renamed_dict]
        exact .pure (Value.renamed_dict _ _).symm
      | store =>
        rw [Value.renamed_store]
        exact .pure (Value.renamed_store _ _ _).symm
      | _ => exact .pure rfl
    | refused hreason => exact ⟨.ok rfl, congrArg (· :: []) (failure_congr hreason)⟩
    | escaped f => exact ⟨.error f, rfl⟩
  · exact htext

theorem renderItems_alike {xs : List Value}
    (hxs : ∀ x ∈ xs, (render scope node x).Alike (fun v v' => v' = v.renamed σ) (render scope' node (x.renamed σ))) :
    (renderItems scope node xs).Alike (fun vs vs' => vs' = vs.map (Value.renamed σ))
      (renderItems scope' node (xs.map (Value.renamed σ))) := by
  induction xs with
  | nil => exact .pure rfl
  | cons x xs ih =>
    rw [List.forall_mem_cons] at hxs
    rw [List.map_cons, renderItems, renderItems]
    refine hxs.1.bind fun v v' hv => (ih hxs.2).map fun vs vs' hvs => ?_
    rw [hv, hvs, List.map_cons]

theorem renderMembers_alike {ms : List (String × Value)}
    (hms : ∀ m ∈ ms, (render scope node m.2).Alike (fun v v' => v' = v.renamed σ)
      (render scope' node (m.2.renamed σ))) :
    (renderMembers scope node ms).Alike (fun vs vs' => vs' = vs.map fun m => (m.1, m.2.renamed σ))
      (renderMembers scope' node (ms.map fun m => (m.1, m.2.renamed σ))) := by
  induction ms with
  | nil => exact .pure rfl
  | cons m ms ih =>
    rw [List.forall_mem_cons] at hms
    rw [List.map_cons, renderMembers, renderMembers]
    refine hms.1.bind fun v v' hv => (ih hms.2).map fun vs vs' hvs => ?_
    rw [hv, hvs, List.map_cons]

/-- The value that a template stands for is the same for scopes that agree. -/
theorem render_alike {t : Value} (h : Every (Agree σ scope scope') t) :
    (render scope node t).Alike (fun v v' => v' = v.renamed σ) (render scope' node (t.renamed σ)) := by
  induction h with
  | text hs =>
    rw [Value.renamed_str, render, render]
    exact renderText_alike hs
  | list _ ih =>
    rw [Value.renamed_list, render, render]
    exact (renderItems_alike ih).map fun vs vs' hvs => by rw [hvs, Value.renamed_ofList]
  | dict _ ih =>
    rw [Value.renamed_dict, render, render]
    exact (renderMembers_alike ih).map fun vs vs' hvs => by rw [hvs, Value.renamed_ofMembers]
  | @other v htext hlist hdict =>
    cases v with
    | str => cases htext
    | list => cases hlist
    | dict => cases hdict
    | store cell name ms =>
      rw [Value.renamed_store, render, render]
      · exact .pure (Value.renamed_store _ _ _).symm
      all_goals simp
    | _ => exact .pure rfl

/-! ## 6. Conditions -/

/-- What a condition that is no truth value comes to, by what its expression comes to. -/
def conditionEnd (node : String) (t : Value) : Except EvalError Value → Noted Bool
  | .ok v => .pure v.truthy
  | .error (.escaped f) => ⟨.error f, []⟩
  | .error (.refused r) =>
    ⟨.ok false, [{
      code := Diagnostic.conditionFailed
      message := "Condition evaluation failed: " ++ t.notate ++ ": " ++ r.reason.message
      node := .str node
      data := [("expr", .str t.plain)] }]⟩

theorem condition_of_not_bool {t : Value} (h : ∀ b, t ≠ .bool b) :
    condition scope node t = conditionEnd node t (evaluateIn scope t.plain.toList) := by
  rw [condition.eq_def]
  generalize hr : evaluateIn scope = r
  split
  · next b => exact absurd rfl (h b)
  · generalize r t.plain.toList = v
    rcases v with (r | f) | v <;> delta conditionEnd <;> rfl

theorem conditionEnd_alike {t : Value} {r r' : Except EvalError Value}
    (h : Expr.Alike (fun v v' => v' = v.renamed σ) r r') :
    (conditionEnd node t r).Alike Eq (conditionEnd node (t.renamed σ) r') := by
  cases h with
  | ok hv => exact .pure (by rw [hv, Value.truthy_renamed])
  | @refused r r' hreason =>
    have hnotes : (conditionEnd node (t.renamed σ) (.error (.refused r'))).notes =
        (conditionEnd node t (.error (.refused r))).notes := by
      rw [conditionEnd, conditionEnd, Value.plain_renamed, Value.notate_renamed, hreason]
    exact ⟨.ok rfl, hnotes⟩
  | escaped f => exact ⟨.error f, rfl⟩

/-- A condition holds in both of two scopes that agree on it, or in neither. -/
theorem condition_alike {t : Value} (h : Agree σ scope scope' t.plain.toList) :
    (condition scope node t).Alike Eq (condition scope' node (t.renamed σ)) := by
  by_cases hbool : ∃ b, t = .bool b
  · obtain ⟨b, rfl⟩ := hbool
    exact .pure rfl
  · have hbool' : ∀ b, t.renamed σ ≠ .bool b := by
      intro b hb
      cases t with
      | bool b' => exact hbool ⟨b', rfl⟩
      | list | dict | store => simp at hb
      | _ => cases hb
    rw [condition_of_not_bool (not_exists.mp hbool), condition_of_not_bool hbool', Value.plain_renamed]
    exact conditionEnd_alike h

end Template

end NodeFlow
