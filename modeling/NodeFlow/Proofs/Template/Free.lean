import NodeFlow.Proofs.Expr.Free
import NodeFlow.Template.Render
/-!
# What templates hand on

A template over a free scope stands for a free value. The template itself need not be free: its lists
and objects are made anew, its texts are filled, and all that it could hand on as it is are stores. So
it is enough that it is free without its marks.
-/

set_option autoImplicit false

namespace NodeFlow

variable {S : Seal}

/-! ## 1. What templates see -/

/-- A scope whose values are free. -/
structure Scope.Free (S : Seal) (s : Scope) : Prop where
  ctx : s.ctx.Free S
  result : s.result.Free S
  exec : ∀ v, s.exec = some v → v.Free S
  item : ∀ v, s.item = some v → v.Free S
  params : s.params.Free S

theorem Value.free_orElse {v w : Value} (hv : v.Free S) (hw : w.Free S) : (v.orElse w).Free S := by
  rw [orElse]
  split
  · exact hv
  · exact hw

theorem free_getD {o : Option Value} {w : Value} (ho : ∀ v, o = some v → v.Free S)
    (hw : w.Free S) : (o.getD w).Free S := by
  cases o with
  | none => exact hw
  | some v => exact ho v rfl

theorem Value.free_nothing : (Value.ofMembers []).Free S :=
  free_ofMembers fun _ hm => absurd hm List.not_mem_nil

theorem Scope.Free.names {s : Scope} (hs : s.Free S) : ∀ n ∈ s.names, n.2.Free S := by
  have hctx : (if s.ctx.isNull then Value.ofMembers [] else s.ctx).Free S := by
    split
    · exact Value.free_nothing
    · exact hs.ctx
  have hitem : (s.item.getD .undefined).Free S := free_getD hs.item (Value.free_of_isPlain rfl)
  intro n hn
  simp only [Scope.names, List.mem_cons, List.not_mem_nil, or_false] at hn
  rcases hn with rfl | rfl | rfl | rfl | rfl
  · exact hctx
  · exact hs.result
  · exact free_getD hs.exec hs.result
  · exact hitem
  · exact Value.free_orElse hs.params Value.free_nothing

/-! ## 2. Values without their marks -/

theorem Value.Free.fresh {v : Value} (hv : v.Free S) : v.fresh.Free S := by
  induction v using Value.induction with
  | plain v hp => rwa [fresh_of_isPlain hp]
  | list cell xs ih =>
    rw [fresh_list]
    have hxs := (free_list.1 hv).2
    exact free_ofList (List.forall_mem_map.2 fun x hx => ih x hx (hxs x hx))
  | dict cell ms ih =>
    rw [fresh_dict]
    have hms := (free_dict.1 hv).2
    exact free_ofMembers (List.forall_mem_map.2 fun m hm => ih m hm (hms m hm))
  | store cell name ms _ => exact hv

/-! ## 3. Filling -/

theorem Noted.bind_ok {α β : Type} {x : Noted α} {f : α → Noted β} {b : β}
    (h : (x.bind f).result = .ok b) : ∃ a, x.result = .ok a ∧ (f a).result = .ok b := by
  rw [bind] at h
  split at h
  · next a hx => exact ⟨a, hx, h⟩
  · cases h

theorem Noted.map_ok {α β : Type} {x : Noted α} {f : α → β} {b : β}
    (h : (x.map f).result = .ok b) : ∃ a, x.result = .ok a ∧ f a = b :=
  eq_map_ok h

namespace Template

variable {scope : Scope} {node : String} {v : Value}

/-- What a filled template is: a text, or the template itself. -/
theorem free_of_interpolate {t : Value} (ht : t.Free S)
    (h : (interpolate scope node t).result = .ok v) : v.Free S := by
  rw [interpolate.eq_def] at h
  split at h
  · obtain ⟨s, -, rfl⟩ := Noted.map_ok h
    exact Value.free_of_isPlain rfl
  · exact Except.ok.inj h ▸ ht

theorem free_of_renderItems {xs vs : List Value}
    (hxs : ∀ x ∈ xs, ∀ v, (render scope node x).result = .ok v → v.Free S)
    (h : (renderItems scope node xs).result = .ok vs) : ∀ v ∈ vs, v.Free S := by
  induction xs generalizing vs with
  | nil =>
    obtain rfl := Except.ok.inj h
    intro v hv
    exact absurd hv List.not_mem_nil
  | cons x xs ih =>
    rw [List.forall_mem_cons] at hxs
    rw [renderItems] at h
    obtain ⟨v, hv, hrest⟩ := Noted.bind_ok h
    obtain ⟨ws, hws, rfl⟩ := Noted.map_ok hrest
    exact List.forall_mem_cons.2 ⟨hxs.1 v hv, ih hxs.2 hws⟩

theorem free_of_renderMembers {ms vs : List (String × Value)}
    (hms : ∀ m ∈ ms, ∀ v, (render scope node m.2).result = .ok v → v.Free S)
    (h : (renderMembers scope node ms).result = .ok vs) : ∀ v ∈ vs, v.2.Free S := by
  induction ms generalizing vs with
  | nil =>
    obtain rfl := Except.ok.inj h
    intro v hv
    exact absurd hv List.not_mem_nil
  | cons m ms ih =>
    rw [List.forall_mem_cons] at hms
    rw [renderMembers] at h
    obtain ⟨v, hv, hrest⟩ := Noted.bind_ok h
    obtain ⟨ws, hws, rfl⟩ := Noted.map_ok hrest
    exact List.forall_mem_cons.2 ⟨hms.1 v hv, ih hms.2 hws⟩

/-! ## 4. What is handed on -/

/-- What holds of the expression of every text that is one placeholder and blanks around it. Such a text stands for
the value of its expression itself. -/
inductive Lone (P : List Char → Prop) : Value → Prop
  | text {s : String} : (∀ body, pieces (Text.strip s.toList) = [.hole body] → P (expressionOf body)) →
    Lone P (.str s)
  | list {cell : Option Nat} {xs : List Value} : (∀ x ∈ xs, Lone P x) → Lone P (.list cell xs)
  | dict {cell : Option Nat} {ms : List (String × Value)} : (∀ m ∈ ms, Lone P m.2) → Lone P (.dict cell ms)
  | other {v : Value} : v.isText = false → v.isList = false → v.isDict = false → Lone P v

theorem lone_of_forall {P : List Char → Prop} (h : ∀ e, P e) (v : Value) : Lone P v := by
  induction v using Value.induction with
  | plain v hp =>
    cases v with
    | str s => exact .text fun body _ => h _
    | list | dict => cases hp
    | _ => exact .other rfl rfl rfl
  | list cell xs ih => exact .list ih
  | dict cell ms ih => exact .dict ih
  | store cell name ms _ => exact .other rfl rfl rfl

theorem Lone.mono {P Q : List Char → Prop} {v : Value} (h : Lone P v) (himp : ∀ e, P e → Q e) : Lone Q v := by
  induction h with
  | text hs => exact .text fun body hbody => himp _ (hs body hbody)
  | list _ ih => exact .list ih
  | dict _ ih => exact .dict ih
  | other ht hl hd => exact .other ht hl hd

theorem lone_of_fresh {P : List Char → Prop} {v : Value} (h : Lone P v.fresh) : Lone P v := by
  induction v using Value.induction with
  | plain v hp => rwa [Value.fresh_of_isPlain hp] at h
  | list cell xs ih =>
    rw [Value.fresh_list] at h
    cases h with
    | list hxs => exact .list fun x hx => ih x hx (hxs _ (List.mem_map_of_mem hx))
    | other _ hlist _ => cases hlist
  | dict cell ms ih =>
    rw [Value.fresh_dict] at h
    cases h with
    | dict hms => exact .dict fun m hm => ih m hm (hms _ (List.mem_map_of_mem hm))
    | other _ _ hdict => cases hdict
  | store cell name ms _ => exact .other rfl rfl rfl

/-- The value that a template stands for is free if the values are that it hands on. -/
theorem free_of_render_lone {t v : Value} (hlone : Lone (fun e => ∀ v, evaluateIn scope e = .ok v → v.Free S) t)
    (ht : t.fresh.Free S) (h : (render scope node t).result = .ok v) : v.Free S := by
  induction hlone generalizing v with
  | @text s hs =>
    rw [render, renderText] at h
    split at h
    · next body hbody =>
      dsimp only at h
      split at h
      · exact free_of_ok h rfl
      · next w _ heval =>
        obtain rfl := Except.ok.inj h
        exact hs body hbody w heval
      · cases h
      · exact free_of_ok h rfl
    · obtain ⟨s, -, rfl⟩ := Noted.map_ok h
      exact Value.free_of_isPlain rfl
  | list _ ih =>
    rw [Value.fresh_list, Value.free_list, List.forall_mem_map] at ht
    rw [render] at h
    obtain ⟨vs, hvs, rfl⟩ := Noted.map_ok h
    exact Value.free_ofList (free_of_renderItems (fun x hx v hv => ih x hx (ht.2 x hx) hv) hvs)
  | dict _ ih =>
    rw [Value.fresh_dict, Value.free_dict, List.forall_mem_map] at ht
    rw [render] at h
    obtain ⟨vs, hvs, rfl⟩ := Noted.map_ok h
    exact Value.free_ofMembers (free_of_renderMembers (fun m hm v hv => ih m hm (ht.2 m hm) hv) hvs)
  | @other t htext hlist hdict =>
    cases t with
    | str => cases htext
    | list => cases hlist
    | dict => cases hdict
    | store =>
      simp only [render, Noted.pure, Except.ok.injEq] at h
      exact h ▸ ht
    | _ =>
      simp only [render, Noted.pure, Except.ok.injEq] at h
      exact h ▸ Value.free_of_isPlain rfl

/-- The value that a template stands for is free. -/
theorem free_of_render (hs : scope.Free S) {t : Value} (ht : t.fresh.Free S)
    (h : (render scope node t).result = .ok v) : v.Free S :=
  free_of_render_lone (lone_of_forall (fun _ _ => free_of_evaluate hs.names) t) ht h

end Template

end NodeFlow
