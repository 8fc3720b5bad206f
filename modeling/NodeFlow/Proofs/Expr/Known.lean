import NodeFlow.Proofs.Expr.Renaming
import NodeFlow.Proofs.Template.Free
/-!
# Parameters that are known

The parameters of a graph are known before it runs, since they come with the description and the environment. So it
is known as well what an expression comes to that does no more than follow written keys down from them, and whether
it hands on a container of theirs or something that has no cell.

The awkward thing up front: what is known of the parameters has no marks, or others than they have in a run. What an
expression comes to is therefore compared without marks.
-/

set_option autoImplicit false

namespace NodeFlow

variable {S : Seal}

/-! ## 1. Properties without marks -/

namespace Value

@[simp] theorem isPlain_fresh (v : Value) : v.fresh.isPlain = v.isPlain := by
  cases v <;> simp [isPlain, fresh]

@[simp] theorem fresh_fresh (v : Value) : v.fresh.fresh = v.fresh := by
  induction v using Value.induction with
  | plain v hp => rw [fresh_of_isPlain hp, fresh_of_isPlain hp]
  | list cell xs ih =>
    rw [fresh_list, fresh_list, List.map_map]
    exact congrArg (Value.list none) (List.map_congr_left ih)
  | dict cell ms ih =>
    rw [fresh_dict, fresh_dict, List.map_map]
    exact congrArg (Value.dict none) (List.map_congr_left fun m hm => congrArg (Prod.mk m.1) (ih m hm))
  | store cell name ms _ => rfl

theorem memberAt_fresh (ms : List (String × Value)) (key : Value) :
    (memberAt (ms.map fun m => (m.1, m.2.fresh)) key).map fresh = (memberAt ms key).map fresh := by
  cases key with
  | str k =>
    rw [memberAt, memberAt, Members.get?_map, List.length_map]
    cases Members.get? ms k with
    | none => rfl
    | some v => exact congrArg Except.ok v.fresh_fresh
  | _ => rfl

theorem elementOf_fresh (xs : List Value) (key : Value) :
    (elementOf (xs.map fresh) key).map fresh = (elementOf xs key).map fresh := by
  by_cases hkey : key = .str "length"
  · subst hkey
    rw [elementOf, elementOf, List.length_map]
  · rw [elementOf_of_ne hkey, elementOf_of_ne hkey]
    cases place? key with
    | error f => rfl
    | ok place =>
      cases place with
      | none => rfl
      | some n =>
        dsimp only
        rw [elementAt_map]
        cases elementAt xs n with
        | none => rfl
        | some v => exact congrArg Except.ok v.fresh_fresh

theorem property_fresh (container key : Value) :
    (container.fresh.property key).map fresh = (container.property key).map fresh := by
  cases container with
  | list cell xs =>
    rw [fresh_list]
    exact elementOf_fresh xs key
  | dict cell ms =>
    rw [fresh_dict]
    exact memberAt_fresh ms key
  | _ => rfl

/-- Values that are the same but for their marks have the same properties but for their marks. -/
theorem fresh_property {v u part : Value} (hfresh : v.fresh = u.fresh) {key : Value} (hpart : v.property key = .ok part) :
    ∃ known, u.property key = .ok known ∧ part.fresh = known.fresh := by
  have hsame := property_fresh u key
  rw [← hfresh, property_fresh, hpart] at hsame
  obtain ⟨known, hknown, heq⟩ := eq_map_ok hsame.symm
  exact ⟨known, hknown, heq.symm⟩

end Value

/-! ## 2. Expressions -/

namespace Expr

/-- What an expression comes to that follows written keys down from the parameters. -/
def known? (params : Value) : Expr → Option Value
  | .name n => if n = "params" then some params else none
  | .get base (.lit key) => (known? params base).bind fun v => (v.property key.value).toOption
  | _ => none
termination_by structural e => e

/-- A value that an expression may come to, as a key: one that is written is known. -/
def MayGive (key : Expr) (k : Value) : Prop := ∀ l, key = .lit l → k = l.value

mutual

/-- An expression that hands on no container of the parameters, nor the parameters themselves. -/
def Spares (params : Value) : Expr → Prop
  | .name n => n ≠ "params"
  | .get base key =>
    match known? params base with
    | some v => ∀ k part, key.MayGive k → v.property k = .ok part → part.isPlain = true
    | none => Spares params base
  | .list items => AllSpare params items
  | .or l r => Spares params l ∧ Spares params r
  | .and l r => Spares params l ∧ Spares params r
  | _ => True
termination_by structural e => e

/-- Expressions none of which hands on a container of the parameters. -/
def AllSpare (params : Value) : List Expr → Prop
  | [] => True
  | e :: es => Spares params e ∧ AllSpare params es
termination_by structural es => es

end

theorem allSpare_iff {params : Value} {es : List Expr} : AllSpare params es ↔ ∀ e ∈ es, Spares params e := by
  induction es with
  | nil => exact iff_of_true trivial fun e he => absurd he List.not_mem_nil
  | cons e es ih => rw [AllSpare, ih, List.forall_mem_cons]

variable {names : Names} {params : Value}

/-- What is known of an expression is what it comes to, but for its marks. -/
theorem fresh_of_known? (hparams : ∀ v, names.lookup "params" = some v → v.fresh = params.fresh) {e : Expr} {v u : Value}
    (hknown : known? params e = some u) (h : eval names e = .ok v) : v.fresh = u.fresh := by
  induction e using known?.induct generalizing v u with
  | case1 =>
    obtain rfl := Option.some.inj hknown
    rw [eval] at h
    split at h
    · next w hget => exact Except.ok.inj h ▸ hparams w hget
    · cases h
  | case2 n hn =>
    rw [known?, if_neg hn] at hknown
    cases hknown
  | case3 base key ih =>
    rw [known?, Option.bind_eq_some_iff] at hknown
    obtain ⟨b, hb, hpart⟩ := hknown
    rw [eval] at h
    split at h
    · cases h
    next w hbase =>
    obtain ⟨known, hproperty, hsame⟩ := Value.fresh_property (ih hb hbase) (eq_refused_ok h)
    rw [hproperty] at hpart
    exact Option.some.inj hpart ▸ hsame
  | case4 e hname hget =>
    rw [known?.eq_def] at hknown
    split at hknown
    · exact absurd rfl (hname _)
    · exact absurd rfl (hget _ _)
    · cases hknown

/-- An expression that spares the parameters has a free value, if all other names have. -/
theorem free_of_eval_spares (hparams : ∀ v, names.lookup "params" = some v → v.fresh = params.fresh)
    (hothers : ∀ n v, n ≠ "params" → names.lookup n = some v → v.Free S) {e : Expr} {v : Value}
    (hspares : Spares params e) (h : eval names e = .ok v) : v.Free S := by
  refine Frees.eval ⟨fun n v hn hget => hothers n v (by rwa [Spares] at hn) hget,
    fun base key b k v hn hb hbase hkey hv => ?_, fun items hn => ?_, fun l r hn => by rwa [Spares] at hn,
    fun l r hn => by rwa [Spares] at hn⟩ e hspares h
  · rw [Spares] at hn
    split at hn
    · -- a part of what is known has no cell
      next u hknown =>
      obtain ⟨known, hproperty, hsame⟩ := Value.fresh_property (fresh_of_known? hparams hknown hbase) hv
      refine Value.free_of_isPlain ?_
      rw [← Value.isPlain_fresh, hsame, Value.isPlain_fresh]
      refine hn k known (fun l hl => ?_) hproperty
      rw [hl, eval] at hkey
      exact (Except.ok.inj hkey).symm
    · exact (hb hn).property hv
  · rw [Spares, allSpare_iff] at hn
    exact hn

end Expr

/-! ## 3. Templates -/

/-- A scope whose values are free, but for its parameters, which are known. -/
structure Scope.FreeKnowing (S : Seal) (params : Value) (s : Scope) : Prop where
  ctx : s.ctx.Free S
  result : s.result.Free S
  exec : ∀ v, s.exec = some v → v.Free S
  item : ∀ v, s.item = some v → v.Free S
  isDict : s.params.isDict = true
  params : s.params.fresh = params.fresh

namespace Scope.FreeKnowing

variable {params v : Value} {s : Scope}

theorem lookup_params (hs : s.FreeKnowing S params) (hv : s.names.lookup "params" = some v) : v.fresh = params.fresh := by
  obtain rfl : s.params.orElse (.ofMembers []) = v := Option.some.inj hv
  rw [← hs.params]
  have hdict := hs.isDict
  cases hparams : s.params with
  | dict cell ms =>
    rw [Value.orElse]
    split
    · rfl
    · next hempty =>
      rw [Value.truthy, Bool.not_eq_true', Bool.not_eq_false, List.isEmpty_iff] at hempty
      rw [hempty, Value.fresh_dict]
      rfl
  | _ =>
    rw [hparams] at hdict
    cases hdict

theorem lookup_other (hs : s.FreeKnowing S params) {n : String} (hn : n ≠ "params") (hv : s.names.lookup n = some v) :
    v.Free S := by
  -- under its other names a scope is as one with no parameters, and that is free
  have hwithout : ({ s with params := .null } : Scope).Free S :=
    ⟨hs.ctx, hs.result, hs.exec, hs.item, Value.free_of_isPlain rfl⟩
  have hsame : ({ s with params := .null } : Scope).names.lookup n = s.names.lookup n := by
    have hother : (n == "params") = false := beq_eq_false_iff_ne.2 hn
    simp only [Scope.names, List.lookup_cons, hother]
  exact hwithout.names _ (Members.mem_of_get? (hsame.trans hv))

end Scope.FreeKnowing

namespace Template

variable {scope : Scope} {node : String} {params : Value}

/-- An expression in a template that hands on no container of the parameters. -/
def Spares (params : Value) (expr : List Char) : Prop :=
  ∀ e, Expr.parse (String.ofList (Text.strip expr)) = .ok e → e.Spares params

/-- The value that a template stands for is free if the parameters are known and spared by what stands alone. -/
theorem free_of_render_spares (hs : scope.FreeKnowing S params) {t v : Value} (hlone : Lone (Spares params) t)
    (ht : t.fresh.Free S) (h : (render scope node t).result = .ok v) : v.Free S := by
  refine free_of_render_lone (hlone.mono fun expr hspares u hu => ?_) ht h
  obtain ⟨e, hparse, heval⟩ := evaluate_eq_ok hu
  exact Expr.free_of_eval_spares (fun _ => hs.lookup_params) (fun _ _ hn => hs.lookup_other hn) (hspares e hparse) heval

end Template

end NodeFlow
