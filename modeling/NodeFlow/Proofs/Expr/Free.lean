import NodeFlow.Expr.Eval
import NodeFlow.Proofs.Json.Decoded
/-!
# What expressions hand on

An expression over free values has a free value: what it takes out of a name is a part of it, and
everything else it makes anew.
-/

set_option autoImplicit false

namespace NodeFlow

variable {S : Seal}

/-! ## 1. Results -/

theorem eq_map_ok {ε α β : Type} {f : α → β} {x : Except ε α} {b : β} (h : x.map f = .ok b) :
    ∃ a, x = .ok a ∧ f a = b := by
  cases x with
  | error e => cases h
  | ok a => exact ⟨a, rfl, Except.ok.inj h⟩

/-- A result that is no container is free. -/
theorem free_of_ok {ε : Type} {v w : Value} (h : (Except.ok w : Except ε Value) = .ok v)
    (hw : w.isPlain = true) : v.Free S := by
  obtain rfl := Except.ok.inj h
  exact Value.free_of_isPlain hw

/-- So is one that is made of another result. -/
theorem free_of_map_ok {ε α : Type} {x : Except ε α} {f : α → Value} {v : Value}
    (h : x.map f = .ok v) (hf : ∀ a, (f a).isPlain = true) : v.Free S := by
  obtain ⟨a, -, rfl⟩ := eq_map_ok h
  exact Value.free_of_isPlain (hf a)

/-! ## 2. Properties -/

namespace Value

theorem free_ofList {xs : List Value} (hxs : ∀ x ∈ xs, x.Free S) : (ofList xs).Free S :=
  free_list.2 ⟨nofun, hxs⟩

theorem free_ofMembers {ms : List (String × Value)} (hms : ∀ m ∈ ms, m.2.Free S) :
    (ofMembers ms).Free S :=
  free_dict.2 ⟨nofun, hms⟩

theorem mem_of_elementAt {α : Type} {xs : List α} {n : Int} {x : α}
    (h : elementAt xs n = some x) : x ∈ xs := by
  rw [elementAt] at h
  split at h
  · exact List.mem_of_getElem? h
  · split at h
    · exact List.mem_of_getElem? h
    · cases h

theorem free_of_memberAt {ms : List (String × Value)} {key v : Value}
    (hms : ∀ m ∈ ms, m.2.Free S) (h : memberAt ms key = .ok v) : v.Free S := by
  cases key with
  | str k =>
    rw [memberAt] at h
    split at h
    · -- a member, or else one of the properties that every object has
      next x hget =>
      obtain rfl := Except.ok.inj h
      exact hms _ (Members.mem_of_get? hget)
    · obtain rfl := Except.ok.inj h
      split <;> exact free_of_isPlain rfl
  | list => cases h
  | dict => cases h
  | _ => exact free_of_ok h rfl

theorem free_of_elementOf {xs : List Value} {key v : Value} (hxs : ∀ x ∈ xs, x.Free S)
    (h : elementOf xs key = .ok v) : v.Free S := by
  rw [elementOf.eq_def] at h
  split at h
  · exact free_of_ok h rfl
  · split at h
    · cases h
    · exact free_of_ok h rfl
    · next n _ =>
      obtain rfl := Except.ok.inj h
      cases hat : elementAt xs n with
      | none => exact free_of_isPlain rfl
      | some x => exact hxs x (mem_of_elementAt hat)

theorem isPlain_wholePart (n : Int) (key : Value) : (wholePart n key).isPlain = true := by
  rw [wholePart.eq_def]
  split <;> rfl

theorem isPlain_binaryPart (x : Binary64) (key : Value) : (binaryPart x key).isPlain = true := by
  rw [binaryPart.eq_def]
  split <;> rfl

/-- A property of what is free is free. -/
theorem Free.property {container key v : Value} (hc : container.Free S)
    (h : container.property key = .ok v) : v.Free S := by
  cases container with
  | null => exact free_of_ok h rfl
  | undefined => exact free_of_ok h rfl
  | bool b => exact free_of_ok h (isPlain_wholePart _ _)
  | int n => exact free_of_ok h (isPlain_wholePart _ _)
  | float x => exact free_of_ok h (isPlain_binaryPart _ _)
  | str s =>
    exact free_of_elementOf (List.forall_mem_map.2 fun c _ => free_of_isPlain rfl) h
  | list cell xs => exact free_of_elementOf (free_list.1 hc).2 h
  | dict cell ms => exact free_of_memberAt (free_dict.1 hc).2 h
  | store cell name ms => exact free_of_memberAt (free_store.1 hc).2 h

end Value

/-! ## 3. Operators and functions -/

theorem Number.isPlain_value (n : Number) : n.value.isPlain = true := by
  cases n <;> rfl

theorem free_of_arithValues {op : ArithOp} {l r v : Value}
    (h : Expr.arithValues op l r = .ok v) : v.Free S := by
  rw [Expr.arithValues] at h
  split at h
  · exact free_of_ok h rfl
  · split at h
    · split at h
      · exact free_of_ok h (Number.isPlain_value _)
      · cases h
    · cases h

theorem free_of_negValue {l v : Value} (h : Expr.negValue l = .ok v) : v.Free S := by
  rw [Expr.negValue] at h
  split at h
  · exact free_of_ok h (Number.isPlain_value _)
  · cases h

theorem free_of_length {x v : Value} (h : x.length = .ok v) : v.Free S := by
  rw [Value.length.eq_def] at h
  split at h <;> first | exact free_of_ok h rfl | cases h

theorem free_of_toWhole {x v : Value} (h : x.toWhole = .ok v) : v.Free S := by
  rw [Value.toWhole] at h
  split at h
  · exact free_of_ok h rfl
  · exact free_of_ok h rfl
  · rw [Value.wholeOf.eq_def] at h
    split at h <;> first | exact free_of_ok h rfl | cases h
  · cases h
  · cases h

theorem free_of_toBinary {x v : Value} (h : x.toBinary = .ok v) : v.Free S := by
  rw [Value.toBinary.eq_def] at h
  split at h
  · exact free_of_ok h rfl
  · exact free_of_map_ok h fun _ => rfl
  · exact free_of_map_ok h fun _ => rfl
  · split at h
    · exact free_of_ok h rfl
    · cases h
  · cases h

theorem free_of_decoded {x v : Value} (h : x.decoded = .ok v) : v.Free S := by
  rw [Value.decoded.eq_def] at h
  split at h
  · split at h
    · next w hdecode =>
      obtain rfl := Except.ok.inj h
      exact (Json.isJson_of_decode? hdecode).free S
    · cases h
  · cases h

/-- What a function gives is new. -/
theorem Function.free_of_apply {f : Function} {args : List Value} {v : Value}
    (h : f.apply args = .ok v) : v.Free S := by
  rw [Function.apply.eq_def] at h
  split at h
  · exact free_of_ok h rfl
  · exact free_of_decoded h
  · exact free_of_length h
  · exact free_of_ok h rfl
  · exact free_of_ok h rfl
  · exact free_of_ok h rfl
  · exact free_of_toWhole h
  · exact free_of_toBinary h
  · exact free_of_ok h rfl
  · exact free_of_map_ok h fun _ => rfl
  · split at h <;> exact free_of_ok h rfl
  · cases h

/-- What a method gives is new. -/
theorem Method.free_of_apply {m : Method} {receiver : Value} {args : List Value} {v : Value}
    (h : m.apply receiver args = .ok v) : v.Free S := by
  rw [Method.apply.eq_def] at h
  split at h
  · exact free_of_map_ok h fun _ => rfl
  · exact free_of_ok h rfl
  · exact free_of_ok h rfl
  · exact free_of_ok h rfl
  · exact free_of_ok h rfl
  · exact free_of_ok h rfl
  · cases h

/-! ## 4. Trees -/

theorem eq_refused_ok {α : Type} {x : Except Fault α} {a : α} (h : Expr.refused x = .ok a) :
    x = .ok a := by
  cases x with
  | error f => cases h
  | ok b => exact congrArg Except.ok (Except.ok.inj h)

namespace Expr

/-- Is an expression nothing but a name? -/
def isName : Expr → Bool
  | .name _ => true
  | _ => false

mutual

/-- The names whose values an expression may hand on as they are. Of a name in front of a property only a part is. -/
def handed : Expr → List String
  | .name n => [n]
  | .get base _ => if base.isName then [] else handed base
  | .list items => handedAll items
  | .or l r => handed l ++ handed r
  | .and l r => handed l ++ handed r
  | _ => []
termination_by structural e => e

/-- The names whose values some of several expressions may hand on. -/
def handedAll : List Expr → List String
  | [] => []
  | e :: es => handed e ++ handedAll es
termination_by structural es => es

end

/-- A condition under which expressions over some names have free values: it goes down to all that they may hand on
as it is. Whatever else an expression comes to is made anew, and no condition is needed for it. -/
structure Frees (S : Seal) (names : Names) (Q : Expr → Prop) : Prop where
  name : ∀ n v, Q (.name n) → names.lookup n = some v → v.Free S
  get : ∀ base key b k v, Q (.get base key) → (Q base → b.Free S) → eval names base = .ok b → eval names key = .ok k →
    b.property k = .ok v → v.Free S
  list : ∀ items, Q (.list items) → ∀ e ∈ items, Q e
  or : ∀ l r, Q (.or l r) → Q l ∧ Q r
  and : ∀ l r, Q (.and l r) → Q l ∧ Q r

section

variable {names : Names} {Q : Expr → Prop}

mutual

theorem Frees.eval (hQ : Frees S names Q) : ∀ (e : Expr) {v : Value}, Q e → eval names e = .ok v → v.Free S
  | .lit l, v, _, h => by
    cases l <;> exact free_of_ok h rfl
  | .name n, v, he, h => by
    rw [Expr.eval] at h
    split at h
    · next w hget =>
      obtain rfl := Except.ok.inj h
      exact hQ.name n _ he hget
    · cases h
  | .get base key, v, he, h => by
    rw [Expr.eval] at h
    split at h
    · cases h
    next b hbase =>
    split at h
    · cases h
    next k hkey =>
    exact hQ.get base key b k v he (fun hb => hQ.eval base hb hbase) hbase hkey (eq_refused_ok h)
  | .list items, v, he, h => by
    rw [Expr.eval] at h
    obtain ⟨vs, hvs, rfl⟩ := eq_map_ok h
    exact Value.free_ofList (hQ.evalAll items (hQ.list items he) hvs)
  -- one of the operands as it is
  | .or l r, v, he, h => by
    rw [Expr.eval] at h
    split at h
    · cases h
    next a hl =>
    split at h
    · exact Except.ok.inj h ▸ hQ.eval l (hQ.or l r he).1 hl
    · exact hQ.eval r (hQ.or l r he).2 h
  | .and l r, v, he, h => by
    rw [Expr.eval] at h
    split at h
    · cases h
    next a hl =>
    split at h
    · exact hQ.eval r (hQ.and l r he).2 h
    · exact Except.ok.inj h ▸ hQ.eval l (hQ.and l r he).1 hl
  -- and from here on the value is made anew, so the operands do not matter
  | .not e, v, _, h => by
    rw [Expr.eval] at h
    exact free_of_map_ok h fun _ => rfl
  | .neg e, v, _, h => by
    rw [Expr.eval] at h
    split at h
    · cases h
    · exact free_of_negValue h
  | .compare op l r, v, _, h => by
    rw [Expr.eval] at h
    split at h
    · cases h
    split at h
    · cases h
    · exact free_of_map_ok h fun _ => rfl
  | .arith op l r, v, _, h => by
    rw [Expr.eval] at h
    split at h
    · cases h
    split at h
    · cases h
    · exact free_of_arithValues h
  | .call f args, v, _, h => by
    rw [Expr.eval] at h
    split at h
    · cases h
    split at h
    · cases h
    · exact Function.free_of_apply (eq_refused_ok h)
  | .method receiver m args, v, _, h => by
    rw [Expr.eval] at h
    split at h
    · cases h
    split at h
    · cases h
    split at h
    · cases h
    split at h
    · cases h
    · exact Method.free_of_apply (eq_refused_ok h)
termination_by structural e => e

theorem Frees.evalAll (hQ : Frees S names Q) :
    ∀ (es : List Expr) {vs : List Value}, (∀ e ∈ es, Q e) → evalAll names es = .ok vs → ∀ v ∈ vs, v.Free S
  | [], vs, _, h => by
    obtain rfl := Except.ok.inj h
    intro v hv
    exact absurd hv List.not_mem_nil
  | e :: es, vs, hes, h => by
    rw [List.forall_mem_cons] at hes
    rw [Expr.evalAll] at h
    split at h
    · cases h
    next v he =>
    obtain ⟨ws, hws, rfl⟩ := eq_map_ok h
    exact List.forall_mem_cons.2 ⟨hQ.eval e hes.1 he, hQ.evalAll es hes.2 hws⟩
termination_by structural es => es

end

/-- Names whose values have nothing but free properties. They need not be free themselves. -/
def PartsFree (S : Seal) (names : Names) : Prop :=
  ∀ n v, names.lookup n = some v → ∀ k w, v.property k = .ok w → w.Free S

theorem handedAll_eq (es : List Expr) : handedAll es = es.flatMap handed := by
  induction es with
  | nil => rfl
  | cons e es ih => rw [handedAll, ih, List.flatMap_cons]

/-- A tree over such names has a free value if the values are free that it may hand on. -/
theorem free_of_eval_handed (hparts : PartsFree S names) {e : Expr} {v : Value}
    (hnames : ∀ n ∈ handed e, ∀ u, names.lookup n = some u → u.Free S) (h : eval names e = .ok v) : v.Free S := by
  refine Frees.eval (Q := fun e => ∀ n ∈ handed e, ∀ u, names.lookup n = some u → u.Free S)
    ⟨fun n v hn hget => hn n (List.mem_singleton_self n) v hget, fun base key b k v hn hb hbase _ hk => ?_,
      fun items hn e he n hmem => hn n ?_, fun l r hn => ?_, fun l r hn => ?_⟩ e hnames h
  · rw [handed] at hn
    split at hn
    · -- a part of what a name stands for
      next hname =>
      cases base with
      | name n =>
        rw [eval] at hbase
        split at hbase
        · next u hget =>
          obtain rfl := Except.ok.inj hbase
          exact hparts n u hget k v hk
        · cases hbase
      | _ => cases hname
    · -- a part of the base, whatever the key is
      exact (hb hn).property hk
  · rw [handed, handedAll_eq]
    exact List.mem_flatMap.2 ⟨e, he, hmem⟩
  · rwa [handed, List.forall_mem_append] at hn
  · rwa [handed, List.forall_mem_append] at hn

end

/-- A tree over free values has a free value. -/
theorem free_of_eval {names : Names} (hnames : ∀ n ∈ names, n.2.Free S) {e : Expr} {v : Value}
    (h : eval names e = .ok v) : v.Free S := by
  have hfree : ∀ n u, names.lookup n = some u → u.Free S := fun n u hget => hnames _ (Members.mem_of_get? hget)
  exact free_of_eval_handed (fun n u hget k w hw => (hfree n u hget).property hw) (fun n _ => hfree n) h

end Expr

theorem evaluate_eq_ok {source : String} {names : Names} {v : Value} (h : evaluate source names = .ok v) :
    ∃ e, Expr.parse source = .ok e ∧ Expr.eval names e = .ok v := by
  rw [evaluate] at h
  split at h
  · cases h
  next e hparse =>
  split at h
  · next w heval => exact ⟨e, hparse, Except.ok.inj h ▸ heval⟩
  · cases h

/-- A text over free values has a free value. -/
theorem free_of_evaluate {source : String} {names : Names} {v : Value}
    (hnames : ∀ n ∈ names, n.2.Free S) (h : evaluate source names = .ok v) : v.Free S := by
  obtain ⟨e, -, heval⟩ := evaluate_eq_ok h
  exact Expr.free_of_eval hnames heval

end NodeFlow
