import NodeFlow.Expr.Eval
import NodeFlow.Proofs.Expr.Free
import NodeFlow.Proofs.Expr.Recognize
import NodeFlow.Proofs.Value.Computing
/-!
# Expressions over renamed values

An expression over renamed values has the value that it has otherwise, renamed; and if it has none, it fails for
the same reason with the values in it renamed, so the message is the same.

The awkward thing up front: a tree could name a not-a-number by its label. No text is read as such a tree, since
what a number token writes has no label.
-/

set_option autoImplicit false

namespace NodeFlow

variable {σ : Renaming}

/-! ## 1. Properties -/

namespace Value

@[simp] theorem place?_renamed (key : Value) : place? (key.renamed σ) = place? key := by
  cases key with
  | float x => cases x <;> rfl
  | _ => simp [place?]

theorem elementAt_map {α β : Type} (f : α → β) (xs : List α) (n : Int) :
    elementAt (xs.map f) n = (elementAt xs n).map f := by
  rw [elementAt, elementAt, List.length_map]
  split
  · exact List.getElem?_map
  · split
    · exact List.getElem?_map
    · rfl

theorem memberAt_renamed (ms : List (String × Value)) (key : Value) :
    memberAt (ms.map fun m => (m.1, m.2.renamed σ)) (key.renamed σ) = (memberAt ms key).map (renamed σ) := by
  cases key with
  | str k =>
    rw [renamed_str, memberAt, memberAt, Members.get?_map, List.length_map]
    cases Members.get? ms k with
    | none =>
      dsimp only [Option.map_none]
      split <;> rfl
    | some v => rfl
  | list | dict => simp [memberAt, Except.map]
  | _ => simp [memberAt, Except.map]

theorem elementOf_of_ne {xs : List Value} {key : Value} (h : key ≠ .str "length") :
    elementOf xs key = match place? key with
      | .error f => .error f
      | .ok none => .ok .undefined
      | .ok (some n) => .ok ((elementAt xs n).getD .undefined) := by
  rw [elementOf.eq_def]
  split
  · exact absurd rfl h
  · rfl

theorem elementOf_renamed (xs : List Value) (key : Value) :
    elementOf (xs.map (renamed σ)) (key.renamed σ) = (elementOf xs key).map (renamed σ) := by
  by_cases hkey : key = .str "length"
  · subst hkey
    simp [elementOf, Except.map]
  · have hkey' : key.renamed σ ≠ .str "length" := by
      cases key <;> simp_all
    rw [elementOf_of_ne hkey, elementOf_of_ne hkey', place?_renamed]
    cases place? key with
    | error f => rfl
    | ok place =>
      cases place with
      | none => rfl
      | some n =>
        dsimp only [Except.map]
        rw [elementAt_map]
        cases elementAt xs n <;> rfl

@[simp] theorem wholePart_renamed (n : Int) (key : Value) :
    wholePart n (key.renamed σ) = (wholePart n key).renamed σ := by
  cases key with
  | str k =>
    rw [renamed_str, wholePart.eq_def]
    split <;> rfl
  | _ => simp [wholePart]

@[simp] theorem binaryPart_renamed (x : Binary64) (key : Value) :
    binaryPart (x.renamed σ) (key.renamed σ) = (binaryPart x key).renamed σ := by
  cases key with
  | str k =>
    rw [renamed_str, binaryPart.eq_def, binaryPart.eq_def]
    split <;> rfl
  | _ => simp [binaryPart]

/-- A property under a renaming. -/
@[simp] theorem property_renamed (container key : Value) :
    (container.renamed σ).property (key.renamed σ) = (container.property key).map (renamed σ) := by
  cases container with
  | null | undefined => rfl
  | bool | int | float => simp [property, Except.map]
  | str s =>
    have hchars : (s.toList.map fun c => Value.str (String.singleton c)).map (renamed σ) =
        s.toList.map fun c => .str (String.singleton c) := by simp
    have h := elementOf_renamed (σ := σ) (s.toList.map fun c => .str (String.singleton c)) key
    rwa [hchars] at h
  | list cell xs =>
    rw [renamed_list]
    exact elementOf_renamed xs key
  | dict cell ms =>
    rw [renamed_dict]
    exact memberAt_renamed ms key
  | store cell name ms =>
    rw [renamed_store]
    exact memberAt_renamed ms key

/-! ## 2. Functions and methods -/

@[simp] theorem includes_renamed (container needle : Value) :
    (container.renamed σ).includes (needle.renamed σ) = container.includes needle := by
  cases container with
  | list cell xs => simp [includes, Function.comp_def]
  | dict cell ms =>
    rw [renamed_dict]
    cases needle <;> simp [includes, Members.has, Function.comp_def]
  | _ => simp [includes]

@[simp] theorem startsWith_renamed (v part : Value) : (v.renamed σ).startsWith (part.renamed σ) = v.startsWith part := by
  cases v <;> simp [startsWith]

@[simp] theorem endsWith_renamed (v part : Value) : (v.renamed σ).endsWith (part.renamed σ) = v.endsWith part := by
  cases v <;> simp [endsWith]

@[simp] theorem length_renamed (v : Value) : (v.renamed σ).length = v.length.map (renamed σ) := by
  cases v <;> simp [length, Except.map]

@[simp] theorem wholeOf_renamed (x : Binary64) : wholeOf (x.renamed σ) = (wholeOf x).map (renamed σ) := by
  cases x <;> rfl

@[simp] theorem toWhole_renamed (v : Value) : (v.renamed σ).toWhole = v.toWhole.map (renamed σ) := by
  rw [toWhole, toWhole, numeric_renamed]
  cases v.numeric with
  | float x => exact wholeOf_renamed x
  | _ => simp [Except.map]

@[simp] theorem toBinary_renamed (v : Value) : (v.renamed σ).toBinary = v.toBinary.map (renamed σ) := by
  have hwhole : ∀ n : Int, ((Number.int n).toBinary.map Value.float) =
      ((Number.int n).toBinary.map Value.float).map (renamed σ) := by
    intro n
    have h := Number.toBinary_renamed (σ := σ) (.int n)
    rw [Number.renamed_int] at h
    cases hx : (Number.int n).toBinary with
    | error f => rfl
    | ok x =>
      rw [hx] at h
      exact congrArg (Except.ok ∘ Value.float) (Except.ok.inj h)
  cases v with
  | bool b => exact hwhole _
  | int n => exact hwhole n
  | str s =>
    rw [renamed_str, toBinary]
    cases hread : Numeral.readFloat? s.toList with
    | none => rfl
    | some x => exact congrArg (Except.ok ∘ Value.float) (unlabelled_readFloat hread σ).symm
  | _ => simp [toBinary, Except.map]

@[simp] theorem decoded_renamed (v : Value) : (v.renamed σ).decoded = v.decoded.map (renamed σ) := by
  cases v with
  | str s =>
    rw [renamed_str, decoded]
    cases hread : Json.decode? s with
    | none => rfl
    | some w => exact congrArg Except.ok (Json.isDecoded_of_decode? hread).renamed_eq.symm
  | _ => simp [decoded, Except.map]

end Value

theorem Except.map_bool_renamed (x : Except Fault Bool) : (x.map Value.bool).map (Value.renamed σ) = x.map Value.bool := by
  cases x <;> rfl

/-- A function gives the same for renamed arguments, renamed. -/
theorem Function.apply_renamed (f : Function) (args : List Value) :
    f.apply (args.map (Value.renamed σ)) = (f.apply args).map (Value.renamed σ) := by
  have hwrong : ∀ f : Function, ∀ a b c : Value, ∀ rest : List Value,
      f.apply (a :: b :: c :: rest) = .error .type := fun f _ _ _ _ => by cases f <;> rfl
  rcases args with - | ⟨a, - | ⟨b, - | ⟨c, rest⟩⟩⟩
  · cases f <;> rfl
  · cases f with
    | «exists» => cases a <;> simp [apply, Except.map]
    | _ => simp [apply, Except.map]
  · cases f with
    | contains =>
      simp only [List.map_cons, List.map_nil, apply, Value.includes_renamed]
      exact (Except.map_bool_renamed _).symm
    | _ => rfl
  · simp only [List.map_cons, hwrong]
    rfl

/-- And so does a method for a renamed receiver. -/
theorem Method.apply_renamed (m : Method) (v : Value) (args : List Value) :
    m.apply (v.renamed σ) (args.map (Value.renamed σ)) = (m.apply v args).map (Value.renamed σ) := by
  rcases args with - | ⟨a, - | ⟨b, rest⟩⟩
  · cases m <;> simp [apply, Except.map]
  · cases m with
    | includes =>
      simp only [List.map_cons, List.map_nil, apply, Value.includes_renamed]
      exact (Except.map_bool_renamed _).symm
    | _ => simp [apply, Except.map]
  · cases m <;> rfl

/-! ## 3. Operators -/

/-- A reason under a renaming. -/
def Reason.renamed (σ : Renaming) : Reason → Reason
  | .cannotNegate v => .cannotNegate (v.renamed σ)
  | .needsNumbers op l r => .needsNumbers op (l.renamed σ) (r.renamed σ)
  | .cannotCall m v => .cannotCall m (v.renamed σ)
  | r => r

/-- Its wording is the same. -/
@[simp] theorem Reason.message_renamed (r : Reason) : (r.renamed σ).message = r.message := by
  -- the wordings are long texts, so their definition is opened without being evaluated
  delta message renamed
  cases r with
  | cannotNegate v => dsimp only; rw [Value.notate_renamed]
  | needsNumbers op l r => dsimp only; rw [Value.display_renamed, Value.display_renamed]
  | cannotCall m v => dsimp only; rw [Value.display_renamed]
  | _ => rfl

/-- What an evaluation comes to, under a renaming. -/
def Expr.Outcome (σ : Renaming) (x : Except Reason Value) : Except Reason Value :=
  (x.map (Value.renamed σ)).mapError (Reason.renamed σ)

namespace Expr

@[simp] theorem outcome_ok (v : Value) : Outcome σ (.ok v) = .ok (v.renamed σ) := rfl

@[simp] theorem outcome_error (r : Reason) : Outcome σ (.error r) = .error (r.renamed σ) := rfl

theorem outcome_refused (x : Except Fault Value) : Outcome σ (refused x) = refused (x.map (Value.renamed σ)) := by
  cases x <;> rfl

@[simp] theorem strictEqual_renamed (l r : Value) : strictEqual (l.renamed σ) (r.renamed σ) = strictEqual l r := by
  simp [strictEqual]

@[simp] theorem isMissing_renamed (v : Value) : isMissing (v.renamed σ) = isMissing v := by
  cases v <;> simp [isMissing]

@[simp] theorem compareValues_renamed (op : CompareOp) (l r : Value) :
    compareValues op (l.renamed σ) (r.renamed σ) = compareValues op l r := by
  cases op <;> simp [compareValues]

theorem overlooks_onNumbers (op : ArithOp) : Number.Overlooks (onNumbers op) := by
  cases op with
  | add => exact Number.overlooks_add
  | sub => exact Number.overlooks_sub
  | mul => exact Number.overlooks_mul
  | div => exact Number.overlooks_div
  | mod => exact Number.overlooks_mod

theorem arithValues_renamed (op : ArithOp) (l r : Value) :
    arithValues op (l.renamed σ) (r.renamed σ) = Outcome σ (arithValues op l r) := by
  simp only [arithValues, Value.isText_renamed, Value.display_renamed, Value.numeric_renamed, Value.number?_renamed]
  split
  · rfl
  · cases l.numeric.number? with
    | none => rfl
    | some x =>
      cases r.numeric.number? with
      | none => rfl
      | some y =>
        dsimp only [Option.map_some]
        rw [(overlooks_onNumbers op).renamed σ x y]
        cases hz : onNumbers op x y with
        | error f => rfl
        | ok z => exact congrArg Except.ok ((overlooks_onNumbers op).value_renamed hz).symm

theorem negValue_renamed (v : Value) : negValue (v.renamed σ) = Outcome σ (negValue v) := by
  simp only [negValue, Value.numeric_renamed, Value.number?_renamed]
  cases v.numeric.number? with
  | none => rfl
  | some x =>
    have hneg := congrArg Number.value (x.unlabelled_neg σ)
    rw [Number.value_renamed] at hneg
    simp [hneg]

/-! ## 4. Trees -/

/-- A tree whose numbers have no labels. -/
inductive Unlabelled : Expr → Prop
  | lit {l : Literal} : (∀ σ : Renaming, l.value.renamed σ = l.value) → Unlabelled (.lit l)
  | name {n : String} : Unlabelled (.name n)
  | get {base key : Expr} : Unlabelled base → Unlabelled key → Unlabelled (.get base key)
  | list {items : List Expr} : (∀ e ∈ items, Unlabelled e) → Unlabelled (.list items)
  | or {l r : Expr} : Unlabelled l → Unlabelled r → Unlabelled (.or l r)
  | and {l r : Expr} : Unlabelled l → Unlabelled r → Unlabelled (.and l r)
  | not {e : Expr} : Unlabelled e → Unlabelled (.not e)
  | neg {e : Expr} : Unlabelled e → Unlabelled (.neg e)
  | compare {op : CompareOp} {l r : Expr} : Unlabelled l → Unlabelled r → Unlabelled (.compare op l r)
  | arith {op : ArithOp} {l r : Expr} : Unlabelled l → Unlabelled r → Unlabelled (.arith op l r)
  | call {f : String} {args : List Expr} : (∀ e ∈ args, Unlabelled e) → Unlabelled (.call f args)
  | method {receiver : Expr} {m : String} {args : List Expr} : Unlabelled receiver → (∀ e ∈ args, Unlabelled e) →
    Unlabelled (.method receiver m args)

/-- Names for renamed values. -/
def renamedNames (σ : Renaming) (names : Names) : Names := names.map fun n => (n.1, n.2.renamed σ)

variable {names : Names}

theorem evalAll_renamed {es : List Expr}
    (hes : ∀ e ∈ es, eval (renamedNames σ names) e = Outcome σ (eval names e)) :
    evalAll (renamedNames σ names) es =
      ((evalAll names es).map (List.map (Value.renamed σ))).mapError (Reason.renamed σ) := by
  induction es with
  | nil => rfl
  | cons e es ih =>
    rw [List.forall_mem_cons] at hes
    rw [evalAll, evalAll, hes.1, ih hes.2]
    cases eval names e with
    | error r => rfl
    | ok v => cases evalAll names es <;> rfl

/-- The value of a tree over renamed values. -/
theorem eval_renamed {e : Expr} (he : Unlabelled e) : eval (renamedNames σ names) e = Outcome σ (eval names e) := by
  induction he with
  | lit hl =>
    rw [eval, eval, outcome_ok, hl σ]
  | @name n =>
    have hget := Members.get?_map (Value.renamed σ) names n
    rw [Members.get?, Members.get?] at hget
    rw [eval, eval, renamedNames, hget]
    cases names.lookup n <;> rfl
  | get _ _ ihbase ihkey =>
    rw [eval, eval, ihbase, ihkey]
    cases eval names _ with
    | error r => rfl
    | ok b =>
      cases eval names _ with
      | error r => rfl
      | ok k =>
        simp only [outcome_ok, Value.property_renamed]
        rw [outcome_refused]
  | list _ ih =>
    rw [eval, eval, evalAll_renamed ih]
    cases evalAll names _ with
    | error r => rfl
    | ok vs => simp [Except.map, Except.mapError]
  | or _ _ ihl ihr =>
    rw [eval, eval, ihl]
    cases eval names _ with
    | error r => rfl
    | ok a =>
      simp only [outcome_ok, Value.truthy_renamed]
      split
      · rfl
      · exact ihr
  | and _ _ ihl ihr =>
    rw [eval, eval, ihl]
    cases eval names _ with
    | error r => rfl
    | ok a =>
      simp only [outcome_ok, Value.truthy_renamed]
      split
      · exact ihr
      · rfl
  | not _ ih =>
    rw [eval, eval, ih]
    cases eval names _ with
    | error r => rfl
    | ok v => simp [Except.map]
  | neg _ ih =>
    rw [eval, eval, ih]
    cases eval names _ with
    | error r => rfl
    | ok v => exact negValue_renamed v
  | compare _ _ ihl ihr =>
    rw [eval, eval, ihl, ihr]
    cases eval names _ with
    | error r => rfl
    | ok a =>
      cases eval names _ with
      | error r => rfl
      | ok b =>
        simp only [outcome_ok, compareValues_renamed]
        cases compareValues _ a b <;> rfl
  | arith _ _ ihl ihr =>
    rw [eval, eval, ihl, ihr]
    cases eval names _ with
    | error r => rfl
    | ok a =>
      cases eval names _ with
      | error r => rfl
      | ok b => exact arithValues_renamed _ a b
  | @call f args _ ih =>
    rw [eval, eval, evalAll_renamed ih]
    cases Function.ofName? f with
    | none => rfl
    | some fn =>
      cases evalAll names args with
      | error r => rfl
      | ok vs =>
        simp only [Except.map, Except.mapError, Function.apply_renamed]
        exact (outcome_refused _).symm
  | @method receiver m args _ _ ih ihargs =>
    rw [eval, eval, ih, evalAll_renamed ihargs]
    cases Method.ofName? m with
    | none => rfl
    | some known =>
      cases eval names receiver with
      | error r => rfl
      | ok v =>
        simp only [outcome_ok, isMissing_renamed]
        split
        · rfl
        · cases evalAll names args with
          | error r => rfl
          | ok vs =>
            simp only [Except.map, Except.mapError, Method.apply_renamed]
            exact (outcome_refused _).symm

/-! ## 5. Texts -/

theorem unlabelled_numberLiteral (whole : String) (fraction : Option String) :
    Unlabelled (.lit (numberLiteral whole fraction)) := by
  refine .lit fun σ => ?_
  cases fraction with
  | none => rfl
  | some fraction => exact congrArg Value.float (Value.unlabelled_ofDecimal _ _ _ σ)

theorem unlabelled_str (s : String) : Unlabelled (.lit (.str s)) := .lit fun _ => rfl

/-- No tokens write a number with a label. -/
theorem Derives.unlabelled {level : Level} {ts : List Token} {e : Expr} (h : Derives level ts e) : Unlabelled e := by
  induction h with
  | operand _ ih => exact ih
  | join _ hjoins _ ihl ihr =>
    cases hjoins with
    | eitherSign | eitherWord => exact .or ihl ihr
    | bothSign | bothWord => exact .and ihl ihr
    | _ => exact .arith ihl ihr
  | not _ _ ih => exact .not ih
  | unnegated _ ih => exact ih
  | compare _ _ _ ihl ihr => exact .compare ihl ihr
  | uncompared _ ih => exact ih
  | neg _ ih => exact .neg ih
  | unsigned _ ih => exact ih
  | bare _ ih => exact ih
  | property _ _ ih => exact .get ih (unlabelled_str _)
  | place _ ih => exact .get ih (unlabelled_str _)
  | twoPlaces _ ih => exact .get (.get ih (unlabelled_str _)) (unlabelled_str _)
  | method _ _ _ ih ihargs => exact .method ih (List.forall_mem_map.2 ihargs)
  | item _ _ ih ihkey => exact .get ih ihkey
  | number => exact unlabelled_numberLiteral _ _
  | text => exact unlabelled_str _
  | word hword => cases hword <;> exact .lit fun _ => rfl
  | name _ => exact .name
  | call _ _ ihargs => exact .call (List.forall_mem_map.2 ihargs)
  | parens _ ih => exact ih
  | list _ ihitems => exact .list (List.forall_mem_map.2 ihitems)

end Expr

namespace Token

theorem ne_ended_of_readFront {cs rest : List Char} {t : Token} (h : readFront? cs = some (t, rest)) : t ≠ .ended := by
  cases cs with
  | nil => cases h
  | cons c cs =>
    rw [readFront?] at h
    dsimp only at h
    split at h
    · rw [readNumber.eq_def] at h
      split at h
      · split at h <;> obtain ⟨rfl, -⟩ := Prod.mk.inj (Option.some.inj h) <;> exact nofun
      · obtain ⟨rfl, -⟩ := Prod.mk.inj (Option.some.inj h)
        exact nofun
    · split at h
      · obtain ⟨_, -, hbody⟩ := Option.map_eq_some_iff.1 h
        obtain ⟨rfl, -⟩ := Prod.mk.inj hbody
        exact nofun
      · split at h
        · obtain ⟨rfl, -⟩ := Prod.mk.inj (Option.some.inj h)
          unfold ofWord
          split_ifs <;> exact nofun
        · obtain ⟨_, -, hsymbol⟩ := Option.map_eq_some_iff.1 h
          obtain ⟨rfl, -⟩ := Prod.mk.inj hsymbol
          exact nofun

/-- The tokens of a text have one end, behind them. -/
theorem exists_of_readFrom {total fuel : Nat} {cs : List Char} {ts : List Token} (h : readFrom total fuel cs = .ok ts) :
    ∃ us, ts = us ++ [.ended] ∧ Token.ended ∉ us := by
  induction fuel generalizing cs ts with
  | zero =>
    obtain rfl := Except.ok.inj h
    exact ⟨[], rfl, List.not_mem_nil⟩
  | succ fuel ih =>
    cases cs with
    | nil =>
      obtain rfl := Except.ok.inj h
      exact ⟨[], rfl, List.not_mem_nil⟩
    | cons c cs =>
      rw [readFrom] at h
      split at h
      · cases h
      · next t after hfront =>
        obtain ⟨rest, hrest, rfl⟩ := eq_map_ok h
        obtain ⟨us, rfl, hus⟩ := ih hrest
        exact ⟨t :: us, rfl, List.not_mem_cons_of_ne_of_not_mem (ne_ended_of_readFront hfront).symm hus⟩

end Token

/-- A text is read as a tree whose numbers have no labels. -/
theorem Expr.unlabelled_of_parse {source : String} {e : Expr} (h : parse source = .ok e) : e.Unlabelled := by
  rw [parse] at h
  split at h
  · cases h
  · split at h
    · cases h
    · next ts htokens =>
      obtain ⟨us, rfl, hus⟩ := Token.exists_of_readFrom htokens
      split at h
      · cases h
      · next e' htree =>
        obtain rfl := Except.ok.inj h
        exact (((ofTokens_iff_writes us hus).1 e').1 htree).unlabelled

/-- Two texts come to the same: to related values, or to failures with the same wording. -/
inductive Expr.Alike (R : Value → Value → Prop) : Except EvalError Value → Except EvalError Value → Prop
  | ok {v v' : Value} : R v v' → Alike R (.ok v) (.ok v')
  | refused {r r' : Rejection} : r'.reason.message = r.reason.message →
    Alike R (.error (.refused r)) (.error (.refused r'))
  | escaped (f : Fault) : Alike R (.error (.escaped f)) (.error (.escaped f))

theorem Expr.alike_of_reason {R : Value → Value → Prop} (source : String) (r : Reason) :
    Alike R (.error (EvalError.of source r)) (.error (EvalError.of source (r.renamed σ))) := by
  have hmessage := @Reason.message_renamed σ r
  cases r with
  | fault f =>
    have hfault : (Reason.fault f).renamed σ = .fault f := rfl
    rw [hfault, EvalError.of]
    split
    · exact .refused rfl
    · exact .escaped f
  | _ => exact .refused hmessage

/-- The value of a text over renamed values. -/
theorem evaluate_renamed (source : String) (names : Names) :
    Expr.Alike (fun v v' => v' = v.renamed σ) (evaluate source names) (evaluate source (Expr.renamedNames σ names)) := by
  rw [evaluate, evaluate]
  cases hparse : Expr.parse source with
  | error r => exact .refused rfl
  | ok e =>
    dsimp only
    rw [Expr.eval_renamed (Expr.unlabelled_of_parse hparse)]
    cases e.eval names with
    | error r => exact Expr.alike_of_reason source r
    | ok v => exact .ok rfl

end NodeFlow
