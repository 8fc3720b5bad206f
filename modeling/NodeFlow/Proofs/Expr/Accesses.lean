import NodeFlow.Expr.Eval
import NodeFlow.Proofs.Expr.Spell
import NodeFlow.Value.Combine
/-!
# Chains of property accesses

A property that is not there is the undefined value, whatever the value and the key, with two exceptions. An object or a
store looks a key up among its own, which a list and an object cannot be, and a list or a text needs a place, which an
infinite number is not. Those two keys are refused, and the chain of accesses fails at the first of them; it never fails
otherwise.

The two refusals end differently: what cannot be a key makes the expression invalid, while the overflow of an infinite
place passes through whoever evaluates it.

Main statement: `chain_fails_iff_refused`.
-/

set_option autoImplicit false

namespace NodeFlow

/-! ## 1. One access -/

namespace Value

/-- Does a value look its keys up among members? -/
def isMapping : Value → Bool
  | .dict _ _ | .store _ _ _ => true
  | _ => false

/-- Is the value an infinite number? -/
def isInfinite : Value → Bool
  | .float (.infinite _) => true
  | _ => false

/-- A key that a value refuses, and the fault of that. -/
inductive Refuses : Value → Value → Fault → Prop
  | key {v k : Value} : v.isMapping = true → k.isHashable = false → Refuses v k .type
  | place {v k : Value} : v.isSequence = true → k.isInfinite = true → Refuses v k .overflow

theorem memberAt_error_iff (ms : List (String × Value)) (k : Value) (f : Fault) :
    memberAt ms k = .error f ↔ k.isHashable = false ∧ f = .type := by
  cases k with
  | str s =>
    rw [memberAt]
    cases Members.get? ms s <;> simp [isHashable]
  | _ => simp [memberAt, isHashable, eq_comm]

theorem place?_error_iff (k : Value) (f : Fault) : place? k = .error f ↔ k.isInfinite = true ∧ f = .overflow := by
  cases k with
  | float x => cases x <;> simp [place?, isInfinite, eq_comm]
  | _ => simp [place?, isInfinite]

theorem elementOf_error_iff (xs : List Value) (k : Value) (f : Fault) :
    elementOf xs k = .error f ↔ k.isInfinite = true ∧ f = .overflow := by
  rw [← place?_error_iff]
  unfold elementOf
  split
  · simp [place?]
  · split
    · next g hplace => rw [hplace]; simp
    · next hplace => rw [hplace]; simp
    · next n hplace => rw [hplace]; simp

/-- Members refuse what cannot be a key, and nothing else. -/
theorem refuses_of_mapping {v : Value} (hv : v.isMapping = true) (hother : v.isSequence = false) (k : Value)
    (f : Fault) : v.Refuses k f ↔ k.isHashable = false ∧ f = .type := by
  constructor
  · rintro (⟨-, hk⟩ | ⟨hsequence, -⟩)
    · exact ⟨hk, rfl⟩
    · rw [hother] at hsequence
      cases hsequence
  · rintro ⟨hk, rfl⟩
    exact .key hv hk

/-- Places refuse an infinite number, and nothing else. -/
theorem refuses_of_sequence {v : Value} (hv : v.isSequence = true) (hother : v.isMapping = false) (k : Value)
    (f : Fault) : v.Refuses k f ↔ k.isInfinite = true ∧ f = .overflow := by
  constructor
  · rintro (⟨hmapping, -⟩ | ⟨-, hk⟩)
    · rw [hother] at hmapping
      cases hmapping
    · exact ⟨hk, rfl⟩
  · rintro ⟨hk, rfl⟩
    exact .place hv hk

/-- What has neither members nor places refuses nothing. -/
theorem not_refuses {v : Value} (hmapping : v.isMapping = false) (hsequence : v.isSequence = false) (k : Value)
    (f : Fault) : ¬ v.Refuses k f := by
  rintro (⟨h, -⟩ | ⟨h, -⟩)
  · rw [hmapping] at h
    cases h
  · rw [hsequence] at h
    cases h

/-- An access fails exactly if the key is refused. -/
theorem property_error_iff (v k : Value) (f : Fault) : v.property k = .error f ↔ v.Refuses k f := by
  cases v with
  | dict _ ms | store _ _ ms => rw [refuses_of_mapping rfl rfl, property, memberAt_error_iff]
  | list _ xs => rw [refuses_of_sequence rfl rfl, property, elementOf_error_iff]
  | str s => rw [refuses_of_sequence rfl rfl, property, elementOf_error_iff]
  | null | undefined | bool _ | int _ | float _ => exact iff_of_false nofun (not_refuses rfl rfl k f)

/-! ## 2. Chains -/

/-- What a chain of keys leads to from a value. -/
def follow : Value → List Value → Except Fault Value
  | v, [] => .ok v
  | v, k :: ks =>
    match v.property k with
    | .error f => .error f
    | .ok w => w.follow ks

/-- A chain is refused at a key: what the keys before it lead to refuses it. -/
def RefusesAt (v : Value) (ks : List Value) (f : Fault) : Prop :=
  ∃ before k after w, ks = before ++ k :: after ∧ v.follow before = .ok w ∧ w.Refuses k f

theorem refusesAt_nil (v : Value) (f : Fault) : ¬ v.RefusesAt [] f := by
  rintro ⟨before, k, after, w, hks, -⟩
  exact absurd hks.symm (by simp)

/-- A chain is refused at its first key, or at a later one, if the first leads anywhere. -/
theorem refusesAt_cons (v k : Value) (ks : List Value) (f : Fault) :
    v.RefusesAt (k :: ks) f ↔ v.Refuses k f ∨ ∃ w, v.property k = .ok w ∧ w.RefusesAt ks f := by
  constructor
  · rintro ⟨before, k', after, w, hks, hfollow, hrefuses⟩
    cases before with
    | nil =>
      obtain ⟨rfl, rfl⟩ := List.cons.inj hks
      obtain rfl := Except.ok.inj hfollow
      exact .inl hrefuses
    | cons x before =>
      obtain ⟨rfl, hrest⟩ := List.cons.inj hks
      rw [follow] at hfollow
      split at hfollow
      · cases hfollow
      · next u hu => exact .inr ⟨u, hu, before, k', after, w, hrest, hfollow, hrefuses⟩
  · rintro (hrefuses | ⟨u, hu, before, k', after, w, rfl, hfollow, hrefuses⟩)
    · exact ⟨[], k, ks, v, rfl, rfl, hrefuses⟩
    · refine ⟨k :: before, k', after, w, rfl, ?_, hrefuses⟩
      rw [follow, hu]
      exact hfollow

/-- A chain fails exactly if it is refused at one of its keys. -/
theorem follow_error_iff {v : Value} {ks : List Value} {f : Fault} : v.follow ks = .error f ↔ v.RefusesAt ks f := by
  induction ks generalizing v with
  | nil => exact iff_of_false nofun (refusesAt_nil v f)
  | cons k ks ih =>
    rw [refusesAt_cons, ← property_error_iff, follow]
    cases v.property k with
    | error g => simp
    | ok w => simp [ih]

/-- Keys of which none is a container or an infinite number are never refused. -/
theorem exists_follow_eq {v : Value} {ks : List Value} (h : ∀ k ∈ ks, k.isHashable = true ∧ k.isInfinite = false) :
    ∃ w, v.follow ks = .ok w := by
  cases hfollow : v.follow ks with
  | ok w => exact ⟨w, rfl⟩
  | error f =>
    obtain ⟨before, k, after, w, rfl, -, hrefuses⟩ := follow_error_iff.1 hfollow
    obtain ⟨hkey, hplace⟩ := h k (List.mem_append_right _ List.mem_cons_self)
    rcases hrefuses with ⟨-, hk⟩ | ⟨-, hk⟩
    · exact absurd (hk.symm.trans hkey) Bool.false_ne_true
    · exact absurd (hplace.symm.trans hk) Bool.false_ne_true

end Value

/-! ## 3. Chains in expressions -/

namespace Expr

/-- A chain of accesses, each with the value of a tree as its key. -/
def accesses (base : Expr) (keys : List Expr) : Expr := keys.foldl .get base

variable {names : Names} {base : Expr} {keys : List Expr} {v : Value} {ks : List Value}

/-- What has failed is not gone on from. -/
theorem eval_accesses_error {r : Reason} (h : base.eval names = .error r) :
    (base.accesses keys).eval names = .error r := by
  induction keys generalizing base with
  | nil => exact h
  | cons key keys ih =>
    have hget : (Expr.get base key).eval names = .error r := by rw [eval, h]
    exact ih hget

/-- A chain of accesses is evaluated by following it, one access after another. -/
theorem eval_accesses (hbase : base.eval names = .ok v)
    (hkeys : List.Forall₂ (fun e k => e.eval names = .ok k) keys ks) :
    (base.accesses keys).eval names = refused (v.follow ks) := by
  induction hkeys generalizing base v with
  | nil => exact hbase
  | @cons key k keys ks hkey _ ih =>
    have hget : (Expr.get base key).eval names = refused (v.property k) := by simp only [eval, hbase, hkey]
    rw [Value.follow]
    cases hproperty : v.property k with
    | error f =>
      rw [hproperty] at hget
      have hrest : ((Expr.get base key).accesses keys).eval names = refused (.error f) := eval_accesses_error hget
      exact hrest
    | ok w =>
      rw [hproperty] at hget
      exact ih hget

/-- **A chain of accesses fails only where a key is refused.** If base and keys have values, the text of the chain is
evaluated to what the keys lead to, which may be the undefined value; it has no value exactly if one of the keys is
refused by what those before it lead to, and then for that fault. So with keys of which none is a container or an
infinite number it always has one. -/
theorem chain_fails_iff_refused {source : String} (hparse : parse source = .ok (base.accesses keys))
    (hbase : base.eval names = .ok v) (hkeys : List.Forall₂ (fun e k => e.eval names = .ok k) keys ks) :
    (∀ w, evaluate source names = .ok w ↔ v.follow ks = .ok w) ∧
    (∀ r, evaluate source names = .error r ↔ ∃ f, v.RefusesAt ks f ∧ r = EvalError.of source (.fault f)) ∧
    ((∀ k ∈ ks, k.isHashable = true ∧ k.isInfinite = false) → ∃ w, evaluate source names = .ok w) := by
  have heval := eval_accesses hbase hkeys
  have hvalue : evaluate source names =
      match v.follow ks with
      | .ok w => .ok w
      | .error f => .error (EvalError.of source (.fault f)) := by
    simp only [evaluate, hparse, heval]
    cases v.follow ks <;> rfl
  refine ⟨fun w => ?_, fun r => ?_, fun hall => ?_⟩
  · rw [hvalue]
    cases v.follow ks <;> simp
  · simp only [← Value.follow_error_iff, hvalue]
    cases v.follow ks <;> simp [eq_comm]
  · obtain ⟨w, hw⟩ := Value.exists_follow_eq (v := v) hall
    exact ⟨w, by rw [hvalue, hw]⟩

/-- A list of nothing and a store, looked up at true, which is the second place. -/
def rowNames : Names :=
  [("rows", .ofList [.null, .store 0 "row" [("n", .int 7)]]), ("at", .bool true), ("key", .str "n")]

/-- The store is no list and no text, so it has members only. -/
theorem chain_fails_iff_refused_rows :
    parse "rows [ at ] [ key ]" = .ok ((Expr.name "rows").accesses [.name "at", .name "key"]) ∧
      evaluate "rows [ at ] [ key ]" rowNames = .ok (.int 7) := by
  have hvariable : ∀ {n : String}, Token.IsIdentifier n → wordLiteral? n = none →
      (n ≠ "and" ∧ n ≠ "or" ∧ n ≠ "not" ∧ n ≠ "in") → IsVariable n :=
    fun hn hfree hno => ⟨hn, wordLiteral?_eq_none_iff.mp hfree, hno⟩
  have hrows : IsVariable "rows" := hvariable (.of_eq rfl rfl rfl) (by decide) (by decide)
  have hat : IsVariable "at" := hvariable (.of_eq rfl rfl rfl) (by decide) (by decide)
  have hkey : IsVariable "key" := hvariable (.of_eq rfl rfl rfl) (by decide) (by decide)
  have hparse : parse "rows [ at ] [ key ]" = .ok ((Expr.name "rows").accesses [.name "at", .name "key"]) := by
    have hspells : Spells ((Expr.name "rows").accesses [.name "at", .name "key"])
        ["rows", "[", "at", "]", "[", "key", "]"] := .get (.get (.name hrows) (.name hat)) (.name hkey)
    obtain ⟨ts, hscans, hwrites⟩ := hspells.derived.writes
    have htext : "rows [ at ] [ key ]" = " ".intercalate ["rows", "[", "at", "]", "[", "key", "]"] := by decide +kernel
    rw [htext, hscans.words]
    exact parse_written hscans.plain hwrites
  have hkeys : List.Forall₂ (fun e k => Expr.eval rowNames e = .ok k) [.name "at", .name "key"]
      [.bool true, .str "n"] := .cons rfl (.cons rfl .nil)
  exact ⟨hparse, ((chain_fails_iff_refused hparse rfl hkeys).1 _).2 rfl⟩

/-- The fault for which a text has no value, and whether it makes the text invalid. -/
def failure? : Except EvalError Value → Option (Bool × Fault)
  | .error (.refused r) =>
    match r.reason with
    | .fault f => some (true, f)
    | _ => none
  | .error (.escaped f) => some (false, f)
  | .ok _ => none

/-- A value under one name, and under another the key that is looked up in it. -/
def refusedNames (m k : Value) : Names := [("ctx", .ofMembers [("m", m), ("k", k)])]

/-- Neither access has a value, not even the undefined one. -/
theorem accesses_fail :
    failure? (evaluate "ctx.m[ctx.k]" (refusedNames (.ofMembers []) (.ofList [.int 1]))) = some (true, .type) ∧
      failure? (evaluate "ctx.m[ctx.k]" (refusedNames (.ofList [.int 1]) (.float (.infinite false)))) =
        some (false, .overflow) := by
  decide +kernel

end Expr

end NodeFlow
