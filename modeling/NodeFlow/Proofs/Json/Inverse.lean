import NodeFlow.Expr.Eval
import NodeFlow.Json.Print
import NodeFlow.Proofs.Json.Grammar
import NodeFlow.Proofs.Memory.Kept
import NodeFlow.Proofs.Value.Members
import Mathlib.Tactic.SplitIfs
/-!
# Reading what was written

A value without floating-point numbers is read from its JSON text as it was written, whatever text
follows: the text of the writer is one that the grammar derives, and what the grammar derives is read. What is
read is a tree of its own, no part of which is a view of memory.
-/

set_option autoImplicit false

namespace NodeFlow

/-- A value that JSON text stands for exactly. Keys are unique, as they are in every object that a run
can make. -/
inductive Value.IsExact : Value → Prop
  | null : IsExact .null
  | bool (b : Bool) : IsExact (.bool b)
  | int (n : Int) : IsExact (.int n)
  | str (s : String) : IsExact (.str s)
  | list {cell : Option Nat} {xs : List Value} : (∀ x ∈ xs, IsExact x) → IsExact (.list cell xs)
  | dict {cell : Option Nat} {ms : List (String × Value)} : (Members.keys ms).Nodup →
      (∀ m ∈ ms, IsExact m.2) → IsExact (.dict cell ms)

namespace Json

/-! ## 1. Strings and whole numbers -/

/-- A control character is escaped by its number in four digits. -/
theorem unit16_hexPadded {n : Nat} (hn : n < 32) : Unit16 (Text.hexPadded 4 n) n := by
  have hunits : ∀ k < 32, readUnit? (Text.hexPadded 4 k) = some (k, []) := by decide
  obtain ⟨ds, hds, hunit⟩ := exists_unit16 (hunits n hn)
  rwa [hds, List.append_nil]

theorem spells_escapeChar (c : Char) {cs t : List Char} (h : Spells cs t) : Spells (escapeChar c ++ cs) (c :: t) := by
  have hnat : ∀ {n : Nat}, c.toNat = n → c = Char.ofNat n := by
    rintro n rfl
    exact (Char.ofNat_toNat c).symm
  rw [escapeChar]
  split_ifs with hquote hback hline hreturn htab hbell hform hcontrol
  · exact .short (by rw [hquote]; rfl) h
  · exact .short (by rw [hback]; rfl) h
  · exact .short (by rw [hline]; rfl) h
  · exact .short (by rw [hreturn]; rfl) h
  · exact .short (by rw [htab]; rfl) h
  · exact .short (by rw [hnat hbell]; rfl) h
  · exact .short (by rw [hnat hform]; rfl) h
  · have hpoint := Spells.point (unit16_hexPadded hcontrol) (fun hhigh => by have := hhigh.1; omega) h
    rwa [Char.ofNat_toNat] at hpoint
  · exact .plain hquote hback (Nat.not_lt.1 hcontrol) h

theorem spells_flatMap (cs : List Char) : Spells (cs.flatMap escapeChar) cs := by
  induction cs with
  | nil => exact .nil
  | cons c cs ih => exact spells_escapeChar c ih

theorem writes_writeText (s : String) : Writes (writeText s) (.value (.str s)) := by
  have htext := Writes.string (spells_flatMap s.toList)
  rwa [String.ofList_toList] at htext

theorem isPlainDigit_of_mem_toDigits {n : Nat} {c : Char} (hc : c ∈ Nat.toDigits 10 n) :
    isPlainDigit c = true := by
  have hdigit := Nat.isDigit_of_mem_toDigits (by decide) (by decide) hc
  rw [Char.isDigit_iff_toNat] at hdigit
  rw [isPlainDigit, Bool.and_eq_true, decide_eq_true_eq, decide_eq_true_eq]
  exact hdigit

/-- Decimals start with a zero only if there is no other digit. -/
theorem toDigits_eq_cons_zero {n : Nat} {ds : List Char} (h : Nat.toDigits 10 n = '0' :: ds) : ds = [] := by
  induction n using Nat.strongRecOn generalizing ds with
  | ind n ih =>
    by_cases hn : n < 10
    · rw [Nat.toDigits_of_lt_base hn] at h
      exact (List.cons.inj h).2.symm
    · exfalso
      rw [Nat.toDigits_of_base_le (by decide) (Nat.le_of_not_lt hn)] at h
      obtain ⟨c, cs, hcs⟩ : ∃ c cs, Nat.toDigits 10 (n / 10) = c :: cs :=
        List.exists_cons_of_ne_nil (by simp)
      rw [hcs, List.cons_append] at h
      obtain ⟨rfl, -⟩ := List.cons.inj h
      obtain rfl := ih (n / 10) (Nat.div_lt_self (by omega) (by decide)) hcs
      have hzero : Nat.ofDigitChars 10 (Nat.toDigits 10 (n / 10)) 0 = n / 10 := Nat.ofDigitChars_ten_toDigits
      rw [hcs] at hzero
      have : n / 10 = 0 := hzero.symm
      omega

theorem whole_toDigits (n : Nat) : Whole (Nat.toDigits 10 n) := by
  refine ⟨⟨by simp, fun c => isPlainDigit_of_mem_toDigits⟩, fun hzero => ?_⟩
  obtain ⟨ds, hds⟩ := List.head?_eq_some_iff.1 hzero
  rw [hds, toDigits_eq_cons_zero hds]

theorem writes_writeInt (n : Int) : Writes (writeInt n) (.value (.int n)) := by
  have hnumber : natOfPlain (Nat.toDigits 10 n.natAbs) = n.natAbs := Nat.ofDigitChars_ten_toDigits
  have hint : ∀ negative, Magnitude negative (Nat.toDigits 10 n.natAbs) (.int (Binary64.signed negative n.natAbs)) := by
    intro negative
    have hmagnitude : Magnitude negative _ _ := .int (whole_toDigits n.natAbs)
    rwa [hnumber] at hmagnitude
  rw [writeInt]
  split_ifs with hneg
  · have hatom := Atom.negative (hint true)
    rw [Binary64.signed, if_pos rfl, Int.ofNat_natAbs_of_nonpos (Int.le_of_lt hneg), Int.neg_neg] at hatom
    exact .atom hatom
  · have hatom := Atom.number (hint false)
    rw [Binary64.signed, if_neg (by decide), Int.natAbs_of_nonneg (Int.not_lt.1 hneg)] at hatom
    exact .atom hatom

/-! ## 2. Values -/

theorem Blank.nil : Blank [] := fun _ hc => absurd hc List.not_mem_nil

theorem Blank.space : Blank [' '] := List.forall_mem_singleton.2 rfl

/-- The elements are written one by one, the first behind blanks. -/
theorem writes_writeItems {x : Value} {xs : List Value} (h : ∀ y ∈ x :: xs, Writes (writeHeld y) (.value y.fresh))
    {a : List Char} (ha : Blank a) :
    Writes (a ++ (writeHeld x ++ writeItems xs)) (.items ((x :: xs).map Value.fresh)) := by
  induction xs generalizing x a with
  | nil => exact .lastItem ha (h x List.mem_cons_self) .nil
  | cons y ys ih =>
    obtain ⟨hx, h⟩ := List.forall_mem_cons.1 h
    exact .item ha hx .nil (ih h .space)

theorem key_writeText {a : List Char} (ha : Blank a) (k : String) : Key (a ++ (writeText k ++ [':', ' '])) k := by
  have hkey := Key.mk ha (spells_flatMap k.toList) .nil .space
  rw [String.ofList_toList] at hkey
  simpa [writeText] using hkey

theorem writes_writeMembers {k : String} {x : Value} {ms : List (String × Value)}
    (h : ∀ m ∈ (k, x) :: ms, Writes (writeHeld m.2) (.value m.2.fresh)) {a : List Char} (ha : Blank a) :
    Writes (a ++ (writeText k ++ ':' :: ' ' :: (writeHeld x ++ writeMembers ms)))
      (.members (((k, x) :: ms).map fun m => (m.1, m.2.fresh))) := by
  induction ms generalizing k x a with
  | nil =>
    have hlast := Writes.lastMember (key_writeText ha k) (h (k, x) List.mem_cons_self) .nil
    simpa [writeMembers] using hlast
  | cons m ms ih =>
    obtain ⟨hx, h⟩ := List.forall_mem_cons.1 h
    have hmember := Writes.member (key_writeText ha k) hx .nil (ih h .space)
    simpa [writeMembers] using hmember

/-- The text of an exact value writes a copy of it. The induction is on the value: a list and an object are
written if their elements are. -/
theorem writes_writeHeld {v : Value} (hv : v.IsExact) : Writes (writeHeld v) (.value v.fresh) := by
  induction hv with
  | null => exact .atom .null
  | bool b => cases b <;> exact .atom (by constructor)
  | int n => exact writes_writeInt n
  | str s => exact writes_writeText s
  | @list cell xs hxs ih =>
    cases xs with
    | nil => exact .emptyList .nil
    | cons x xs =>
      rw [Value.fresh_list]
      exact .list (writes_writeItems ih .nil)
  | @dict cell ms hkeys hms ih =>
    cases ms with
    | nil => exact .emptyObject .nil
    | cons m ms =>
      obtain ⟨k, x⟩ := m
      have hunique : Members.ofPairs (((k, x) :: ms).map fun m => (m.1, m.2.fresh)) =
          ((k, x) :: ms).map fun m => (m.1, m.2.fresh) := by
        refine Members.ofPairs_of_nodup ?_
        rw [Members.keys, List.map_map]
        exact hkeys
      have hobject := Writes.object (writes_writeMembers ih .nil)
      rw [hunique] at hobject
      simpa [writeHeld, Value.fresh_dict, Value.ofMembers] using hobject

/-! ## 3. Texts -/

theorem write_of_isExact {v : Value} (hv : v.IsExact) : write v = writeHeld v := by
  cases hv <;> rfl

theorem isNumber_fresh {v : Value} (hv : v.IsExact) : v.fresh.isNumber = v.isNumber := by
  cases hv <;> rfl

theorem readFront?_write {v : Value} (hv : v.IsExact) {rest : List Char}
    (hrest : v.isNumber = true → EndsNumber rest) :
    readFront? (write v ++ rest) = some (v.fresh, rest) := by
  rw [← isNumber_fresh hv] at hrest
  rw [write_of_isExact hv, readFront?_of_writes (writes_writeHeld hv) hrest]

/-- The text of a value is decoded to a copy of it. -/
theorem decode?_render {v : Value} (hv : v.IsExact) : decode? (render v) = some v.fresh := by
  have hfront := readFront?_write hv (fun _ => EndsNumber.nil)
  have hspaces := (writes_writeHeld hv).skipSpaces .nil []
  rw [← write_of_isExact hv] at hspaces
  simp only [List.nil_append, List.append_nil] at hfront hspaces
  rw [decode?, render, String.toList_ofList, read?, hspaces, hfront]
  rfl

end Json

namespace Description

/-- A value that is no object is refused under the name of its type. -/
theorem load_render {v : Value} (hv : v.IsExact) :
    load (Json.render v) = if v.isDict then .ok v.fresh else .error (.notDescription v.typeName) := by
  rw [load, Json.decode?_render hv]
  cases hv with
  | dict _ _ => rw [Value.fresh_dict]; rfl
  | list _ => rw [Value.fresh_list]; rfl
  | _ => rfl

theorem writesObject_write {v : Value} (hv : v.IsExact) (hdict : v.isDict = true) :
    WritesObject (Json.write v) v.fresh := by
  have hwrites := Json.writes_writeHeld hv
  rw [← Json.write_of_isExact hv] at hwrites
  cases hv with
  | dict _ _ =>
    rw [Value.fresh_dict] at hwrites ⊢
    exact writesObject_of_dict hwrites
  | _ => cases hdict

/-- Behind a text without an opening brace the object is found, whatever comes after it. -/
theorem firstObject?_append {v : Value} (hv : v.IsExact) (hdict : v.isDict = true) {front : List Char}
    (hfront : '\x7b' ∉ front) (rest : List Char) :
    firstObject? (front ++ (Json.write v ++ rest)) = some v.fresh := by
  refine firstObject?_eq_some_iff.2 ⟨front, Json.write v, rest, rfl, writesObject_write hv hdict, ?_⟩
  intro front' t' rest' v' heq hobject
  -- a text further left would have its brace in what stands in front
  by_contra hless
  obtain ⟨cs, rfl⟩ := List.head?_eq_some_iff.1 hobject.2
  have hbrace : (front' ++ ('\x7b' :: cs ++ rest'))[front'.length]? = some '\x7b' := by simp
  rw [← heq, List.getElem?_append_left (Nat.not_le.1 hless)] at hbrace
  exact hfront (List.mem_of_getElem? hbrace)

end Description

theorem Expr.eval_call_one {names : Names} {f : String} {fn : Function} (hf : Function.ofName? f = some fn)
    {e : Expr} {v : Value} (he : eval names e = .ok v) :
    eval names (.call f [e]) = refused (fn.apply [v]) := by
  rw [eval, hf]
  dsimp only
  rw [evalAll, he]
  rfl

/-- Whatever JSON writes of a value without floating-point numbers, each of the three readers gives a copy
of the value back, its members in order: the function of expressions whichever of the two names wrote the
text, the reader of descriptions if the value is an object, and the one that looks for the first object
among other words. -/
theorem exact_values_are_read_back {v : Value} (hv : v.IsExact) :
    (∀ (names : Names) (e : Expr), e.eval names = .ok v → ∀ writer ∈ ["json", "stringify"],
      Expr.eval names (.call "parse" [.call writer [e]]) = .ok v.fresh) ∧
    Description.load (Json.render v) =
      (if v.isDict then .ok v.fresh else .error (.notDescription v.typeName)) ∧
    (v.isDict = true → ∀ front rest : String, '\x7b' ∉ front.toList →
      Description.extract? (front ++ Json.render v ++ rest) = some v.fresh) := by
  refine ⟨fun names e he writer hwriter => ?_, Description.load_render hv, fun hdict front rest hfront => ?_⟩
  · have hname : Function.ofName? writer = some .json := by
      revert writer
      decide
    have htext : Expr.eval names (.call writer [e]) = .ok (.str (Json.render v)) := Expr.eval_call_one hname he
    rw [Expr.eval_call_one (show Function.ofName? "parse" = some .decode from rfl) htext, Function.apply, Value.decoded,
      Json.decode?_render hv]
    rfl
  · rw [Description.extract?, String.toList_append, String.toList_append, Json.render, String.toList_ofList,
      List.append_assoc]
    exact Description.firstObject?_append hv hdict hfront rest.toList

/-- An object with quotes, a control character, a character beyond the first 128 and a negative number. -/
def Value.nested : Value :=
  .ofMembers [("a\"\\", .ofList [.int (-120), .str "é\u0001\n", .null]), ("b", .ofMembers []), ("", .bool true)]

theorem Value.nested_isExact : nested.IsExact := by
  refine .dict (by decide) ?_
  simp only [List.forall_mem_cons]
  refine ⟨.list ?_, .dict List.nodup_nil fun m hm => absurd hm List.not_mem_nil, .bool true,
    fun m hm => absurd hm List.not_mem_nil⟩
  simp only [List.forall_mem_cons]
  exact ⟨.int _, .str _, .null, fun x hx => absurd hx List.not_mem_nil⟩

theorem nested_value_is_read_back :
    Value.nested.IsExact ∧
    Expr.eval [("x", Value.nested)] (.call "parse" [.call "json" [.name "x"]]) = .ok Value.nested.fresh ∧
    Description.load (Json.render Value.nested) = .ok Value.nested.fresh ∧
    Description.extract? ("Sure: [1] " ++ Json.render Value.nested ++ ", 2\x7d") = some Value.nested.fresh := by
  obtain ⟨hparse, hload, hextract⟩ := exact_values_are_read_back Value.nested_isExact
  exact ⟨Value.nested_isExact, hparse [("x", .nested)] (.name "x") rfl "json" (by decide), hload,
    hextract rfl "Sure: [1] " ", 2\x7d" (by decide)⟩

end NodeFlow
