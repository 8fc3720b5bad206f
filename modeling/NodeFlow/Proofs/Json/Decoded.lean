import NodeFlow.Proofs.Json.Grammar
import NodeFlow.Proofs.Memory.Seal
/-!
# What JSON texts write

Whatever a JSON text is decoded to is a value as JSON writes one: no container of it is a view of
memory, and a not-a-number has the one label that decoding gives it.
-/

set_option autoImplicit false

namespace NodeFlow

theorem Value.IsJson.marks_eq_nil {v : Value} (hv : v.IsJson) : v.marks = [] := by
  induction hv with
  | list _ ih =>
    rw [marks_list, Option.toList_none, List.nil_append, List.flatMap_eq_nil_iff]
    exact ih
  | dict _ ih =>
    rw [marks_dict, Option.toList_none, List.nil_append, List.flatMap_eq_nil_iff]
    exact List.forall_mem_map.2 ih
  | _ => rfl

theorem Value.IsJson.free {v : Value} (hv : v.IsJson) (S : Seal) : v.Free S := by
  rw [Value.Free, hv.marks_eq_nil]
  intro a ha
  exact absurd ha List.not_mem_nil

/-- A value as decoding makes one: all its not-a-numbers have one label. -/
inductive Value.IsDecoded : Value → Prop
  | null : IsDecoded .null
  | bool (b : Bool) : IsDecoded (.bool b)
  | int (n : Int) : IsDecoded (.int n)
  | float {x : Binary64} : (∀ label, x = .nan label → label = some 0) → IsDecoded (.float x)
  | str (s : String) : IsDecoded (.str s)
  | list {xs : List Value} : (∀ x ∈ xs, IsDecoded x) → IsDecoded (.list none xs)
  | dict {ms : List (String × Value)} : (∀ m ∈ ms, IsDecoded m.2) → IsDecoded (.dict none ms)

theorem Value.IsDecoded.isJson {v : Value} (hv : v.IsDecoded) : v.IsJson := by
  induction hv with
  | null => exact .null
  | bool b => exact .bool b
  | int n => exact .int n
  | float hx => exact .float fun h => nomatch hx none h
  | str s => exact .str s
  | list _ ih => exact .list ih
  | dict _ ih => exact .dict ih

/-! ## 1. Numbers -/

theorem Binary64.ofRatio_ne_nan (negative : Bool) (num den : Nat) (label : Option Nat) :
    Binary64.ofRatio negative num den ≠ .nan label := by
  rw [Binary64.ofRatio]
  split
  · simp [Binary64.zero]
  · dsimp only
    split <;> split <;> exact nofun

theorem Numeral.ofDecimal_ne_nan (negative : Bool) (n : Nat) (e : Int) (label : Option Nat) :
    Numeral.ofDecimal negative n e ≠ .nan label := by
  rw [Numeral.ofDecimal]
  split
  · simp [Binary64.zero]
  · dsimp only
    split
    · intro h
      cases h
    · split
      · simp [Binary64.zero]
      · split
        · exact Binary64.ofRatio_ne_nan _ _ _ _
        · exact Binary64.ofRatio_ne_nan _ _ _ _

namespace Json

theorem Magnitude.isDecoded {negative : Bool} {cs : List Char} {v : Value} (h : Magnitude negative cs v) :
    v.IsDecoded := by
  cases h with
  | int _ => exact .int _
  | float => exact .float fun label h => absurd h (Numeral.ofDecimal_ne_nan _ _ _ label)

theorem Atom.isDecoded {cs : List Char} {v : Value} (h : Atom cs v) : v.IsDecoded := by
  cases h with
  | null => exact .null
  | yes => exact .bool true
  | no => exact .bool false
  | nan => exact .float fun _ hlabel => (Binary64.nan.inj hlabel).symm
  | infinity => exact .float nofun
  | negativeInfinity => exact .float nofun
  | number h => exact h.isDecoded
  | negative h => exact h.isDecoded

/-! ## 2. Values -/

/-- All that belongs to a content is as decoding makes it. -/
def Content.IsDecoded : Content → Prop
  | .value v => v.IsDecoded
  | .items xs => ∀ x ∈ xs, x.IsDecoded
  | .members ms => ∀ m ∈ ms, m.2.IsDecoded

theorem isDecoded_ofPairs {pairs : List (String × Value)} (h : ∀ p ∈ pairs, p.2.IsDecoded) :
    (Value.ofMembers (Members.ofPairs pairs)).IsDecoded :=
  .dict (Members.forall_putAll (fun _ hm => absurd hm List.not_mem_nil) h)

/-- A text writes nothing else: induction on how it writes. -/
theorem Writes.isDecoded {cs : List Char} {c : Content} (h : Writes cs c) : c.IsDecoded := by
  induction h with
  | atom hatom => exact hatom.isDecoded
  | string _ => exact .str _
  | emptyList _ => exact .list fun x hx => absurd hx List.not_mem_nil
  | list _ ih => exact .list ih
  | emptyObject _ => exact .dict fun m hm => absurd hm List.not_mem_nil
  | object _ ih => exact isDecoded_ofPairs ih
  | lastItem _ _ _ ih => exact List.forall_mem_singleton.2 ih
  | item _ _ _ _ ih ihmore => exact List.forall_mem_cons.2 ⟨ih, ihmore⟩
  | lastMember _ _ _ ih => exact List.forall_mem_singleton.2 ih
  | member _ _ _ _ ih ihmore => exact List.forall_mem_cons.2 ⟨ih, ihmore⟩

/-- What a text is decoded to is as decoding makes it. -/
theorem isDecoded_of_decode? {s : String} {v : Value} (h : decode? s = some v) : v.IsDecoded := by
  rw [decode?, read?] at h
  split at h
  · next x rest hread =>
    split at h
    · obtain rfl := Option.some.inj h
      obtain ⟨src, -, hwrites⟩ := (takesWritten _).value _ _ _ hread
      exact hwrites.isDecoded
    · cases h
  · cases h

/-- So it is as JSON writes it. -/
theorem isJson_of_decode? {s : String} {v : Value} (h : decode? s = some v) : v.IsJson :=
  (isDecoded_of_decode? h).isJson

end Json

end NodeFlow
