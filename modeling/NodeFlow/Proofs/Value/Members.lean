import Mathlib.Data.List.Nodup
import Mathlib.Tactic.Tauto
import NodeFlow.Value.Members
/-!
# Laws of ordered members

What is found under a key after members have been put, and where the others stand then. Nothing here asks for
keys that differ: of two members under one key the first is found, and the first is replaced.
-/

set_option autoImplicit false

universe u v

namespace NodeFlow

namespace Members

variable {α : Type u} {β : Type v}

/-! ## 1. Finding -/

theorem get?_cons (m : String × α) (ms : Members α) (key : String) :
    get? (m :: ms) key = if key = m.1 then some m.2 else get? ms key := by
  rw [get?, List.lookup_cons]
  by_cases h : key = m.1
  · rw [if_pos h, beq_iff_eq.2 h]
  · rw [if_neg h, beq_eq_false_iff_ne.2 h, get?]

theorem get?_map (f : α → β) (ms : Members α) (key : String) :
    get? (ms.map fun m => (m.1, f m.2)) key = (get? ms key).map f := by
  induction ms with
  | nil => rfl
  | cons m ms ih =>
    rw [List.map_cons, get?, get?, List.lookup_cons, List.lookup_cons]
    cases key == m.1 with
    | true => rfl
    | false => exact ih

theorem get?_append (ms more : Members α) (key : String) :
    get? (ms ++ more) key = (get? ms key).or (get? more key) := by
  induction ms with
  | nil => rfl
  | cons m ms ih =>
    rw [List.cons_append, get?_cons, get?_cons, ih]
    split <;> rfl

theorem mem_of_get? {ms : Members α} {key : String} {a : α} (h : get? ms key = some a) :
    (key, a) ∈ ms := by
  obtain ⟨before, after, hsplit, -⟩ := List.lookup_eq_some_iff.1 h
  rw [hsplit]
  exact List.mem_append_right _ List.mem_cons_self

theorem get?_of_mem {ms : Members α} (hkeys : ms.keys.Nodup) {key : String} {a : α} (hm : (key, a) ∈ ms) :
    get? ms key = some a := by
  induction ms with
  | nil => exact absurd hm List.not_mem_nil
  | cons m ms ih =>
    rw [keys, List.map_cons, List.nodup_cons] at hkeys
    rw [get?_cons]
    rcases List.mem_cons.1 hm with rfl | hm
    · rw [if_pos rfl]
    · rw [if_neg fun heq : key = m.1 => hkeys.1 (heq ▸ List.mem_map_of_mem hm), ih hkeys.2 hm]

/-! ## 2. Putting -/

theorem get?_put (ms : Members α) (key other : String) (a : α) :
    get? (put key a ms) other = if other = key then some a else get? ms other := by
  induction ms with
  | nil => exact get?_cons _ _ _
  | cons m ms ih =>
    rw [put]
    split
    · next hm =>
      -- the key is that of the first member
      rw [get?_cons, get?_cons, hm]
      split <;> rfl
    · next hm =>
      rw [get?_cons, get?_cons, ih]
      by_cases h : other = m.1
      · rw [if_pos h, if_pos h, if_neg fun hk => hm (h.symm.trans hk)]
      · rw [if_neg h, if_neg h]

/-- What is put last counts. -/
theorem get?_putAll (ms more : Members α) (key : String) :
    get? (putAll ms more) key = (get? more.reverse key).or (get? ms key) := by
  induction more generalizing ms with
  | nil => rfl
  | cons m more ih =>
    have hput : putAll ms (m :: more) = putAll (put m.1 m.2 ms) more := rfl
    rw [hput, ih, List.reverse_cons, get?_append, get?_cons, get?_put, Option.or_assoc]
    split <;> rfl

theorem get?_putAll_of_mem (ms : Members α) {more : Members α} (hkeys : more.keys.Nodup) {key : String} {a : α}
    (hm : (key, a) ∈ more) : get? (putAll ms more) key = some a := by
  have hreverse : (keys more.reverse).Nodup := by
    rw [keys, List.map_reverse, List.nodup_reverse]
    exact hkeys
  rw [get?_putAll, get?_of_mem hreverse (List.mem_reverse.2 hm), Option.some_or]

theorem put_map (f : α → β) (key : String) (a : α) (ms : Members α) :
    put key (f a) (ms.map fun m => (m.1, f m.2)) = (put key a ms).map fun m => (m.1, f m.2) := by
  induction ms with
  | nil => rfl
  | cons m ms ih =>
    rw [List.map_cons, put, put, ih]
    split <;> rfl

theorem putAll_map (f : α → β) (ms more : Members α) :
    putAll (ms.map fun m => (m.1, f m.2)) (more.map fun m => (m.1, f m.2)) =
      (putAll ms more).map fun m => (m.1, f m.2) := by
  induction more generalizing ms with
  | nil => rfl
  | cons m more ih =>
    have hput := put_map f m.1 m.2 ms
    rw [putAll, putAll, List.map_cons, List.foldl_cons, List.foldl_cons, hput]
    exact ih _

theorem put_of_notMem {ms : Members α} {key : String} (h : key ∉ ms.keys) (a : α) :
    put key a ms = ms ++ [(key, a)] := by
  induction ms with
  | nil => rfl
  | cons m ms ih =>
    obtain ⟨hm, hms⟩ := not_or.1 (mt List.mem_cons.2 h)
    rw [put, if_neg (Ne.symm hm), ih hms, List.cons_append]

theorem putAll_of_nodup (ms : Members α) {more : Members α} (h : (keys (ms ++ more)).Nodup) :
    putAll ms more = ms ++ more := by
  induction more generalizing ms with
  | nil => exact (List.append_nil ms).symm
  | cons m more ih =>
    have hfresh : m.1 ∉ ms.keys := by
      rw [keys, List.map_append, List.nodup_append] at h
      intro hm
      exact h.2.2 m.1 hm m.1 (List.mem_map_of_mem List.mem_cons_self) rfl
    have hsplit : ms ++ m :: more = ms ++ [(m.1, m.2)] ++ more := by simp
    rw [putAll, List.foldl_cons, put_of_notMem hfresh, ← putAll, ih _ (hsplit ▸ h), hsplit]

/-- Pairs without a repeated key are members as they stand. -/
theorem ofPairs_of_nodup {ms : Members α} (h : ms.keys.Nodup) : ofPairs ms = ms :=
  putAll_of_nodup [] h

theorem put_put (key : String) (a b : α) (ms : Members α) : put key b (put key a ms) = put key b ms := by
  induction ms with
  | nil => exact if_pos rfl
  | cons m ms ih =>
    rw [put, put]
    split
    · rw [put, if_pos rfl]
    · next hm => rw [put, if_neg hm, ih]

/-- The members around the place of a key: those before it and those behind it stay where they are, whatever
is put there. -/
theorem exists_put (key : String) (ms : Members α) : ∃ before after : Members α,
    (∀ a, put key a ms = before ++ (key, a) :: after) ∧
      ((get? ms key = none ∧ ms = before ++ after) ∨
        ∃ a, get? ms key = some a ∧ ms = before ++ (key, a) :: after) := by
  induction ms with
  | nil => exact ⟨[], [], fun a => rfl, Or.inl ⟨rfl, rfl⟩⟩
  | cons m ms ih =>
    obtain ⟨k, x⟩ := m
    by_cases hk : k = key
    · subst hk
      refine ⟨[], ms, fun a => by rw [put, if_pos rfl, List.nil_append], Or.inr ⟨x, ?_, rfl⟩⟩
      rw [get?_cons, if_pos rfl]
    · obtain ⟨before, after, hput, hcases⟩ := ih
      refine ⟨(k, x) :: before, after, fun a => by rw [put, if_neg hk, hput, List.cons_append], ?_⟩
      rw [get?_cons, if_neg (Ne.symm hk)]
      rcases hcases with ⟨hnone, hms⟩ | ⟨a, ha, hms⟩
      · exact Or.inl ⟨hnone, by rw [hms, List.cons_append]⟩
      · exact Or.inr ⟨a, ha, by rw [hms, List.cons_append]⟩

/-- To put what is there changes nothing. -/
theorem put_of_get? {ms : Members α} {key : String} {a : α} (h : get? ms key = some a) : put key a ms = ms := by
  obtain ⟨before, after, hput, ⟨hnone, -⟩ | ⟨b, hb, hms⟩⟩ := exists_put key ms
  · rw [hnone] at h
    cases h
  · obtain rfl := Option.some.inj (hb.symm.trans h)
    rw [hput, ← hms]

theorem mem_put {key : String} {a : α} {ms : Members α} {m : String × α} (hm : m ∈ put key a ms) :
    m = (key, a) ∨ m ∈ ms := by
  obtain ⟨before, after, hput, ⟨-, rfl⟩ | ⟨b, -, rfl⟩⟩ := exists_put key ms
  all_goals
    rw [hput, List.mem_append, List.mem_cons] at hm
    rw [List.mem_append]
    tauto

theorem mem_putAll {ms more : Members α} {m : String × α} (hm : m ∈ putAll ms more) : m ∈ more ∨ m ∈ ms := by
  induction more generalizing ms with
  | nil => exact Or.inr hm
  | cons m' more ih =>
    rw [List.mem_cons]
    rcases ih hm with hmore | hput
    · exact Or.inl (Or.inr hmore)
    · exact (mem_put hput).imp_left Or.inl

/-! ## 3. Taking away -/

theorem mem_of_mem_erase {key : String} {ms : Members α} {m : String × α} (hm : m ∈ erase key ms) : m ∈ ms := by
  induction ms with
  | nil => exact hm
  | cons m' ms ih =>
    rw [erase] at hm
    split at hm
    · exact List.mem_cons_of_mem _ hm
    · exact List.mem_cons.2 ((List.mem_cons.1 hm).imp_right ih)

/-! ## 4. What holds of all members -/

variable {p : α → Prop}

theorem forall_put {ms : Members α} (h : ∀ m ∈ ms, p m.2) (key : String) {a : α} (ha : p a) :
    ∀ m ∈ put key a ms, p m.2 := by
  intro m hm
  rcases mem_put hm with rfl | hm
  · exact ha
  · exact h m hm

theorem forall_putAll {ms more : Members α} (h : ∀ m ∈ ms, p m.2) (hmore : ∀ m ∈ more, p m.2) :
    ∀ m ∈ putAll ms more, p m.2 := by
  intro m hm
  exact (mem_putAll hm).elim (hmore m) (h m)

theorem forall_getD {ms : Members α} (h : ∀ m ∈ ms, p m.2) {other : α} (hother : p other)
    (key : String) : p ((get? ms key).getD other) := by
  cases hget : get? ms key with
  | none => exact hother
  | some a => exact h _ (mem_of_get? hget)

end Members

end NodeFlow
