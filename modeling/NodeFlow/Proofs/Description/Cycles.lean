import Mathlib.Algebra.GroupWithZero.Nat
import Mathlib.Algebra.Order.BigOperators.Group.List
import Mathlib.Algebra.Order.Group.Nat
import Mathlib.Data.Finset.Card
import Mathlib.Data.List.Chain
import NodeFlow.Compile.Declared
import NodeFlow.Proofs.Description.Marks
/-!
# Cycles and their guards

When every cycle of edges goes through a guarded node, a walk has only so much before it: the visits that the
guards have left, and between two of them the unguarded nodes on a way that cannot come back. Both together
are a potential, and every step of a walk lowers it.

The accounts of loop guards ask one thing more of a description that the checker accepts: that no output is
saved over the counts or below a key. Marks make no difference to it, nor to the guards themselves.
-/

set_option autoImplicit false

namespace NodeFlow

/-! ## 1. Outputs -/

namespace Description

/-- The outputs that a declared node saves. -/
def savesOf (m : Value) : List Value := (((m.field "post").field "outputs").field "save").items

/-- Every output is saved under a key of the shared context, and not under that of the counts. -/
def SavesApart (d : Value) : Prop :=
  ∀ m ∈ nodesOf d, ∀ save ∈ savesOf m, ∀ path, save.field "path" = .str path →
    ∃ key, Path.segments path = [key] ∧ key ≠ Declared.visitsKey

theorem savesOf_fresh (m : Value) : savesOf m.fresh = (savesOf m).map Value.fresh := by
  rw [savesOf, savesOf, Value.field_fresh, Value.field_fresh, Value.field_fresh, Value.items_fresh]

/-- No output is saved at a path with the key of the last result among its segments. -/
def SavesBeside (d : Value) : Prop :=
  ∀ m ∈ nodesOf d, ∀ save ∈ savesOf m, ∀ path, save.field "path" = .str path →
    Declared.lastResultKey ∉ Path.segments path

theorem savesBeside_fresh (d : Value) : SavesBeside d.fresh ↔ SavesBeside d := by
  rw [SavesBeside, SavesBeside, nodesOf_fresh, List.forall_mem_map]
  refine forall₂_congr fun m _ => ?_
  rw [savesOf_fresh, List.forall_mem_map]
  refine forall₂_congr fun save _ => forall_congr' fun path => ?_
  rw [Value.field_fresh, Value.fresh_eq_str]

theorem savesApart_fresh (d : Value) : SavesApart d.fresh ↔ SavesApart d := by
  rw [SavesApart, SavesApart, nodesOf_fresh, List.forall_mem_map]
  refine forall₂_congr fun m _ => ?_
  rw [savesOf_fresh, List.forall_mem_map]
  refine forall₂_congr fun save _ => forall_congr' fun path => ?_
  rw [Value.field_fresh, Value.fresh_eq_str]

end Description

/-! ## 2. Guards -/

namespace Declared

/-- A declaration has the same guard with marks and without. -/
theorem guardOf_fresh (m : Value) : guardOf m.fresh = guardOf m := by
  rw [guardOf, guardOf, Value.field_fresh, Value.field_fresh, Value.field_fresh, Value.name?_fresh]
  cases (m.field "loop_guard").field "max_iterations" <;> simp [Value.fresh]

end Declared

namespace Description

open Relation

/-! ## 3. Cycles -/

/-- Some edge leads from a node to a node. -/
def Linked (d : Value) (s t : String) : Prop := ∃ e ∈ edgesOf d, ∃ l, Leads e s l t

/-- A node is declared with a guard. -/
def Guarded (d : Value) (id : String) : Prop :=
  ∃ m ∈ nodesOf d, idOf m = id ∧ (Declared.guardOf m).isSome = true

/-- Every cycle of edges goes through a guarded node. -/
def CyclesGuarded (d : Value) : Prop :=
  ∀ first rest, (first :: rest).IsChain (Linked d) →
    Linked d ((first :: rest).getLast (List.cons_ne_nil _ _)) first → ∃ id ∈ first :: rest, Guarded d id

/-- No edge leaves a guarded node under the exit of its guard, and none leaves any node under the wildcard. -/
structure ExitsEnd (d : Value) : Prop where
  exit : ∀ m ∈ nodesOf d, ∀ g, Declared.guardOf m = some g → ∀ e ∈ edgesOf d, ∀ t, ¬ Leads e (idOf m) g.exit t
  wildcard : ∀ e ∈ edgesOf d, ∀ s t, ¬ Leads e s wildcardLabel t

/-- An edge leads on from a node that has no guard. -/
def Onward (d : Value) (s t : String) : Prop := Linked d s t ∧ ¬ Guarded d s

variable {d : Value}

theorem CyclesGuarded.not_transGen (h : CyclesGuarded d) (id : String) : ¬ TransGen (Onward d) id id := by
  intro hcycle
  obtain ⟨last, hwalk, hback⟩ := TransGen.tail'_iff.1 hcycle
  obtain ⟨rest, hchain, hlast⟩ := List.exists_isChain_cons_of_relationReflTransGen hwalk
  obtain ⟨g, hg, hguarded⟩ := h id rest (hchain.imp fun _ _ hstep => hstep.1) (hlast.symm ▸ hback.1)
  -- no node on the way is guarded, as each of them leads on
  refine hchain.backwards_induction (fun id => ¬ Guarded d id) _ (fun _ _ hstep _ => hstep.2) ?_ g hg hguarded
  exact fun _ => hlast.symm ▸ hback.2

/-! ## 4. The visits that are left -/

/-- The sum of the limits of all guards. -/
def totalLimit (d : Value) : Nat :=
  ((nodesOf d).map fun m => (Declared.guardOf m).elim 0 fun g => g.limit.toNat).sum

/-- How many nodes have no guard. -/
def unguarded (d : Value) : Nat := (nodesOf d).countP fun m => (Declared.guardOf m).isNone

/-- The visits that the guard of a node has left, given the counts. -/
def allowance (counts : String → Int) (m : Value) : Nat :=
  (Declared.guardOf m).elim 0 fun g => (g.limit - counts (idOf m)).toNat

/-- The visits that all guards have left. -/
def allowances (d : Value) (counts : String → Int) : Nat := ((nodesOf d).map (allowance counts)).sum

variable {counts : String → Int} {m : Value} {g : Guard}

theorem allowances_le (h : ∀ id, 0 ≤ counts id) : allowances d counts ≤ totalLimit d := by
  refine List.sum_le_sum fun m _ => ?_
  rw [allowance]
  cases Declared.guardOf m with
  | none => exact Nat.le_refl 0
  | some g => exact Int.toNat_le_toNat (Int.sub_le_self _ (h (idOf m)))

/-- A visit that is counted leaves one less. -/
theorem allowances_lt (hm : m ∈ nodesOf d) (hg : Declared.guardOf m = some g) (hlt : counts (idOf m) < g.limit) :
    allowances d (Function.update counts (idOf m) (counts (idOf m) + 1)) < allowances d counts := by
  refine List.sum_lt_sum _ _ (fun m' _ => ?_) ⟨m, hm, ?_⟩
  · rw [allowance, allowance]
    cases Declared.guardOf m' with
    | none => exact Nat.le_refl 0
    | some g' =>
      refine Int.toNat_le_toNat (Int.sub_le_sub_left ?_ _)
      by_cases hid : idOf m' = idOf m
      · rw [hid, Function.update_self]
        exact Int.le_add_one (Int.le_refl _)
      · rw [Function.update_of_ne hid]
  · rw [allowance, allowance, hg, Function.update_self]
    dsimp only [Option.elim_some]
    omega

/-! ## 5. The nodes on the way -/

/-- The ids of the nodes without a guard. -/
def unguardedIds (d : Value) : Finset String :=
  (((nodesOf d).filter fun m => (Declared.guardOf m).isNone).map idOf).toFinset

open Classical in
/-- The nodes without a guard that can be reached from a node by way of such nodes. -/
noncomputable def onwardIds (d : Value) (id : String) : Finset String :=
  (unguardedIds d).filter fun u => ReflTransGen (Onward d) id u

theorem mem_onwardIds {id u : String} :
    u ∈ onwardIds d id ↔ u ∈ unguardedIds d ∧ ReflTransGen (Onward d) id u := by
  classical
  exact Finset.mem_filter

theorem card_onwardIds_le (d : Value) (id : String) : (onwardIds d id).card ≤ unguarded d := by
  calc (onwardIds d id).card
      ≤ (unguardedIds d).card := Finset.card_le_card fun _ hu => (mem_onwardIds.1 hu).1
    _ ≤ _ := List.toFinset_card_le _
    _ = unguarded d := by rw [List.length_map, unguarded, List.countP_eq_length_filter]

/-- From a node that follows there are fewer, as no way comes back. -/
theorem card_onwardIds_lt (h : CyclesGuarded d) (hm : m ∈ nodesOf d) (hg : Declared.guardOf m = none)
    {t : String} (hstep : Onward d (idOf m) t) : (onwardIds d t).card < (onwardIds d (idOf m)).card := by
  refine Finset.card_lt_card (Finset.ssubset_iff_subset_ne.2 ⟨fun u hu => ?_, fun heq => ?_⟩)
  · obtain ⟨hids, hwalk⟩ := mem_onwardIds.1 hu
    exact mem_onwardIds.2 ⟨hids, hwalk.head hstep⟩
  · have hids : idOf m ∈ unguardedIds d := by
      refine List.mem_toFinset.2 (List.mem_map_of_mem (List.mem_filter.2 ⟨hm, ?_⟩))
      rw [hg]
      rfl
    have hback := (mem_onwardIds.1 (heq ▸ mem_onwardIds.2 ⟨hids, .refl⟩)).2
    exact h.not_transGen _ (TransGen.head' hstep hback)

/-! ## 6. The potential -/

/-- What is before a walk at a node: a way through the unguarded nodes for each visit that the guards have
left, and one for now. -/
noncomputable def potential (d : Value) (counts : String → Int) (id : String) : Nat :=
  allowances d counts * (unguarded d + 1) + (onwardIds d id).card

theorem potential_lt (h : ∀ id, 0 ≤ counts id) (id : String) :
    potential d counts id < (totalLimit d + 2) * (unguarded d + 1) := by
  have hallowances := Nat.mul_le_mul_right (unguarded d + 1) (allowances_le (d := d) h)
  have honward := card_onwardIds_le d id
  rw [potential, Nat.add_mul]
  omega

/-- To go on from a guarded node costs one of its visits. -/
theorem potential_lt_of_guarded (hm : m ∈ nodesOf d) (hg : Declared.guardOf m = some g)
    (hlt : counts (idOf m) < g.limit) (t : String) :
    potential d (Function.update counts (idOf m) (counts (idOf m) + 1)) t < potential d counts (idOf m) := by
  have hallowances := Nat.mul_le_mul_right (unguarded d + 1) (Nat.succ_le_of_lt (allowances_lt hm hg hlt))
  have honward := card_onwardIds_le d t
  rw [Nat.succ_mul] at hallowances
  rw [potential, potential]
  omega

/-- To go on from any other leaves fewer on the way. -/
theorem potential_lt_of_unguarded (h : CyclesGuarded d) (hm : m ∈ nodesOf d) (hg : Declared.guardOf m = none)
    {t : String} (hstep : Onward d (idOf m) t) : potential d counts t < potential d counts (idOf m) :=
  Nat.add_lt_add_left (card_onwardIds_lt h hm hg hstep) _

/-! ## 7. Marks -/

theorem linked_fresh (d : Value) : Linked d.fresh = Linked d := by
  funext s t
  rw [Linked, Linked, edgesOf_fresh, eq_iff_iff]
  simp only [List.mem_map, exists_exists_and_eq_and, leads_fresh]

theorem guarded_fresh (d : Value) : Guarded d.fresh = Guarded d := by
  funext id
  rw [Guarded, Guarded, nodesOf_fresh, eq_iff_iff]
  simp only [List.mem_map, exists_exists_and_eq_and, idOf_fresh, Declared.guardOf_fresh]

theorem cyclesGuarded_fresh (d : Value) : CyclesGuarded d.fresh ↔ CyclesGuarded d := by
  rw [CyclesGuarded, CyclesGuarded, linked_fresh, guarded_fresh]

theorem ExitsEnd.of_fresh (h : ExitsEnd d.fresh) : ExitsEnd d where
  exit m hm g hg e he t hlead := by
    refine h.exit m.fresh ?_ g ?_ e.fresh ?_ t ?_
    · rw [nodesOf_fresh]
      exact List.mem_map_of_mem hm
    · rwa [Declared.guardOf_fresh]
    · rw [edgesOf_fresh]
      exact List.mem_map_of_mem he
    · rwa [idOf_fresh, leads_fresh]
  wildcard e he s t hlead := by
    refine h.wildcard e.fresh ?_ s t ((leads_fresh e _ _ _).2 hlead)
    rw [edgesOf_fresh]
    exact List.mem_map_of_mem he

theorem totalLimit_fresh (d : Value) : totalLimit d.fresh = totalLimit d := by
  rw [totalLimit, totalLimit, nodesOf_fresh, List.map_map]
  simp only [Function.comp_def, Declared.guardOf_fresh]

theorem unguarded_fresh (d : Value) : unguarded d.fresh = unguarded d := by
  rw [unguarded, unguarded, nodesOf_fresh, List.countP_map]
  simp only [Function.comp_def, Declared.guardOf_fresh]

end Description

end NodeFlow
