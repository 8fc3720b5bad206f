import NodeFlow.Proofs.Run.Terms
import NodeFlow.Run.Stages
/-!
# The course of a visit keeps the terms

What a node does in one visit keeps the terms if each of its stages does, however often it is tried,
and whether the elements of a batch are worked on in turn or at once.
-/

set_option autoImplicit false

universe u

namespace NodeFlow

/-! ## 1. Elements -/

/-- Whatever is gone through lies in free memory. -/
def Elements.Free (S : Seal) : Elements → Prop
  | .live a => S a = none
  | .fixed ds => ∀ d ∈ ds, d.Free S

namespace Terms

variable {τ : Type} {T : Terms τ} {α β : Type} {P : α → Prop} {Q : β → Prop}

theorem free_names {γ : Type} {f : γ → String} (xs : List γ) :
    ∀ d ∈ xs.map fun x => Datum.str (f x), d.Free T.sealed :=
  List.forall_mem_map.2 fun _ _ => Datum.free_str _

theorem keeps_elements {d : Datum} (hd : d.Free T.sealed) :
    T.Keeps (Elements.of d) (Elements.Free T.sealed) := by
  refine .bind (keeps_view hd) ?_
  intro v _
  split
  · exact .pure fun x hx => absurd hx List.not_mem_nil
  · split
    · exact .pure (Datum.free_ref.1 hd)
    · exact .pure (free_names _)
    · exact .pure (free_names _)
    · exact .pure (free_names _)
    · exact keeps_fault

theorem keeps_all {e : Elements} (he : e.Free T.sealed) :
    T.Keeps e.all fun ds => ∀ d ∈ ds, d.Free T.sealed := by
  cases e with
  | live a => exact keeps_reads fun w hw => hw.itemsAt he
  | fixed ds => exact .pure he

/-- A list of a key and a part is a pair. -/
theorem keeps_pair (ds : List Datum) : (∀ d ∈ ds, d.Free T.sealed) → T.Keeps
    (match ds with
      | [.str key, part] => pure (key, part)
      | [_, _] => Act.fail (.fault .type)
      | _ => Act.fail (.fault .value) : Act World (String × Datum))
    fun p => p.2.Free T.sealed := by
  intro hds
  split
  · exact .pure (hds _ (List.mem_cons_of_mem _ List.mem_cons_self))
  · exact keeps_fault
  · exact keeps_fault

theorem keeps_pairOf {d : Datum} (hd : d.Free T.sealed) :
    T.Keeps (pairOf d) fun p => p.2.Free T.sealed := by
  refine .bind (keeps_view hd) ?_
  intro v _
  dsimp only
  split
  · exact .bind (keeps_reads fun w hw => hw.itemsAt (Datum.free_ref.1 hd)) keeps_pair
  · exact keeps_pair _ (free_names _)
  · exact keeps_pair _ (free_names _)
  · exact keeps_pair _ (free_names _)
  · exact .bind (P := fun _ => False) keeps_fault fun _ h => h.elim

theorem keeps_pairsOf {ds : List Datum} (hds : ∀ d ∈ ds, d.Free T.sealed) :
    T.Keeps (pairsOf ds) fun ps => ∀ p ∈ ps, p.2.Free T.sealed := by
  induction ds with
  | nil => exact .pure fun p hp => absurd hp List.not_mem_nil
  | cons d ds ih =>
    rw [List.forall_mem_cons] at hds
    refine .bind (keeps_pairOf hds.1) fun p hp => .bind (ih hds.2) ?_
    intro ps hps
    exact .pure (List.forall_mem_cons.2 ⟨hp, hps⟩)

/-- An object that is made of something free has free members. -/
theorem keeps_membersOf {d : Datum} (hd : d.Free T.sealed) :
    T.Keeps (membersOf d) fun ms => ∀ m ∈ ms, m.2.Free T.sealed := by
  refine .bind (keeps_view hd) ?_
  intro v hv
  split
  · exact keeps_reads fun w hw => hw.membersAt ((Value.free_dict.1 hv).1 _ rfl)
  · exact keeps_reads fun w hw => hw.membersAt (Value.free_store.1 hv).1
  · refine .bind (keeps_elements hd) fun e he => .bind (keeps_all he) ?_
    intro ds hds
    refine .bind (keeps_pairsOf hds) fun ps hps => .pure ?_
    exact Members.forall_putAll (fun m hm => absurd hm List.not_mem_nil) hps

/-! ## 2. The duty of a visit -/

/-- What the terms ask of a visit. -/
def duty (T : Terms τ) : Duty τ where
  regime := T.regime
  fails := T.fails
  result := Datum.Free T.sealed
  part _ := Iff.rfl
  fault _ := T.fails_of_ne _ nofun
  null := Datum.free_null
  wait seconds w hw := ⟨(keeps_log (e := .wait seconds) nofun w hw).1, rfl⟩
  remember node f w hw := ⟨(keeps_remember node f w hw).1, rfl⟩
  collect _ hds w hw :=
    have h := keeps_alloc (Cell.free_list.2 hds) w hw
    ⟨h.1, _, rfl, h.2⟩

/-- Stages that keep the terms: they do their duty, and the label in the end is as it has to be. -/
structure Holds {m : Type → Type u} [Performs World m] [Reasoned World Datum m] (T : Terms τ)
    (s : Stages m α β) (P : α → Prop) (Q : β → Prop) (L : Datum → Prop) : Prop
    extends T.duty.Prepares s P Q where
  post : ∀ a d, P a → d.Free T.sealed → T.Keeps (s.post a d) L

section

variable {m : Type → Type u} [Performs World m] [Reasoned World Datum m] {L : Datum → Prop}
  {policy : RetryPolicy} {node : Nat}

theorem Holds.once {s : Stages m α α} (h : T.Holds s P P L) : T.Keeps (s.once policy node) L :=
  h.toPrepares.once h.post fun _ he => he

theorem Holds.inOrder {s : Stages m α β} (h : T.Holds s P Q L) {elements : α → Act World (List β)}
    (helements : ∀ a, P a → T.Keeps (elements a) fun bs => ∀ b ∈ bs, Q b) :
    T.Keeps (s.inOrder policy node elements) L :=
  h.toPrepares.inOrder helements h.post fun _ he => he

end

theorem Holds.together {s : Stages (Coop World Datum) α β} {L : Datum → Prop}
    {policy : RetryPolicy} {node : Nat} (h : T.Holds s P Q L) {elements : α → Act World (List β)}
    (helements : ∀ a, P a → T.Keeps (elements a) fun bs => ∀ b ∈ bs, Q b) :
    T.Keeps (s.together policy node elements) L :=
  h.toPrepares.together helements h.post fun _ he => he

end Terms

end NodeFlow
