import Mathlib.Logic.Relation
import NodeFlow.Proofs.Json.Decoded
import NodeFlow.Proofs.Memory.Owned
import NodeFlow.Proofs.Run.Listening
/-!
# Uses of a store

A store is assigned to, deleted from and written along paths, one use after another, and a use that fails is a use
as well. However different the uses that write are, each comes down to the same two steps: first memory is made
ready, below the top, and then keys are assigned at the top in order, up to the first that the schema refuses.

That is the plan of a use. What all uses have in common is proved once, of assignments in order.
-/

set_option autoImplicit false

namespace NodeFlow

/-! ## 1. Uses -/

/-- A use of a store. What is written is a value; a part of it that is a view of memory is the very container. -/
inductive Usage
  | set (key : String) (v : Value)
  | delete (key : String)
  | setDefault (key : String) (v : Value)
  | update (entries : Members Value)
  | setPath (path : String) (v : Value)
  /-- puts what one key holds under another one as well -/
  | link (key other : String)
  | observe (l : Listener)
  | unobserve (number : Nat)

namespace Ledger

/-- Keeps a value in memory. -/
def keep (v : Value) : Act Ledger Datum :=
  .update fun l => ((l.heap.keep v).1, { l with heap := (l.heap.keep v).2 })

/-- Keeps the members of an object. -/
def keepMembers (ms : Members Value) : Act Ledger (Members Datum) :=
  .update fun l => ((Heap.keepMembers ms l.heap).1, { l with heap := (Heap.keepMembers ms l.heap).2 })

end Ledger

/-- A store, with memory and what its observers have been told. -/
structure Site where
  store : Shared
  ledger : Ledger

namespace Usage

/-- What a use does to memory. -/
def act (s : Shared) : Usage → Act Ledger Unit
  | .set key v => do s.set key (← Ledger.keep v)
  | .delete key => s.delete key
  | .setDefault key v => do
    let _ ← s.setDefault key (← Ledger.keep v)
  | .update entries => do s.update (← Ledger.keepMembers entries)
  | .setPath path v => do s.setPath path (← Ledger.keep v)
  | .link key other => do s.set other (← s.getItem key)
  | .observe _ | .unobserve _ => pure ()

/-- The store after a use: only its observers may be others. -/
def store (s : Shared) : Usage → Shared
  | .observe l => s.observe l
  | .unobserve number => s.unobserve number
  | _ => s

/-- How a use ends, and what it leaves. -/
def perform (u : Usage) (x : Site) : Except Failure Unit × Site :=
  ((u.act x.store x.ledger).1, ⟨u.store x.store, (u.act x.store x.ledger).2⟩)

end Usage

namespace Site

/-- The memory of a store in use. -/
def heap (x : Site) : Heap := x.ledger.heap

/-- The members of a store at the top. -/
def members (x : Site) : Members Datum := x.heap.membersAt x.store.data

/-- What a key of a store holds, null if nothing. -/
def held (x : Site) (key : String) : Datum := (Members.get? x.members key).getD .null

/-- A new store on a copy of what it is made of. -/
def opened (info : StoreInfo) (ms : Members Datum) (l : Ledger) : Site :=
  ⟨⟨l.heap.cells.size, some info⟩, { l with heap := (l.heap.alloc (.dict ms)).2 }⟩

/-- A value that can be written: what it is a view of is there, and is not the object of the store itself. -/
structure Offers (x : Site) (v : Value) : Prop where
  free : v.Free (.beyond x.heap.cells.size)
  lacks : v.Lacks x.store.data

/-- What JSON writes can be written. -/
theorem Offers.of_isJson {x : Site} {v : Value} (hv : v.IsJson) : x.Offers v := ⟨hv.free _, hv.lacks _⟩

/-- A use that can be made: its values can be written, and no key stands twice in an update. -/
def Allows (x : Site) : Usage → Prop
  | .set _ v | .setDefault _ v | .setPath _ v => x.Offers v
  | .update entries => entries.keys.Nodup ∧ ∀ m ∈ entries, x.Offers m.2
  | _ => True

/-- One use of a store. -/
def Step (x y : Site) : Prop := ∃ u : Usage, x.Allows u ∧ y = (u.perform x).2

/-- Any number of uses of a store, one after another. -/
abbrev Steps : Site → Site → Prop := Relation.ReflTransGen Step

/-- A store that has been made, of whatever there was, and then used. -/
def Used (x : Site) : Prop :=
  ∃ info ms l, l.heap.Closed ∧ (∀ m ∈ ms, m.2.Free (.beyond l.heap.cells.size)) ∧ (opened info ms l).Steps x

/-- The object of the store is its own. -/
def Owned (x : Site) : Prop := x.store.Owns x.heap x.members

end Site

theorem Site.Owned.of_owns {x : Site} {ms : Members Datum} (h : x.store.Owns x.heap ms) : x.Owned := by
  rw [Site.Owned, Site.members, h.membersAt]
  exact h

/-! ## 2. Assignments in order -/

namespace Shared

variable {s : Shared} {h h' : Heap} {ms es : Members Datum} {l : Ledger}

/-- May a value be written under a key? -/
def accepts (s : Shared) (key : String) (v : Value) : Bool := (s.refusal? key v).isNone

/-- What is assigned of all that is to be assigned in order. -/
def accepted (s : Shared) (h : Heap) (es : Members Datum) : Members Datum :=
  es.takeWhile fun m => s.accepts m.1 (h.view m.2)

/-- A value may be written if it is of the type that the schema demands. -/
theorem accepts_iff {key : String} {v : Value} : s.accepts key v = true ↔
    ∀ info, s.store = some info → ∀ demand, Members.get? info.schema key = some demand → demand.admits v = true := by
  rw [accepts, Option.isNone_iff_eq_none, refusal?]
  cases s.store with
  | none => simp
  | some info =>
    cases hdemand : Members.get? info.schema key with
    | none => simp [hdemand]
    | some demand =>
      simp only [Option.some.injEq, forall_eq', hdemand]
      cases demand.admits v <;> simp

theorem accepts_eq (hkinds : h.KeepsKinds h') {d : Datum} (hd : d.Free (.beyond h.cells.size)) (key : String) :
    s.accepts key (h'.view d) = s.accepts key (h.view d) := by
  rw [Bool.eq_iff_iff, accepts_iff, accepts_iff]
  simp only [hkinds.admits_eq hd]

theorem accepted_eq (hkinds : h.KeepsKinds h') (hes : ∀ m ∈ es, m.2.Free (.beyond h.cells.size)) :
    s.accepted h' es = s.accepted h es := by
  induction es with
  | nil => rfl
  | cons m es ih =>
    rw [List.forall_mem_cons] at hes
    rw [accepted, accepted, List.takeWhile_cons, List.takeWhile_cons, accepts_eq hkinds hes.1]
    split
    · exact congrArg (m :: ·) (ih hes.2)
    · rfl

theorem mem_accepted {m : String × Datum} (hm : m ∈ s.accepted h es) :
    m ∈ es ∧ s.accepts m.1 (h.view m.2) = true :=
  ⟨(List.takeWhile_prefix _).subset hm,
    List.mem_takeWhile_imp (p := fun m : String × Datum => s.accepts m.1 (h.view m.2)) hm⟩

variable {key : String} {d : Datum}

theorem set_of_refused {e : Failure} (hd : s.refusal? key (l.heap.view d) = some e) : s.set key d l = (.error e, l) := by
  rw [set, hd]

theorem update_of_refused {e : Failure} (hd : s.refusal? key (l.heap.view d) = some e) (rest : Members Datum) :
    s.update ((key, d) :: rest) l = (.error e, l) := by
  change Act.bind (s.set key d) (fun _ => s.update rest) l = _
  rw [Act.bind, set_of_refused hd]

/-- One assignment: a member at the top is another one, and the observers have been told of it. -/
structure Assigned (s : Shared) (ms : Members Datum) (key : String) (d : Datum) (l l' : Ledger) : Prop where
  heap : l'.heap = l.heap.write s.data (.dict (Members.put key d ms))
  writes : l'.writes = l.writes ++ s.reports l'.heap key ((Members.get? ms key).getD .null) d

namespace Assigned

variable {l' : Ledger} (hl : s.Assigned ms key d l l')
include hl

theorem size : l'.heap.cells.size = l.heap.cells.size := by
  rw [hl.heap, Heap.size_write]

theorem offers (hes : ∀ m ∈ es, s.Offers l.heap m.2) : ∀ m ∈ es, s.Offers l'.heap m.2 := fun m hm =>
  (hes m hm).later (Nat.le_of_eq hl.size.symm)

variable (hs : s.Owns l.heap ms)
include hs

theorem owns (hd : s.Offers l.heap d) : s.Owns l'.heap (Members.put key d ms) := by
  rw [hl.heap]
  exact hs.write (Members.forall_put hs.offers key hd)

theorem keepsKinds : l.heap.KeepsKinds l'.heap := by
  rw [hl.heap]
  exact Heap.keepsKinds_write hs.object _

/-- What is refused afterwards would have been refused before. -/
theorem accepted_eq (hes : ∀ m ∈ es, s.Offers l.heap m.2) : s.accepted l'.heap es = s.accepted l.heap es :=
  Shared.accepted_eq (hl.keepsKinds hs) fun m hm => (hes m hm).free

end Assigned

namespace Owns

variable (hs : s.Owns l.heap ms)
include hs

theorem set_of_accepted (hd : s.refusal? key (l.heap.view d) = none) :
    ∃ l', s.Assigned ms key d l l' ∧ s.set key d l = (.ok (), l') := by
  have hput : l.heap.putMember s.data key d = l.heap.write s.data (.dict (Members.put key d ms)) := by
    rw [Heap.putMember, hs.membersAt]
  refine ⟨⟨l.heap.putMember s.data key d, l.writes ++
    s.reports (l.heap.putMember s.data key d) key ((s.get? l.heap key).getD .null) d⟩, ⟨hput, ?_⟩, ?_⟩
  · rw [hs.get?]
  · rw [set, hd]

theorem update_of_accepted (hd : s.refusal? key (l.heap.view d) = none) (rest : Members Datum) :
    ∃ l', s.Assigned ms key d l l' ∧ s.update ((key, d) :: rest) l = s.update rest l' := by
  obtain ⟨l', hassigned, hset⟩ := hs.set_of_accepted hd
  refine ⟨l', hassigned, ?_⟩
  change Act.bind (s.set key d) (fun _ => s.update rest) l = _
  rw [Act.bind, hset]

/-- Assignments in order write the members of the store, and nothing else. -/
theorem heap_update (hes : ∀ m ∈ es, s.Offers l.heap m.2) :
    (s.update es l).2.heap = l.heap.write s.data (.dict (Members.putAll ms (s.accepted l.heap es))) := by
  induction es generalizing l ms with
  | nil => exact (Heap.write_self hs.object).symm
  | cons m es ih =>
    obtain ⟨key, d⟩ := m
    rw [List.forall_mem_cons] at hes
    rw [accepted, List.takeWhile_cons, accepts]
    cases hd : s.refusal? key (l.heap.view d) with
    | some e =>
      rw [update_of_refused hd]
      exact (Heap.write_self hs.object).symm
    | none =>
      obtain ⟨l', hl, hupdate⟩ := hs.update_of_accepted hd es
      rw [hupdate, ih (hl.owns hs hes.1) (hl.offers hes.2), hl.accepted_eq hs hes.2, hl.heap, Heap.write_write]
      rfl

/-- Assignments in order fail at the first that is refused. -/
theorem result_update (hes : ∀ m ∈ es, s.Offers l.heap m.2) :
    (s.update es l).1 = .ok () ∧ s.accepted l.heap es = es ∨
      ∃ m rest e, es = s.accepted l.heap es ++ m :: rest ∧ s.accepts m.1 (l.heap.view m.2) = false ∧
        (s.update es l).1 = .error e := by
  induction es generalizing l ms with
  | nil => exact Or.inl ⟨rfl, rfl⟩
  | cons m es ih =>
    obtain ⟨key, d⟩ := m
    rw [List.forall_mem_cons] at hes
    rw [accepted, List.takeWhile_cons, accepts]
    cases hd : s.refusal? key (l.heap.view d) with
    | some e => exact Or.inr ⟨(key, d), es, e, rfl, by rw [accepts, hd]; rfl, by rw [update_of_refused hd]⟩
    | none =>
      obtain ⟨l', hl, hupdate⟩ := hs.update_of_accepted hd es
      have hrest := ih (hl.owns hs hes.1) (hl.offers hes.2)
      rw [hl.accepted_eq hs hes.2] at hrest
      rw [hupdate]
      rcases hrest with ⟨hok, hall⟩ | ⟨m, rest, e, hsplit, hm, herror⟩
      · exact Or.inl ⟨hok, congrArg ((key, d) :: ·) hall⟩
      · refine Or.inr ⟨m, rest, e, congrArg ((key, d) :: ·) hsplit, ?_, herror⟩
        have hmem : m ∈ es := hsplit ▸ List.mem_append_right _ List.mem_cons_self
        rwa [accepts_eq (hl.keepsKinds hs) (hes.2 m hmem).free] at hm

/-- Of every assignment the observers are told once, as it is when all are made. -/
theorem writes_update (hes : ∀ m ∈ es, s.Offers l.heap m.2) (hkeys : es.keys.Nodup)
    (hold : ∀ m ∈ s.accepted l.heap es,
      s.data ∉ ((s.update es l).2.heap.view ((Members.get? ms m.1).getD .null)).marks)
    (hnew : ∀ m ∈ s.accepted l.heap es, s.data ∉ ((s.update es l).2.heap.view m.2).marks) :
    (s.update es l).2.writes = l.writes ++ (s.accepted l.heap es).flatMap fun m =>
      s.reports (s.update es l).2.heap m.1 ((Members.get? ms m.1).getD .null) m.2 := by
  induction es generalizing l ms with
  | nil => exact (List.append_nil _).symm
  | cons m es ih =>
    obtain ⟨key, d⟩ := m
    rw [List.forall_mem_cons] at hes
    rw [Members.keys, List.map_cons, List.nodup_cons] at hkeys
    rw [accepted, List.takeWhile_cons, accepts] at hold hnew ⊢
    cases hd : s.refusal? key (l.heap.view d) with
    | some e =>
      rw [update_of_refused hd]
      exact (List.append_nil _).symm
    | none =>
      obtain ⟨l', hl, hupdate⟩ := hs.update_of_accepted hd es
      have howns := hl.owns hs hes.1
      have hafter := howns.heap_update (hl.offers hes.2)
      rw [hd, Option.isNone_none, if_pos rfl, List.forall_mem_cons] at hold hnew
      rw [Option.isNone_none, if_pos rfl, List.flatMap_cons]
      rw [hupdate] at hold hnew ⊢
      -- the observers are told of this one before the others are made, which does not show
      have hshows : ∀ d, s.data ∉ ((s.update es l').2.heap.view d).marks →
          l'.heap.view d = (s.update es l').2.heap.view d := by
        intro d hd
        refine Heap.view_congr (by rw [hafter, Heap.size_write]) d fun a ha => ?_
        rw [hafter, Heap.cell?_write_of_ne fun heq : s.data = a => hd (heq ▸ ha)]
      have hreports : s.reports l'.heap key ((Members.get? ms key).getD .null) d =
          s.reports (s.update es l').2.heap key ((Members.get? ms key).getD .null) d := by
        rw [reports, reports, hshows _ hold.1, hshows _ hnew.1]
      have hother : ∀ m ∈ s.accepted l.heap es, Members.get? (Members.put key d ms) m.1 = Members.get? ms m.1 := by
        intro m hm
        have hmem : m.1 ∈ es.map Prod.fst := List.mem_map_of_mem (mem_accepted hm).1
        rw [Members.get?_put, if_neg fun heq : m.1 = key => hkeys.1 (heq ▸ hmem)]
      have hrest := ih howns (hl.offers hes.2) hkeys.2
      rw [hl.accepted_eq hs hes.2] at hrest
      rw [hrest (fun m hm => hother m hm ▸ hold.2 m hm) hnew.2, hl.writes, hreports, List.append_assoc]
      refine congrArg (l.writes ++ ·) (congrArg (_ ++ ·) (List.flatMap_congr fun m hm => ?_))
      rw [hother m hm]

end Owns

theorem setDefault_eq (key : String) (d : Datum) (l : Ledger) : s.setDefault key d l =
    if (s.get? l.heap key).isNone then Act.bind (s.set key d) (fun _ => s.getItem key) l else s.getItem key l := by
  change (if (s.get? l.heap key).isNone = true then (Act.bind (s.set key d) fun _ => s.getItem key)
    else s.getItem key) l = _
  split <;> rfl

theorem getItem_of_some (hget : s.get? l.heap key = some d) : s.getItem key l = (.ok d, l) := by
  rw [getItem, hget]

theorem update_single (key : String) (d : Datum) (l : Ledger) : s.update [(key, d)] l = s.set key d l := by
  change Act.bind (s.set key d) (fun _ => Act.pure ()) l = _
  rw [Act.bind]
  rcases s.set key d l with ⟨_ | _, _⟩ <;> rfl

end Shared

/-! ## 3. What a use comes down to -/

namespace Usage

/-- Memory made ready for a use, and what is then assigned at the top. -/
def plan (u : Usage) (x : Site) : Heap × Members Datum :=
  match u with
  | .set key v => ((x.heap.keep v).2, [(key, (x.heap.keep v).1)])
  | .setDefault key v =>
    ((x.heap.keep v).2, if (x.store.get? (x.heap.keep v).2 key).isNone then [(key, (x.heap.keep v).1)] else [])
  | .update entries => ((Heap.keepMembers entries x.heap).2, (Heap.keepMembers entries x.heap).1)
  | .setPath path v =>
    let r := x.heap.keep v
    match Path.segments path with
    | [] => (r.2, [])
    | [key] => (r.2, [(key, r.1)])
    | key :: first :: rest =>
      let o := r.2.objectUnder x.store.data key
      (o.2.writeBelow o.1 first rest r.1, [(key, .ref o.1)])
  | .link key other => (x.heap, ((x.store.get? x.heap key).map (other, ·)).toList)
  | .delete _ | .observe _ | .unobserve _ => (x.heap, [])

/-- Does a use write below an object that is there? -/
def WritesThrough (x : Site) : Usage → Prop
  | .setPath path _ => ∃ key first rest, Path.segments path = key :: first :: rest ∧
    (x.heap.objectOf? (x.held key)).isSome = true
  | _ => False

variable {x y : Site} {u : Usage}

/-- What a default amounts to: an assignment if the key is not there. -/
theorem act_setDefault {x : Site} (hx : x.Owned) {v : Value} (hv : x.Offers v) (key : String) :
    (Usage.setDefault key v).act x.store x.ledger =
      if (x.store.get? (x.heap.keep v).2 key).isNone then
        x.store.set key (x.heap.keep v).1 ⟨(x.heap.keep v).2, x.ledger.writes⟩
      else (.ok (), ⟨(x.heap.keep v).2, x.ledger.writes⟩) := by
  obtain ⟨howns, hdatum⟩ := hx.keep hv.free hv.lacks
  change Act.bind (x.store.setDefault key (x.heap.keep v).1) (fun _ => Act.pure ())
    ⟨(x.heap.keep v).2, x.ledger.writes⟩ = _
  rw [Act.bind, Shared.setDefault_eq]
  dsimp only
  cases habsent : x.store.get? (x.heap.keep v).2 key with
  | some d =>
    rw [Option.isNone_some, if_neg Bool.false_ne_true, if_neg Bool.false_ne_true, Shared.getItem_of_some habsent]
    rfl
  | none =>
    rw [Option.isNone_none, if_pos rfl, if_pos rfl, Act.bind]
    cases hd : x.store.refusal? key ((x.heap.keep v).2.view (x.heap.keep v).1) with
    | some e => rw [Shared.set_of_refused hd]
    | none =>
      obtain ⟨l, hl, hset⟩ := howns.set_of_accepted (l := ⟨_, x.ledger.writes⟩) hd
      have hget : x.store.get? l.heap key = some (x.heap.keep v).1 := by
        rw [(hl.owns howns hdatum).get?, Members.get?_put, if_pos rfl]
      rw [hset]
      dsimp only
      rw [Shared.getItem_of_some hget]
      rfl

/-- What a path amounts to: memory is written below, and the first key is assigned. -/
theorem act_setPath (path : String) (v : Value) (x : Site) : (Usage.setPath path v).act x.store x.ledger =
    x.store.update ((Usage.setPath path v).plan x).2 ⟨((Usage.setPath path v).plan x).1, x.ledger.writes⟩ := by
  change x.store.setPath path (x.heap.keep v).1 ⟨(x.heap.keep v).2, x.ledger.writes⟩ = _
  rw [plan, Shared.setPath]
  rcases Path.segments path with - | ⟨key, - | ⟨first, rest⟩⟩
  · rfl
  · exact (Shared.update_single _ _ _).symm
  · exact (Shared.update_single _ _ _).symm

/-- Whatever a use does but to take a key away, it does by assignments in order. -/
theorem act_snd (hx : x.Owned) (hu : x.Allows u) (hdelete : ∀ key, u ≠ .delete key) :
    (u.act x.store x.ledger).2 = (x.store.update (u.plan x).2 ⟨(u.plan x).1, x.ledger.writes⟩).2 := by
  cases u with
  | set key v =>
    rw [plan, Shared.update_single]
    rfl
  | delete key => exact absurd rfl (hdelete key)
  | setDefault key v =>
    rw [plan, act_setDefault hx hu]
    split
    · rw [Shared.update_single]
    · rfl
  | update entries => rfl
  | setPath path v => rw [act_setPath]
  | link key other =>
    change (Act.bind (x.store.getItem key) (x.store.set other) x.ledger).2 = _
    rw [plan, Act.bind, Shared.getItem]
    change _ = (x.store.update ((x.store.get? x.ledger.heap key).map _).toList x.ledger).2
    cases x.store.get? x.ledger.heap key with
    | none => rfl
    | some d => exact (congrArg Prod.snd (Shared.update_single _ _ _)).symm
  | _ => rfl

/-- Memory is ready for assignments: the top is as it was, and what is to be assigned is at hand. -/
structure Ready (x : Site) (p : Heap × Members Datum) : Prop where
  owns : x.store.Owns p.1 x.members
  keepsKinds : x.heap.KeepsKinds p.1
  size : x.heap.cells.size ≤ p.1.cells.size
  offers : ∀ m ∈ p.2, x.store.Offers p.1 m.2
  nodup : p.2.keys.Nodup

/-- Memory that has only grown is ready for one assignment or none. -/
theorem Ready.of_extends {x : Site} {h : Heap} {es : Members Datum} (howns : x.store.Owns h x.members)
    (hext : h.Extends x.heap) (hes : ∀ m ∈ es, x.store.Offers h m.2) (hnodup : es.keys.Nodup) : Ready x (h, es) :=
  ⟨howns, hext.keepsKinds, hext.size, hes, hnodup⟩

theorem ready (hx : x.Owned) (hu : x.Allows u) : Ready x (u.plan x) := by
  have hkeep : ∀ {v : Value}, x.Offers v → x.store.Owns (x.heap.keep v).2 x.members ∧
      x.store.Offers (x.heap.keep v).2 (x.heap.keep v).1 := fun hv => hx.keep hv.free hv.lacks
  have hext := Heap.extends_keep x.heap
  cases u with
  | set key v =>
    obtain ⟨howns, hdatum⟩ := hkeep hu
    exact .of_extends howns (hext v) (List.forall_mem_singleton.2 hdatum) (List.nodup_singleton key)
  | setDefault key v =>
    obtain ⟨howns, hdatum⟩ := hkeep hu
    rw [plan]
    split
    · exact .of_extends howns (hext v) (List.forall_mem_singleton.2 hdatum) (List.nodup_singleton key)
    · exact .of_extends howns (hext v) (fun m hm => absurd hm List.not_mem_nil) List.nodup_nil
  | update entries =>
    obtain ⟨howns, hext', hdata, hkeys⟩ := hx.keepMembers fun m hm => ⟨(hu.2 m hm).free, (hu.2 m hm).lacks⟩
    exact .of_extends howns hext' hdata (hkeys ▸ hu.1)
  | setPath path v =>
    obtain ⟨howns, hdatum⟩ := hkeep hu
    rw [plan]
    rcases Path.segments path with - | ⟨key, - | ⟨first, rest⟩⟩
    · exact .of_extends howns (hext v) (fun m hm => absurd hm List.not_mem_nil) List.nodup_nil
    · exact .of_extends howns (hext v) (List.forall_mem_singleton.2 hdatum) (List.nodup_singleton key)
    · obtain ⟨hunder, hext', hobject, ms, hms⟩ := howns.objectUnder key
      have hdatum' := hdatum.later hext'.size
      have hne := fun heq => hobject.ne (congrArg Datum.ref heq)
      obtain ⟨-, hsize⟩ := hunder.closed.writeBelow hdatum'.free
        ((x.heap.keep v).2.objectUnder x.store.data key).1 first rest
      exact {
        owns := hunder.writeBelow hne hdatum' first rest
        keepsKinds := ((hext v).trans hext').keepsKinds.trans (Heap.keepsKinds_writeBelow hms first rest _)
        size := Nat.le_trans ((hext v).trans hext').size hsize
        offers := List.forall_mem_singleton.2 (hobject.later hsize)
        nodup := List.nodup_singleton key }
  | link key other =>
    refine .of_extends hx (.refl _) (fun m hm => ?_) ?_
    · obtain ⟨d, hget, rfl⟩ := Option.map_eq_some_iff.1 (Option.mem_toList.1 hm)
      rw [hx.get?] at hget
      exact hx.offers (key, d) (Members.mem_of_get? hget)
    · cases x.store.get? x.heap key <;> simp [Members.keys]
  | _ => exact .of_extends hx (.refl _) (fun m hm => absurd hm List.not_mem_nil) List.nodup_nil

/-- The object under a key is the same after a value has been kept. -/
theorem objectOf?_keep (hx : x.Owned) {v : Value} (hv : x.Offers v) (key : String) :
    (Members.get? ((x.heap.keep v).2.membersAt x.store.data) key).bind (x.heap.keep v).2.objectOf? =
      x.heap.objectOf? (x.held key) := by
  rw [(hx.keep hv.free hv.lacks).1.membersAt, Site.held]
  cases hget : Members.get? x.members key with
  | none => rfl
  | some d => exact (Heap.extends_keep x.heap v).objectOf?_eq (hx.offers _ (Members.mem_of_get? hget)).free

/-- Where a use writes through, the object that is there is written below, and is assigned again at the top. -/
theorem exists_of_through (hx : x.Owned) (hu : x.Allows u) (hthrough : u.WritesThrough x) :
    ∃ path v key first rest b, u = .setPath path v ∧ Path.segments path = key :: first :: rest ∧
      Members.get? x.members key = some (.ref b) ∧
      u.plan x = ((x.heap.keep v).2.writeBelow b first rest (x.heap.keep v).1, [(key, .ref b)]) := by
  cases u with
  | setPath path v =>
    obtain ⟨key, first, rest, hpath, hsome⟩ := hthrough
    obtain ⟨b, hb⟩ := Option.isSome_iff_exists.1 hsome
    have hget : Members.get? x.members key = some (.ref b) := by
      have hheld := (Heap.objectOf?_eq_some_iff.1 hb).1
      rw [Site.held] at hheld
      cases hget : Members.get? x.members key with
      | none => rw [hget] at hheld; cases hheld
      | some d => rw [hget] at hheld; exact congrArg some hheld
    rw [← objectOf?_keep hx hu] at hb
    refine ⟨path, v, key, first, rest, b, rfl, hpath, hget, ?_⟩
    have hunder : (x.heap.keep v).2.objectUnder x.store.data key = (b, (x.heap.keep v).2) := by
      rw [Heap.objectUnder, hb]
    rw [plan, hpath]
    dsimp only
    rw [hunder]
  | _ => exact absurd hthrough not_false

/-- A use that does not write through only adds to memory before it assigns. -/
theorem extends_plan (hx : x.Owned) (hu : x.Allows u) (hthrough : ¬u.WritesThrough x) :
    (u.plan x).1.Extends x.heap := by
  have hext := Heap.extends_keep x.heap
  cases u with
  | update entries => exact (hx.keepMembers fun m hm => ⟨(hu.2 m hm).free, (hu.2 m hm).lacks⟩).2.1
  | setPath path v =>
    rw [plan]
    cases hpath : Path.segments path with
    | nil => exact hext v
    | cons key more =>
      cases more with
      | nil => exact hext v
      | cons first rest =>
        have hnone : x.heap.objectOf? (x.held key) = none :=
          Option.not_isSome_iff_eq_none.1 fun hsome => hthrough ⟨key, first, rest, hpath, hsome⟩
        rw [← objectOf?_keep hx hu] at hnone
        have hunder : (x.heap.keep v).2.objectUnder x.store.data key = (x.heap.keep v).2.alloc (.dict []) := by
          rw [Heap.objectUnder, hnone]
        dsimp only
        rw [hunder]
        exact Heap.extends_writeBelow ((hext v).trans (Heap.extends_alloc _ _)) (hext v).size
          (Heap.cell?_alloc_self _ _) first rest _
  | set key v => exact hext v
  | setDefault key v => exact hext v
  | _ => exact .refl _

/-- After a use that takes no key away the members at the top are the old ones and what has been assigned. -/
theorem heap_perform (hx : x.Owned) (hu : x.Allows u) (hdelete : ∀ key, u ≠ .delete key) :
    (u.perform x).2.heap = (u.plan x).1.write x.store.data
      (.dict (Members.putAll x.members (x.store.accepted (u.plan x).1 (u.plan x).2))) := by
  have hready := ready hx hu
  change (u.act x.store x.ledger).2.heap = _
  rw [act_snd hx hu hdelete]
  exact hready.owns.heap_update (l := ⟨_, _⟩) hready.offers

theorem data_perform (u : Usage) (x : Site) : (u.perform x).2.store.data = x.store.data := by
  cases u <;> rfl

theorem members_perform (hx : x.Owned) (hu : x.Allows u) (hdelete : ∀ key, u ≠ .delete key) :
    (u.perform x).2.members = Members.putAll x.members (x.store.accepted (u.plan x).1 (u.plan x).2) := by
  have hready := ready hx hu
  rw [Site.members, data_perform, heap_perform hx hu hdelete, Heap.membersAt, Heap.cell?_write_self hready.owns.lt]

/-- After any use the members at the top are old ones or have been assigned. -/
theorem exists_heap_perform (hx : x.Owned) (hu : x.Allows u) : ∃ ms,
    (u.perform x).2.heap = (u.plan x).1.write x.store.data (.dict ms) ∧
      ∀ m ∈ ms, m ∈ x.store.accepted (u.plan x).1 (u.plan x).2 ∨ m ∈ x.members := by
  by_cases hdelete : ∃ key, u = .delete key
  · obtain ⟨key, rfl⟩ := hdelete
    change ∃ ms, (x.store.delete key x.ledger).2.heap = _ ∧ _
    rw [Shared.delete]
    cases x.store.get? x.ledger.heap key with
    | none => exact ⟨x.members, (Heap.write_self hx.object).symm, fun m hm => Or.inr hm⟩
    | some d => exact ⟨_, rfl, fun m hm => Or.inr (Members.mem_of_mem_erase hm)⟩
  · exact ⟨_, heap_perform hx hu fun key heq => hdelete ⟨key, heq⟩, fun m hm => Members.mem_putAll hm⟩

theorem accepts_perform (u : Usage) (x : Site) (key : String) (v : Value) :
    (u.perform x).2.store.accepts key v = x.store.accepts key v := by
  have hinfo : ∀ f : StoreInfo → StoreInfo, (∀ info, (f info).name = info.name ∧ (f info).schema = info.schema) →
      ({ x.store with store := x.store.store.map f } : Shared).accepts key v = x.store.accepts key v := by
    intro f hf
    rw [Shared.accepts, Shared.accepts, Shared.refusal?, Shared.refusal?]
    cases x.store.store with
    | none => rfl
    | some info => simp only [Option.map_some, hf info]
  cases u with
  | observe l => exact hinfo _ fun info => ⟨rfl, rfl⟩
  | unobserve number => exact hinfo _ fun info => ⟨rfl, rfl⟩
  | _ => rfl

/-- The object of a store is its own after every use. -/
theorem owned_perform (hx : x.Owned) (hu : x.Allows u) : (u.perform x).2.Owned := by
  have hready := ready hx hu
  obtain ⟨ms, hheap, hms⟩ := exists_heap_perform hx hu
  have hwrite := hready.owns.write fun m hm => (hms m hm).elim
    (fun hm => hready.offers m (Shared.mem_accepted hm).1) (hready.owns.offers m)
  rw [← hheap] at hwrite
  exact .of_owns (hwrite.congr (data_perform u x))

end Usage

namespace Site

variable {x y : Site}

/-- A new store has an object of its own. -/
theorem owned_opened (info : StoreInfo) {ms : Members Datum} {l : Ledger} (hl : l.heap.Closed)
    (hms : ∀ m ∈ ms, m.2.Free (.beyond l.heap.cells.size)) : (opened info ms l).Owned := by
  have hfree : (Cell.dict ms).Free (.beyond l.heap.cells.size) := Cell.free_dict.2 hms
  have hne : ∀ d : Datum, d.Free (.beyond l.heap.cells.size) → d ≠ .ref l.heap.cells.size := by
    rintro d hd rfl
    exact Nat.lt_irrefl _ (Seal.beyond_eq_none.1 (Datum.free_ref.1 hd))
  refine .of_owns ⟨Heap.cell?_alloc_self l.heap _, hl.alloc hfree, ?_⟩
  intro a c hc hmem
  -- neither an older cell nor the new one leads to the new one
  rcases Heap.cell?_alloc_cases hc with hc | ⟨-, rfl⟩
  · exact hne _ (Heap.closed_iff.1 hl a c hc _ hmem) rfl
  · exact hne _ (hfree _ hmem) rfl

/-- What can be read from a store that is its own can be written to it, as the very containers. -/
theorem Owned.offers_view (hx : x.Owned) {d : Datum} (hd : x.store.Offers x.heap d) : x.Offers (x.heap.view d) :=
  ⟨hx.closed.apart.view hd.free, hx.withheld.lacks_view hd.ne⟩

theorem Owned.steps (hx : x.Owned) (hsteps : x.Steps y) : y.Owned := by
  induction hsteps with
  | refl => exact hx
  | tail _ hstep ih =>
    obtain ⟨u, hu, rfl⟩ := hstep
    exact Usage.owned_perform ih hu

theorem Used.owned (hx : x.Used) : x.Owned := by
  obtain ⟨info, ms, l, hl, hms, hsteps⟩ := hx
  exact (owned_opened info hl hms).steps hsteps

end Site

end NodeFlow
