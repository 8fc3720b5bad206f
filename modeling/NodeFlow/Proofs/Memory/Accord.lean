import NodeFlow.Diagnostic.Basic
import NodeFlow.Proofs.Memory.Renaming
import NodeFlow.Proofs.Run.Listening
import NodeFlow.Run.World
/-!
# Accords

Two runs may do the same in memories that are not the same. An accord says how the one corresponds to the other:
under which names its cells and labels are found there, and where the two may differ in what can be seen from
outside.

Two kinds of cells are set apart. Hidden ones need not correspond, as nobody looks at them. Sealed ones do, and they
stay as they are in the first run; what this run computes with refers to none of them.

Here is what an accord says of memory, with one lemma for each operation. New cells of both memories come behind all
the others, so it is enough to know which names the next ones have.
-/

set_option autoImplicit false

namespace NodeFlow

/-- How a run corresponds to another one. -/
structure Accord where
  names : Renaming
  hidden : Seal
  sealed : Seal
  hidden_of_sealed : ∀ a, sealed a = none → hidden a = none
  /-- cells that are objects and stay so -/
  objects : Addr → Prop
  /-- how views of the shared context correspond -/
  context : Value → Value → Prop
  /-- what is known of the parameters -/
  params : Value → Prop
  /-- how diagnostics correspond -/
  note : Diagnostic → Diagnostic → Prop
  note_refl : ∀ d, note d d
  /-- do the diagnostics correspond that are on record -/
  recorded : Prop
  /-- how many diagnostics are kept, and who is handed them -/
  setup : Option Nat × List Listener
  /-- how often the collaborators had been called when the first run began, and when the other one did -/
  before : Calls
  before' : Calls
  /-- what had happened when they began -/
  past : List Event
  past' : List Event

variable {A : Accord} {h h' : Heap}

namespace Accord

/-! ## 1. What corresponds -/

/-- Data that correspond and refer to nothing sealed. -/
def Data (A : Accord) (d d' : Datum) : Prop := d.Free A.sealed ∧ d' = d.renamed A.names

/-- Values that correspond and are views of nothing sealed. -/
def Values (A : Accord) (v v' : Value) : Prop := v.Free A.sealed ∧ v' = v.renamed A.names

/-- Two memories that correspond. -/
structure Heaps (A : Accord) (h h' : Heap) : Prop where
  obeys : h.Obeys A.sealed
  shows : Heap.Reflects A.names A.hidden h h'
  cells : ∀ k, A.names.cell (h.cells.size + k) = h'.cells.size + k
  labels : ∀ k, A.names.label (h.nextLabel + k) = h'.nextLabel + k
  objects : ∀ a, A.objects a → ∃ ms, h.cell? a = some (.dict ms)

theorem free_hidden {d : Datum} (hd : d.Free A.sealed) : d.Free A.hidden := fun a ha =>
  A.hidden_of_sealed a (hd a ha)

theorem data_null : A.Data .null .null := ⟨Datum.free_null, rfl⟩

theorem data_str (s : String) : A.Data (.str s) (.str s) := ⟨Datum.free_str s, rfl⟩

theorem data_int (n : Int) : A.Data (.int n) (.int n) := ⟨fun _ ha => absurd ha List.not_mem_nil, rfl⟩

/-- Members that correspond. -/
def Entries (A : Accord) (ms ms' : Members Datum) : Prop :=
  (∀ m ∈ ms, m.2.Free A.sealed) ∧ ms' = ms.map fun m => (m.1, m.2.renamed A.names)

theorem Entries.getD {ms ms' : Members Datum} (hms : A.Entries ms ms') (key : String) {d d' : Datum} (hd : A.Data d d') :
    A.Data ((Members.get? ms key).getD d) ((Members.get? ms' key).getD d') := by
  refine ⟨Members.forall_getD hms.1 hd.1 key, ?_⟩
  rw [hms.2, hd.2, Members.get?_map]
  cases Members.get? ms key <;> rfl

theorem Entries.put {ms ms' : Members Datum} (hms : A.Entries ms ms') (key : String) {d d' : Datum} (hd : A.Data d d') :
    A.Entries (Members.put key d ms) (Members.put key d' ms') := by
  refine ⟨Members.forall_put hms.1 key hd.1, ?_⟩
  rw [hms.2, hd.2, Members.put_map]

theorem Entries.putAll {ms ms' more more' : Members Datum} (hms : A.Entries ms ms') (hmore : A.Entries more more') :
    A.Entries (Members.putAll ms more) (Members.putAll ms' more') := by
  refine ⟨Members.forall_putAll hms.1 hmore.1, ?_⟩
  rw [hms.2, hmore.2, Members.putAll_map]

namespace Heaps

variable {a : Addr} {d d' : Datum}

theorem view (hh : A.Heaps h h') (hd : d.Free A.hidden) : h'.view (d.renamed A.names) = (h.view d).renamed A.names :=
  hh.shows.view hd

theorem values (hh : A.Heaps h h') (hd : A.Data d d') : A.Values (h.view d) (h'.view d') :=
  ⟨hh.obeys.view hd.1, hd.2 ▸ hh.view (free_hidden hd.1)⟩

theorem entries (hh : A.Heaps h h') (ha : A.sealed a = none) :
    A.Entries (h.membersAt a) (h'.membersAt (A.names.cell a)) :=
  ⟨hh.obeys.membersAt ha, hh.shows.membersAt (A.hidden_of_sealed a ha)⟩

theorem items (hh : A.Heaps h h') (ha : A.sealed a = none) :
    List.Forall₂ A.Data (h.itemsAt a) (h'.itemsAt (A.names.cell a)) := by
  rw [hh.shows.itemsAt (A.hidden_of_sealed a ha), List.forall₂_map_right_iff, List.forall₂_same]
  exact fun d hd => ⟨hh.obeys.itemsAt ha d hd, rfl⟩

/-! ## 2. New cells -/

theorem new_hidden (hh : A.Heaps h h') : A.hidden h.cells.size = none := A.hidden_of_sealed _ hh.obeys.fresh

theorem names_size (hh : A.Heaps h h') : A.names.cell h.cells.size = h'.cells.size := hh.cells 0

theorem alloc (hh : A.Heaps h h') {c : Cell} (hc : c.Free A.sealed) :
    A.Heaps (h.alloc c).2 (h'.alloc (c.renamed A.names)).2 where
  obeys := hh.obeys.alloc hc
  shows := hh.shows.alloc hh.cells fun d hd => free_hidden (hc d hd)
  cells k := by
    have hnext := hh.cells (k + 1)
    rw [Heap.size_alloc, Heap.size_alloc, Nat.add_assoc, Nat.add_assoc, Nat.add_comm 1 k]
    exact hnext
  labels := hh.labels
  objects a ha := by
    obtain ⟨ms, hms⟩ := hh.objects a ha
    exact ⟨ms, by rwa [Heap.cell?_alloc_of_lt (Heap.cell?_lt hms)]⟩

/-- A new cell has the name of the new cell. -/
theorem data_alloc (hh : A.Heaps h h') (c c' : Cell) : A.Data (.ref (h.alloc c).1) (.ref (h'.alloc c').1) :=
  ⟨Datum.free_ref.2 hh.obeys.fresh, congrArg Datum.ref hh.names_size.symm⟩

/-- Objects that correspond are put into new cells. -/
theorem alloc_dict (hh : A.Heaps h h') {ms ms' : Members Datum} (hms : A.Entries ms ms') :
    A.Heaps (h.alloc (.dict ms)).2 (h'.alloc (.dict ms')).2 := by
  have hnew := hh.alloc (Cell.free_dict.2 hms.1)
  rwa [Cell.renamed, ← hms.2] at hnew

theorem alloc_list (hh : A.Heaps h h') {ds ds' : List Datum} (hds : List.Forall₂ A.Data ds ds') :
    A.Heaps (h.alloc (.list ds)).2 (h'.alloc (.list ds')).2 := by
  have hall : (∀ d ∈ ds, d.Free A.sealed) ∧ ds' = ds.map (Datum.renamed A.names) := by
    induction hds with
    | nil => exact ⟨fun d hd => absurd hd List.not_mem_nil, rfl⟩
    | cons hd _ ih => exact ⟨List.forall_mem_cons.2 ⟨hd.1, ih.1⟩, by rw [List.map_cons, ← hd.2, ← ih.2]⟩
  have hnew := hh.alloc (Cell.free_list.2 hall.1)
  rwa [Cell.renamed, ← hall.2] at hnew

/-- Keeping a value leaves both memories alike, and what it is kept as corresponds. -/
def Keeps (A : Accord) (v : Value) : Prop := ∀ h h' : Heap, A.Heaps h h' →
  A.Data (h.keep v).1 (h'.keep (v.renamed A.names)).1 ∧ A.Heaps (h.keep v).2 (h'.keep (v.renamed A.names)).2

theorem keepItems (hh : A.Heaps h h') {xs : List Value} (hxs : ∀ x ∈ xs, Keeps A x) :
    List.Forall₂ A.Data (Heap.keepItems xs h).1 (Heap.keepItems (xs.map (Value.renamed A.names)) h').1 ∧
      A.Heaps (Heap.keepItems xs h).2 (Heap.keepItems (xs.map (Value.renamed A.names)) h').2 := by
  induction xs generalizing h h' with
  | nil => exact ⟨.nil, hh⟩
  | cons x xs ih =>
    rw [List.forall_mem_cons] at hxs
    obtain ⟨hx, hh₁⟩ := hxs.1 h h' hh
    obtain ⟨hrest, hh₂⟩ := ih hh₁ hxs.2
    exact ⟨.cons hx hrest, hh₂⟩

theorem keepMembers (hh : A.Heaps h h') {ms : List (String × Value)} (hms : ∀ m ∈ ms, Keeps A m.2) :
    A.Entries (Heap.keepMembers ms h).1
        (Heap.keepMembers (ms.map fun m => (m.1, m.2.renamed A.names)) h').1 ∧
      A.Heaps (Heap.keepMembers ms h).2 (Heap.keepMembers (ms.map fun m => (m.1, m.2.renamed A.names)) h').2 := by
  induction ms generalizing h h' with
  | nil => exact ⟨⟨fun m hm => absurd hm List.not_mem_nil, rfl⟩, hh⟩
  | cons m ms ih =>
    rw [List.forall_mem_cons] at hms
    obtain ⟨hm, hh₁⟩ := hms.1 h h' hh
    obtain ⟨hrest, hh₂⟩ := ih hh₁ hms.2
    refine ⟨⟨List.forall_mem_cons.2 ⟨hm.1, hrest.1⟩, ?_⟩, hh₂⟩
    rw [List.map_cons, Heap.keepMembers, Heap.keepMembers, List.map_cons, hm.2, hrest.2]

theorem label (hh : A.Heaps h h') :
    A.Heaps { h with nextLabel := h.nextLabel + 1 } { h' with nextLabel := h'.nextLabel + 1 } where
  obeys := ⟨hh.obeys.sealed, hh.obeys.free⟩
  shows := ⟨hh.shows.apart, hh.shows.cell⟩
  cells := hh.cells
  labels k := by
    have hnext := hh.labels (k + 1)
    rw [Nat.add_assoc, Nat.add_assoc, Nat.add_comm 1 k]
    exact hnext
  objects := hh.objects

theorem keep (hh : A.Heaps h h') {v v' : Value} (hv : A.Values v v') :
    A.Data (h.keep v).1 (h'.keep v').1 ∧ A.Heaps (h.keep v).2 (h'.keep v').2 := by
  obtain ⟨hfree, rfl⟩ := hv
  revert h h'
  show ∀ h h' : Heap, A.Heaps h h' → _
  induction v using Value.induction with
  | plain v hp =>
    intro h h' hh
    have hdatum : ∀ d : Datum, d.refs = [] → d.Free A.sealed := by
      intro d hd a ha
      rw [hd] at ha
      exact absurd ha List.not_mem_nil
    cases v with
    | float x =>
      cases x with
      | nan label =>
        cases label with
        | none =>
          -- a not-a-number gets the next label
          refine ⟨⟨hdatum _ rfl, ?_⟩, hh.label⟩
          exact congrArg (fun l => Datum.float (.nan (some l))) (hh.labels 0).symm
        | some l => exact ⟨⟨hdatum _ rfl, rfl⟩, hh⟩
      | _ => exact ⟨⟨hdatum _ rfl, rfl⟩, hh⟩
    | list | dict | store => cases hp
    | _ => exact ⟨⟨hdatum _ rfl, rfl⟩, hh⟩
  | list cell xs ih =>
    intro h h' hh
    rw [Value.free_list] at hfree
    rw [Value.renamed_list]
    cases cell with
    | some a => exact ⟨⟨Datum.free_ref.2 (hfree.1 a rfl), rfl⟩, hh⟩
    | none =>
      obtain ⟨hitems, hh₁⟩ := hh.keepItems fun x hx h h' hh => ih x hx (hfree.2 x hx) h h' hh
      exact ⟨hh₁.data_alloc _ _, hh₁.alloc_list hitems⟩
  | dict cell ms ih =>
    intro h h' hh
    rw [Value.free_dict] at hfree
    rw [Value.renamed_dict]
    cases cell with
    | some a => exact ⟨⟨Datum.free_ref.2 (hfree.1 a rfl), rfl⟩, hh⟩
    | none =>
      obtain ⟨hmembers, hh₁⟩ := hh.keepMembers fun m hm h h' hh => ih m hm (hfree.2 m hm) h h' hh
      exact ⟨hh₁.data_alloc _ _, hh₁.alloc_dict hmembers⟩
  | store cell name ms _ =>
    intro h h' hh
    rw [Value.renamed_store]
    exact ⟨⟨Datum.free_store.2 (Value.free_store.1 hfree).1, rfl⟩, hh⟩

/-! ## 3. Writes -/

theorem write (hh : A.Heaps h h') (ha : A.sealed a = none) {ms ms' : Members Datum} (hms : A.Entries ms ms') :
    A.Heaps (h.write a (.dict ms)) (h'.write (A.names.cell a) (.dict ms')) where
  obeys := hh.obeys.write ha (Cell.free_dict.2 hms.1)
  shows := by
    refine ⟨fun b c hb hc => ?_, fun b hb => ?_⟩
    · rw [Heap.cell?_write] at hc
      split at hc
      · split at hc
        · obtain rfl := Option.some.inj hc
          exact fun d hd => free_hidden (Cell.free_dict.2 hms.1 d hd)
        · cases hc
      · exact hh.shows.apart b c hb hc
    · rw [Heap.cell?_write, Heap.cell?_write]
      by_cases hab : a = b
      · subst hab
        rw [if_pos rfl, if_pos rfl]
        -- both cells are in use, or none of them
        have hcell := hh.shows.cell a hb
        have hiff : A.names.cell a < h'.cells.size ↔ a < h.cells.size := by
          have hnone : h'.cell? (A.names.cell a) = none ↔ h.cell? a = none := by rw [hcell, Option.map_eq_none_iff]
          rw [Heap.cell?, Heap.cell?, Array.getElem?_eq_none_iff, Array.getElem?_eq_none_iff] at hnone
          rw [← not_le, ← not_le, hnone]
        split
        · rw [if_pos (hiff.1 ‹_›), Option.map_some, Cell.renamed, ← hms.2]
        · rw [if_neg (mt hiff.2 ‹_›), Option.map_none]
      · rw [if_neg hab, if_neg fun heq => hab (A.names.cell_injective heq)]
        exact hh.shows.cell b hb
  cells k := by
    rw [Heap.write, Heap.write, Array.size_setIfInBounds, Array.size_setIfInBounds]
    exact hh.cells k
  labels := hh.labels
  objects b hb := by
    obtain ⟨ns, hns⟩ := hh.objects b hb
    rw [Heap.cell?_write]
    split
    · next hab =>
      subst hab
      exact ⟨ms, if_pos (Heap.cell?_lt hns)⟩
    · exact ⟨ns, hns⟩

theorem putMember (hh : A.Heaps h h') (ha : A.sealed a = none) (hd : A.Data d d') (key : String) :
    A.Heaps (h.putMember a key d) (h'.putMember (A.names.cell a) key d') :=
  hh.write ha ((hh.entries ha).put key hd)

/-- A member is an object in both memories or in none. -/
theorem objectUnder? (hh : A.Heaps h h') (ha : A.sealed a = none) (key : String) :
    (Members.get? (h'.membersAt (A.names.cell a)) key).bind h'.objectOf? =
      ((Members.get? (h.membersAt a) key).bind h.objectOf?).map A.names.cell := by
  have hentries := hh.entries ha
  rw [hentries.2, Members.get?_map]
  cases hget : Members.get? (h.membersAt a) key with
  | none => rfl
  | some d =>
    have hd := hentries.1 _ (Members.mem_of_get? hget)
    rw [Option.map_some, Option.bind_some, Option.bind_some]
    cases d with
    | ref b =>
      have hb := A.hidden_of_sealed b (Datum.free_ref.1 hd)
      rw [Datum.renamed_ref, Heap.objectOf?, Heap.objectOf?, hh.shows.cell b hb]
      cases h.cell? b with
      | none => rfl
      | some c => cases c <;> rfl
    | _ => rfl

theorem entries_nil : A.Entries [] [] := ⟨fun _ hm => absurd hm List.not_mem_nil, rfl⟩

theorem objectUnder (hh : A.Heaps h h') (ha : A.sealed a = none) (key : String) :
    (A.sealed (h.objectUnder a key).1 = none ∧
      (h'.objectUnder (A.names.cell a) key).1 = A.names.cell (h.objectUnder a key).1) ∧
      A.Heaps (h.objectUnder a key).2 (h'.objectUnder (A.names.cell a) key).2 := by
  rw [Heap.objectUnder, Heap.objectUnder, hh.objectUnder? ha]
  cases hb : (Members.get? (h.membersAt a) key).bind h.objectOf? with
  | some b => exact ⟨⟨hh.obeys.objectOf? ha hb, rfl⟩, hh⟩
  | none => exact ⟨⟨hh.obeys.fresh, hh.names_size.symm⟩, hh.alloc_dict entries_nil⟩

theorem writeBelow (hh : A.Heaps h h') (ha : A.sealed a = none) (hd : A.Data d d') (first : String)
    (rest : List String) :
    A.Heaps (h.writeBelow a first rest d) (h'.writeBelow (A.names.cell a) first rest d') := by
  -- the induction follows the path; each step leads to an object that is free
  induction rest generalizing h h' a first with
  | nil => exact hh.putMember ha hd first
  | cons key more ih =>
    rw [Heap.writeBelow, Heap.writeBelow, hh.objectUnder? ha]
    cases hb : (Members.get? (h.membersAt a) first).bind h.objectOf? with
    | some b => exact ih hh (hh.obeys.objectOf? ha hb) key
    | none =>
      have hnew := (hh.alloc_dict entries_nil).putMember ha (hh.data_alloc (.dict []) (.dict [])) first
      have hbelow := ih hnew hh.obeys.fresh key
      rw [hh.names_size] at hbelow
      exact hbelow

end Heaps

/-! ## 4. Contexts -/

end Accord

/-- A write as it is seen under other names. -/
def Write.renamed (σ : Renaming) (w : Write) : Write :=
  { w with old := w.old.renamed σ, new := w.new.renamed σ }

namespace Accord

/-- Two shared contexts that correspond: the same is refused and reported. -/
structure Contexts (A : Accord) (s s' : Shared) : Prop where
  data : s'.data = A.names.cell s.data
  free : A.sealed s.data = none
  view : ∀ h h', A.Heaps h h' → A.context (s.view h) (s'.view h')
  refusal : ∀ key v, s'.refusal? key (v.renamed A.names) = s.refusal? key v
  reports : ∀ h h', A.Heaps h h' → ∀ (key : String) (old old' new new' : Datum), A.Data old old' → A.Data new new' →
    s'.reports h' key old' new' = (s.reports h key old new).map (Write.renamed A.names)

/-- Memory and what has been reported of it, on both sides. -/
structure Ledgers (A : Accord) (l l' : Ledger) : Prop where
  heap : A.Heaps l.heap l'.heap
  writes : l'.writes = l.writes.map (Write.renamed A.names)

/-- How an action on a context ends on both sides. -/
structure Ends (A : Accord) (r r' : Except Failure Unit × Ledger) : Prop where
  result : r'.1 = r.1
  ledger : A.Ledgers r.2 r'.2

namespace Contexts

variable {s s' : Shared} {l l' : Ledger} {d d' : Datum}

theorem entries (hs : A.Contexts s s') (hh : A.Heaps h h') : A.Entries (h.membersAt s.data) (h'.membersAt s'.data) :=
  hs.data ▸ hh.entries hs.free

theorem set (hs : A.Contexts s s') (hl : A.Ledgers l l') (hd : A.Data d d') (key : String) :
    A.Ends (s.set key d l) (s'.set key d' l') := by
  have hrefusal : s'.refusal? key (l'.heap.view d') = s.refusal? key (l.heap.view d) := by
    rw [(hl.heap.values hd).2, hs.refusal]
  rw [Shared.set, Shared.set, hrefusal]
  cases s.refusal? key (l.heap.view d) with
  | some e => exact ⟨rfl, hl⟩
  | none =>
    have hold := (hs.entries hl.heap).getD key data_null
    have hheap := hl.heap.putMember hs.free hd key
    rw [← hs.data] at hheap
    refine ⟨rfl, hheap, ?_⟩
    dsimp only
    rw [List.map_append, hl.writes]
    exact congrArg _ (hs.reports _ _ hheap key _ _ _ _ hold hd)

theorem setPath (hs : A.Contexts s s') (hl : A.Ledgers l l') (hd : A.Data d d') (path : String) :
    A.Ends (s.setPath path d l) (s'.setPath path d' l') := by
  rw [Shared.setPath, Shared.setPath]
  rcases Path.segments path with - | ⟨key, - | ⟨first, rest⟩⟩
  · exact ⟨rfl, hl⟩
  · exact hs.set hl hd key
  · obtain ⟨⟨hfree, hname⟩, hheap⟩ := hl.heap.objectUnder hs.free key
    rw [← hs.data] at hname hheap
    have hbelow := hheap.writeBelow hfree hd first rest
    rw [← hname] at hbelow
    have hledger := (⟨hbelow, hl.writes⟩ : A.Ledgers ⟨_, l.writes⟩ ⟨_, l'.writes⟩)
    exact hs.set hledger ⟨Datum.free_ref.2 hfree, congrArg Datum.ref hname⟩ key

end Contexts

/-- A context corresponds to what it is called in the other memory. -/
theorem contexts_same {a : Addr} (ha : A.sealed a = none) (store : Option StoreInfo)
    (hcontext : ∀ v, A.context v (v.renamed A.names)) : A.Contexts ⟨a, store⟩ ⟨A.names.cell a, store⟩ where
  data := rfl
  free := ha
  view h h' hh := by
    have hfree : (Shared.mk a store).datum.Free A.hidden := Shared.free_datum (A.hidden_of_sealed a ha)
    have hview := hh.view hfree
    rw [Shared.renamed_datum] at hview
    rw [Shared.view, Shared.view, hview]
    exact hcontext _
  refusal key v := by
    have hadmits : ∀ t : TypeName, t.admits (v.renamed A.names) = t.admits v := by
      intro t
      cases t <;> cases v <;> rfl
    have hdemand : ∀ t : Demand, t.admits (v.renamed A.names) = t.admits v := by
      intro t
      cases t with
      | one t => exact hadmits t
      | among ts => exact congrArg (List.any ts) (funext hadmits)
    rw [Shared.refusal?, Shared.refusal?]
    simp only [hdemand, Value.typeName_renamed]
  reports h h' hh key old old' new new' hold hnew := by
    cases store with
    | none => rfl
    | some info =>
      simp only [Shared.reports_some, List.map_map, (hh.values hold).2, (hh.values hnew).2]
      rfl

/-- A plain context corresponds to a store of the same object that demands nothing and is not observed. -/
theorem contexts_plain {a : Addr} (ha : A.sealed a = none) (hobject : A.objects a) (name : String)
    (hcontext : ∀ ms, A.context (.dict (some a) ms)
      (.store (A.names.cell a) name (ms.map fun m => (m.1, m.2.renamed A.names)))) :
    A.Contexts ⟨a, none⟩ ⟨A.names.cell a, some ⟨name, [], []⟩⟩ where
  data := rfl
  free := ha
  view h h' hh := by
    obtain ⟨ms, hms⟩ := hh.objects a hobject
    have hview := hh.view (Datum.free_ref.2 (A.hidden_of_sealed a ha))
    have hcell := hh.shows.cell a (A.hidden_of_sealed a ha)
    rw [hms, Option.map_some, Cell.renamed] at hcell
    have hmembers : ∀ (g : Heap) (b : Addr) (ns : Members Datum), g.cell? b = some (.dict ns) → ∀ name,
        g.view (.ref b) = .dict (some b) (ns.map fun m => (m.1, g.viewWithin g.cells.size [b] m.2)) ∧
          g.view (.store b name) = .store b name (ns.map fun m => (m.1, g.viewWithin g.cells.size [b] m.2)) := by
      intro g b ns hns name
      rw [Heap.view, Heap.view, Heap.viewWithin, Heap.viewWithin, hns, Heap.membersAt, hns]
      exact ⟨rfl, rfl⟩
    rw [Datum.renamed_ref, (hmembers h' _ _ hcell name).1, (hmembers h a ms hms name).1, Value.renamed_dict] at hview
    have hparts := (Value.dict.inj hview).2
    rw [Shared.view, Shared.view, Shared.datum, Shared.datum, (hmembers h a ms hms name).1,
      (hmembers h' _ _ hcell name).2, hparts]
    exact hcontext _
  refusal _ _ := rfl
  reports _ _ _ _ _ _ _ _ _ _ := rfl

end Accord

end NodeFlow
