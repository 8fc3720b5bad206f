import NodeFlow.Proofs.Memory.Usage
/-!
# Stores that check and tell

A schema is enforced where keys are assigned at the top, and nowhere else. That is enough: all that can happen
elsewhere, to objects that stand under several keys as well, is that members of objects are put, and an object with
other members is of the same type as before. So a store that conforms once conforms ever after, whichever uses fail
on the way.

A write that is refused is not told to any observer, and the members at the top are what they were. But a path that
leads through an object has been written below by then, so the object has changed in place, and it stays changed.
That happens only to stores that do not conform: where the schema admits the object there is nothing to refuse.

Of each key that a use assigns every observer is told once, in the order in which the observers were added: of what
the key held and of what it holds now. Both are told of as they are by then. So the old value is the true one unless
the use has changed it in place, and there is one use that does: a write along a path through an object assigns the
very object again, and tells it as the old value and as the new one.
-/

set_option autoImplicit false

namespace NodeFlow

/-! ## 1. Stores that conform -/

namespace Site

variable {x y : Site} {u : Usage}

/-- Every key of the schema that is there holds a value of the type that is demanded. -/
def Conforms (x : Site) : Prop :=
  ∀ info, x.store.store = some info → ∀ m ∈ x.members, ∀ demand, Members.get? info.schema m.1 = some demand →
    demand.admits (x.heap.view m.2) = true

theorem conforms_iff : x.Conforms ↔ ∀ m ∈ x.members, x.store.accepts m.1 (x.heap.view m.2) = true := by
  simp only [Conforms, Shared.accepts_iff]
  exact ⟨fun h m hm info hinfo => h info hinfo m hm, fun h info hinfo m hm => h m hm info hinfo⟩

/-- A use of a store that conforms leaves one that conforms. -/
theorem conforms_perform (hx : x.Owned) (hu : x.Allows u) (hconforms : x.Conforms) : (u.perform x).2.Conforms := by
  have hready := Usage.ready hx hu
  obtain ⟨ms, hheap, hms⟩ := Usage.exists_heap_perform hx hu
  have hkinds : (u.plan x).1.KeepsKinds (u.perform x).2.heap := by
    rw [hheap]
    exact Heap.keepsKinds_write hready.owns.object _
  have hmembers : (u.perform x).2.members = ms := by
    rw [members, Usage.data_perform, hheap, Heap.membersAt, Heap.cell?_write_self hready.owns.lt]
  rw [conforms_iff] at hconforms ⊢
  rw [hmembers]
  intro m hm
  rw [Usage.accepts_perform]
  -- what has been assigned was accepted when memory was ready, and what was there conformed before
  rcases hms m hm with hm | hm
  · obtain ⟨hmem, haccepts⟩ := Shared.mem_accepted hm
    rwa [Shared.accepts_eq hkinds (hready.offers m hmem).free]
  · rw [Shared.accepts_eq hkinds (hready.owns.offers m hm).free, Shared.accepts_eq hready.keepsKinds (hx.offers m hm).free]
    exact hconforms m hm

theorem Conforms.steps (hconforms : x.Conforms) (hx : x.Owned) (hsteps : x.Steps y) : y.Conforms := by
  induction hsteps with
  | refl => exact hconforms
  | tail hbefore hstep ih =>
    obtain ⟨u, hu, rfl⟩ := hstep
    exact conforms_perform (hx.steps hbefore) hu ih

/-- An update of a store comes to an entry that is refused, and has assigned those before it and no others. -/
def StopsAtRefused (x : Site) (entries : Members Value) : Prop :=
  ∃ before key d after, (Heap.keepMembers entries x.heap).1 = before ++ (key, d) :: after ∧
    (∀ m ∈ before, x.store.accepts m.1 ((Heap.keepMembers entries x.heap).2.view m.2) = true) ∧
    x.store.accepts key ((Heap.keepMembers entries x.heap).2.view d) = false ∧
    ((Usage.update entries).perform x).2.heap =
      (Heap.keepMembers entries x.heap).2.write x.store.data (.dict (Members.putAll x.members before))

theorem stopsAtRefused (hx : x.Owned) {entries : Members Value} (hu : x.Allows (.update entries)) {e : Failure}
    (herror : ((Usage.update entries).perform x).1 = .error e) : x.StopsAtRefused entries := by
  have hready := Usage.ready hx hu
  have hheap := Usage.heap_perform hx hu nofun
  have hresult := hready.owns.result_update (l := ⟨_, x.ledger.writes⟩) hready.offers
  rcases hresult with ⟨hok, -⟩ | ⟨m, rest, e', hsplit, hrefused, -⟩
  · exact absurd (herror.symm.trans hok) nofun
  · exact ⟨_, m.1, m.2, rest, hsplit, fun m hm => (Shared.mem_accepted hm).2, hrefused, hheap⟩

/-- **A store that conforms stays so**, from when it is made and through all uses, those that fail included; and an
update that fails has applied exactly the entries before the first that is refused. -/
theorem conforming_stays {info : StoreInfo} {ms : Members Datum} {l : Ledger} (hl : l.heap.Closed)
    (hms : ∀ m ∈ ms, m.2.Free (.beyond l.heap.cells.size)) (hconforms : (opened info ms l).Conforms)
    (hx : (opened info ms l).Steps x) :
    x.Conforms ∧ ∀ (entries : Members Value) (e : Failure), x.Allows (.update entries) →
      ((Usage.update entries).perform x).1 = .error e → x.StopsAtRefused entries := by
  have hopened := owned_opened info hl hms
  exact ⟨hconforms.steps hopened hx, fun entries e hu herror => stopsAtRefused (hopened.steps hx) hu herror⟩

/-- A store that counts. -/
def counting : Site :=
  opened ⟨"counting", [("count", .one .int)], []⟩ [("count", .int 1)] ⟨.empty, []⟩

theorem conforming_stays_counting :
    ((Usage.set "count" (.str "two")).perform counting).2.Conforms ∧
      ((Usage.set "count" (.str "two")).perform counting).2.StopsAtRefused
        [("note", .ofList [.null]), ("count", .null), ("more", .int 0)] := by
  have hclosed : Heap.empty.Closed := Heap.closed_of_forall (by decide)
  have hfree : ∀ m ∈ [("count", Datum.int 1)], m.2.Free (.beyond Heap.empty.cells.size) := by
    simp [Datum.Free, Datum.refs]
  have hconforms : counting.Conforms := conforms_iff.2 (by decide)
  have hjson : (Value.ofList [.null]).IsJson := .list (List.forall_mem_singleton.2 .null)
  have hsteps : counting.Steps ((Usage.set "count" (.str "two")).perform counting).2 :=
    .single ⟨.set "count" (.str "two"), Offers.of_isJson (.str "two"), rfl⟩
  obtain ⟨hstays, hstops⟩ := conforming_stays hclosed hfree hconforms hsteps
  refine ⟨hstays, hstops _ (.wrongType "counting" "count" "<class 'int'>" "NoneType") ⟨by decide, ?_⟩ rfl⟩
  simp only [List.forall_mem_cons]
  exact ⟨.of_isJson hjson, .of_isJson .null, .of_isJson (.int 0), fun m hm => absurd hm List.not_mem_nil⟩

end Site

/-! ## 2. Writes that are refused -/

namespace Shared

variable {s : Shared} {l : Ledger} {key : String} {d : Datum} {e : Failure}

theorem set_of_error (herror : (s.set key d l).1 = .error e) : s.set key d l = (.error e, l) := by
  rw [set] at herror ⊢
  split at herror
  · exact congrArg (·, l) herror
  · cases herror

end Shared

namespace Usage

variable {x y : Site} {u : Usage} {e : Failure}

/-- A use other than an update that fails assigns nothing. -/
theorem ledger_of_error (hx : x.Owned) (hu : x.Allows u) (hone : ∀ entries, u ≠ .update entries)
    (herror : (u.act x.store x.ledger).1 = .error e) :
    (u.act x.store x.ledger).2 = ⟨(u.plan x).1, x.ledger.writes⟩ := by
  cases u with
  | set key v => exact congrArg Prod.snd (Shared.set_of_error (l := ⟨(x.heap.keep v).2, x.ledger.writes⟩) herror)
  | delete key =>
    change (x.store.delete key x.ledger).1 = _ at herror
    change (x.store.delete key x.ledger).2 = _
    rw [Shared.delete] at herror ⊢
    split at herror
    · rfl
    · cases herror
  | setDefault key v =>
    rw [act_setDefault hx hu] at herror ⊢
    split at herror
    · next habsent =>
      rw [if_pos habsent]
      exact congrArg Prod.snd (Shared.set_of_error herror)
    · cases herror
  | update entries => exact absurd rfl (hone entries)
  | setPath path v =>
    rw [act_setPath] at herror ⊢
    rw [plan] at herror ⊢
    revert herror
    rcases Path.segments path with - | ⟨key, - | ⟨first, rest⟩⟩ <;> intro herror
    · rfl
    all_goals
      rw [Shared.update_single] at herror ⊢
      exact congrArg Prod.snd (Shared.set_of_error herror)
  | link key other =>
    change (Act.bind (x.store.getItem key) (x.store.set other) x.ledger).1 = _ at herror
    change (Act.bind (x.store.getItem key) (x.store.set other) x.ledger).2 = _
    rw [Act.bind, Shared.getItem] at herror ⊢
    cases hget : x.store.get? x.ledger.heap key with
    | none => rfl
    | some d =>
      rw [hget] at herror
      exact congrArg Prod.snd (Shared.set_of_error herror)
  | observe l => cases herror
  | unobserve number => cases herror

/-- Where a store conforms, a use that writes through is not refused. -/
theorem not_through_of_error (hx : x.Owned) (hu : x.Allows u) (hconforms : x.Conforms)
    (herror : (u.act x.store x.ledger).1 = .error e) : ¬u.WritesThrough x := by
  intro hthrough
  have hready := ready hx hu
  obtain ⟨path, v, key, first, rest, b, rfl, hpath, hget, hplan⟩ := exists_of_through hx hu hthrough
  have hmem := Members.mem_of_get? hget
  -- the object is of the type that is demanded, and still is when it has been written below
  have haccepts := Site.conforms_iff.1 hconforms _ hmem
  rw [← Shared.accepts_eq hready.keepsKinds (hx.offers _ hmem).free, Shared.accepts,
    Option.isNone_iff_eq_none] at haccepts
  obtain ⟨l, -, hset⟩ := hready.owns.set_of_accepted (l := ⟨_, x.ledger.writes⟩) haccepts
  have hes : ((setPath path v).plan x).2 = [(key, .ref b)] := congrArg Prod.snd hplan
  rw [act_setPath, hes, Shared.update_single, hset] at herror
  cases herror

end Usage

namespace Site

variable {x y : Site} {u : Usage} {e : Failure}

/-- **A write that is refused** is told to nobody and changes no member at the top. Nothing below has changed either,
unless the path leads through an object that the schema does not admit: that object has been written below. -/
theorem refused_write (hx : x.Used) (hu : x.Allows u) (hone : ∀ entries, u ≠ .update entries)
    (herror : u.perform x = (.error e, y)) :
    y.ledger.writes = x.ledger.writes ∧ y.members = x.members ∧
      (¬u.WritesThrough x ∨ x.Conforms → y.store.content y.heap = x.store.content x.heap) ∧
      (u.WritesThrough x → ∃ path v key first rest b, u = .setPath path v ∧
        Path.segments path = key :: first :: rest ∧ x.held key = .ref b ∧
        y.heap = (x.heap.keep v).2.writeBelow b first rest (x.heap.keep v).1) := by
  have hx := hx.owned
  have hready := Usage.ready hx hu
  have hact : (u.act x.store x.ledger).1 = .error e := congrArg Prod.fst herror
  obtain rfl : (u.perform x).2 = y := congrArg Prod.snd herror
  have hledger := Usage.ledger_of_error hx hu hone hact
  have hheap : (u.perform x).2.heap = (u.plan x).1 := congrArg Ledger.heap hledger
  refine ⟨?_, ?_, ?_, ?_⟩
  · change (u.act x.store x.ledger).2.writes = _
    rw [hledger]
  · rw [members, Usage.data_perform, hheap, hready.owns.membersAt]
  · intro hspared
    have hthrough : ¬u.WritesThrough x := hspared.elim id fun hconforms => Usage.not_through_of_error hx hu hconforms hact
    rw [Shared.content, Shared.content, Usage.data_perform, hheap]
    exact (Usage.extends_plan hx hu hthrough).view_eq hx.closed (Datum.free_ref.2 (Seal.beyond_eq_none.2 hx.lt))
  · intro hthrough
    obtain ⟨path, v, key, first, rest, b, hpath, hsegments, hget, hplan⟩ := Usage.exists_of_through hx hu hthrough
    refine ⟨path, v, key, first, rest, b, hpath, hsegments, ?_, by rw [hheap, hplan]⟩
    rw [held, hget, Option.getD_some]

/-- A store that keeps an object where its schema demands a text. -/
def misfiled : Site :=
  opened ⟨"misfiled", [("a", .one .str)], [⟨0, "t", false⟩]⟩ [("a", .ref 0)] ⟨⟨#[.dict [("b", .int 1)]], 1⟩, []⟩

theorem used_misfiled : misfiled.Used :=
  ⟨_, _, _, Heap.closed_of_forall (by decide), List.forall_mem_singleton.2 (Datum.free_ref.2 rfl), .refl⟩

theorem refused_write_misfiled :
    ((Usage.set "a" (.int 0)).perform misfiled).2.ledger.writes = [] ∧
      ((Usage.set "a" (.int 0)).perform misfiled).2.store.content ((Usage.set "a" (.int 0)).perform misfiled).2.heap =
        misfiled.store.content misfiled.heap := by
  obtain ⟨hwrites, -, hcontent, -⟩ :=
    refused_write (u := .set "a" (.int 0)) used_misfiled (Offers.of_isJson (.int 0)) nofun rfl
  exact ⟨hwrites, hcontent (Or.inl not_false)⟩

/-- The write is refused, and what the store holds has changed all the same. -/
theorem refused_write_changes_object : (∃ e, ((Usage.setPath "a.b" (.int 2)).perform misfiled).1 = .error e) ∧
    misfiled.store.content ((Usage.setPath "a.b" (.int 2)).perform misfiled).2.heap ≠
      misfiled.store.content misfiled.heap := by
  refine ⟨⟨_, rfl⟩, fun hsame => ?_⟩
  have hpath : some (Value.int 2) = some (.int 1) := congrArg (·.atPath? "a.b") hsame
  cases hpath

end Site

namespace Shared

/-! ## 3. What observers are told -/

/-- Who is told of a write, in order. -/
def observers (s : Shared) : List Listener :=
  match s.store with
  | none => []
  | some info => info.observers

theorem reports_eq (s : Shared) (h : Heap) (key : String) (old new : Datum) :
    s.reports h key old new = s.observers.map fun o => ⟨o.tag, key, h.view old, h.view new⟩ := by
  obtain ⟨a, store⟩ := s
  cases store with
  | none => rfl
  | some info => exact reports_some a info h key old new

end Shared

namespace Site

/-- The store does not stand in itself, however deep. -/
def Unnested (x : Site) : Prop := ∀ m ∈ x.members, x.store.data ∉ (x.heap.view m.2).marks

instance (x : Site) : Decidable x.Unnested :=
  inferInstanceAs (Decidable (∀ m ∈ x.members, x.store.data ∉ (x.heap.view m.2).marks))

end Site

namespace Usage

variable {x : Site} {u : Usage}

/-- What a use assigns at the top: what is to be assigned, up to the first that is refused. -/
def assigned (u : Usage) (x : Site) : Members Datum := x.store.accepted (u.plan x).1 (u.plan x).2

theorem nodup_assigned (hx : x.Owned) (hu : x.Allows u) : (u.assigned x).keys.Nodup :=
  ((List.takeWhile_prefix _).sublist.map Prod.fst).nodup (ready hx hu).nodup

/-- What has been assigned is what the key holds. -/
theorem get?_members_perform (hx : x.Owned) (hu : x.Allows u) (hdelete : ∀ key, u ≠ .delete key)
    {m : String × Datum} (hm : m ∈ u.assigned x) : Members.get? (u.perform x).2.members m.1 = some m.2 := by
  rw [members_perform hx hu hdelete]
  exact Members.get?_putAll_of_mem _ (nodup_assigned hx hu) hm

/-- Where no object that is there is written below, what is older shows as before, if the store is not part of it. -/
theorem view_perform (hx : x.Owned) (hu : x.Allows u) (hthrough : ¬u.WritesThrough x) {d : Datum}
    (hd : d.Free (.beyond x.heap.cells.size)) (hself : x.store.data ∉ (x.heap.view d).marks) :
    (u.perform x).2.heap.view d = x.heap.view d := by
  obtain ⟨ms, hheap, -⟩ := exists_heap_perform hx hu
  have hplan := (extends_plan hx hu hthrough).view_eq hx.closed hd
  rw [hheap, ← hplan]
  refine Heap.view_congr (Heap.size_write _ _ _) d fun a ha => Heap.cell?_write_of_ne ?_
  rintro rfl
  exact hself (hplan ▸ ha)

/-- What a use that writes through assigns is what the key has held. -/
theorem get?_members_of_through (hx : x.Owned) (hu : x.Allows u) (hthrough : u.WritesThrough x) {m : String × Datum}
    (hm : m ∈ u.assigned x) : Members.get? x.members m.1 = some m.2 := by
  obtain ⟨path, v, key, first, rest, b, -, -, hget, hplan⟩ := exists_of_through hx hu hthrough
  have hmem := (Shared.mem_accepted hm).1
  rw [hplan] at hmem
  obtain rfl := List.mem_singleton.1 hmem
  exact hget

/-- Neither what a key held before a use nor what it holds after leads to the store. -/
theorem unnested_perform (hx : x.Owned) (hu : x.Allows u) (hdelete : ∀ key, u ≠ .delete key) (hbefore : x.Unnested)
    (hafter : (u.perform x).2.Unnested) {m : String × Datum} (hm : m ∈ u.assigned x) :
    x.store.data ∉ ((u.perform x).2.heap.view ((Members.get? x.members m.1).getD .null)).marks ∧
      x.store.data ∉ ((u.perform x).2.heap.view m.2).marks := by
  have hnew := hafter _ (Members.mem_of_get? (get?_members_perform hx hu hdelete hm))
  rw [data_perform] at hnew
  refine ⟨?_, hnew⟩
  by_cases hthrough : u.WritesThrough x
  · rwa [get?_members_of_through hx hu hthrough hm]
  · cases hget : Members.get? x.members m.1 with
    | none => exact List.not_mem_nil
    | some d =>
      have hmem := Members.mem_of_get? hget
      rw [Option.getD_some, view_perform hx hu hthrough (hx.offers _ hmem).free (hbefore _ hmem)]
      exact hbefore _ hmem

theorem writes_perform (hx : x.Owned) (hu : x.Allows u) (hbefore : x.Unnested) (hafter : (u.perform x).2.Unnested) :
    (u.perform x).2.ledger.writes = x.ledger.writes ++ (u.assigned x).flatMap fun m =>
      x.store.reports (u.perform x).2.heap m.1 (x.held m.1) m.2 := by
  by_cases hdelete : ∃ key, u = .delete key
  · obtain ⟨key, rfl⟩ := hdelete
    have hnone : (delete key).assigned x = [] := rfl
    rw [hnone, List.flatMap_nil, List.append_nil]
    change (x.store.delete key x.ledger).2.writes = _
    rw [Shared.delete]
    split <;> rfl
  · have hdelete : ∀ key, u ≠ .delete key := fun key heq => hdelete ⟨key, heq⟩
    have hready := ready hx hu
    have hact : (x.store.update (u.plan x).2 ⟨(u.plan x).1, x.ledger.writes⟩).2 = (u.perform x).2.ledger :=
      (act_snd hx hu hdelete).symm
    have hwrites := hready.owns.writes_update (l := ⟨_, x.ledger.writes⟩) hready.offers hready.nodup
    rw [hact] at hwrites
    exact hwrites (fun m hm => (unnested_perform hx hu hdelete hbefore hafter hm).1)
      fun m hm => (unnested_perform hx hu hdelete hbefore hafter hm).2

end Usage

namespace Site

variable {x : Site} {u : Usage}

/-- **Observers are told of every write** of a key at the top, each of them once and in their order: of what the key
held before and of what it holds after the use. The old value shows as it was before, unless the use has written
through an object; then the object is both the old value and the new one. -/
theorem observers_told (hx : x.Used) (hu : x.Allows u) (hbefore : x.Unnested) (hafter : (u.perform x).2.Unnested) :
    (u.perform x).2.ledger.writes = x.ledger.writes ++ (u.assigned x).keys.flatMap (fun key =>
        x.store.observers.map fun o =>
          ⟨o.tag, key, (u.perform x).2.heap.view (x.held key), (u.perform x).2.heap.view ((u.perform x).2.held key)⟩) ∧
      (¬u.WritesThrough x → ∀ key, (u.perform x).2.heap.view (x.held key) = x.heap.view (x.held key)) ∧
      (u.WritesThrough x → ∀ key ∈ (u.assigned x).keys, (u.perform x).2.held key = x.held key) := by
  have hx := hx.owned
  have hassigned : ∀ m ∈ u.assigned x, (u.perform x).2.held m.1 = m.2 := by
    intro m hm
    have hdelete : ∀ key, u ≠ .delete key := by
      rintro key rfl
      exact absurd hm List.not_mem_nil
    rw [held, Usage.get?_members_perform hx hu hdelete hm, Option.getD_some]
  refine ⟨?_, ?_, ?_⟩
  · rw [Usage.writes_perform hx hu hbefore hafter, Members.keys, List.flatMap_map]
    refine congrArg (x.ledger.writes ++ ·) (List.flatMap_congr fun m hm => ?_)
    rw [Shared.reports_eq, hassigned m hm]
  · intro hthrough key
    rw [held]
    cases hget : Members.get? x.members key with
    | none => rfl
    | some d =>
      have hmem := Members.mem_of_get? hget
      exact Usage.view_perform hx hu hthrough (hx.offers _ hmem).free (hbefore _ hmem)
  · intro hthrough key hkey
    obtain ⟨m, hm, rfl⟩ := List.mem_map.1 hkey
    rw [hassigned m hm, held, Usage.get?_members_of_through hx hu hthrough hm, Option.getD_some]

/-- A store with an object and two observers, the first of which fails. -/
def watched : Site :=
  opened ⟨"watched", [], [⟨0, "s", true⟩, ⟨1, "t", false⟩]⟩ [("a", .ref 0)] ⟨⟨#[.dict [("b", .int 1)]], 1⟩, []⟩

theorem used_watched : watched.Used :=
  ⟨_, _, _, Heap.closed_of_forall (by decide), List.forall_mem_singleton.2 (Datum.free_ref.2 rfl), .refl⟩

theorem observers_told_watched : ((Usage.set "a" (.int 2)).perform watched).2.ledger.writes =
    [⟨"s", "a", .dict (some 0) [("b", .int 1)], .int 2⟩, ⟨"t", "a", .dict (some 0) [("b", .int 1)], .int 2⟩] := by
  obtain ⟨hwrites, -⟩ := observers_told (u := .set "a" (.int 2)) used_watched (Offers.of_isJson (.int 2))
    (by decide) (by decide)
  exact hwrites

/-- A path through an object tells the new value as the old one. -/
theorem path_tells_new_as_old : ∃ w ∈ ((Usage.setPath "a.b" (.int 2)).perform watched).2.ledger.writes,
    w.key = "a" ∧ w.old = .dict (some 0) [("b", .int 2)] ∧
      watched.heap.view (watched.held "a") = .dict (some 0) [("b", .int 1)] :=
  ⟨_, List.mem_cons_self, rfl, rfl, rfl⟩

end Site

end NodeFlow
