import NodeFlow.Proofs.Compile.Order
import NodeFlow.Proofs.Template.Renaming
/-!
# The context as an object or as a store

An object may be given as it is or as a store, and there are expressions that can tell these apart: a store has no
keys to be found with `in`, it equals nothing but itself, and it is shown in another way. An expression cannot tell
them apart if it only takes members of the object, or asks whether it is there, whether it is empty, or how large it
is.

The shared context of a run is an object or a store of one. Whoever takes members of it, or asks whether it is there,
whether it is empty or how large it is, finds no difference. So the graph of a description none of whose expressions
does more with the context runs alike on both. One that uses it as a whole can tell them apart.

The awkward thing up front: expressions are read from memory at every visit, so they have to be still those that were
declared. All of a description is sealed for that, but for what nodes hand on as it is: the parameters, the names of
models, and prompts that are no texts.
-/

set_option autoImplicit false

namespace NodeFlow

namespace Expr

/-! ## 1. Expressions that only look -/

/-- An expression that only looks into what a name stands for, but never uses it as a whole. -/
inductive LooksInto (whole : String) : Expr → Prop
  | lit {l : Literal} : LooksInto whole (.lit l)
  | name {n : String} : n ≠ whole → LooksInto whole (.name n)
  | member {key : Expr} : LooksInto whole key → LooksInto whole (.get (.name whole) key)
  | isEmpty : LooksInto whole (.not (.name whole))
  | asks {f : String} : f ∈ ["len", "bool", "exists"] → LooksInto whole (.call f [.name whole])
  | get {base key : Expr} : LooksInto whole base → LooksInto whole key → LooksInto whole (.get base key)
  | list {items : List Expr} : (∀ e ∈ items, LooksInto whole e) → LooksInto whole (.list items)
  | or {l r : Expr} : LooksInto whole l → LooksInto whole r → LooksInto whole (.or l r)
  | and {l r : Expr} : LooksInto whole l → LooksInto whole r → LooksInto whole (.and l r)
  | not {e : Expr} : LooksInto whole e → LooksInto whole (.not e)
  | neg {e : Expr} : LooksInto whole e → LooksInto whole (.neg e)
  | compare {op : CompareOp} {l r : Expr} : LooksInto whole l → LooksInto whole r → LooksInto whole (.compare op l r)
  | arith {op : ArithOp} {l r : Expr} : LooksInto whole l → LooksInto whole r → LooksInto whole (.arith op l r)
  | call {f : String} {args : List Expr} : (∀ e ∈ args, LooksInto whole e) → LooksInto whole (.call f args)
  | method {receiver : Expr} {m : String} {args : List Expr} : LooksInto whole receiver →
    (∀ e ∈ args, LooksInto whole e) → LooksInto whole (.method receiver m args)

/-- The same names, but one of them stands for an object here and for a store of its members there. -/
structure Stored (whole : String) (names names' : Names) : Prop where
  others : ∀ n, n ≠ whole → names'.lookup n = names.lookup n
  members : ∃ cell ms a name, names.lookup whole = some (.dict cell ms) ∧ names'.lookup whole = some (.store a name ms)

variable {whole : String} {names names' : Names}

theorem evalAll_congr {es : List Expr} (hes : ∀ e ∈ es, eval names' e = eval names e) :
    evalAll names' es = evalAll names es := by
  induction es with
  | nil => rfl
  | cons e es ih =>
    rw [List.forall_mem_cons] at hes
    rw [evalAll, evalAll, hes.1, ih hes.2]

/-- What only looks into an object comes to the same for a store of its members. -/
theorem eval_of_stored (h : Stored whole names names') {e : Expr} (he : LooksInto whole e) :
    eval names' e = eval names e := by
  obtain ⟨cell, ms, a, name, hdict, hstore⟩ := h.members
  induction he with
  | lit => rw [eval, eval]
  | name hne => rw [eval, eval, h.others _ hne]
  | member _ ih =>
    rw [eval, eval, eval, eval, hdict, hstore, ih]
    rfl
  | isEmpty =>
    rw [eval, eval, eval, eval, hdict, hstore]
    rfl
  | asks hf =>
    have hargs : ∀ ns : Names, ∀ v, ns.lookup whole = some v → evalAll ns [.name whole] = .ok [v] := by
      intro ns v hv
      rw [evalAll, eval, hv]
      rfl
    rw [eval, eval, hargs names _ hdict, hargs names' _ hstore]
    simp only [List.mem_cons, List.not_mem_nil, or_false] at hf
    rcases hf with rfl | rfl | rfl <;> rfl
  | get _ _ ihbase ihkey => rw [eval, eval, ihbase, ihkey]
  | list _ ih => rw [eval, eval, evalAll_congr ih]
  | or _ _ ihl ihr => rw [eval, eval, ihl, ihr]
  | and _ _ ihl ihr => rw [eval, eval, ihl, ihr]
  | not _ ih => rw [eval, eval, ih]
  | neg _ ih => rw [eval, eval, ih]
  | compare _ _ ihl ihr => rw [eval, eval, ihl, ihr]
  | arith _ _ ihl ihr => rw [eval, eval, ihl, ihr]
  | call _ ih => rw [eval, eval, evalAll_congr ih]
  | method _ _ ih ihargs => rw [eval, eval, ih, evalAll_congr ihargs]

end Expr

namespace Template

/-- An expression in a template that, if it is one, only looks into the shared context. -/
def LooksIn (expr : List Char) : Prop :=
  ∀ e, Expr.parse (String.ofList (Text.strip expr)) = .ok e → e.LooksInto "ctx"

theorem evaluateIn_of_looksIn {scope scope' : Scope} {expr : List Char} (h : LooksIn expr)
    (hnames : Expr.Stored "ctx" scope.names scope'.names) : evaluateIn scope' expr = evaluateIn scope expr := by
  rw [evaluateIn, evaluateIn, evaluate, evaluate]
  cases hparse : Expr.parse (String.ofList (Text.strip expr)) with
  | error r => rfl
  | ok e =>
    dsimp only
    rw [Expr.eval_of_stored hnames (h e hparse)]

/-- Scopes that differ in their contexts only, an object and a store of its members, agree on what looks into them. -/
theorem agree_of_looksIn {scope scope' : Scope} {cell : Option Addr} {a : Addr} {name : String}
    {ms : List (String × Value)} (hctx : scope.ctx = .dict cell ms) (hctx' : scope'.ctx = .store a name ms)
    (hresult : scope'.result = scope.result) (hexec : scope'.exec = scope.exec) (hitem : scope'.item = scope.item)
    (hparams : scope'.params = scope.params) {expr : List Char} (h : LooksIn expr) :
    Agree .refl scope scope' expr := by
  have hnames : Expr.Stored "ctx" scope.names scope'.names := by
    refine ⟨fun n hn => ?_, cell, ms, a, name, ?_, ?_⟩
    · have hne : (n == "ctx") = false := beq_eq_false_iff_ne.2 hn
      simp only [Scope.names, List.lookup_cons, hne, hresult, hexec, hitem, hparams]
    · rw [Scope.names, hctx]
      rfl
    · rw [Scope.names, hctx']
      rfl
  rw [Agree, evaluateIn_of_looksIn h hnames]
  cases evaluateIn scope expr with
  | ok v => exact .ok v.renamed_refl.symm
  | error e =>
    cases e with
    | refused r => exact .refused rfl
    | escaped f => exact .escaped f

end Template

open Description

namespace Compiler

variable {h₀ kept h : Heap} {d₀ d m : Value} {k : Kind}

/-! ## 2. What is handed on -/

/-- What a declared node hands on as it is declared. -/
def handedOf (m : Value) : List Value :=
  if (kindOf? m).any Kind.prompts then [(m.field "exec").field "prompt", (m.field "exec").field "model"] else []

/-- What is handed on of a description. -/
def handedParts (d : Value) : List Value := d.field "globals" :: (nodesOf d).flatMap handedOf

theorem handedOf_subset {p : Value} (hp : p ∈ handedOf m) :
    (∃ key, p = (m.field "exec").field key) ∧ ∀ a ∈ p.marks, a ∈ (m.field "exec").marks := by
  have hfield : ∃ key, p = (m.field "exec").field key := by
    rw [handedOf] at hp
    split at hp
    · rcases List.mem_cons.1 hp with rfl | hp
      · exact ⟨_, rfl⟩
      · exact ⟨_, List.mem_singleton.1 hp⟩
    · exact absurd hp List.not_mem_nil
  obtain ⟨key, rfl⟩ := hfield
  exact ⟨⟨key, rfl⟩, Value.marks_field_subset _ key⟩

theorem holds_handedParts (hkept : Heap.Kept h₀ d₀ d kept) : ∀ p ∈ handedParts d, kept.Holds p := by
  intro p hp
  rcases List.mem_cons.1 hp with rfl | hp
  · exact hkept.holds.field "globals"
  · obtain ⟨m, hm, hpart⟩ := List.mem_flatMap.1 hp
    obtain ⟨⟨key, rfl⟩, -⟩ := handedOf_subset hpart
    exact ((holds_node hkept hm).field "exec").field key

section

variable (hkept : Heap.Kept h₀ d₀ d kept) (hm : m ∈ nodesOf d)

include hkept hm

/-- What a declaration does not hand on is sealed: its cells are those of no other part. -/
theorem sealed_of_declared {a : Addr} (ha : a ∈ m.marks) (hkeeps : ∀ p ∈ handedOf m, a ∉ p.marks) :
    kept.sealBut d (handedParts d) a = kept.cell? a := by
  refine Heap.sealBut_eq (Value.marks_field_subset d "nodes" a (mem_marks_of_node hm ha)) fun p hp hap => ?_
  rcases List.mem_cons.1 hp with rfl | hp
  · exact Value.not_mem_marks_of_field_ne hkept.nodup (by decide) (mem_marks_of_node hm ha) hap
  · obtain ⟨n, hn, hpart⟩ := List.mem_flatMap.1 hp
    by_cases heq : m = n
    · subst heq
      exact hkeeps p hpart hap
    · exact Value.not_mem_marks_of_item_ne (Value.nodup_field hkept.nodup "nodes") hm hn heq ha
        (Value.marks_field_subset n "exec" a ((handedOf_subset hpart).2 a hap))

variable (hobject : IsObject m) (hh : h.Obeys (kept.sealBut d (handedParts d)))

include hobject hh

theorem cell?_declared : h.cell? (addressOf m) = kept.cell? (addressOf m) := by
  have hheld := holds_node hkept hm
  have hmem := addressOf_mem_marks hheld hobject
  refine hh.cell?_eq (sealed_of_declared hkept hm hmem fun p hp hap => ?_) (hheld.mark_lt _ hmem)
  exact addressOf_not_mem_marks_field hheld hobject (nodup_node hkept hm) "exec" ((handedOf_subset hp).2 _ hap)

/-- A field of which nothing is handed on is read as it was declared. -/
theorem field_declared {key : String} (hkeeps : handedOf m = [] ∨ key ≠ "exec") :
    ((Terms.declaredOf m).contentIn h).field key = m.field key := by
  have hheld := holds_node hkept hm
  have hnodup := nodup_node hkept hm
  refine field_contentIn_of_holds hheld hobject hnodup (cell?_declared hkept hm hobject hh) ?_
  refine (hheld.field key).of_obeys hh fun a ha => ?_
  refine sealed_of_declared hkept hm (Value.marks_field_subset m key a ha) fun p hp hap => ?_
  rcases hkeeps with hnil | hne
  · rw [hnil] at hp
    exact absurd hp List.not_mem_nil
  · exact Value.not_mem_marks_of_field_ne hnodup hne ha ((handedOf_subset hp).2 a hap)

/-- What a node works with is read with the keys that it was declared with. -/
theorem get?_exec_declared (key : String) : ∃ depth path,
    Members.get? (((Terms.declaredOf m).contentIn h).field "exec").members key =
      (Members.get? (m.field "exec").members key).map fun x => h.viewWithin depth path x.datum := by
  have hheld := holds_node hkept hm
  have hnodup := nodup_node hkept hm
  have hcell := cell?_declared hkept hm hobject hh
  have hexec := hheld.field "exec"
  -- there is at least one cell, that of the declaration
  have hsize : ∃ depth, h.cells.size = depth + 1 := by
    have hlt := hheld.mark_lt _ (addressOf_mem_marks hheld hobject)
    rw [show kept.cell? (addressOf m) = some kept.cells[addressOf m] from Array.getElem?_eq_getElem hlt] at hcell
    exact Nat.exists_eq_succ_of_ne_zero (Nat.ne_zero_of_lt (Heap.cell?_lt hcell))
  obtain ⟨depth, hdepth⟩ := hsize
  refine ⟨depth, (m.field "exec").datum.refs ++ [addressOf m], ?_⟩
  rw [field_contentIn_of_cell hheld hobject hcell, hdepth]
  refine hexec.get?_viewWithin (fun a ha => ?_) (fun a ha hmem => ?_) depth key
  · -- the cell of the whole is that of no member
    have hmark := (m.field "exec").refs_datum_subset a ha
    refine hh.cell?_eq (sealed_of_declared hkept hm (Value.marks_field_subset m "exec" a hmark) fun p hp => ?_)
      (hexec.mark_lt a hmark)
    obtain ⟨⟨other, rfl⟩, -⟩ := handedOf_subset hp
    exact hexec.not_mem_field (Value.nodup_field hnodup "exec") other a ha
  · obtain rfl := List.mem_singleton.1 hmem
    exact addressOf_not_mem_marks_field hheld hobject hnodup "exec" ((m.field "exec").refs_datum_subset _ ha)

/-- A member that is handed on may have changed, but only to something free. -/
theorem free_exec_declared {key : String} (hkey : (m.field "exec").field key ∈ handedOf m) {x : Value}
    (hx : Members.get? (((Terms.declaredOf m).contentIn h).field "exec").members key = some x) :
    x.Free (kept.sealBut d (handedParts d)) := by
  obtain ⟨depth, path, hget⟩ := get?_exec_declared hkept hm hobject hh key
  rw [hget, Option.map_eq_some_iff] at hx
  obtain ⟨y, hy, rfl⟩ := hx
  refine hh.viewWithin _ _ fun b hb => ?_
  refine Heap.sealBut_of_part (List.mem_cons_of_mem _ (List.mem_flatMap.2 ⟨m, hm, hkey⟩)) ?_
  rw [Value.field, hy]
  exact y.refs_datum_subset b hb

/-- A prompt that is a text is the one that was declared. -/
theorem promptOf_declared {t : String}
    (ht : promptOf (((Terms.declaredOf m).contentIn h).field "exec") = .str t) : promptOf (m.field "exec") = .str t := by
  obtain ⟨depth, path, hget⟩ := get?_exec_declared hkept hm hobject hh "prompt"
  rw [promptOf, fieldOr, hget] at ht
  rw [promptOf, fieldOr]
  cases hprompt : Members.get? (m.field "exec").members "prompt" with
  | none =>
    rw [hprompt] at ht
    exact ht
  | some x =>
    rw [hprompt, Option.map_some, Option.getD_some, Heap.viewWithin_eq_str] at ht
    exact Value.eq_str_of_datum ht

end

/-! ## 3. The accord -/

/-- How a run on an object corresponds to the run on a store of it. -/
def interchangeAccord (d : Value) (h : Heap) (a : Addr) (name : String) (w : World) : Accord where
  names := .refl
  hidden _ := none
  sealed := h.sealBut d (handedParts d)
  hidden_of_sealed _ _ := rfl
  objects b := b = a
  context v v' := ∃ ms, v = .dict (some a) ms ∧ v' = .store a name ms
  params v := v.Free (h.sealBut d (handedParts d))
  note := Eq
  note_refl _ := rfl
  recorded := True
  setup := w.channel.setup
  before := w.calls
  before' := w.calls
  past := w.journal
  past' := w.journal

variable {env : Environment} {w : World} {a : Addr} {name : String}

/-- An expression that only looks into the context comes to the same on both sides. -/
theorem agree_of_scopes {s s' : Scope} (hs : (interchangeAccord d kept a name w).Scopes s s') {expr : List Char}
    (hexpr : Template.LooksIn expr) : Template.Agree .refl s s' expr := by
  obtain ⟨ms, hctx, hctx'⟩ := hs.ctx
  have hoption : ∀ {o o' : Option Value}, Option.Rel (interchangeAccord d kept a name w).Values o o' → o' = o := by
    intro o o' h
    cases h with
    | none => rfl
    | some h => exact congrArg some (h.2.trans (Value.renamed_refl _))
  exact Template.agree_of_looksIn hctx hctx' (hs.result.2.trans (Value.renamed_refl _)) (hoption hs.exec)
    (hoption hs.item) (hs.params_eq.trans (Value.renamed_refl _)) hexpr

/-- A declaration corresponds to itself if its expressions only look into the context. -/
theorem declarations_interchange (hkept : Heap.Kept w.heap d₀ d kept) (hm : m ∈ nodesOf d)
    (hnode : IsNode Kind.names Kind.routerNames m) (hlooks : Evaluates Template.LooksIn m) :
    (interchangeAccord d kept a name w).Declarations m m where
  id := rfl
  kind := rfl
  policy := rfl
  declares kindName k hname hkind := by
    refine ⟨rfl, rfl, rfl, rfl, fun h h' hh => ?_⟩
    have hobeys : h.Obeys (kept.sealBut d (handedParts d)) := hh.obeys
    have hkindOf : kindOf? m = some k := by
      rw [kindOf?, hname]
      exact hkind
    have hfresh : m.fresh.Free (kept.sealBut d (handedParts d)) := by
      rw [Value.Free, (holds_node hkept hm).marks_fresh]
      exact fun b hb => absurd hb List.not_mem_nil
    have hhanded : k.prompts = true →
        handedOf m = [(m.field "exec").field "prompt", (m.field "exec").field "model"] := by
      intro hk
      rw [handedOf, hkindOf, Option.any_some, if_pos hk]
    refine Accord.suits_of_read hnode hkindOf ?_ (fun hk => ?_) (fun hk t ht => ?_) (fun hk => ?_) (fun hk => ?_) ?_
      (fun t ht s s' hs => ?_) (fun _ save hsave s s' hs node v hv => ?_) fun hk c hc s s' hs => ?_
    · exact field_declared hkept hm hnode.isObject hobeys (Or.inr (by decide))
    · refine field_declared hkept hm hnode.isObject hobeys (Or.inl ?_)
      rw [handedOf, hkindOf, Option.any_some, hk]
      rfl
    · exact promptOf_declared hkept hm hnode.isObject hobeys ht
    · rw [promptOf, fieldOr]
      cases hprompt : Members.get? (((Terms.declaredOf m).contentIn h).field "exec").members "prompt" with
      | none => exact Terms.free_str _
      | some x =>
        have hkey : (m.field "exec").field "prompt" ∈ handedOf m := by
          rw [hhanded hk]
          exact List.mem_cons_self
        exact free_exec_declared hkept hm hnode.isObject hobeys hkey hprompt
    · rw [Value.field]
      cases hmodel : Members.get? (((Terms.declaredOf m).contentIn h).field "exec").members "model" with
      | none => exact Value.free_of_isPlain rfl
      | some x =>
        have hkey : (m.field "exec").field "model" ∈ handedOf m := by
          rw [hhanded hk]
          exact List.mem_cons_of_mem _ List.mem_cons_self
        exact free_exec_declared hkept hm hnode.isObject hobeys hkey hmodel
    · rw [← Value.field_fresh]
      exact Terms.free_field hfresh "exec"
    · exact (hlooks.template k hkindOf t ht).mono fun e he => agree_of_scopes hs he
    · exact Template.free_of_render (hs.free fun _ h => h) (Accord.free_savedValue hfresh hsave) hv
    · subst hk
      exact agree_of_scopes hs (hlooks.condition hkindOf c hc)

/-! ## 4. Runs -/

/-- Two runs that do the same, the one on an object and the other on a store of it: they end with the same label or
failure, leave the same memory, after the same calls, and with the same diagnostics. What has been told since the graph
was compiled is the same, but that the context is shown as what it is. -/
structure RunsSame (a : Addr) (name : String) (w : World) (r r' : Except Failure Datum × World) : Prop where
  label : r'.1 = r.1
  memory : r'.2.heap = r.2.heap
  calls : r'.2.calls = r.2.calls
  records : r'.2.channel.records = r.2.channel.records
  journal : ∃ events events', r.2.journal = events ++ w.journal ∧ r'.2.journal = events' ++ w.journal ∧
    List.Forall₂ (Event.Alike .refl Eq fun v v' => ∃ ms, v = .dict (some a) ms ∧ v' = .store a name ms) events events'

theorem eq_of_reflects {h h' : Heap} (hs : Heap.Reflects .refl (fun _ => none) h h')
    (hlabel : h'.nextLabel = h.nextLabel) : h' = h := by
  have hcells : h'.cells = h.cells := by
    refine Array.ext_getElem? fun i => ?_
    have hcell := hs.cell i rfl
    have hid : Cell.renamed .refl = id := funext Cell.renamed_refl
    rw [hid, Option.map_id, id] at hcell
    exact hcell
  obtain ⟨cells, label⟩ := h
  obtain ⟨cells', label'⟩ := h'
  rw [Heap.mk.injEq]
  exact ⟨hcells, hlabel⟩

/-- States that correspond are the same. -/
theorem runsSame_of_worlds {r r' : Except Failure Datum} {u u' : World} (hlabel : r' = r)
    (hworlds : (interchangeAccord d kept a name w).Worlds u u') : RunsSame a name w (r, u) (r', u') where
  label := hlabel
  memory := eq_of_reflects hworlds.heap.shows (hworlds.heap.labels 0).symm
  calls := Accord.Called.eq rfl hworlds.calls
  records := (List.forall₂_eq_eq_eq ▸ hworlds.records trivial : u.channel.records = u'.channel.records).symm
  journal := hworlds.journal

/-- **Objects and stores are interchangeable** for a description that the checker accepts and whose expressions only
look into the shared context. Its graph runs on an object as it does on a store of that object that demands nothing and
is not observed, whatever the object holds, and under any limit and listeners. -/
theorem stored_runs_same {env : Environment} {d : Value} {w : World} (hjson : d.IsJson)
    (haccepted : (ofEnvironment env).problems d = .ok []) (hclosed : w.heap.Closed)
    (hglobals : env.HasGlobals w.heap) (henv : env.Discreet) (hlooks : ∀ m ∈ nodesOf d, Evaluates Template.LooksIn m) :
    ∃ c w', (ofEnvironment env).compile d w = (.ok c, w') ∧
      ∀ limit ls a ms name b, w.heap.cell? a = some (.dict ms) →
        RunsSame a name w ((c.configured limit ls).runWithin b ⟨a, none⟩ w')
          ((c.configured limit ls).runWithin b ⟨a, some ⟨name, [], []⟩⟩ w') := by
  obtain ⟨d', kept, common, nodes, edges, start, c, hkept, hwell, hcommon, h, hcompile⟩ :=
    compile_ok hjson haccepted hglobals
  refine ⟨c, _, hcompile, fun limit ls a ms name b hobject => ?_⟩
  have hlooks' : ∀ m ∈ nodesOf d', Evaluates Template.LooksIn m := by
    intro m hm
    refine (hlooks m.fresh ?_).of_fresh
    rw [← hkept.fresh, nodesOf_fresh]
    exact List.mem_map_of_mem hm
  -- what was there before the description is not sealed
  have hold : ∀ b < w.heap.cells.size, kept.sealBut d' (handedParts d') b = none := fun b hb =>
    Heap.sealBut_of_not_mem fun hmem => absurd hb (Nat.not_lt.2 (hkept.new b hmem))
  have hlater : ∀ b, kept.cells.size ≤ b → kept.sealBut d' (handedParts d') b = none := fun b hb =>
    Heap.sealBut_of_not_mem fun hmem => absurd (hkept.holds.mark_lt b hmem) (Nat.not_lt.2 hb)
  have hdata := hold a (Heap.cell?_lt hobject)
  have hheaps : (interchangeAccord d' kept a name w).Heaps kept kept := by
    refine ⟨Heap.obeys_sealBut hkept hclosed (holds_handedParts hkept), ⟨fun _ _ _ _ _ _ _ _ => rfl, fun b _ => ?_⟩,
      fun _ => rfl, fun _ => rfl, ?_⟩
    · have hid : Cell.renamed .refl = id := funext Cell.renamed_refl
      rw [show (interchangeAccord d' kept a name w).names = .refl from rfl, hid, Option.map_id]
      rfl
    · rintro b rfl
      exact ⟨ms, (hkept.extends_.cell b (Heap.cell?_lt hobject)).trans hobject⟩
  have hglobalsFree : env.globals.Free (kept.sealBut d' (handedParts d')) := by
    rcases hglobals with hnull | ⟨b, _, href, hcell⟩
    · rw [hnull]
      exact Datum.free_null
    · rw [href, Datum.free_ref]
      exact hold b (Heap.cell?_lt hcell)
  have henvironments : (interchangeAccord d' kept a name w).Environments env := by
    refine Accord.environments_of env.indifferent_refl henv (env.repeats_self _) (fun _ _ => rfl)
      (Datum.renamed_refl _) (fun g g' hg ms hms => ?_) fun v hv => Terms.free_field hv "model"
    have hall := Terms.free_commonMembers hg.obeys.free hglobalsFree hms
    exact hg.obeys.view (Members.forall_getD hall Datum.free_null "model")
  have hcompiled := (hheaps.alloc_dict Accord.Heaps.entries_nil).alloc_dict
    (entries_paramsFor hheaps henvironments hglobalsFree hcommon hcommon (Value.renamed_refl _).symm
      fun b hb => Heap.sealBut_of_part List.mem_cons_self hb)
  have hworlds : (interchangeAccord d' kept a name w).Worlds { w with heap := _ } { w with heap := _ } :=
    ⟨hcompiled, rfl, rfl, fun _ => List.forall₂_same.2 fun _ _ => rfl, fun _ => ⟨0, rfl, rfl⟩, Accord.journals_start⟩
  have hcontexts := Accord.contexts_plain (A := interchangeAccord d' kept a name w) hdata rfl name fun ms => by
    have hid : (fun m : String × Value => (m.1, m.2.renamed .refl)) = id :=
      funext fun m => congrArg (Prod.mk m.1) m.2.renamed_refl
    refine ⟨ms, rfl, ?_⟩
    rw [show (interchangeAccord d' kept a name w).names = .refl from rfl, hid, List.map_id]
    rfl
  obtain ⟨plan, plan', htandem⟩ := (Accord.matches_self fun m hm =>
    declarations_interchange hkept hm (hwell.isNode m hm) (hlooks' m hm)).tandem henvironments h h rfl limit ls
  have hbegun := hlater (((kept.alloc (.dict [])).2.alloc (.dict (paramsFor common kept d'))).2.cells.size)
    (by rw [Heap.size_alloc, Heap.size_alloc]; omega)
  obtain ⟨hends, hdone⟩ := htandem.run_from hworlds hcontexts (hlater (kept.cells.size + 1) (Nat.le_succ _)) rfl
    (fun g g' hg => hg.obeys.view (Datum.free_ref.2 hbegun)) b
  exact runsSame_of_worlds (Accord.eq_of_sameLabel hends) hdone

/-- A router with one case. -/
def caseRouter (condition : String) : Value :=
  .ofMembers [("version", .str "pf-js/1.0"), ("entry", .str "r"),
    ("nodes", .ofList [
      .ofMembers [("id", .str "r"), ("kind", .str "router"),
        ("exec", .ofMembers [("cases", .ofList [
          .ofMembers [("when", .str condition), ("label", .str "yes")]])])]]),
    ("edges", .ofList [])]

theorem isJson_caseRouter (condition : String) : (caseRouter condition).IsJson := by
  simp [caseRouter, Value.IsJson.str]

set_option maxRecDepth 10000 in
theorem problems_caseRouter (env : Environment) (condition : String) :
    (ofEnvironment env).problems (caseRouter condition) = .ok [] := by rfl

/-- A world with one object and nothing else. -/
def worldOf (ms : Members Datum) : World := { World.blank with heap := (World.blank.heap.alloc (.dict ms)).2 }

theorem closed_worldOf : (worldOf [("a", .int 1)]).heap.Closed := by
  refine Heap.Closed.alloc (fun _ _ hc => absurd (Heap.cell?_lt hc) (Nat.not_lt_zero _)) fun part hpart b hb => ?_
  obtain rfl := List.mem_singleton.1 hpart
  exact absurd hb List.not_mem_nil

theorem looksIn_member : Template.LooksIn "ctx.a".toList := by
  intro e he
  have hparse : Expr.parse "ctx.a" = .ok (.get (.name "ctx") (.lit (.str "a"))) := by rfl
  obtain rfl := Except.ok.inj (hparse.symm.trans he)
  exact .member .lit

theorem evaluates_caseRouter {P : List Char → Prop} {condition : String} (h : P condition.toList) :
    ∀ m ∈ nodesOf (caseRouter condition), Evaluates P m := by
  intro m hm
  obtain rfl := List.mem_singleton.1 hm
  refine ⟨fun k hk t ht => ?_, fun _ c hc => ?_⟩
  · obtain rfl : Kind.router = k := Option.some.inj hk
    exact absurd ht List.not_mem_nil
  · obtain rfl := List.mem_singleton.1 hc
    exact h

/-- A router that asks for a member routes an object and a store of it alike. -/
theorem stored_runs_same_caseRouter : ∃ c w',
    (ofEnvironment .bare).compile (caseRouter "ctx.a") (worldOf [("a", .int 1)]) = (.ok c, w') ∧
      ∀ limit ls b, RunsSame 0 "store" (worldOf [("a", .int 1)]) ((c.configured limit ls).runWithin b ⟨0, none⟩ w')
        ((c.configured limit ls).runWithin b ⟨0, some ⟨"store", [], []⟩⟩ w') := by
  obtain ⟨c, w', hcompile, hruns⟩ := @stored_runs_same .bare (caseRouter "ctx.a") (worldOf [("a", .int 1)])
    (isJson_caseRouter _) (problems_caseRouter .bare _) closed_worldOf (Or.inl rfl) ⟨nofun, nofun, nofun, nofun⟩
    (evaluates_caseRouter looksIn_member)
  exact ⟨c, w', hcompile, fun limit ls b => hruns limit ls 0 _ "store" b rfl⟩

/-- The labels that a router with a condition gives on an object and on a store of it. -/
def labelsOn (condition : String) (ms : Members Datum) : Option (Option Datum × Option Datum) :=
  match (ofEnvironment .bare).compile (caseRouter condition) (worldOf ms) with
  | (.ok c, w) => some ((c.runWithin ⟨5, 5⟩ ⟨0, none⟩ w).1.toOption,
    (c.runWithin ⟨5, 5⟩ ⟨0, some ⟨"store", [], []⟩⟩ w).1.toOption)
  | (.error _, _) => none

theorem labelsOn_includes : labelsOn "'a' in ctx" [("a", .int 1)] = some (some (.str "yes"), some .null) := by
  decide +kernel

/-- One that asks whether a key is in the context routes them differently. -/
theorem stored_run_differs : (ofEnvironment .bare).problems (caseRouter "'a' in ctx") = .ok [] ∧
    ∃ c w', (ofEnvironment .bare).compile (caseRouter "'a' in ctx") (worldOf [("a", .int 1)]) = (.ok c, w') ∧
      ¬ RunsSame 0 "store" (worldOf [("a", .int 1)]) (c.runWithin ⟨5, 5⟩ ⟨0, none⟩ w')
        (c.runWithin ⟨5, 5⟩ ⟨0, some ⟨"store", [], []⟩⟩ w') := by
  refine ⟨problems_caseRouter .bare _, ?_⟩
  have hlabels := labelsOn_includes
  dsimp only [labelsOn] at hlabels
  rcases hcompile : (ofEnvironment .bare).compile (caseRouter "'a' in ctx") (worldOf [("a", .int 1)]) with ⟨r, w'⟩
  rw [hcompile] at hlabels
  cases r with
  | error e => cases hlabels
  | ok c =>
    refine ⟨c, w', rfl, fun hsame => ?_⟩
    obtain ⟨hobject, hstore⟩ := Prod.mk.inj (Option.some.inj hlabels)
    rw [hsame.label, hobject] at hstore
    cases hstore

end Compiler

end NodeFlow
