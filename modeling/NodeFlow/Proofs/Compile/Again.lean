import NodeFlow.Proofs.Compile.Order
import NodeFlow.Proofs.Expr.Dotted
import NodeFlow.Proofs.Expr.Known
import NodeFlow.Proofs.Memory.Brought
/-!
# A graph is run again

A graph may be run again, each time with a context of its own. A run puts a copy of the parameters into a new cell,
but the containers in them stay those of the description and of the common parameters. So a node that saves such a
container, and one that writes into what was saved, change the graph.

If no node hands on a container that it shares with others, a run leaves everything that was there as it was, and a
second run does the same as the first one. Both are compared with the context brought behind all the rest; what has
come between the graph and the second context is hidden, since nothing refers to it.
-/

set_option autoImplicit false

namespace NodeFlow

open Description

/-! ## 1. Later states -/

/-- A later state: memory is as it was, and more may have come into use; the channel is set up as it was. -/
structure World.Continues (v w : World) : Prop where
  memory : v.heap.Follows w.heap
  setup : v.channel.setup = w.channel.setup

/-- A state to which memory is brought. -/
def World.given (w : World) (g : Heap) : World := { w with heap := g.bring w.heap }

/-- A context in memory that is brought to a state. -/
def Shared.given (s : Shared) (w : World) : Shared := { s with data := w.heap.cells.size + s.data }

namespace World

variable {u v w : World}

theorem Continues.refl (w : World) : w.Continues w := ⟨.refl _, rfl⟩

theorem continues_given (w : World) (g : Heap) : (w.given g).Continues w :=
  ⟨⟨Heap.extends_bring g w.heap, Nat.le_add_right _ _⟩, rfl⟩

/-- The same state, but one more label has been given. -/
def labelled (w : World) : World := { w with heap := { w.heap with nextLabel := w.heap.nextLabel + 1 } }

theorem continues_labelled (w : World) : w.labelled.Continues w :=
  ⟨⟨⟨Nat.le_refl _, fun _ _ => rfl⟩, Nat.le_succ _⟩, rfl⟩

end World

theorem Heap.Extends.membersAt_eq {h h' : Heap} (hh : h'.Extends h) {a : Addr} (ha : a < h.cells.size) :
    h'.membersAt a = h.membersAt a := by
  rw [Heap.membersAt, Heap.membersAt, hh.cell a ha]

namespace Environment

variable {env : Environment} {h h' : Heap}

theorem HasGlobals.free (hg : env.HasGlobals h) : env.globals.Free (.beyond h.cells.size) := by
  rcases hg with hnull | ⟨a, ms, href, hcell⟩
  · rw [hnull]
    exact Datum.free_null
  · rw [href, Datum.free_ref, Seal.beyond_eq_none]
    exact Heap.cell?_lt hcell

theorem HasGlobals.commonMembers?_eq (hg : env.HasGlobals h) (hext : h'.Extends h) :
    env.commonMembers? h' = env.commonMembers? h := by
  rcases hg with hnull | ⟨a, ms, href, hcell⟩
  · rw [Environment.commonMembers?, Environment.commonMembers?, hnull]
    rfl
  · have hlt := Heap.cell?_lt hcell
    rw [Environment.commonMembers?, Environment.commonMembers?, href, Heap.view, Heap.view, Heap.viewWithin,
      Heap.viewWithin, hext.cell a hlt, hcell]
    exact congrArg some (hext.membersAt_eq hlt)

end Environment

/-! ## 2. The accord -/

section

variable {base g : Heap} {known : Value} {v v' : World} {shared : Shared} {params : Addr} {env : Environment}

/-- How a run from one state corresponds to a run from a later one: what was there stands, and so do the parameters. -/
def againAccord (base : Heap) (params : Addr) (known : Value) (g : Heap) (v v' : World) : Accord where
  names := v.heap.namesIn v'.heap
  hidden := v.heap.since base.cells.size
  sealed := Heap.standing g v.heap (base.membersAt params)
  hidden_of_sealed a ha := by
    refine Heap.since_of_le (Nat.not_lt.1 fun hlt => ?_)
    rw [Heap.standing_of_lt hlt, Heap.cell?_eq_none] at ha
    exact absurd hlt (Nat.not_lt.2 ha)
  objects _ := False
  context u u' := u' = u.renamed (v.heap.namesIn v'.heap)
  params u := u.isDict = true ∧ u.fresh = known.fresh
  note := Eq
  note_refl _ := rfl
  recorded := False
  setup := v.channel.setup
  before := v.calls
  before' := v'.calls
  past := v.journal
  past' := v'.journal

section

variable (hclosed : base.Closed) (hlabelled : base.Labelled) (hv : v.heap.Follows base) (hv' : v'.Continues v)

include hclosed hlabelled hv hv'

/-- The states in which the walks begin correspond. -/
theorem worlds_again (hg : g.Closed) (hparams : params < base.cells.size) :
    (againAccord base params known g v v').Worlds ((v.given g).begun params)
      ((v'.given g).begun params) := by
  have hbase' := hv.extends_.trans hv'.memory.extends_
  have hmembers : ∀ {u : World}, u.heap.Extends base → (u.given g).begun params =
      { u with heap := ((g.bring u.heap).alloc (.dict (base.membersAt params))).2 } := by
    intro u hu
    rw [World.begun, World.given, (hu.trans (Heap.extends_bring g u.heap)).membersAt_eq hparams]
  rw [hmembers hv.extends_, hmembers hbase']
  have hsame : Cell.renamed (v.heap.namesIn v'.heap) (.dict (base.membersAt params)) =
      .dict (base.membersAt params) := by
    refine Cell.renamed_eq_self fun d hd => ?_
    obtain ⟨m, hm, rfl⟩ := List.mem_map.1 hd
    exact Heap.datum_renamed_namesIn hv (fun b hb => Seal.beyond_eq_none.1 (hclosed.membersAt params m hm b hb))
      (hlabelled.membersAt params m hm)
  refine ⟨⟨Heap.obeys_standing hg _, ?_, fun k => ?_, fun k => ?_, fun _ h => h.elim⟩, rfl, hv'.setup, fun h => h.elim,
    fun _ => ⟨0, rfl, rfl⟩, Accord.journals_start⟩
  · have hfree : Cell.Free (v.heap.since base.cells.size) (.dict (base.membersAt params)) :=
      Cell.free_dict.2 fun m hm => Heap.free_since (hclosed.membersAt params m hm)
    have hshows := (Heap.reflects_bring hclosed hlabelled hv hv'.memory hg).alloc (fun k => ?_) hfree
    · rwa [hsame] at hshows
    · rw [Heap.size_bring, Heap.size_bring, Nat.add_assoc, Nat.add_assoc]
      exact Heap.namesIn_cell hv'.memory _
  · rw [Heap.size_alloc, Heap.size_alloc, Heap.size_bring, Heap.size_bring, Nat.add_assoc, Nat.add_assoc, Nat.add_assoc,
      Nat.add_assoc]
    exact Heap.namesIn_cell hv'.memory _
  · show (v.heap.namesIn v'.heap).label (v.heap.nextLabel + (g.nextLabel - 1) + k) = _
    rw [Nat.add_assoc, Heap.namesIn_label hlabelled hv hv'.memory, ← Nat.add_assoc]
    rfl

omit hclosed hlabelled hv in
theorem names_given (hshared : shared.data < g.cells.size) (ms : Members Datum) :
    Heap.standing g v.heap ms (shared.given v).data = none ∧
      (v.heap.namesIn v'.heap).cell (shared.given v).data = (shared.given v').data := by
  refine ⟨Heap.standing_of_brought (Nat.le_add_right _ _) ?_, Heap.namesIn_cell hv'.memory _⟩
  rw [Heap.size_bring]
  exact Nat.add_lt_add_left hshared _

omit hlabelled in
/-- So do the scenes: the contexts that were brought, and the cells that the parameters are copied into. -/
theorem scenes_again (hshared : shared.data < g.cells.size)
    (hknown : (Value.dict none ((base.membersAt params).map fun m => (m.1, base.view m.2))).fresh = known.fresh) :
    (againAccord base params known g v v').Scenes
      ⟨shared.given v, (v.given g).heap.cells.size⟩ ⟨shared.given v', (v'.given g).heap.cells.size⟩ where
  contexts := by
    obtain ⟨hfree, hname⟩ := names_given hv' hshared (base.membersAt params)
    have hcontexts := Accord.contexts_same (A := againAccord base params known g v v') hfree shared.store fun _ => rfl
    rwa [show (againAccord base params known g v v').names.cell (shared.given v).data = _ from hname] at hcontexts
  params := by
    show (g.bring v'.heap).cells.size = (v.heap.namesIn v'.heap).cell (g.bring v.heap).cells.size
    rw [Heap.size_bring, Heap.size_bring, Heap.namesIn_cell hv'.memory]
  hidden := Heap.since_of_le (Heap.extends_bring g v.heap).size
  known h h' hh := by
    have hobeys : h.Obeys (Heap.standing g v.heap (base.membersAt params)) := hh.obeys
    have hview := Heap.view_of_members hclosed (hv.extends_.trans hobeys.extends_standing)
      (Nat.le_trans hv.extends_.size (Heap.extends_bring g v.heap).size) (hclosed.membersAt params)
      hobeys.cell?_standing
    refine ⟨congrArg Value.isDict hview, (congrArg Value.fresh hview).trans ?_⟩
    rw [← hknown, Value.fresh_dict, Value.fresh_dict]

omit hclosed hlabelled hv' in
/-- Collaborators that know no names and answer the same again are an environment for both runs, if what names a model
is no container. -/
theorem environments_again (hglobals : env.HasGlobals base) (henv : ∀ σ, env.Indifferent σ)
    (hrepeats : env.Repeats v.calls v'.calls)
    (hcommon : ∀ ms, env.commonMembers? base = some ms → ((Members.get? ms "model").getD .null).refs = [])
    (hmodel : (known.field "model").isPlain = true) :
    (againAccord base params known g v v').Environments env := by
  refine Accord.environments_of (henv _) (Environment.discreet_of_indifferent henv) hrepeats
    (Heap.free_since hglobals.free) ?_ (fun h h' hh ms hms => ?_) fun u hu => ?_
  · exact Compiler.globals_fixed hglobals fun a ha =>
      Renaming.later_cell_of_lt (Nat.lt_of_lt_of_le ha hv.extends_.size)
  · have hobeys : h.Obeys (Heap.standing g v.heap (base.membersAt params)) := hh.obeys
    rw [hglobals.commonMembers?_eq (hv.extends_.trans hobeys.extends_standing)] at hms
    refine hobeys.view fun a ha => ?_
    rw [hcommon ms hms] at ha
    exact absurd ha List.not_mem_nil
  · refine Value.free_of_isPlain ?_
    rw [← Value.isPlain_fresh, ← Value.field_fresh, hu.2, Value.field_fresh, Value.isPlain_fresh]
    exact hmodel

end

end

/-! ## 3. Careful declarations -/

namespace Description

/-- A declaration that hands on no container that it shares: its prompt and the name of its model are none, and what
stands alone in what it saves spares the parameters. -/
structure Careful (known m : Value) : Prop where
  prompt : ∀ k, kindOf? m = some k → k.prompts = true → (promptOf (m.field "exec")).isPlain = true
  model : ∀ k, kindOf? m = some k → k.prompts = true → ((m.field "exec").field "model").isPlain = true
  saved : kindOf? m ≠ some .router → ∀ save ∈ savesOf m, Template.Lone (Template.Spares known) (savedValue save)

theorem Careful.of_fresh {known m : Value} (h : Careful known m.fresh) : Careful known m where
  prompt k hk hprompts := by
    have hprompt := h.prompt k ((kindOf?_fresh m).trans hk) hprompts
    rwa [Value.field_fresh, promptOf, fieldOr_empty_fresh, Value.isPlain_fresh] at hprompt
  model k hk hprompts := by
    have hmodel := h.model k ((kindOf?_fresh m).trans hk) hprompts
    rwa [Value.field_fresh, Value.field_fresh, Value.isPlain_fresh] at hmodel
  saved hk save hsave := by
    refine Template.lone_of_fresh ?_
    rw [← savedValue_fresh]
    refine h.saved (kindOf?_fresh m ▸ hk) _ ?_
    rw [savesOf_fresh]
    exact List.mem_map_of_mem hsave

end Description

namespace Compiler

variable {env : Environment} {base kept g : Heap} {d d' m known : Value} {v v' w : World} {params : Addr}

/-! ## 4. Parameters -/

/-- The parameters that a description will be run with: its own over the common ones. -/
def knownParams (env : Environment) (h : Heap) (d : Value) : Value :=
  .dict none
    (Members.putAll (((env.commonMembers? h).getD []).map fun m => (m.1, h.view m.2)) (d.field "globals").members)

theorem forall_commonMembers {P : Datum → Prop} {h : Heap} (hall : ∀ a, ∀ m ∈ h.membersAt a, P m.2)
    {common : Members Datum} (hcommon : env.commonMembers? h = some common) : ∀ m ∈ common, P m.2 := by
  rw [Environment.commonMembers?] at hcommon
  split at hcommon
  · exact Option.some.inj hcommon ▸ hall _
  · split at hcommon
    · cases hcommon
    · exact Option.some.inj hcommon ▸ fun m hm => absurd hm List.not_mem_nil

theorem forall_paramsFor {P : Datum → Prop} {h : Heap} (hall : ∀ a, ∀ m ∈ h.membersAt a, P m.2)
    {common : Members Datum} (hcommon : env.commonMembers? h = some common) : ∀ m ∈ paramsFor common h d, P m.2 := by
  rw [paramsFor]
  refine Members.forall_putAll (forall_commonMembers hall hcommon) ?_
  split
  · exact hall _
  · exact fun m hm => absurd hm List.not_mem_nil

/-- After compiling memory is closed, -/
theorem closed_compiled {common : Members Datum} (hclosed : kept.Closed)
    (hcommon : env.commonMembers? kept = some common) :
    ((kept.alloc (.dict [])).2.alloc (.dict (paramsFor common kept d'))).2.Closed := by
  refine (hclosed.alloc Cell.free_empty).alloc (Cell.free_dict.2 fun m hm => ?_)
  exact (forall_paramsFor (P := Datum.Free (.beyond kept.cells.size)) hclosed.membersAt hcommon m hm).later
    (Heap.extends_alloc kept (.dict [])).size

/-- and all labels in it have been given. -/
theorem labelled_compiled {common : Members Datum} (hkept : Heap.Kept w.heap d d' kept) (hw : w.heap.Labelled)
    (hd : ∀ l ∈ d.labels, l < w.heap.nextLabel) (hcommon : env.commonMembers? kept = some common) :
    ((kept.alloc (.dict [])).2.alloc (.dict (paramsFor common kept d'))).2.Labelled := by
  have hlabelled := hkept.labelled hw hd
  refine (hlabelled.alloc fun part hpart => absurd hpart List.not_mem_nil).alloc fun part hpart => ?_
  obtain ⟨m, hm, rfl⟩ := List.mem_map.1 hpart
  exact forall_paramsFor (P := fun x => ∀ l ∈ x.labels, l < kept.nextLabel) hlabelled.membersAt hcommon m hm

/-- The parameters of the flow are those that are known from the description and the common ones. -/
theorem fresh_paramsFor {common : Members Datum} (hclosed : w.heap.Closed) (hkept : Heap.Kept w.heap d d' kept)
    (hglobals : env.HasGlobals w.heap) (hcommon : env.commonMembers? kept = some common) (hbase : base.Extends kept) :
    (Value.dict none ((paramsFor common kept d').map fun m => (m.1, base.view m.2))).fresh =
      (knownParams env w.heap d).fresh := by
  rw [hglobals.commonMembers?_eq hkept.extends_] at hcommon
  have hcommons : (common.map fun m => (m.1, base.view m.2)) = common.map fun m => (m.1, w.heap.view m.2) := by
    refine List.map_congr_left fun m hm => congrArg (Prod.mk m.1) ?_
    refine (hkept.extends_.trans hbase).view_eq hclosed ?_
    exact Terms.free_commonMembers hclosed.apart hglobals.free hcommon m hm
  rw [knownParams, hcommon, Option.getD_some, paramsFor, ← Members.putAll_map, hcommons, Value.fresh_dict,
    Value.fresh_dict, ← Members.putAll_map, ← Members.putAll_map, ← hkept.fresh, Value.field_fresh]
  have hheld := hkept.holds.field "globals"
  generalize d'.field "globals" = own at hheld ⊢
  have hown : (own.fresh.members.map fun m => (m.1, m.2.fresh)) = own.members.map fun m => (m.1, m.2.fresh) := by
    cases own with
    | dict cell ms =>
      rw [Value.fresh_dict, Value.members, List.map_map]
      exact List.map_congr_left fun m _ => congrArg (Prod.mk m.1) m.2.fresh_fresh
    | _ => rfl
  rw [hown]
  cases hheld with
  | plain hp => cases own <;> first | rfl | cases hp
  | list => rfl
  | @dict a ms hcell _ hms =>
    have hviews : ((kept.membersAt a).map fun m => (m.1, base.view m.2)) = ms := by
      rw [Heap.membersAt, hcell, List.map_map]
      refine (List.map_congr_left fun m hm => ?_).trans (List.map_id _)
      exact congrArg (Prod.mk m.1) ((hms m hm).extends hbase).view_datum
    exact congrArg (fun own => Value.dict none (Members.putAll _ (own.map fun m => (m.1, m.2.fresh)))) hviews

/-- A graph that was compiled, in memory that is closed and where all labels have been given. -/
structure Settled (env : Environment) (w : World) (d d' : Value) (kept base : Heap) (params : Addr) (c : Compiled) :
    Prop where
  held : Heap.Kept w.heap d d' kept
  extends_ : base.Extends kept
  closed : base.Closed
  labelled : base.Labelled
  root : (w.heap.keep d).1.Free (.beyond base.cells.size)
  description : base.view (w.heap.keep d).1 = d'
  isNode : ∀ m ∈ nodesOf d', IsNode Kind.names Kind.routerNames m
  params_lt : params < base.cells.size
  params_eq : (Value.dict none ((base.membersAt params).map fun m => (m.1, base.view m.2))).fresh =
    (knownParams env w.heap d).fresh
  assembles : ∃ own nodes edges start, Assembles env d' own params nodes edges start c

theorem Settled.outlasts {c : Compiled} (h : Settled env w d d' kept base params c) : base.Extends w.heap :=
  h.held.extends_.trans h.extends_

theorem settled_of_compile (hjson : d.IsJson) (haccepted : (ofEnvironment env).problems d = .ok [])
    (hclosed : w.heap.Closed) (hlabelled : w.heap.Labelled) (hlabels : ∀ l ∈ d.labels, l < w.heap.nextLabel)
    (hglobals : env.HasGlobals w.heap) :
    ∃ d' kept base params c, (ofEnvironment env).compile d w = (.ok c, { w with heap := base }) ∧
      Settled env w d d' kept base params c := by
  obtain ⟨d', kept, common, nodes, edges, start, c, hkeep, hview, hkept, hwell, hcommon, h, hcompile⟩ :=
    compile_ok_view hjson haccepted hglobals
  obtain ⟨hkeptClosed, hroot⟩ := Heap.keepsClosed d w.heap hclosed (hjson.free _)
  rw [← hkeep] at hkeptClosed hroot
  have hextends := ((Heap.extends_alloc kept (.dict [])).trans
    (Heap.extends_alloc _ (.dict (paramsFor common kept d'))))
  have hmembers : ((kept.alloc (.dict [])).2.alloc (.dict (paramsFor common kept d'))).2.membersAt
      (kept.cells.size + 1) = paramsFor common kept d' := by
    have hcell := Heap.cell?_alloc_self (kept.alloc (.dict [])).2 (.dict (paramsFor common kept d'))
    rw [Heap.size_alloc] at hcell
    rw [Heap.membersAt, hcell]
  exact ⟨d', kept, _, kept.cells.size + 1, c, hcompile,
    { held := hkept
      extends_ := hextends
      closed := closed_compiled hkeptClosed hcommon
      labelled := labelled_compiled hkept hlabelled hlabels hcommon
      root := hroot.later hextends.size
      description := (hextends.view_eq hkeptClosed hroot).trans hview.symm
      isNode := hwell.isNode
      params_lt := by
        rw [Heap.size_alloc, Heap.size_alloc]
        exact Nat.lt_succ_self _
      params_eq := by
        rw [hmembers]
        exact fresh_paramsFor hclosed hkept hglobals hcommon hextends
      assembles := ⟨_, nodes, edges, start, h⟩ }⟩

/-! ## 5. Runs -/

/-- A description whose nodes hand on no container that is shared, where what names a model is none either. -/
structure CarefulGraph (env : Environment) (h : Heap) (d : Value) : Prop where
  nodes : ∀ m ∈ nodesOf d, Careful (knownParams env h d) m
  model : ((knownParams env h d).field "model").isPlain = true
  common : ∀ ms, env.commonMembers? h = some ms → ((Members.get? ms "model").getD .null).refs = []

/-- What a run leaves of a graph: all that was there, with it the description and the common parameters as they were
before it was compiled, and the parameters of the run, if it has begun. -/
structure LeavesGraph (env : Environment) (d : Value) (w v : World) (begun : Addr) (u : World) : Prop where
  continues : u.Continues v
  description : (u.heap.view (w.heap.keep d).1).fresh = d
  globals : u.heap.view env.globals = w.heap.view env.globals
  params : begun < u.heap.cells.size → (u.heap.view (.ref begun)).fresh = (knownParams env w.heap d).fresh

/-- A run from a later state that does the same as one from an earlier state: it ends with the same label or failure,
leaves the same context, after the same calls and with the same things told, all under other names. -/
structure RunsAgain (σ : Renaming) (s s' : Shared) (v v' : World) (r r' : Except Failure Datum × World) : Prop where
  label : r'.1 = r.1
  context : s'.view r'.2.heap = (s.view r.2.heap).renamed σ
  calls : ∀ line, ∃ k, r.2.calls.count line = v.calls.count line + k ∧ r'.2.calls.count line = v'.calls.count line + k
  journal : ∃ events events', r.2.journal = events ++ v.journal ∧ r'.2.journal = events' ++ v'.journal ∧
    List.Forall₂ (Event.Alike σ Eq fun u u' => u' = u.renamed σ) events events'

/-- A declaration that is held is read as it is. -/
theorem contentIn_of_holds {h : Heap} (hheld : h.Holds m) (hobject : IsObject m) :
    (Terms.declaredOf m).contentIn h = m := by
  have hview := hheld.view_datum
  rwa [datum_of_held hheld hobject] at hview

/-- A careful declaration corresponds to itself. -/
theorem declarations_again {c : Compiled} (hc : Settled env w d d' kept base params c) (hv : v.heap.Follows base)
    (hm : m ∈ nodesOf d') (hcareful : Careful known m) :
    (againAccord base params known g v v').Declarations m m where
  id := rfl
  kind := rfl
  policy := rfl
  declares name k hname hkind := by
    have hheld := holds_node hc.held hm
    have hnode := hc.isNode m hm
    have hlt : addressOf m < base.cells.size :=
      Nat.lt_of_lt_of_le (hheld.mark_lt _ (addressOf_mem_marks hheld hnode.isObject)) hc.extends_.size
    have hkindOf : kindOf? m = some k := by
      rw [kindOf?, hname]
      exact hkind
    refine ⟨rfl, rfl, ?_, Heap.since_of_lt hlt, fun h h' hh => ?_⟩
    · exact (Renaming.later_cell_of_lt (Nat.lt_of_lt_of_le hlt hv.extends_.size)).symm
    have hobeys : h.Obeys (Heap.standing g v.heap (base.membersAt params)) := hh.obeys
    have hextends := (hc.extends_.trans hv.extends_).trans hobeys.extends_standing
    rw [contentIn_of_holds (hheld.extends hextends) hnode.isObject]
    have hfresh : m.fresh.Free (Heap.standing g v.heap (base.membersAt params)) := by
      rw [Value.Free, hheld.marks_fresh]
      exact fun b hb => absurd hb List.not_mem_nil
    refine Accord.suits_of_read hnode hkindOf rfl (fun _ => rfl) (fun _ _ ht => ht)
      (fun hk => Value.free_of_isPlain (hcareful.prompt k hkindOf hk))
      (fun hk => Value.free_of_isPlain (hcareful.model k hkindOf hk)) ?_
      (fun t _ => Accord.fills_of_renamed (fun _ _ h => h) t) (fun hk save hsave s s' hs id u hu => ?_)
      fun _ c _ s s' hs => Accord.agree_of_renamed (fun _ _ h => h) hs _
    · rw [← Value.field_fresh]
      exact Terms.free_field hfresh "exec"
    · -- the parameters are no others than are known
      have hscope : s.FreeKnowing (Heap.standing g v.heap (base.membersAt params)) known :=
        ⟨hs.ctx_free, hs.result.1, Accord.free_of_rel hs.exec, Accord.free_of_rel hs.item, hs.params.1, hs.params.2⟩
      have hsaves : kindOf? m ≠ some .router := hkindOf ▸ fun h => hk (Option.some.inj h)
      exact Template.free_of_render_spares hscope (hcareful.saved hsaves save hsave)
        (Accord.free_savedValue hfresh hsave) hu

section

variable {n : Nat} {shared : Shared} {r r' : Except Failure Datum × World}

/-- Two runs of one graph correspond, each in a context that was brought to its state. -/
theorem outcome_again {c : Compiled} (h : Settled env w d d' kept base params c) (hglobals : env.HasGlobals w.heap)
    (henv : ∀ σ, env.Indifferent σ) (hcareful : CarefulGraph env w.heap d) (hv : v.heap.Follows base)
    (hv' : v'.Continues v) (hrepeats : env.Repeats v.calls v'.calls) (hg : g.Closed)
    (hshared : shared.data < g.cells.size) (limit : Value) (ls : List Listener) (b : Graph.Bounds) :
    (againAccord base params (knownParams env w.heap d) g v v').Outcome (v.given g) (v'.given g)
      ((c.configured limit ls).runWithin b (shared.given v) (v.given g))
      ((c.configured limit ls).runWithin b (shared.given v') (v'.given g)) := by
  obtain ⟨own, nodes, edges, start, hassembles⟩ := h.assembles
  have henvironments : (againAccord base params (knownParams env w.heap d) g v v').Environments env := by
    refine environments_again hv (hglobals.extends h.outlasts) henv hrepeats (fun ms hms => ?_) hcareful.model
    exact hcareful.common ms (hglobals.commonMembers?_eq h.outlasts ▸ hms)
  obtain ⟨plan, plan', htandem⟩ := (Accord.matches_self fun m hm => by
    refine declarations_again h hv hm (hcareful.nodes _ ?_).of_fresh
    rw [← h.held.fresh, nodesOf_fresh]
    exact List.mem_map_of_mem hm).tandem henvironments hassembles hassembles rfl limit ls
  exact htandem.run (worlds_again h.closed h.labelled hv hv' hg h.params_lt)
    (scenes_again h.closed hv hv' hshared h.params_eq) b

/-- A run leaves all that was there: next to one from a state in which one more label has been given, it shows that no
label is taken back either. -/
theorem continues_of_outcome (hlabelled : base.Labelled) (hv : v.heap.Follows base)
    (h : (againAccord base params known g v v.labelled).Outcome (v.given g) (v.labelled.given g) r r') :
    r.2.Continues v := by
  cases h with
  | cut => exact v.continues_given g
  | @ended _ _ u u' hends hworlds =>
    have hobeys : u.heap.Obeys (Heap.standing g v.heap (base.membersAt params)) := hworlds.heap.obeys
    refine ⟨⟨hobeys.extends_standing, Nat.not_lt.1 fun (hlt : u.heap.nextLabel < _) => ?_⟩, hworlds.setup⟩
    -- a label that is taken back keeps its name, but the next one that was not given yet has another
    have hback : u.heap.nextLabel = u'.heap.nextLabel :=
      (Renaming.later_label_of_lt hlt).symm.trans (hworlds.heap.labels 0)
    have hnext := Heap.namesIn_label hlabelled hv v.continues_labelled.memory 0
    have hsame := hworlds.heap.labels (v.heap.nextLabel - u.heap.nextLabel)
    rw [Nat.add_sub_cancel' (Nat.le_of_lt hlt)] at hsame
    have hcount : v.heap.nextLabel + 1 = u'.heap.nextLabel + (v.heap.nextLabel - u.heap.nextLabel) :=
      hnext.symm.trans hsame
    omega

/-- The parameters of a run that has begun are those that are known. -/
theorem params_of_outcome (hclosed : base.Closed) (hv : v.heap.Follows base) (hv' : v'.Continues v)
    (hshared : shared.data < g.cells.size)
    (hknown : (Value.dict none ((base.membersAt params).map fun m => (m.1, base.view m.2))).fresh = known.fresh)
    (h : (againAccord base params known g v v').Outcome (v.given g) (v'.given g) r r')
    (hbegun : (v.given g).heap.cells.size < r.2.heap.cells.size) :
    (r.2.heap.view (.ref (v.given g).heap.cells.size)).fresh = known.fresh := by
  cases h with
  | cut => exact absurd hbegun (Nat.lt_irrefl _)
  | ended hends hworlds => exact ((scenes_again hclosed hv hv' hshared hknown).known _ _ hworlds.heap).2

theorem context_of_reflects (hv' : v'.Continues v) {h h' : Heap}
    (hshows : Heap.Reflects (v.heap.namesIn v'.heap) (v.heap.since n) h h') :
    (shared.given v').view h' = ((shared.given v).view h).renamed (v.heap.namesIn v'.heap) := by
  have hname : (v.heap.namesIn v'.heap).cell (shared.given v).data = (shared.given v').data :=
    Heap.namesIn_cell hv'.memory _
  have hnone : v.heap.since n (shared.given v).data = none := Heap.since_of_le (Nat.le_add_right _ _)
  have hdatum : (shared.given v').datum = (shared.given v).datum.renamed (v.heap.namesIn v'.heap) := by
    rw [Shared.renamed_datum, hname]
    rfl
  rw [Shared.view, Shared.view, hdatum]
  exact hshows.view (Shared.free_datum hnone)

theorem runsAgain_of_outcome (hclosed : base.Closed) (hlabelled : base.Labelled) (hv : v.heap.Follows base)
    (hv' : v'.Continues v) (hg : g.Closed)
    (h : (againAccord base params known g v v').Outcome (v.given g) (v'.given g) r r') :
    RunsAgain (v.heap.namesIn v'.heap) (shared.given v) (shared.given v') v v' r r' := by
  cases h with
  | cut =>
    have hshows := Heap.reflects_bring hclosed hlabelled hv hv'.memory hg
    exact ⟨rfl, context_of_reflects hv' hshows, fun _ => ⟨0, rfl, rfl⟩, [], [], rfl, rfl, .nil⟩
  | ended hends hworlds =>
    exact ⟨Accord.eq_of_sameLabel hends, context_of_reflects hv' hworlds.heap.shows, hworlds.calls, hworlds.journal⟩

end

/-- **Runs leave the graph as it is.** A description that the checker accepts and that hands on no container that is
shared compiles to a graph each run of which, however it ends, leaves the description, the common parameters and its
own parameters as they were. From any later state, so from that behind this run, another run in an equal context of its
own does the same, if the collaborators answer the same again. -/
theorem runs_leave_graph {env : Environment} {d : Value} {w : World} (hjson : d.IsJson)
    (haccepted : (ofEnvironment env).problems d = .ok []) (hclosed : w.heap.Closed) (hlabelled : w.heap.Labelled)
    (hlabels : ∀ l ∈ d.labels, l < w.heap.nextLabel) (hglobals : env.HasGlobals w.heap)
    (henv : ∀ σ, env.Indifferent σ) (hcareful : CarefulGraph env w.heap d) :
    ∃ c w', (ofEnvironment env).compile d w = (.ok c, w') ∧ ∀ limit ls b g (shared : Shared) v, g.Closed →
      shared.data < g.cells.size → v.Continues w' →
        let run := fun u : World => (c.configured limit ls).runWithin b (shared.given u) (u.given g)
        LeavesGraph env d w v (v.given g).heap.cells.size (run v).2 ∧
          ∀ v', v'.Continues v → env.Repeats v.calls v'.calls →
            RunsAgain (v.heap.namesIn v'.heap) (shared.given v) (shared.given v') v v' (run v) (run v') := by
  obtain ⟨d', kept, base, params, c, hcompile, h⟩ :=
    settled_of_compile hjson haccepted hclosed hlabelled hlabels hglobals
  refine ⟨c, _, hcompile, fun limit ls b g shared v hg hshared hv => ?_⟩
  have hfollows : v.heap.Follows base := hv.memory
  have houtcome := fun (v' : World) (hv' : v'.Continues v) hrepeats =>
    outcome_again h hglobals henv hcareful hfollows hv' hrepeats hg hshared limit ls b
  have hfirst := houtcome v.labelled v.continues_labelled (env.repeats_self _)
  have hcontinues := continues_of_outcome h.labelled hfollows hfirst
  have hlasts := hfollows.extends_.trans hcontinues.memory.extends_
  refine ⟨⟨hcontinues, ?_, (h.outlasts.trans hlasts).view_eq hclosed hglobals.free,
    params_of_outcome h.closed hfollows v.continues_labelled hshared h.params_eq hfirst⟩, fun v' hv' hrepeats =>
      runsAgain_of_outcome h.closed h.labelled hfollows hv' hg (houtcome v' hv' hrepeats)⟩
  rw [hlasts.view_eq h.closed h.root, h.description]
  exact h.held.fresh

/-- A node that saves a parameter, then something else, and then writes into this. -/
def settingNode (saved : Value) : Value :=
  .ofMembers [("version", .str "pf-js/1.0"), ("entry", .str "a"),
    ("globals", .ofMembers [("config", .ofMembers [("a", .int 1)])]),
    ("nodes", .ofList [
      .ofMembers [("id", .str "a"), ("kind", .str "static-data"), ("exec", .ofMembers []),
        ("post", .ofMembers [("outputs", .ofMembers [("save", .ofList [
          .ofMembers [("path", .str "before"), ("value", .str "\x7b\x7bparams.config.a\x7d\x7d")],
          .ofMembers [("path", .str "c"), ("value", saved)],
          .ofMembers [("path", .str "c.a"), ("value", .int 2)]])])])]]),
    ("edges", .ofList [])]

/-- An object of the caller's own with the member that is to be saved. -/
def ownObject : Value := .ofMembers [("a", .str "\x7b\x7bparams.config.a\x7d\x7d")]

theorem isJson_settingNode {saved : Value} (h : saved.IsJson) : (settingNode saved).IsJson := by
  simp [settingNode, Value.IsJson.str, Value.IsJson.int, h]

set_option maxRecDepth 10000 in
theorem problems_settingNode : (ofEnvironment .echo).problems (settingNode ownObject) = .ok [] := by rfl

theorem parse_setting :
    Expr.parse "params.config.a" = .ok (.get (.get (.name "params") (.lit (.str "config"))) (.lit (.str "a"))) := by
  have hroot : Expr.IsVariable "params" :=
    ⟨.of_eq rfl rfl rfl, Expr.wordLiteral?_eq_none_iff.mp (by decide), by decide⟩
  have hsegs : ∀ s ∈ ["config", "a"], IsSegment s := by
    simp only [List.forall_mem_cons, List.not_mem_nil, false_imp_iff, implies_true, and_true]
    exact ⟨.inl (.of_eq rfl rfl rfl), .inl (.of_eq rfl rfl rfl)⟩
  have htext : Expr.pathText "params" ["config", "a"] = "params.config.a" := by decide +kernel
  have hparse := Expr.parse_pathText hroot (List.cons_ne_nil _ _) hsegs
  rw [htext, Expr.along, List.foldl_cons, List.foldl_cons, List.foldl_nil] at hparse
  exact hparse

theorem lone_setting : Template.Lone (Template.Spares (knownParams .echo World.blank.heap (settingNode ownObject)))
    (.str "\x7b\x7bparams.config.a\x7d\x7d") := by
  refine .text fun body hbody e he => ?_
  have hpieces : Template.pieces (Text.strip "\x7b\x7bparams.config.a\x7d\x7d".toList) =
      [.hole "params.config.a".toList] := by rfl
  obtain rfl : "params.config.a".toList = body := by
    rw [hpieces] at hbody
    exact Template.Piece.hole.inj (List.cons.inj hbody).1
  obtain rfl := Except.ok.inj (parse_setting.symm.trans he)
  -- the member is a number
  show ∀ k part, Expr.MayGive (.lit (.str "a")) k →
    (Value.dict none [("a", .int 1)]).property k = .ok part → part.isPlain = true
  intro k part hk hpart
  rw [hk _ rfl] at hpart
  obtain rfl := Except.ok.inj hpart
  rfl

theorem careful_settingNode : CarefulGraph .echo World.blank.heap (settingNode ownObject) where
  nodes m hm := by
    obtain rfl := List.mem_singleton.1 hm
    have hdata : ∀ k, some Kind.staticData = some k → k.prompts ≠ true := by
      rintro k hk
      obtain rfl := Option.some.inj hk
      decide
    refine ⟨fun k hk hprompts => absurd hprompts (hdata k hk), fun k hk hprompts => absurd hprompts (hdata k hk),
      fun _ save hsave => ?_⟩
    rcases List.mem_cons.1 hsave with rfl | hsave
    · exact lone_setting
    rcases List.mem_cons.1 hsave with rfl | hsave
    · refine .dict fun m hm => ?_
      obtain rfl := List.mem_singleton.1 hm
      exact lone_setting
    · obtain rfl := List.mem_singleton.1 hsave
      exact .other rfl rfl rfl
  model := rfl
  common ms hms := by
    obtain rfl := Option.some.inj hms
    rfl

/-- A node that saves its parameter in an object of its own runs twice alike, each time on a new object. -/
theorem runs_leave_graph_settingNode :
    ∃ c w', (ofEnvironment .echo).compile (settingNode ownObject) .blank = (.ok c, w') ∧ ∀ limit ls b,
      let run := fun u : World =>
        (c.configured limit ls).runWithin b (Shared.given ⟨0, none⟩ u) (u.given World.stocked.heap)
      LeavesGraph .echo (settingNode ownObject) .blank w' (w'.given World.stocked.heap).heap.cells.size (run w').2 ∧
        RunsAgain (w'.heap.namesIn (run w').2.heap) (Shared.given ⟨0, none⟩ w') (Shared.given ⟨0, none⟩ (run w').2) w'
          (run w').2 (run w') (run (run w').2) := by
  have hblank : World.blank.heap.Closed := fun a c h => by cases h
  obtain ⟨c, w', hcompile, hruns⟩ := @runs_leave_graph .echo (settingNode ownObject) .blank
    (isJson_settingNode (by simp [ownObject, Value.IsJson.str])) problems_settingNode hblank
    ⟨Nat.one_pos, fun a c h => by cases h⟩ (by decide) (Or.inl rfl) (fun _ => Environment.indifferent_echo)
    careful_settingNode
  refine ⟨c, w', hcompile, fun limit ls b => ?_⟩
  obtain ⟨hleaves, hagain⟩ :=
    hruns limit ls b World.stocked.heap ⟨0, none⟩ w' World.closed_stocked Nat.one_pos (.refl w')
  refine ⟨hleaves, hagain _ hleaves.continues ⟨fun m hm k => ?_, nofun, nofun, nofun⟩⟩
  obtain rfl := Option.some.inj hm
  rfl

/-- What the parameter in the description is after a run on a new object, and what this run and a second one have saved
of it. -/
def setTwice (saved : Value) : Option (String × String × String) :=
  match (ofEnvironment .echo).compile (settingNode saved) .blank with
  | (.error _, _) => none
  | (.ok c, w) =>
    let run := fun u : World => c.runWithin ⟨5, 5⟩ (Shared.given ⟨0, none⟩ u) (u.given World.stocked.heap)
    let root := (World.blank.heap.keep (settingNode saved)).1
    let first := (run w).2
    some (((((first.heap.view root).field "globals").field "config").field "a").plain,
      ((Shared.given ⟨0, none⟩ w).view first.heap |>.field "before").plain,
      ((Shared.given ⟨0, none⟩ first).view (run first).2.heap |>.field "before").plain)

theorem setTwice_params : setTwice (.str "\x7b\x7bparams.config\x7d\x7d") = some ("2", "1", "2") := by
  decide +kernel

set_option maxRecDepth 10000 in
theorem problems_params :
    (ofEnvironment .echo).problems (settingNode (.str "\x7b\x7bparams.config\x7d\x7d")) = .ok [] := by rfl

/-- One that saves its parameter as it is changes the description, so a second run finds another one. -/
theorem run_changes_graph :
    (ofEnvironment .echo).problems (settingNode (.str "\x7b\x7bparams.config\x7d\x7d")) = .ok [] ∧
    ∃ c w', (ofEnvironment .echo).compile (settingNode (.str "\x7b\x7bparams.config\x7d\x7d")) .blank = (.ok c, w') ∧
      let run := fun u : World => c.runWithin ⟨5, 5⟩ (Shared.given ⟨0, none⟩ u) (u.given World.stocked.heap)
      ¬ LeavesGraph .echo (settingNode (.str "\x7b\x7bparams.config\x7d\x7d")) .blank w'
        (w'.given World.stocked.heap).heap.cells.size (run w').2 ∧
      ¬ RunsAgain (w'.heap.namesIn (run w').2.heap) (Shared.given ⟨0, none⟩ w') (Shared.given ⟨0, none⟩ (run w').2) w'
        (run w').2 (run w') (run (run w').2) := by
  refine ⟨problems_params, ?_⟩
  have htwice := setTwice_params
  dsimp only [setTwice] at htwice
  rcases hcompile : (ofEnvironment .echo).compile (settingNode (.str "\x7b\x7bparams.config\x7d\x7d")) .blank with
    ⟨r, w'⟩
  rw [hcompile] at htwice
  cases r with
  | error e => cases htwice
  | ok c =>
    obtain ⟨hchanged, htwice⟩ := Prod.mk.inj (Option.some.inj htwice)
    obtain ⟨hfirst, hsecond⟩ := Prod.mk.inj htwice
    refine ⟨c, w', rfl, fun hleaves => ?_, fun hagain => ?_⟩
    · rw [← Value.plain_fresh, ← Value.field_fresh, ← Value.field_fresh, ← Value.field_fresh,
        hleaves.description] at hchanged
      exact absurd hchanged (by decide)
    · rw [hagain.context, Value.field_renamed, Value.plain_renamed, hfirst] at hsecond
      exact absurd hsecond (by decide)

end Compiler

end NodeFlow
