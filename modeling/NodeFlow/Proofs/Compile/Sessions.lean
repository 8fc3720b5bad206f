import NodeFlow.Proofs.Compile.Labels
/-!
# Sessions with a compiled graph

Whoever compiles a graph may run it as often as they like, in any contexts, alone or several at once,
and in between make and change objects of their own in any way. What they may not do is reach into the
description itself, nor may the collaborators: an object that is part of a declaration is no context, and
an answer refers to nothing but what its question does.

In every such session each visit ends with a label that the checker has told from the declaration.
-/

set_option autoImplicit false

namespace NodeFlow

open Description

/-! ## 1. Discreet collaborators -/

/-- The cells that an answer of a model refers to. -/
def Reply.marks : Reply → List Addr
  | .value v => v.marks
  | .response attributes => attributes.flatMap fun a => a.2.marks

/-- The cells that what comes back over a session refers to. -/
def SessionAnswer.marks : SessionAnswer → List Addr
  | .response status body headers =>
    status.marks ++ body.toList.flatMap Value.marks ++ headers.marks
  | .broken _ => []

/-- The collaborators of an environment hand out nothing but new values and what they are given. -/
structure Environment.Discreet (env : Environment) : Prop where
  model : ∀ m, env.model = some m → ∀ n prompt name reply, m.answer n prompt name = .ok reply →
    ∀ a ∈ reply.marks, a ∈ prompt.marks ∨ a ∈ name.marks
  http : ∀ answer, env.http = some (.given answer) → ∀ n v, answer n = .ok v → v.marks = []
  session : ∀ client, env.http = some (.session client) → ∀ n, (client.answer n).marks = []
  ownSession : ∀ answer, env.ownSession = some answer → ∀ n, (answer n).marks = []

theorem Reply.free_of_marks {S : Seal} {r : Reply} (h : ∀ a ∈ r.marks, S a = none) : r.Free S := by
  cases r with
  | value v => exact h
  | response attributes => exact fun x hx a ha => h a (List.mem_flatMap.2 ⟨x, hx, ha⟩)

theorem SessionAnswer.free_of_marks {S : Seal} {r : SessionAnswer} (h : r.marks = []) :
    r.Free S := by
  cases r with
  | broken text => trivial
  | response status body headers =>
    have hnone : ∀ {v : Value}, (∀ a ∈ v.marks, a ∈ (response status body headers).marks) →
        v.Free S := fun hv a ha => absurd (h ▸ hv a ha) List.not_mem_nil
    refine ⟨hnone fun a ha => ?_, fun v hv => hnone fun a ha => ?_, hnone fun a ha => ?_⟩
    · exact List.mem_append_left _ (List.mem_append_left _ ha)
    · refine List.mem_append_left _ (List.mem_append_right _ (List.mem_flatMap.2 ⟨v, ?_, ha⟩))
      exact Option.mem_toList.2 hv
    · exact List.mem_append_right _ ha

/-- Discreet collaborators keep terms that allow every failure. -/
theorem Environment.Discreet.suitsAll {τ : Type} {T : Terms τ} {env : Environment}
    (henv : env.Discreet) (hfails : ∀ e, T.fails e) (hglobals : env.globals.Free T.sealed) :
    T.SuitsAll env where
  model m hm n prompt name hprompt hname := by
    cases hanswer : m.answer n prompt name with
    | error e => exact hfails e
    | ok reply =>
      refine Reply.free_of_marks ?_
      intro a ha
      exact (henv.model m hm n prompt name reply hanswer a ha).elim (hprompt a) (hname a)
  http client hclient := by
    cases client with
    | session client => exact fun n => SessionAnswer.free_of_marks (henv.session client hclient n)
    | given answer =>
      intro n
      cases hanswer : answer n with
      | error e => exact hfails e
      | ok v =>
        intro a ha
        rw [henv.http answer hclient n v hanswer] at ha
        exact absurd ha List.not_mem_nil
  session answer hanswer n := SessionAnswer.free_of_marks (henv.ownSession answer hanswer n)
  globals := hglobals

/-! ## 2. Sessions -/

/-- A cell that does not come from compiling between two worlds: it was there before, or came after. -/
def Outside (w w' : World) (a : Addr) : Prop := a < w.heap.cells.size ∨ w'.heap.cells.size ≤ a

/-- The worlds that can be reached with a graph that was compiled between two worlds. -/
inductive Session (c : Compiled) (w w' : World) : World → Prop
  | start : Session c w w' w'
  /-- the caller makes an object -/
  | create {u : World} {cell : Cell} : Session c w w' u →
    (∀ part ∈ cell.parts, ∀ a ∈ part.refs, Outside w w' a) →
    Session c w w' { u with heap := (u.heap.alloc cell).2 }
  /-- the caller changes an object -/
  | change {u : World} {a : Addr} {cell : Cell} : Session c w w' u → Outside w w' a →
    (∀ part ∈ cell.parts, ∀ a ∈ part.refs, Outside w w' a) →
    Session c w w' { u with heap := u.heap.write a cell }
  /-- the caller changes something else -/
  | adjust {u : World} (channel : Channel) (memory : Array NodeMemory) (calls : Calls) :
    Session c w w' u → Session c w w' { u with channel, memory, calls }
  /-- a run in one context -/
  | run {u : World} (limit : Value) (ls : List Listener) (b : Graph.Bounds) {shared : Shared} :
    Session c w w' u → Outside w w' shared.data →
    Session c w w' ((c.configured limit ls).runWithin b shared u).2
  /-- runs in several contexts at once -/
  | together {u : World} (limit : Value) (ls : List Listener) (b : Graph.Bounds)
    {contexts : List Shared} : Session c w w' u → (∀ s ∈ contexts, Outside w w' s.data) →
    Session c w w' ((c.configured limit ls).runTogetherWithin b contexts u).2

/-! ## 3. The terms -/

namespace Compiler

/-- What may be told of a node's end: a label that its declaration gives. -/
def Truly (d : Value) : HookCall → Prop
  | .nodeEnd name shown _ => ∃ m ∈ nodesOf d, idOf m = name ∧
    (shown = .null ∨ ∃ l, shown = .str l ∧ Produces Kind.routerNames m l)
  | _ => True

/-- The terms of sessions: since the graph was compiled nothing but the truth has been told. -/
def labelling (d : Value) (kept : Heap) (old : List HookCall) : Terms Unit where
  sealed := sealOf d kept
  told hs := ∃ calls, hs = calls ++ old ∧ ∀ call ∈ calls, Truly d call
  mark _ := ()
  fails _ := True
  fails_of_ne _ _ := trivial

/-- The labels of the nodes by their numbers. -/
def labelOf (d : Value) (i : Nat) (x : Datum) : Prop := ∃ m, (nodesOf d)[i]? = some m ∧ Gives m x

variable {env : Environment} {d₀ d : Value} {h₀ kept : Heap} {own params : Addr}
  {nodes : List Node} {edges : List Edge} {start : Nat} {c : Compiled} {old : List HookCall}

theorem told_cons {call : HookCall} (hcall : Truly d call) {hs : List HookCall}
    (hhs : (labelling d kept old).told hs) : (labelling d kept old).told (call :: hs) := by
  obtain ⟨calls, rfl, htrue⟩ := hhs
  exact ⟨call :: calls, rfl, List.forall_mem_cons.2 ⟨hcall, htrue⟩⟩

theorem truly_of_gives {m : Value} (hm : m ∈ nodesOf d) {x : Datum} (hx : Gives m x) (h : Heap)
    (context : Value) : Truly d (.nodeEnd (idOf m) (h.view x) context) := by
  refine ⟨m, hm, rfl, ?_⟩
  rcases hx with rfl | ⟨l, rfl, hl⟩
  · exact Or.inl rfl
  · exact Or.inr ⟨l, rfl, hl⟩

/-- The walk of a compiled graph under the terms of sessions. -/
theorem narrated_labelling (hkept : Heap.Kept h₀ d₀ d kept)
    (hwell : WellFormed Kind.names Kind.routerNames d) (henv : env.Discreet)
    (hglobals : env.HasGlobals h₀) (h : Assembles env d own params nodes edges start c)
    (hparams : sealOf d kept params = none) (limit : Value) (ls : List Listener) :
    ∃ plan, (labelling d kept old).Narrated (c.configured limit ls) plan params start (labelOf d)
      ((labelling d kept old).quiet (labelOf d)) := by
  obtain ⟨name, hwalks⟩ := Compiled.walks_of_assembles h
  obtain ⟨hwalks, hlike⟩ := hwalks.configured limit ls
  refine ⟨_, h.narrated (h.faithful (distinct_ids hwell)) hwalks hlike
    (FlowPlan.start_configured _ _ _) ?_ ?_ ?_ ?_ hparams⟩
  · rintro i x ⟨m, -, rfl | ⟨l, rfl, -⟩⟩
    · exact Datum.free_null
    · exact Datum.free_str l
  · -- what is told of the end of a visit is the label of the node in its place
    rintro i node hnode x view context ⟨m, hm, hx⟩ hs hhs
    obtain ⟨m', n, hm', -, hmade, rfl⟩ := h.node hnode
    obtain rfl : m = m' := Option.some.inj (hm.symm.trans hm')
    rw [show ({ n with wiring := routesFrom i edges } : Node).name = idOf m from hmade.name]
    exact told_cons (truly_of_gives (List.mem_of_getElem? hm) hx view context) hhs
  · intro call hcall hs hhs
    refine told_cons ?_ hhs
    cases call with
    | nodeEnd => exact absurd rfl hcall
    | _ => trivial
  · -- every node keeps the terms, since its declaration honors the seal
    refine Terms.keepsConduct_of_assembles h
      (henv.suitsAll (fun _ => trivial) (free_globals hkept hglobals)) ?_
    intro i m name kind hm hname hkind
    have hmem := List.mem_of_getElem? hm
    have hrouter : isRouter m = (kind == .router) := by
      rw [isRouter, hname]
      simp only [hkind]
      rfl
    have hlabel : labelOf d i = Gives m := by
      funext x
      simp [labelOf, hm]
    rw [hlabel, ← hrouter]
    exact honors hkept hmem (hwell.isNode m hmem)

/-! ## 4. The invariant of sessions -/

theorem sealOf_of_outside (hkept : Heap.Kept h₀ d₀ d kept) {w w' : World}
    (hbefore : w.heap.cells.size = h₀.cells.size) (hafter : kept.cells.size ≤ w'.heap.cells.size)
    {a : Addr} (ha : Outside w w' a) : sealOf d kept a = none := by
  refine sealOf_of_not_mem ?_
  intro hmem
  rcases ha with hold | hnew
  · exact absurd (hbefore ▸ hold) (Nat.not_lt.2 (hkept.new a hmem))
  · exact absurd (hkept.holds.mark_lt a hmem) (Nat.not_lt.2 (Nat.le_trans hafter hnew))

/-- Every session keeps the terms: induction on its steps. -/
theorem inv_of_session {w w' : World}
    (houtside : ∀ a, Outside w w' a → sealOf d kept a = none)
    (hnarrated : ∀ limit ls, ∃ plan, (labelling d kept old).Narrated (c.configured limit ls) plan
      params start (labelOf d) ((labelling d kept old).quiet (labelOf d)))
    (hstart : (labelling d kept old).regime.inv w') {u : World} (hu : Session c w w' u) :
    (labelling d kept old).regime.inv u := by
  have hcell : ∀ {cell : Cell}, (∀ part ∈ cell.parts, ∀ a ∈ part.refs, Outside w w' a) →
      cell.Free (sealOf d kept) := by
    intro cell h part hpart a ha
    exact houtside a (h part hpart a ha)
  have hkeeps : ∀ {x : Act World Datum} {P : Datum → Prop} {u : World},
      (labelling d kept old).regime.inv u → (labelling d kept old).Keeps x P →
      (labelling d kept old).regime.inv (x u).2 := by
    intro x P u hu hx
    exact (hx u ⟨hu, nofun⟩).1.inv
  induction hu with
  | start => exact hstart
  | create _ hparts ih => exact ⟨ih.1.alloc (hcell hparts), ih.2⟩
  | change _ ha hparts ih => exact ⟨ih.1.write (houtside _ ha) (hcell hparts), ih.2⟩
  | adjust _ _ _ _ ih => exact ih
  | run limit ls b _ hshared ih =>
    obtain ⟨plan, h⟩ := hnarrated limit ls
    exact hkeeps ih (Terms.keeps_runWithin h (houtside _ hshared) b)
  | together limit ls b _ hcontexts ih =>
    obtain ⟨plan, h⟩ := hnarrated limit ls
    exact hkeeps ih (Terms.keeps_runTogetherWithin h (fun s hs => houtside _ (hcontexts s hs)) b)

/-- The parameters of the flow are behind what was kept, so they are not sealed. -/
theorem sealOf_params (hkept : Heap.Kept h₀ d₀ d kept) : sealOf d kept (kept.cells.size + 1) = none := by
  refine sealOf_of_not_mem ?_
  intro hmem
  exact Nat.not_succ_lt_self (hkept.holds.mark_lt _ hmem)

/-- What a session keeps that begins when the graph has been compiled. -/
theorem inv_of_compiled {w : World} (hkept : Heap.Kept w.heap d₀ d kept)
    (hwell : WellFormed Kind.names Kind.routerNames d) (henv : env.Discreet) (hclosed : w.heap.Closed)
    (hglobals : env.HasGlobals w.heap) {common : Members Datum} (hcommon : env.commonMembers? kept = some common)
    (h : Assembles env d own (kept.cells.size + 1) nodes edges start c) {u : World}
    (hu : Session c w { w with
      heap := ((kept.alloc (.dict [])).2.alloc (.dict (paramsFor common kept d))).2 } u) :
    (labelling d kept (heard w.journal)).regime.inv u := by
  have hsize : kept.cells.size ≤
      ((kept.alloc (.dict [])).2.alloc (.dict (paramsFor common kept d))).2.cells.size :=
    ((Heap.extends_alloc kept _).trans (Heap.extends_alloc _ _)).size
  have hstart : (labelling d kept (heard w.journal)).regime.inv { w with
      heap := ((kept.alloc (.dict [])).2.alloc (.dict (paramsFor common kept d))).2 } :=
    ⟨obeys_compiled hkept hclosed hglobals hcommon, [], rfl, fun _ hcall => absurd hcall List.not_mem_nil⟩
  exact inv_of_session (fun a ha => sealOf_of_outside hkept rfl hsize ha)
    (narrated_labelling hkept hwell henv hglobals h (sealOf_params hkept)) hstart hu

/-! ## 5. Labels -/

/-- What has been told without marks is the truth about the description without marks. -/
theorem producible_of_truly (hwell : WellFormed Kind.names Kind.routerNames d) {name : String}
    {shown context : Value} (h : Truly d (.nodeEnd name shown context)) :
    ∃ node valid, Declares d.fresh name node ∧
      producibleLabels Kind.routerNames node = .ok valid ∧
      ∃ l ∈ valid, shown = .str l ∨ shown = .null ∧ l = defaultLabel := by
  obtain ⟨m, hm, rfl, hshown⟩ := h
  have hnode := hwell.isNode m hm
  obtain ⟨valid, hvalid⟩ := ((isNode_fresh _ _ m).2 hnode).exists_labels
  refine ⟨m.fresh, valid, ?_, hvalid, ?_⟩
  · rw [declares_fresh]
    exact ⟨m, ⟨hm, hnode.field_id⟩, rfl⟩
  · rcases hshown with rfl | ⟨l, rfl, hl⟩
    · exact ⟨defaultLabel, (mem_producibleLabels hvalid _).2 .default, Or.inr ⟨rfl, rfl⟩⟩
    · exact ⟨l, (mem_producibleLabels hvalid l).2 ((produces_fresh _ m l).2 hl), Or.inl rfl⟩

/-- **Labels are sound.** A description that the checker accepts is compiled, and in every session with
the graph each visit of a node ends with a label among those that the checker tells from its
declaration, or with none, and then the default label is among them. -/
theorem session_labels_producible {env : Environment} {d : Value} {w : World} (hjson : d.IsJson)
    (haccepted : (ofEnvironment env).problems d = .ok []) (hclosed : w.heap.Closed)
    (hglobals : env.HasGlobals w.heap) (henv : env.Discreet) :
    ∃ c w', (ofEnvironment env).compile d w = (.ok c, w') ∧ ∀ u, Session c w w' u →
      ∃ calls, heard u.journal = calls ++ heard w'.journal ∧
        ∀ name shown context, .nodeEnd name shown context ∈ calls → ∃ node valid,
          Declares d name node ∧ producibleLabels Kind.routerNames node = .ok valid ∧
          ∃ l ∈ valid, shown = .str l ∨ shown = .null ∧ l = defaultLabel := by
  obtain ⟨d', kept, common, nodes, edges, start, c, hkept, hwell, hcommon, h, hcompile⟩ :=
    compile_ok hjson haccepted hglobals
  refine ⟨c, _, hcompile, ?_⟩
  intro u hu
  have hinv := inv_of_compiled hkept hwell henv hclosed hglobals hcommon h hu
  obtain ⟨calls, hcalls, htrue⟩ := hinv.2
  refine ⟨calls, hcalls, ?_⟩
  intro name shown context hmem
  rw [← hkept.fresh]
  exact producible_of_truly hwell (htrue _ hmem)

/-- Two runs of the pair in one context, one after the other and under the same listener. -/
theorem session_labels_producible_wildcardPair : ∃ c w',
    (ofEnvironment .bare).compile wildcardPair .blank = (.ok c, w') ∧
      ∀ l b (shared : Shared), w'.heap.cells.size ≤ shared.data →
        ∃ calls, heard ((c.configured .null [l]).runWithin b shared
            ((c.configured .null [l]).runWithin b shared w').2).2.journal =
              calls ++ heard w'.journal ∧
          ∀ name shown context, .nodeEnd name shown context ∈ calls → ∃ node valid,
            Declares wildcardPair name node ∧
            producibleLabels Kind.routerNames node = .ok valid ∧
            ∃ l ∈ valid, shown = .str l ∨ shown = .null ∧ l = defaultLabel := by
  obtain ⟨c, w', hcompile, htold⟩ := @session_labels_producible .bare wildcardPair .blank
    isJson_wildcardPair (problems_wildcardPair .bare)
    (fun a cell hcell => absurd (Heap.cell?_lt hcell) (Nat.not_lt_zero _)) (Or.inl rfl)
    ⟨nofun, nofun, nofun, nofun⟩
  refine ⟨c, w', hcompile, ?_⟩
  intro l b shared hshared
  have hstart : Session c .blank w' w' := .start
  have hfirst := hstart.run .null [l] b (Or.inr hshared)
  exact htold _ (hfirst.run .null [l] b (Or.inr hshared))

end Compiler

end NodeFlow
