import NodeFlow.Proofs.Memory.Accord
import NodeFlow.Proofs.Run.Lockstep
import NodeFlow.Proofs.Run.Terms
import NodeFlow.Proofs.Template.Renaming
import NodeFlow.Run.Stages
/-!
# Runs in accord

What an accord says of the state of two runs, and that they stay in accord while both do the same. Nothing is asked
of what nodes remember, since nothing that a run does depends on it.

One lemma for each small action, and from them one for each thing that every node does whatever its kind: going
through elements, trying again, and the stages of a visit.
-/

set_option autoImplicit false

universe u

namespace NodeFlow

/-! ## 1. What can be seen from outside -/

/-- Two moments that are told alike; only the views of the shared context may differ. -/
inductive HookCall.Alike (context : Value → Value → Prop) : HookCall → HookCall → Prop
  | nodeStart (node : String) : Alike context (.nodeStart node) (.nodeStart node)
  | nodeEnd (node : String) (label : Value) {c c' : Value} : context c c' →
    Alike context (.nodeEnd node label c) (.nodeEnd node label c')
  | nodeError (node : String) (failure : Failure) : Alike context (.nodeError node failure) (.nodeError node failure)
  | flowEnd (steps : Nat) : Alike context (.flowEnd steps) (.flowEnd steps)

/-- Two events that are alike: cells and labels go under other names, diagnostics and views of the shared context
correspond as they may. -/
inductive Event.Alike (σ : Renaming) (note : Diagnostic → Diagnostic → Prop) (context : Value → Value → Prop) :
    Event → Event → Prop
  | delivered (tag : String) {r r' : Diagnostic} : note r r' →
    Alike σ note context (.delivered ⟨tag, r⟩) (.delivered ⟨tag, r'⟩)
  | written (w : Write) : Alike σ note context (.written w) (.written (w.renamed σ))
  | told (tag : String) {call call' : HookCall} : call.Alike context call' →
    Alike σ note context (.told tag call) (.told tag call')
  | wait (seconds : Binary64) : Alike σ note context (.wait seconds) (.wait seconds)
  | modelCall (prompt model : Value) :
    Alike σ note context (.modelCall prompt model) (.modelCall (prompt.renamed σ) (model.renamed σ))
  | httpCall (url method headers body : Value) : Alike σ note context (.httpCall url method headers body)
    (.httpCall (url.renamed σ) (method.renamed σ) (headers.renamed σ) (body.renamed σ))
  | request (method : String) (url headers body timeout : Value) :
    Alike σ note context (.request method url headers body timeout)
      (.request method (url.renamed σ) (headers.renamed σ) (body.renamed σ) timeout)

/-- How a channel is set up: how many records it keeps, and who is handed them. -/
def Channel.setup (c : Channel) : Option Nat × List Listener := (c.limit, c.subscribers)

/-- A datum that a visit may end with: nothing, or a text. -/
def Datum.IsEnding (d : Datum) : Prop := d = .null ∨ ∃ l, d = .str l

namespace Accord

variable {A : Accord} {α β γ δ : Type} {R : α → β → Prop} {S : γ → δ → Prop}

/-- The same number of calls since the runs began. -/
def Called (A : Accord) (c c' : Calls) : Prop :=
  ∀ line, ∃ k, c.count line = A.before.count line + k ∧ c'.count line = A.before'.count line + k

/-- Alike things have happened since the runs began. -/
def Journals (A : Accord) (j j' : List Event) : Prop :=
  ∃ es es', j = es ++ A.past ∧ j' = es' ++ A.past' ∧ List.Forall₂ (Event.Alike A.names A.note A.context) es es'

theorem journals_start : A.Journals A.past A.past' := ⟨[], [], rfl, rfl, .nil⟩

theorem Journals.append {j j' : List Event} (hj : A.Journals j j') {es es' : List Event}
    (hes : List.Forall₂ (Event.Alike A.names A.note A.context) es es') : A.Journals (es ++ j) (es' ++ j') := by
  obtain ⟨ds, ds', rfl, rfl, hds⟩ := hj
  exact ⟨es ++ ds, es' ++ ds', (List.append_assoc ..).symm, (List.append_assoc ..).symm, List.rel_append hes hds⟩

/-- Two states of runs that correspond. -/
structure Worlds (A : Accord) (w w' : World) : Prop where
  heap : A.Heaps w.heap w'.heap
  setup : w.channel.setup = A.setup
  setup' : w'.channel.setup = A.setup
  records : A.recorded → List.Forall₂ A.note w.channel.records w'.channel.records
  calls : A.Called w.calls w'.calls
  journal : A.Journals w.journal w'.journal

/-- What corresponds in two runs. A run ends with the same label as the other one. -/
def pairing (A : Accord) : Pairing World Datum where
  state := A.Worlds
  part := A.Data
  root d d' := d' = d ∧ d.IsEnding

section

variable {m : Type → Type u} [Performs World m] [Lockstep World Datum m]

/-- The one does what the other does. -/
def Tracks (A : Accord) (x : m α) (y : m β) (R : α → β → Prop) : Prop := Lockstep.Tracks A.pairing x y R

/-! ## 2. The rules -/

theorem Tracks.pure {a : α} {b : β} (h : R a b) : A.Tracks (pure a : m α) (pure b : m β) R := Lockstep.pure h

theorem Tracks.throw (e : Failure) : A.Tracks (MonadExcept.throw e : m α) (MonadExcept.throw e : m β) R :=
  Lockstep.throw e

theorem Tracks.bind {x : m α} {y : m β} {f : α → m γ} {g : β → m δ} (h : A.Tracks x y R)
    (hfg : ∀ a b, R a b → A.Tracks (f a) (g b) S) : A.Tracks (x >>= f) (y >>= g) S :=
  Lockstep.bind h hfg

theorem Tracks.tryCatch {x : m α} {y : m β} {f : Failure → m α} {g : Failure → m β} (h : A.Tracks x y R)
    (hfg : ∀ e, A.Tracks (f e) (g e) R) : A.Tracks (MonadExcept.tryCatch x f) (MonadExcept.tryCatch y g) R :=
  Lockstep.tryCatch h hfg

theorem Tracks.perform {x : Act World α} {y : Act World β} (h : A.Tracks x y R) :
    A.Tracks (Performs.perform x : m α) (Performs.perform y : m β) R :=
  Lockstep.perform h

end

/-! ## 3. Actions -/

theorem Tracks.of_forall {x : Act World α} {y : Act World β}
    (h : ∀ w w', A.Worlds w w' → A.Worlds (x w).2 (y w').2 ∧ EndsAlike R (x w).1 (y w').1) : A.Tracks x y R := h

theorem tracks_fail (e : Failure) : A.Tracks (Act.fail e : Act World α) (Act.fail e : Act World β) R :=
  .of_forall fun _ _ hw => ⟨hw, .error e⟩

theorem tracks_reads {f : World → α} {g : World → β} (hfg : ∀ w w', A.Worlds w w' → R (f w) (g w')) :
    A.Tracks (Act.reads f) (Act.reads g) R :=
  .of_forall fun w w' hw => ⟨hw, .ok (hfg w w' hw)⟩

theorem tracks_ofExcept {x : Except Failure α} {y : Except Failure β} (h : EndsAlike R x y) :
    A.Tracks (Act.ofExcept x : Act World α) (Act.ofExcept y : Act World β) R :=
  .of_forall fun _ _ hw => ⟨hw, h⟩

theorem tracks_ofFault {x : Except Fault α} {y : Except Fault β} (h : EndsAlike R x y) :
    A.Tracks (Act.ofFault x : Act World α) (Act.ofFault y : Act World β) R :=
  .of_forall fun _ _ hw => ⟨hw, h.mapError _⟩

theorem tracks_ofOperands {x : Except OperandFault α} {y : Except OperandFault β} (h : EndsAlike R x y) :
    A.Tracks (Act.ofOperands x : Act World α) (Act.ofOperands y : Act World β) R :=
  .of_forall fun _ _ hw => ⟨hw, h.mapError _⟩

theorem tracks_view {d d' : Datum} (hd : A.Data d d') : A.Tracks (World.view d) (World.view d') A.Values :=
  tracks_reads fun _ _ hw => hw.heap.values hd

theorem tracks_keep {v v' : Value} (hv : A.Values v v') : A.Tracks (World.keep v) (World.keep v') A.Data :=
  .of_forall fun _ _ hw => ⟨{ hw with heap := (hw.heap.keep hv).2 }, .ok (hw.heap.keep hv).1⟩

theorem tracks_alloc_dict {ms ms' : Members Datum} (hms : A.Entries ms ms') :
    A.Tracks (World.alloc (.dict ms)) (World.alloc (.dict ms')) A.Data :=
  .of_forall fun _ _ hw => ⟨{ hw with heap := hw.heap.alloc_dict hms }, .ok (hw.heap.data_alloc _ _)⟩

theorem tracks_alloc_list {ds ds' : List Datum} (hds : List.Forall₂ A.Data ds ds') :
    A.Tracks (World.alloc (.list ds)) (World.alloc (.list ds')) A.Data :=
  .of_forall fun _ _ hw => ⟨{ hw with heap := hw.heap.alloc_list hds }, .ok (hw.heap.data_alloc _ _)⟩

theorem tracks_log {e e' : Event} (he : e.Alike A.names A.note A.context e') :
    A.Tracks (World.log e) (World.log e') fun _ _ => True :=
  .of_forall fun _ _ hw => ⟨{ hw with journal := hw.journal.append (.cons he .nil) }, .ok trivial⟩

theorem forall₂_newest {T : α → α → Prop} {xs ys : List α} (h : List.Forall₂ T xs ys) (limit : Option Nat) :
    List.Forall₂ T (Channel.newest limit xs) (Channel.newest limit ys) := by
  cases limit with
  | none => exact h
  | some n =>
    rw [Channel.newest, Channel.newest, h.length_eq]
    exact List.forall₂_drop _ h

theorem tracks_note {d d' : Diagnostic} (hd : A.note d d') : A.Tracks (World.note d) (World.note d') fun _ _ => True := by
  refine .of_forall fun w w' hw => ?_
  obtain ⟨hlimit, hsubscribers⟩ := Prod.mk.inj (hw.setup'.trans hw.setup.symm)
  refine ⟨⟨hw.heap, hw.setup, hw.setup', fun hrecorded => ?_, hw.calls, ?_⟩, .ok trivial⟩
  · have hrecords : List.Forall₂ A.note (w.channel.records ++ [d]) (w'.channel.records ++ [d']) :=
      List.rel_append (hw.records hrecorded) (.cons hd .nil)
    show List.Forall₂ A.note (Channel.newest w.channel.limit (w.channel.records ++ [d]))
      (Channel.newest w'.channel.limit (w'.channel.records ++ [d']))
    rw [hlimit]
    exact forall₂_newest hrecords _
  · refine hw.journal.append (List.rel_reverse ?_)
    rw [Channel.emit_snd, Channel.emit_snd, hsubscribers, List.map_map, List.map_map, List.forall₂_map_left_iff,
      List.forall₂_map_right_iff, List.forall₂_same]
    exact fun s _ => .delivered s.tag hd

theorem tracks_noteAll (ds : List Diagnostic) : A.Tracks (World.noteAll ds) (World.noteAll ds) fun _ _ => True := by
  induction ds with
  | nil => exact .pure trivial
  | cons d ds ih => exact .bind (tracks_note (A.note_refl d)) fun _ _ _ => ih

theorem tracks_settle {x : Noted α} {y : Noted β} (h : x.Alike R y) :
    A.Tracks (World.settle x) (World.settle y) R := by
  rw [World.settle, World.settle, h.notes]
  exact .bind (tracks_noteAll x.notes) fun _ _ _ => tracks_ofFault h.result

theorem tracks_onShared {x y : Act Ledger Unit} (h : ∀ l l', A.Ledgers l l' → A.Ends (x l) (y l')) :
    A.Tracks (World.onShared x) (World.onShared y) fun _ _ => True := by
  refine .of_forall fun w w' hw => ?_
  have hends := h ⟨w.heap, []⟩ ⟨w'.heap, []⟩ ⟨hw.heap, rfl⟩
  refine ⟨{ hw with heap := hends.ledger.heap, journal := hw.journal.append (List.rel_reverse ?_) }, ?_⟩
  · rw [hends.ledger.writes, List.map_map, List.forall₂_map_left_iff, List.forall₂_map_right_iff, List.forall₂_same]
    exact fun w _ => .written w
  · show EndsAlike _ (x ⟨w.heap, []⟩).1 (y ⟨w'.heap, []⟩).1
    rw [hends.result]
    cases (x ⟨w.heap, []⟩).1 with
    | ok _ => exact .ok trivial
    | error e => exact .error e

theorem tracks_remember (node node' : Nat) (f f' : NodeMemory → NodeMemory) :
    A.Tracks (World.remember node f) (World.remember node' f') fun _ _ => True :=
  .of_forall fun _ _ hw => ⟨{ hw with }, .ok trivial⟩

/-- Two calls are the same ones since the runs began. -/
theorem tracks_countCall (line : Line) : A.Tracks (World.countCall line) (World.countCall line) fun n n' =>
    ∃ k, n = A.before.count line + k ∧ n' = A.before'.count line + k := by
  have hadd : ∀ (c : Calls) (l : Line), (c.add line).count l = c.count l + if line = l then 1 else 0 := by
    intro c l
    cases line <;> cases l <;> rfl
  refine .of_forall fun w w' hw => ⟨{ hw with calls := fun l => ?_ }, .ok (hw.calls line)⟩
  obtain ⟨k, hk, hk'⟩ := hw.calls l
  refine ⟨k + if line = l then 1 else 0, ?_, ?_⟩
  · exact (hadd w.calls l).trans (by rw [hk, Nat.add_assoc])
  · exact (hadd w'.calls l).trans (by rw [hk', Nat.add_assoc])

/-! ## 4. Elements -/

/-- Two things to go through that correspond. -/
inductive Goes (A : Accord) : Elements → Elements → Prop
  | live {a : Addr} : A.sealed a = none → Goes A (.live a) (.live (A.names.cell a))
  | fixed {ds ds' : List Datum} : List.Forall₂ A.Data ds ds' → Goes A (.fixed ds) (.fixed ds')

theorem data_names {γ : Type} (f : γ → String) (xs : List γ) :
    List.Forall₂ A.Data (xs.map fun x => Datum.str (f x)) (xs.map fun x => Datum.str (f x)) :=
  List.forall₂_same.2 (List.forall_mem_map.2 fun _ _ => data_str _)

theorem data_keys (ms : List (String × Value)) : List.Forall₂ A.Data (ms.map fun m => Datum.str m.1)
    ((ms.map fun m => (m.1, m.2.renamed A.names)).map fun m => Datum.str m.1) := by
  rw [List.map_map]
  exact data_names Prod.fst ms

theorem tracks_elements {d d' : Datum} (hd : A.Data d d') : A.Tracks (Elements.of d) (Elements.of d') A.Goes := by
  refine .bind (tracks_view hd) fun v v' hv => ?_
  obtain ⟨hfree, rfl⟩ := hd
  obtain ⟨-, rfl⟩ := hv
  rw [Value.truthy_renamed]
  split
  · exact .pure (.fixed .nil)
  · cases v with
    | list cell xs =>
      rw [Value.renamed_list]
      cases d with
      | ref a => exact .pure (.live (Datum.free_ref.1 hfree))
      | _ => exact tracks_fail _
    | dict cell ms =>
      rw [Value.renamed_dict]
      cases d <;> exact .pure (.fixed (data_keys ms))
    | store cell name ms =>
      rw [Value.renamed_store]
      cases d <;> exact .pure (.fixed (data_keys ms))
    | str s => cases d <;> exact .pure (.fixed (data_names String.singleton s.toList))
    | _ => cases d <;> exact tracks_fail _

theorem tracks_all {e e' : Elements} (he : A.Goes e e') : A.Tracks e.all e'.all (List.Forall₂ A.Data) := by
  cases he with
  | live ha => exact tracks_reads fun _ _ hw => hw.heap.items ha
  | fixed hds => exact .pure hds

/-- Two pairs that correspond. -/
def Pairs (A : Accord) (p p' : String × Datum) : Prop := p'.1 = p.1 ∧ A.Data p.2 p'.2

theorem tracks_pair (ds ds' : List Datum) : List.Forall₂ A.Data ds ds' → A.Tracks
    (match ds with
      | [.str key, part] => pure (key, part)
      | [_, _] => Act.fail (.fault .type)
      | _ => Act.fail (.fault .value) : Act World (String × Datum))
    (match ds' with
      | [.str key, part] => pure (key, part)
      | [_, _] => Act.fail (.fault .type)
      | _ => Act.fail (.fault .value) : Act World (String × Datum)) A.Pairs := by
  intro hds
  cases hds with
  | nil => exact tracks_fail _
  | @cons d d' ds ds' hd hds =>
    cases hds with
    | nil => cases d <;> cases d' <;> exact tracks_fail _
    | @cons e e' ds ds' he hds =>
      cases hds with
      | cons _ _ => cases d <;> cases d' <;> exact tracks_fail _
      | nil =>
        obtain ⟨-, rfl⟩ := hd
        cases d with
        | str key => exact .pure ⟨rfl, he⟩
        | _ => exact tracks_fail _

theorem tracks_pairOf {d d' : Datum} (hd : A.Data d d') : A.Tracks (pairOf d) (pairOf d') A.Pairs := by
  refine .bind (tracks_view hd) fun v v' hv => ?_
  obtain ⟨hfree, rfl⟩ := hd
  obtain ⟨-, rfl⟩ := hv
  have hfault : ∀ {f g : List Datum → Act World (String × Datum)},
      A.Tracks (Act.fail (.fault .type) >>= f) (Act.fail (.fault .type) >>= g) A.Pairs :=
    fun {_ _} => .bind (R := fun _ _ => False) (tracks_fail _) fun _ _ h => h.elim
  dsimp only
  cases v with
  | list cell xs =>
    rw [Value.renamed_list]
    cases d with
    | ref a =>
      exact .bind (tracks_reads fun _ _ hw => hw.heap.items (Datum.free_ref.1 hfree)) fun _ _ hds => tracks_pair _ _ hds
    | _ => exact hfault
  | dict cell ms =>
    rw [Value.renamed_dict]
    cases d <;> exact tracks_pair _ _ (data_keys ms)
  | store cell name ms =>
    rw [Value.renamed_store]
    cases d <;> exact tracks_pair _ _ (data_keys ms)
  | str s => cases d <;> exact tracks_pair _ _ (data_names String.singleton s.toList)
  | _ => cases d <;> exact hfault

theorem tracks_pairsOf {ds ds' : List Datum} (hds : List.Forall₂ A.Data ds ds') :
    A.Tracks (pairsOf ds) (pairsOf ds') (List.Forall₂ A.Pairs) := by
  induction hds with
  | nil => exact .pure .nil
  | cons hd _ ih =>
    exact .bind (tracks_pairOf hd) fun p p' hp => .bind ih fun ps ps' hps => .pure (.cons hp hps)

theorem entries_of_pairs {ps ps' : List (String × Datum)} (h : List.Forall₂ A.Pairs ps ps') :
    A.Entries (Members.ofPairs ps) (Members.ofPairs ps') := by
  have hall : ∀ {ms ms'}, A.Entries ms ms' → A.Entries (Members.putAll ms ps) (Members.putAll ms' ps') := by
    induction h with
    | nil => exact id
    | @cons p p' ps ps' hp _ ih =>
      intro ms ms' hms
      have hput := hms.put p.1 hp.2
      rw [Members.putAll, Members.putAll, List.foldl_cons, List.foldl_cons, hp.1]
      exact ih hput
  exact hall Heaps.entries_nil

theorem tracks_membersOf {d d' : Datum} (hd : A.Data d d') : A.Tracks (membersOf d) (membersOf d') A.Entries := by
  have hpairs := Tracks.bind (tracks_elements hd) fun e e' he => Tracks.bind (tracks_all he) fun ds ds' hds =>
    Tracks.bind (tracks_pairsOf hds) fun ps ps' hps => Tracks.pure (m := Act World) (entries_of_pairs hps)
  refine .bind (tracks_view hd) fun v v' hv => ?_
  obtain ⟨hfree, rfl⟩ := hv
  cases v with
  | dict cell ms =>
    rw [Value.renamed_dict]
    cases cell with
    | some a =>
      have ha := (Value.free_dict.1 hfree).1 a rfl
      cases d <;> cases d' <;> exact tracks_reads fun _ _ hw => hw.heap.entries ha
    | none => cases d <;> cases d' <;> exact hpairs
  | store a name ms =>
    rw [Value.renamed_store]
    have ha := (Value.free_store.1 hfree).1
    cases d <;> cases d' <;> exact tracks_reads fun _ _ hw => hw.heap.entries ha
  | list cell xs =>
    rw [Value.renamed_list]
    cases d <;> cases d' <;> exact hpairs
  | _ => cases d <;> cases d' <;> exact hpairs

/-! ## 5. Work -/

section

variable {m : Type → Type u} [Performs World m] [Lockstep World Datum m]

theorem tracks_eachOf {T : α → β → Prop} {xs : List α} {ys : List β} {f : α → m γ} {g : β → m δ}
    (hxs : List.Forall₂ T xs ys) (hfg : ∀ x y, T x y → A.Tracks (f x) (g y) S) :
    A.Tracks (eachOf xs f) (eachOf ys g) (List.Forall₂ S) := by
  induction hxs with
  | nil => exact .pure .nil
  | cons hxy _ ih => exact .bind (hfg _ _ hxy) fun c c' hc => .bind ih fun cs cs' hcs => .pure (.cons hc hcs)

theorem tracks_pause (policy : RetryPolicy) (attempt : Nat) :
    A.Tracks (policy.pause attempt) (policy.pause attempt) fun _ _ => True := by
  have hsame : ∀ {ε τ : Type} (x : Except ε τ), EndsAlike Eq x x := by
    intro ε τ x
    cases x with
    | ok a => exact .ok rfl
    | error e => exact .error e
  refine .bind (tracks_ofFault (hsame _)) fun w _ hw => ?_
  subst hw
  refine .bind (tracks_ofFault (hsame _)) fun positive _ hpositive => ?_
  subst hpositive
  split
  · split
    · exact .bind (tracks_ofFault (hsame _)) fun x _ hx => hx ▸ tracks_log (.wait x)
    · exact .pure trivial
  · exact .pure trivial

theorem tracks_retrying (policy : RetryPolicy) {idle : α} {idle' : β} (hidle : R idle idle') {work : Nat → m α}
    {work' : Nat → m β} (hwork : ∀ k, A.Tracks (work k) (work' k) R) {fallback : Failure → m α}
    {fallback' : Failure → m β} (hfallback : ∀ e, A.Tracks (fallback e) (fallback' e) R) (left attempt : Nat) :
    A.Tracks (retrying policy idle work fallback left attempt) (retrying policy idle' work' fallback' left attempt) R := by
  -- the induction is on the tries that are left
  fun_induction retrying policy idle work fallback left attempt with
  | case1 => exact .pure hidle
  | case2 attempt => exact .tryCatch (hwork attempt) hfallback
  | case3 left attempt ih =>
    exact .tryCatch (hwork attempt) fun _ => .bind (.perform (tracks_pause policy attempt)) fun _ _ _ => ih

/-- Work is tried equally often, whatever its nodes are called. -/
theorem tracks_working (policy : RetryPolicy) (node node' : Nat) {idle : α} {idle' : β} (hidle : R idle idle')
    {work : m α} {work' : m β} (hwork : A.Tracks work work' R) {fallback : Failure → m α} {fallback' : Failure → m β}
    (hfallback : ∀ e, A.Tracks (fallback e) (fallback' e) R) :
    A.Tracks (working policy node idle work fallback) (working policy node' idle' work' fallback') R := by
  have htries : EndsAlike Eq policy.tries policy.tries := by
    cases policy.tries with
    | ok n => exact .ok rfl
    | error e => exact .error e
  refine .bind (.perform (tracks_ofFault htries)) fun n _ hn => ?_
  subst hn
  exact tracks_retrying policy hidle
    (fun _ => .bind (.perform (tracks_remember node node' _ _)) fun _ _ _ => hwork) hfallback n 1

/-! ## 6. Stages -/

variable {α' β' : Type}

/-- The stages of two visits correspond. -/
structure Stages (A : Accord) (s : NodeFlow.Stages m α β) (s' : NodeFlow.Stages m α' β') (P : α → α' → Prop)
    (Q : β → β' → Prop) (L : Datum → Datum → Prop) : Prop where
  prep : A.Tracks s.prep s'.prep P
  exec : ∀ b b', Q b b' → A.Tracks (s.exec b) (s'.exec b') A.Data
  fallback : ∀ b b' e, A.Tracks (s.fallback b e) (s'.fallback b' e) A.Data
  post : ∀ a a' d d', P a a' → A.Data d d' → A.Tracks (s.post a d) (s'.post a' d') L

variable {P : α → α' → Prop} {Q : β → β' → Prop} {L : Datum → Datum → Prop} {policy : RetryPolicy} {node node' : Nat}

theorem Stages.work {s : NodeFlow.Stages m α β} {s' : NodeFlow.Stages m α' β'} (h : A.Stages s s' P Q L) {b : β} {b' : β'}
    (hb : Q b b') : A.Tracks (s.work policy node b) (s'.work policy node' b') A.Data :=
  tracks_working policy node node' data_null (h.exec b b' hb) (h.fallback b b')

theorem Stages.once {s : NodeFlow.Stages m α α} {s' : NodeFlow.Stages m α' α'} (h : A.Stages s s' P P L) :
    A.Tracks (s.once policy node) (s'.once policy node') L :=
  .bind h.prep fun a a' ha => .bind (h.work ha) fun d d' hd => h.post a a' d d' ha hd

theorem Stages.inOrder {s : NodeFlow.Stages m α β} {s' : NodeFlow.Stages m α' β'} (h : A.Stages s s' P Q L)
    {elements : α → Act World (List β)} {elements' : α' → Act World (List β')}
    (helements : ∀ a a', P a a' → A.Tracks (elements a) (elements' a') (List.Forall₂ Q)) :
    A.Tracks (s.inOrder policy node elements) (s'.inOrder policy node' elements') L := by
  refine .bind h.prep fun a a' ha => .bind ?_ fun d d' hd => h.post a a' d d' ha hd
  refine .bind (.perform (helements a a' ha)) fun bs bs' hbs => ?_
  exact .bind (tracks_eachOf hbs fun b b' hb => h.work hb) fun ds ds' hds => .perform (tracks_alloc_list hds)

end

theorem tracks_together {xs ys : List (Coop World Datum Datum)} (h : List.Forall₂ (fun x y => A.Tracks x y A.Data) xs ys) :
    A.Tracks (Coop.together xs) (Coop.together ys) (List.Forall₂ A.Data) := by
  refine Coop.Tracks.gather h.length_eq (fun i x y hx hy => ?_) fun r s hrs => .done hrs
  have hrel := List.Forall₂.get h
  obtain ⟨hi, rfl⟩ := List.getElem?_eq_some_iff.1 hx
  obtain ⟨hi', rfl⟩ := List.getElem?_eq_some_iff.1 hy
  exact hrel hi hi'

theorem Stages.together {α' β' : Type} {P : α → α' → Prop} {Q : β → β' → Prop} {L : Datum → Datum → Prop}
    {policy : RetryPolicy} {node node' : Nat} {s : NodeFlow.Stages (Coop World Datum) α β}
    {s' : NodeFlow.Stages (Coop World Datum) α' β'} (h : A.Stages s s' P Q L)
    {elements : α → Act World (List β)} {elements' : α' → Act World (List β')}
    (helements : ∀ a a', P a a' → A.Tracks (elements a) (elements' a') (List.Forall₂ Q)) :
    A.Tracks (s.together policy node elements) (s'.together policy node' elements') L := by
  refine .bind h.prep fun a a' ha => .bind ?_ fun d d' hd => h.post a a' d d' ha hd
  refine .bind (.perform (helements a a' ha)) fun bs bs' hbs => ?_
  refine .bind (tracks_together ?_) fun ds ds' hds => .perform (tracks_alloc_list hds)
  rw [List.forall₂_map_left_iff, List.forall₂_map_right_iff]
  exact hbs.imp fun b b' hb => h.work hb

end Accord

end NodeFlow
