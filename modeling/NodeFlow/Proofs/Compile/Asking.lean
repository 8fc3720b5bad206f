import NodeFlow.Compile.Make
import NodeFlow.Proofs.Run.Follow
/-!
# Asking a model

A model answers at once, or it has to be waited for. The kinds that call one come in two ways for that, and
whichever is taken a visit comes to the same: what is prepared, asked, retried and finished is stated here
once, for a model that simply answers, and each way follows it.

The awkward thing up front: what a node prepares holds the model that it is going to call, so two
environments prepare two things. They differ in nothing but the model, and whom a call is for can as well be
settled as it is made.
-/

set_option autoImplicit false

namespace NodeFlow

/-! ## 1. One answer, two ways to call -/

/-- Actions one after another can be grouped at will. -/
instance {σ : Type} : LawfulMonad (Act σ) := by
  refine LawfulMonad.mk' (Act σ) ?_ (fun _ _ => rfl) ?_
  · intro α x
    funext s
    change Act.bind x Act.pure s = x s
    rw [Act.bind]
    split <;> next h => exact h.symm
  · intro α β γ x f g
    funext s
    change Act.bind (Act.bind x f) g s = Act.bind x (fun a => Act.bind (f a) g) s
    rw [Act.bind, Act.bind, Act.bind]
    cases x s with
    | mk r s' => cases r <;> rfl

/-- A model that has to be waited for and gives the answers of another one. -/
def Model.awaited (m : Model) (turns : Value → Nat) : Model :=
  { m with calling := .awaited, turns := turns }

/-- An environment with a model in place of its own. -/
def Environment.withModel (env : Environment) (m : Model) : Environment :=
  { env with model := some m }

theorem Environment.withModel_self {env : Environment} {m : Model} (hm : env.model = some m) :
    env.withModel m = env := by
  rw [withModel, ← hm]

namespace Prompted

/-- A call that is made to another model. -/
def withModel (m : Model) (p : Prompted) : Prompted := { p with model := m }

/-- What is answered to a call, whatever it takes to make it. -/
def reply (p : Prompted) : Act World Datum := do
  World.keep (← p.model.respond p.prompt p.name)

/-- Waiting for an answer comes to the answer. -/
theorem follows_callWaiting (p : Prompted) :
    Following.Follows False (p.callWaiting : Coop World Datum Datum) p.reply := by
  have hturns : ∀ n, (Coop.turns n : Coop World Datum Unit).Follows False (Act.pure ()) :=
    fun n s => ⟨n, False.elim, Coop.comes_turns n s⟩
  have hanswer : Following.Follows False (p.model.callWaiting p.prompt p.name : Coop World Datum Value)
      (p.model.respond p.prompt p.name) := by
    have hafter := Following.bind (hturns (if p.model.calling = .direct then 0 else p.model.turns p.prompt))
      fun _ => Following.perform (m := Coop World Datum) (p.model.respond p.prompt p.name)
    exact hafter
  exact Following.bind hanswer fun answer => Following.perform _

/-- A model that answers at once is called and has answered. -/
theorem call_withModel {m : Model} (hm : m.calling = .direct) (p : Prompted) :
    (p.withModel m).call = (p.withModel m).reply := by
  have hcall : ∀ prompt name, m.call prompt name = m.respond prompt name := by
    intro prompt name
    rw [Model.call, if_pos hm]
  rw [call, reply, withModel, hcall]

end Prompted

namespace WorkOrder

/-- An order whose call, if any, is made to another model. -/
def withModel (m : Model) (o : WorkOrder) : WorkOrder :=
  { o with prompted := o.prompted.map (·.withModel m) }

/-- What an order comes to, whatever it takes to carry it out. -/
def result (o : WorkOrder) : Act World Datum :=
  match o.prompted with
  | none => pure o.item
  | some p => p.reply

theorem follows_carryOutWaiting (o : WorkOrder) :
    Following.Follows False (o.carryOutWaiting : Coop World Datum Datum) o.result := by
  rw [carryOutWaiting, result]
  cases o.prompted with
  | none => exact Following.pure _
  | some p => exact p.follows_callWaiting

/-- Answers that have to be waited for are the same. -/
theorem result_awaited (m : Model) (turns : Value → Nat) (o : WorkOrder) :
    (o.withModel (m.awaited turns)).result = (o.withModel m).result := by
  rw [result, result, withModel, withModel]
  cases o.prompted with
  | none => rfl
  | some p => rfl

theorem carryOut_withModel {m : Model} (hm : m.calling = .direct) (o : WorkOrder) :
    (o.withModel m).carryOut = (o.withModel m).result := by
  rw [carryOut, result, withModel]
  cases o.prompted with
  | none => rfl
  | some p => exact p.call_withModel hm

end WorkOrder

namespace Declared

variable (env : Environment) (d : Declared) (scene : Scene)

theorem modelName_withModel (m : Model) :
    d.modelName (env.withModel m) scene = d.modelName env scene := rfl

/-- Another model changes nothing about a prepared call but the model. -/
theorem preparePrompt_withModel (m m' : Model) (hm : env.model = some m) :
    d.preparePrompt (env.withModel m') scene =
      Prompted.withModel m' <$> d.preparePrompt env scene := by
  have hmodel : ∀ id, env.modelFor id = .ok m := fun id => by rw [Environment.modelFor, hm]
  rw [preparePrompt, preparePrompt, hmodel, modelName_withModel]
  simp only [map_bind, map_pure]
  rfl

theorem ordersFor_withModel (m m' : Model) (name template : Value) (items : List Value) :
    d.ordersFor scene m' name template items =
      List.map (WorkOrder.withModel m') <$> d.ordersFor scene m name template items := by
  induction items with
  | nil => rfl
  | cons item rest ih =>
    rw [ordersFor, ordersFor, ih]
    simp only [map_bind, map_pure, bind_map_left]
    rfl

theorem workOrders_withModel (m m' : Model) (hm : env.model = some m) :
    d.workOrders (env.withModel m') scene =
      List.map (WorkOrder.withModel m') <$> d.workOrders env scene := by
  have hmodel : ∀ id, env.modelFor id = .ok m := fun id => by rw [Environment.modelFor, hm]
  rw [workOrders, workOrders]
  simp only [map_bind]
  refine bind_congr fun path => bind_congr fun items => bind_congr fun work => ?_
  split
  · simp only [map_bind, map_pure, List.map_map]
    rfl
  · rw [hmodel, modelName_withModel]
    change (d.modelName env scene >>= fun name => d.ordersFor scene m' name _ items) =
      List.map (WorkOrder.withModel m') <$>
        (d.modelName env scene >>= fun name => d.ordersFor scene m name _ items)
    rw [map_bind]
    exact bind_congr fun name => d.ordersFor_withModel scene m m' name _ items

end Declared

/-! ## 2. Visits -/

section

variable {α β γ : Type}

/-- What is prepared can be changed after it has been prepared, or when it is worked on. -/
theorem Declared.once_map (φ : α → β) (prep : Act World α) (exec : β → Act World Datum)
    (post : Datum → Act World Datum) (policy : RetryPolicy) (node : Nat) :
    (stages (φ <$> prep) exec post).once policy node =
      (stages prep (fun a => exec (φ a)) post).once policy node :=
  bind_map_left ..

theorem eachOf_map (φ : α → β) (items : List α) (work : β → Act World γ) :
    eachOf (items.map φ) work = eachOf items fun a => work (φ a) := by
  induction items with
  | nil => rfl
  | cons a rest ih => rw [List.map_cons, eachOf, eachOf, ih]

theorem Declared.inOrder_map (φ : α → β) (prep : Act World (List α)) (exec : β → Act World Datum)
    (post : Datum → Act World Datum) (policy : RetryPolicy) (node : Nat) :
    (stages (List.map φ <$> prep) exec post).inOrder policy node pure =
      (stages prep (fun a => exec (φ a)) post).inOrder policy node pure := by
  refine (bind_map_left ..).trans (bind_congr fun items => ?_)
  have heach : eachOf (items.map φ) ((stages (List.map φ <$> prep) exec post).work policy node) =
      eachOf items ((stages prep (fun a => exec (φ a)) post).work policy node) := eachOf_map φ items _
  change (eachOf (items.map φ) _ >>= _) >>= _ = (eachOf items _ >>= _) >>= _
  rw [heach]
  rfl

end

/-- A node that is no flow comes, visited in a scene, to what an action comes to. -/
def Conduct.Follows (visit : Scene → Act World Datum) : Conduct → Prop
  | .blocking run => ∀ scene, Following.Follows False (run scene) (visit scene)
  | .cooperative run => ∀ scene, Following.Follows False (run scene) (visit scene)
  | .flow _ _ | .cooperativeFlow _ _ => False

namespace Declared

variable (env : Environment) (d : Declared) (policy : RetryPolicy) (node : Nat) (scene : Scene)

/-- A visit that asks a model, whatever it takes to call it. -/
def asking : Act World Datum :=
  d.guarded scene <|
    Stages.once (stages (d.preparePrompt env scene) Prompted.reply (d.finish scene)) policy node

/-- A visit that goes through a list, whatever it takes to call the model for an element. -/
def goingThrough : Act World Datum :=
  d.guarded scene <|
    Stages.inOrder (stages (d.workOrders env scene) WorkOrder.result (d.finish scene)) policy node pure

theorem follows_guarded {x : Coop World Datum Datum} {a : Act World Datum}
    (h : Following.Follows False x a) : Following.Follows False (d.guarded scene x) (d.guarded scene a) := by
  refine Following.bind (Following.perform (d.guardExit? scene)) fun exit => ?_
  cases exit with
  | some label => exact Following.pure _
  | none => exact h

theorem follows_stages {α β : Type} (prep : Act World α) {exec : β → Coop World Datum Datum}
    {exec' : β → Act World Datum} (hexec : ∀ b, Following.Follows False (exec b) (exec' b))
    (post : Datum → Act World Datum) :
    Following.Each False (stages prep exec post : Stages (Coop World Datum) α β)
      (stages prep exec' post) where
  prep := Following.perform prep
  exec := hexec
  fallback _ e := Following.throw e
  post _ result := Following.perform (post result)

/-- Those who wait for the model ask it. -/
theorem follows_cooperative : (Make.cooperative.conduct env d policy node).Follows
    fun scene => d.asking env policy node scene := by
  intro scene
  refine d.follows_guarded scene ?_
  exact (follows_stages _ Prompted.follows_callWaiting _).once policy node

theorem follows_cooperativeBatch : (Make.cooperativeBatch.conduct env d policy node).Follows
    fun scene => d.goingThrough env policy node scene := by
  intro scene
  refine d.follows_guarded scene ?_
  exact (follows_stages _ WorkOrder.follows_carryOutWaiting _).inOrder policy node pure

variable {env} {m : Model}

/-- So whom the calls are for can be settled as they are made. -/
theorem once_withModel (hm : env.model = some m) (m' : Model) (exec : Prompted → Act World Datum)
    (post : Datum → Act World Datum) :
    (stages (d.preparePrompt (env.withModel m') scene) exec post).once policy node =
      (stages (d.preparePrompt env scene) (fun p => exec (p.withModel m')) post).once policy node := by
  rw [d.preparePrompt_withModel env scene m m' hm, once_map]

theorem inOrder_withModel (hm : env.model = some m) (m' : Model) (exec : WorkOrder → Act World Datum)
    (post : Datum → Act World Datum) :
    (stages (d.workOrders (env.withModel m') scene) exec post).inOrder policy node pure =
      (stages (d.workOrders env scene) (fun o => exec (o.withModel m')) post).inOrder policy node
        pure := by
  rw [d.workOrders_withModel env scene m m' hm, inOrder_map]

/-- A model that answers at once is asked by calling it. -/
theorem follows_llmCall (hm : env.model = some m) (hdirect : m.calling = .direct) :
    (Make.llmCall.conduct env d policy node).Follows fun scene => d.asking env policy node scene := by
  intro scene
  have hcalls := d.once_withModel policy node scene hm m
  rw [Environment.withModel_self hm] at hcalls
  change d.guarded scene _ = d.guarded scene _
  rw [hcalls Prompted.call, hcalls Prompted.reply, funext (Prompted.call_withModel hdirect)]

theorem follows_batch (hm : env.model = some m) (hdirect : m.calling = .direct) :
    (Make.batch.conduct env d policy node).Follows
      fun scene => d.goingThrough env policy node scene := by
  intro scene
  have horders := d.inOrder_withModel policy node scene hm m
  rw [Environment.withModel_self hm] at horders
  change d.guarded scene _ = d.guarded scene _
  rw [horders WorkOrder.carryOut, horders WorkOrder.result,
    funext (WorkOrder.carryOut_withModel hdirect)]

/-- To have to wait for the same answers changes nothing about what is asked. -/
theorem asking_awaited (hm : env.model = some m) (turns : Value → Nat) :
    d.asking (env.withModel (m.awaited turns)) policy node scene = d.asking env policy node scene := by
  have hcalls := d.once_withModel policy node scene hm m
  rw [Environment.withModel_self hm] at hcalls
  rw [asking, asking, once_withModel d policy node scene hm, hcalls Prompted.reply]
  rfl

theorem goingThrough_awaited (hm : env.model = some m) (turns : Value → Nat) :
    d.goingThrough (env.withModel (m.awaited turns)) policy node scene =
      d.goingThrough env policy node scene := by
  have horders := d.inOrder_withModel policy node scene hm m
  rw [Environment.withModel_self hm] at horders
  rw [goingThrough, goingThrough, inOrder_withModel d policy node scene hm, horders WorkOrder.result,
    funext (WorkOrder.result_awaited m turns)]

end Declared

/-- Nodes of every kind but the parallel one come to the same visits, whether the model answers at once or
has to be waited for. -/
theorem Make.exists_visit {env : Environment} {m : Model} (hm : env.model = some m)
    (hdirect : m.calling = .direct) (turns : Value → Nat) {kind : Kind} (hkind : kind ≠ .cooperativeParallel)
    (d : Declared) (policy : RetryPolicy) (node : Nat) :
    ∃ visit, ((ofKind false kind).conduct env d policy node).Follows visit ∧
      ((ofKind true kind).conduct (env.withModel (m.awaited turns)) d policy node).Follows visit := by
  have hcooperative : (cooperative.conduct (env.withModel (m.awaited turns)) d policy node).Follows
      fun scene => d.asking env policy node scene := by
    rw [← funext fun scene => d.asking_awaited policy node scene hm turns]
    exact d.follows_cooperative _ policy node
  cases kind with
  | llmCall => exact ⟨_, d.follows_llmCall policy node hm hdirect, hcooperative⟩
  | cooperative => exact ⟨_, d.follows_cooperative env policy node, hcooperative⟩
  | batch =>
    refine ⟨_, d.follows_batch policy node hm hdirect, ?_⟩
    rw [← funext fun scene => d.goingThrough_awaited policy node scene hm turns]
    exact d.follows_cooperativeBatch _ policy node
  | httpCall => exact ⟨_, fun _ => rfl, fun _ => rfl⟩
  | router => exact ⟨_, fun _ => rfl, fun _ => rfl⟩
  | staticData => exact ⟨_, fun _ => rfl, fun _ => rfl⟩
  | cooperativeParallel => exact absurd rfl hkind

end NodeFlow
