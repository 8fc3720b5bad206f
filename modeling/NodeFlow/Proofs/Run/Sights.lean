import NodeFlow.Proofs.Run.Annotate
import NodeFlow.Proofs.Run.Attempts
/-!
# Which number an attempt sees

A node remembers the number of its attempt in one place, also when it works on all its elements at once. So whoever
begins an attempt writes there, and whoever looks there, in the code of an attempt at any of the elements, finds the
number of the attempt that has begun last, at whichever element. Until it first stops this is its own; afterwards it
is its own as long as nobody has begun an attempt of another number.

What the code of an attempt finds is noted along the run, at each of its steps.
-/

set_option autoImplicit false

namespace NodeFlow

variable {ρ α β : Type}

/-! ## 1. Notes of attempts -/

/-- What is noted of attempts at elements. An attempt is known by the place of its element and by its number there,
counted from one. -/
inductive Glance
  | begins (place attempt : Nat)
  /-- its code takes a step, before or after it has first stopped, and this is the number that the node remembers -/
  | sees (place attempt : Nat) (fresh : Bool) (number : Nat)
  deriving DecidableEq

namespace Glance

/-- The number of the attempt that begins. -/
def begun? : Glance → Option Nat
  | .begins _ attempt => some attempt
  | .sees _ _ _ _ => none

/-- The number of the attempt that has begun last, at any of the elements. -/
def latest (notes : List Glance) : Option Nat := (notes.filterMap begun?).getLast?

@[simp] theorem latest_append_begins (notes : List Glance) (place attempt : Nat) :
    latest (notes ++ [.begins place attempt]) = some attempt := by
  simp [latest, begun?]

@[simp] theorem latest_append_sees (notes : List Glance) (place attempt : Nat) (fresh : Bool) (number : Nat) :
    latest (notes ++ [.sees place attempt fresh number]) = latest notes := by
  simp [latest, begun?]

theorem exists_latest {notes : List Glance} {place attempt : Nat} (h : .begins place attempt ∈ notes) :
    ∃ a, latest notes = some a := by
  have hne : notes.filterMap begun? ≠ [] :=
    List.ne_nil_of_mem (List.mem_filterMap.2 ⟨_, h, rfl⟩)
  exact ⟨_, List.getLast?_eq_some_getLast hne⟩

/-- What notes say of the numbers that are seen: the number of the attempt that has begun last, in the way in which a
node counts, from zero; one's own attempt has begun, and until it first stops it is the last one. -/
def Truthful (notes : List Glance) : Prop :=
  ∀ before place attempt fresh number after, notes = before ++ .sees place attempt fresh number :: after →
    latest before = some (number + 1) ∧ .begins place attempt ∈ before ∧ (fresh = true → number + 1 = attempt)

theorem truthful_nil : Truthful [] := by
  intro before place attempt fresh number after h
  simp at h

theorem Truthful.append_begins {notes : List Glance} (h : Truthful notes) (place attempt : Nat) :
    Truthful (notes ++ [.begins place attempt]) := by
  intro before place' attempt' fresh number after heq
  rcases List.eq_nil_or_concat' after with rfl | ⟨rest, last, rfl⟩
  · exact absurd (List.append_inj_right' heq rfl) (by simp)
  · rw [← List.cons_append, ← List.append_assoc] at heq
    exact h before place' attempt' fresh number rest (List.append_inj_left' heq rfl)

theorem Truthful.append_sees {notes : List Glance} (h : Truthful notes) {place attempt : Nat} {fresh : Bool}
    {number : Nat} (hlatest : latest notes = some (number + 1)) (hbegun : .begins place attempt ∈ notes)
    (hfresh : fresh = true → number + 1 = attempt) : Truthful (notes ++ [.sees place attempt fresh number]) := by
  intro before place' attempt' fresh' number' after heq
  rcases List.eq_nil_or_concat' after with rfl | ⟨rest, last, rfl⟩
  · obtain ⟨rfl, hlast⟩ := List.append_inj' heq rfl
    cases hlast
    exact ⟨hlatest, hbegun, hfresh⟩
  · rw [← List.cons_append, ← List.append_assoc] at heq
    exact h before place' attempt' fresh' number' rest (List.append_inj_left' heq rfl)

end Glance

/-! ## 2. A node that takes notes -/

/-- What is done in a world is done beside notes. -/
instance {γ : Type} : Performs World (Coop (World × γ) ρ) where
  perform x := (Coop.ofAct x).beside

/-- An attempt at an element begins: the node remembers its number. -/
def Coop.beginning (node place attempt : Nat) : Coop (World × List Glance) Datum Unit :=
  (Coop.ofAct (World.remember node fun memory => { memory with attempt := attempt - 1 })).noting
    (fun _ _ notes => notes ++ [.begins place attempt]) true

/-- The code of an attempt at an element, with notes of the number that the node remembers at each of its steps. -/
def Coop.watched (node place attempt : Nat) (x : Coop World ρ α) : Coop (World × List Glance) ρ α :=
  x.noting (fun fresh w notes => notes ++ [.sees place attempt fresh (w.memoryOf node).attempt]) true

namespace Stages

/-- Works on the element of a place, and takes notes. -/
def notedWork (s : Stages (Coop World Datum) α β) (policy : RetryPolicy) (node : Nat) (b : β) (place : Nat) :
    Coop (World × List Glance) Datum Datum := do
  let n ← Performs.perform (σ := World) (Act.ofFault policy.tries)
  retrying policy .null
    (fun k => do
      Coop.beginning node place k
      (s.exec b).watched node place k)
    (fun e => (s.fallback b e).beside) n 1

/-- Works on all elements at once, and takes notes. -/
def notedTogether (s : Stages (Coop World Datum) α β) (policy : RetryPolicy) (node : Nat)
    (elements : α → Act World (List β)) : Coop (World × List Glance) Datum Datum :=
  course s.prep.beside
    (fun a => do
      let items ← Performs.perform (elements a)
      let results ← Coop.together (items.zipIdx.map fun item => s.notedWork policy node item.1 item.2)
      Performs.perform (World.alloc (.list results)))
    fun a d => (s.post a d).beside

variable {s : Stages (Coop World Datum) α β} {policy : RetryPolicy} {node : Nat}

/-- The attempts without their notes. -/
theorem unnoted_attempt (b : β) (place k : Nat) :
    (do
      Coop.beginning node place k
      (s.exec b).watched node place k : Coop (World × List Glance) Datum Datum).unnoted [] =
    (do
      Performs.perform (World.remember node fun memory => { memory with attempt := k - 1 })
      s.exec b) := by
  refine (Coop.unnoted_bind _ _).trans ?_
  rw [Coop.beginning, Coop.unnoted_noting]
  simp only [Coop.watched, Coop.unnoted_noting]
  rfl

theorem unnoted_retrying (b : β) (place left k : Nat) :
    (retrying policy .null
      (fun k => do
        Coop.beginning node place k
        (s.exec b).watched node place k)
      (fun e => (s.fallback b e).beside) left k : Coop (World × List Glance) Datum Datum).unnoted [] =
    retrying policy .null
      (fun k => do
        Performs.perform (World.remember node fun memory => { memory with attempt := k - 1 })
        s.exec b) (s.fallback b) left k := by
  induction left using Nat.strong_induction_on generalizing k with
  | _ left ih =>
    match left with
    | 0 => rfl
    | 1 =>
      refine (Coop.unnoted_tryCatch _ _).trans ?_
      rw [unnoted_attempt]
      simp only [Coop.beside, Coop.unnoted_noting]
      rfl
    | left + 2 =>
      refine (Coop.unnoted_tryCatch _ _).trans ?_
      rw [unnoted_attempt]
      refine congrArg (Coop.tryCatch _) (funext fun e => ?_)
      refine (Coop.unnoted_bind _ _).trans ?_
      rw [ih (left + 1) (by omega)]
      exact congrArg (Coop.bind · _) (Coop.unnoted_noting _ _ _ _)

/-- **Without its notes the work is the work of the node.** -/
theorem unnoted_notedWork (b : β) (place : Nat) :
    (s.notedWork policy node b place).unnoted [] = s.work policy node b := by
  refine (Coop.unnoted_bind _ _).trans ?_
  simp only [unnoted_retrying]
  exact congrArg (Coop.bind · _) (Coop.unnoted_noting _ _ _ _)

theorem unnoted_notedTogether (elements : α → Act World (List β)) :
    (s.notedTogether policy node elements).unnoted [] = s.together policy node elements := by
  have hparts : ∀ items : List β,
      unnotedAll [] (items.zipIdx.map fun item => s.notedWork policy node item.1 item.2) =
        items.map (s.work policy node) := by
    intro items
    rw [unnotedAll_eq_map, List.map_map]
    have hfirst : ((Coop.unnoted []) ∘ fun item : β × Nat => s.notedWork policy node item.1 item.2) =
        s.work policy node ∘ Prod.fst := funext fun item => unnoted_notedWork item.1 item.2
    rw [hfirst, ← List.map_map, List.zipIdx_map_fst]
  have hwork : ∀ a,
      (do
        let items ← Performs.perform (elements a)
        let results ← Coop.together (items.zipIdx.map fun item => s.notedWork policy node item.1 item.2)
        Performs.perform (World.alloc (.list results)) : Coop (World × List Glance) Datum Datum).unnoted [] =
      (do
        let items ← Coop.ofAct (elements a)
        let results ← Coop.together (items.map (s.work policy node))
        Coop.ofAct (World.alloc (.list results))) := by
    intro a
    refine (Coop.unnoted_bind _ _).trans ?_
    rw [show (Performs.perform (elements a) : Coop (World × List Glance) Datum (List β)).unnoted [] =
      Coop.ofAct (elements a) from Coop.unnoted_noting _ _ _ _]
    refine congrArg (Coop.bind _) (funext fun items => ?_)
    refine (Coop.unnoted_bind _ _).trans ?_
    rw [Coop.together, Coop.unnoted, hparts]
    rfl
  refine (Coop.unnoted_bind _ _).trans ?_
  rw [Coop.beside, Coop.unnoted_noting]
  refine congrArg (Coop.bind _) (funext fun a => ?_)
  refine (Coop.unnoted_bind _ _).trans ?_
  refine (congrArg (Coop.bind · _) (hwork a)).trans ?_
  simp only [Coop.beside, Coop.unnoted_noting]
  rfl

/-! ### Nobody looks at notes -/

theorem blind_retrying (b : β) (place left k : Nat) :
    (retrying policy .null
      (fun k => do
        Coop.beginning node place k
        (s.exec b).watched node place k)
      (fun e => (s.fallback b e).beside) left k : Coop (World × List Glance) Datum Datum).Blind [] := by
  have hattempt : ∀ k, (do
      Coop.beginning node place k
      (s.exec b).watched node place k : Coop (World × List Glance) Datum Datum).Blind [] := fun k =>
    (Coop.blind_noting _ _ _ _).bind fun _ => Coop.blind_noting _ _ _ _
  induction left using Nat.strong_induction_on generalizing k with
  | _ left ih =>
    match left with
    | 0 => exact .done _
    | 1 => exact (hattempt k).tryCatch fun e => Coop.blind_noting _ _ _ _
    | left + 2 =>
      refine (hattempt k).tryCatch fun e => ?_
      exact (Coop.blind_noting _ _ _ _).bind fun _ => ih (left + 1) (by omega) (k + 1)

theorem blind_notedTogether (elements : α → Act World (List β)) :
    (s.notedTogether policy node elements).Blind [] := by
  refine (Coop.blind_noting _ _ _ _).bind fun a => Coop.Blind.bind ?_ fun d => Coop.blind_noting _ _ _ _
  refine (Coop.blind_noting _ _ _ _).bind fun items => Coop.Blind.bind ?_ fun d => Coop.blind_noting _ _ _ _
  refine .gather (fun x hx => ?_) fun r => .done r
  obtain ⟨item, -, rfl⟩ := List.mem_map.1 hx
  exact (Coop.blind_noting _ _ _ _).bind fun n => blind_retrying item.1 item.2 n 1

end Stages

/-! ## 3. Who writes the number -/

/-- A step leaves the number alone that a node remembers. -/
structure World.Spares (node : Nat) (w w' : World) : Prop where
  attempt : (w'.memoryOf node).attempt = (w.memoryOf node).attempt
  there : node < w.memory.size → node < w'.memory.size

theorem World.spares_of_memory {node : Nat} {w w' : World} (h : w'.memory = w.memory) : World.Spares node w w' := by
  constructor
  · rw [World.memoryOf, World.memoryOf, h]
  · rw [h]
    exact id

/-- All steps of a computation are of one kind, whatever state they are taken from. -/
inductive Coop.Always {σ : Type} (R : σ → σ → Prop) : {α : Type} → Coop σ ρ α → Prop
  | done {α : Type} (r : Except Failure α) : Always R (.done r)
  | act {α β : Type} {m : σ → β × σ} {k : β → Coop σ ρ α} : (∀ s, R s (m s).2) → (∀ b, Always R (k b)) →
    Always R (.act m k)
  | turn {α : Type} {k : Coop σ ρ α} : Always R k → Always R (.turn k)
  | gather {α : Type} {parts : List (Coop σ ρ ρ)} {k : Except Failure (List ρ) → Coop σ ρ α} :
    (∀ x ∈ parts, Always R x) → (∀ r, Always R (k r)) → Always R (.gather parts k)

/-- The code of a node leaves alone the number that the engine keeps for it, and the code of its attempts gives up
control only where it says so: the waits that others may use are those of the retry policy. -/
structure Stages.Calm (s : Stages (Coop World Datum) α β) (node : Nat) : Prop where
  prep : s.prep.Always (World.Spares node)
  exec : ∀ b, (s.exec b).Always fun w w' => World.Spares node w w' ∧ ¬ World.chronicle.rests w w'
  fallback : ∀ b e, (s.fallback b e).Always (World.Spares node)
  post : ∀ a d, (s.post a d).Always (World.Spares node)

/-- The node remembers the number of the attempt that has begun last, and the notes say what they are to say. -/
structure Numbered (node : Nat) (s : World × List Glance) : Prop where
  there : node < s.1.memory.size
  latest : ∀ attempt, Glance.latest s.2 = some attempt → (s.1.memoryOf node).attempt + 1 = attempt
  truthful : Glance.Truthful s.2

/-- Steps add to the notes and leave the node with the right number. -/
def Renumbers (node : Nat) (s s' : World × List Glance) : Prop :=
  s.2 <+: s'.2 ∧ (Numbered node s → Numbered node s')

section

variable {node place attempt : Nat} {s s' s'' : World × List Glance}

theorem renumbers_refl (s : World × List Glance) : Renumbers node s s := ⟨List.prefix_refl _, id⟩

theorem Renumbers.trans (h : Renumbers node s s') (h' : Renumbers node s' s'') : Renumbers node s s'' :=
  ⟨h.1.trans h'.1, fun hs => h'.2 (h.2 hs)⟩

theorem renumbers_of_spares {w : World} (h : World.Spares node s.1 w) : Renumbers node s (w, s.2) :=
  ⟨List.prefix_refl _, fun hs => ⟨h.there hs.there, fun a ha => by rw [h.attempt]; exact hs.latest a ha, hs.truthful⟩⟩

/-- An attempt begins. -/
theorem renumbers_begins (hattempt : 0 < attempt) :
    Renumbers node s ((World.remember node (fun memory => { memory with attempt := attempt - 1 }) s.1).2,
      s.2 ++ [.begins place attempt]) := by
  refine ⟨List.prefix_append _ _, fun hs => ⟨?_, fun a ha => ?_, hs.truthful.append_begins place attempt⟩⟩
  · exact lt_of_lt_of_eq hs.there Array.size_setIfInBounds.symm
  · rw [Glance.latest_append_begins] at ha
    rw [attempt_remember hs.there, ← Option.some.inj ha]
    omega

/-- A step of the code of an attempt that has begun. -/
theorem renumbers_sees {w : World} {fresh : Bool} (h : World.Spares node s.1 w)
    (hbegun : .begins place attempt ∈ s.2) (hfresh : fresh = true → Glance.latest s.2 = some attempt) :
    Renumbers node s (w, s.2 ++ [.sees place attempt fresh (s.1.memoryOf node).attempt]) := by
  refine ⟨List.prefix_append _ _, fun hs => ⟨h.there hs.there, fun a ha => ?_, ?_⟩⟩
  · rw [Glance.latest_append_sees] at ha
    rw [h.attempt]
    exact hs.latest a ha
  · obtain ⟨a, ha⟩ := Glance.exists_latest hbegun
    have hnumber := hs.latest a ha
    refine hs.truthful.append_sees (by rw [ha, hnumber]) hbegun fun hf => ?_
    exact hs.latest attempt (hfresh hf)

end

/-! ## 4. Everyone leaves the node with the right number -/

section

variable {node place attempt : Nat}

/-- The order in which worlds are looked at, for what is noted. -/
abbrev World.sighted : Chronicle (World × List Glance) Event := World.chronicle.noted

/-- Code that leaves the number alone, and takes no notes. -/
theorem steady_noting {x : Coop World ρ α} (hx : x.Always (World.Spares node)) (fresh : Bool)
    (s : World × List Glance) :
    (x.noting (fun _ _ notes => notes) fresh).Steady World.sighted (Renumbers node) s := by
  induction hx generalizing fresh s with
  | done r => exact .done r
  | act hm _ ih => exact .act (renumbers_of_spares (hm s.1)) (ih _ _ _) fun _ s' _ => ih _ _ s'
  | turn _ ih => exact .turn fun s' _ => ih false s'
  | gather _ _ ihparts ih =>
    refine .gather (fun y hy s' _ => ?_) fun r s' _ => ih r false s'
    rw [notingAll_eq_map] at hy
    obtain ⟨z, hz, rfl⟩ := List.mem_map.1 hy
    exact ihparts z hz false s'

theorem steady_beside {x : Coop World ρ α} (hx : x.Always (World.Spares node)) (s : World × List Glance) :
    (x.beside : Coop (World × List Glance) ρ α).Steady World.sighted (Renumbers node) s := steady_noting hx true s

/-- Something is done in a world that leaves the number alone. -/
theorem steady_perform {x : Act World α} (hx : ∀ w, World.Spares node w (x w).2) (s : World × List Glance) :
    (Performs.perform x : Coop (World × List Glance) ρ α).Steady World.sighted (Renumbers node) s :=
  steady_beside (.act hx fun r => .done r) s

/-- The code of an attempt that has begun: until it first stops no other has begun since. -/
theorem steady_watched {x : Coop World ρ α}
    (hx : x.Always fun w w' => World.Spares node w w' ∧ ¬ World.chronicle.rests w w') (fresh : Bool)
    (s : World × List Glance) (hbegun : .begins place attempt ∈ s.2)
    (hfresh : fresh = true → Glance.latest s.2 = some attempt) :
    (x.noting (fun fresh w notes => notes ++ [.sees place attempt fresh (w.memoryOf node).attempt]) fresh).Steady
      World.sighted (Renumbers node) s := by
  induction hx generalizing fresh s with
  | done r => exact .done r
  | act hm _ ih =>
    obtain ⟨hspares, hrests⟩ := hm s.1
    refine .act (renumbers_sees hspares hbegun hfresh) (ih _ _ _ (List.mem_append_left _ hbegun) fun hf => ?_)
      fun hrest => absurd hrest hrests
    rw [Glance.latest_append_sees]
    exact hfresh hf
  | turn _ ih => exact .turn fun s' hs' => ih false s' (hs'.1.subset hbegun) fun hf => nomatch hf
  | gather _ _ ihparts ih =>
    refine .gather (fun y hy s' hs' => ?_) fun r s' hs' => ih r false s' (hs'.1.subset hbegun) fun hf => nomatch hf
    rw [notingAll_eq_map] at hy
    obtain ⟨z, hz, rfl⟩ := List.mem_map.1 hy
    exact ihparts z hz false s' (hs'.1.subset hbegun) fun hf => nomatch hf

namespace Stages

variable {s : Stages (Coop World Datum) α β} {policy : RetryPolicy}

/-- Nothing is asked of the state. -/
theorem steady_bind {x : Coop (World × List Glance) ρ α} {f : α → Coop (World × List Glance) ρ β}
    {w : World × List Glance} (hx : x.Steady World.sighted (Renumbers node) w)
    (hf : ∀ a w', (f a).Steady World.sighted (Renumbers node) w') :
    (x.bind f).Steady World.sighted (Renumbers node) w :=
  Coop.Steady.bind (P := fun _ => True) (fun _ _ _ _ => trivial) hx trivial fun a w' _ => hf a w'

theorem steady_attempt (hcalm : s.Calm node) (b : β) {k : Nat} (hk : 0 < k) (w : World × List Glance) :
    (do
      Coop.beginning node place k
      (s.exec b).watched node place k : Coop (World × List Glance) Datum Datum).Steady World.sighted
        (Renumbers node) w := by
  have hquiet : ¬ World.chronicle.rests w.1
      (World.remember node (fun memory => { memory with attempt := k - 1 }) w.1).2 :=
    @World.not_rests_of_journal _ _ [] rfl fun _ h => nomatch h
  refine .act (renumbers_begins hk) ?_ fun hrest => absurd hrest hquiet
  exact steady_watched (hcalm.exec b) true _ (by simp) fun _ => Glance.latest_append_begins _ _ _

theorem steady_retrying (hcalm : s.Calm node) (b : β) (place left : Nat) {k : Nat} (hk : 0 < k)
    (w : World × List Glance) :
    (retrying policy .null
      (fun k => do
        Coop.beginning node place k
        (s.exec b).watched node place k)
      (fun e => (s.fallback b e).beside) left k : Coop (World × List Glance) Datum Datum).Steady World.sighted
        (Renumbers node) w := by
  have hcatch : ∀ {x : Coop (World × List Glance) Datum Datum} {f : Failure → Coop (World × List Glance) Datum Datum}
      {w : World × List Glance}, x.Steady World.sighted (Renumbers node) w →
      (∀ e w', (f e).Steady World.sighted (Renumbers node) w') →
      (x.tryCatch f).Steady World.sighted (Renumbers node) w := fun hx hf =>
    Coop.Steady.tryCatch (P := fun _ => True) (fun _ _ _ _ => trivial) hx trivial fun e w' _ => hf e w'
  have hpause : ∀ k w, World.Spares node w (policy.pause k w).2 := fun k w => by
    rw [policy.pause_eq]
    exact World.spares_of_memory rfl
  induction left using Nat.strong_induction_on generalizing k w with
  | _ left ih =>
    match left with
    | 0 => exact .done _
    | 1 => exact hcatch (steady_attempt hcalm b hk w) fun e w' => steady_beside (hcalm.fallback b e) w'
    | left + 2 =>
      refine hcatch (steady_attempt hcalm b hk w) fun e w' => ?_
      exact steady_bind (steady_perform (hpause k) w') fun _ w'' => ih (left + 1) (by omega) (Nat.succ_pos k) w''

theorem steady_notedTogether (hcalm : s.Calm node) {elements : α → Act World (List β)}
    (helements : ∀ a w, World.Spares node w (elements a w).2) (w : World × List Glance) :
    (s.notedTogether policy node elements).Steady World.sighted (Renumbers node) w := by
  refine steady_bind (steady_beside hcalm.prep w) fun a w => steady_bind ?_ fun d w =>
    steady_beside (hcalm.post a d) w
  refine steady_bind (steady_perform (helements a) w) fun items w => steady_bind ?_ fun results w =>
    steady_perform (fun w => World.spares_of_memory rfl) w
  refine .gather (fun x hx w' _ => ?_) fun r w' _ => .done r
  obtain ⟨item, -, rfl⟩ := List.mem_map.1 hx
  exact steady_bind (steady_perform (fun w => World.spares_of_memory rfl) w') fun n w'' =>
    steady_retrying hcalm item.1 item.2 n Nat.one_pos w''

/-- **An attempt sees the number of the attempt that has begun last.** Work on all elements of a node at once, with
notes of what the code of each attempt sees of the number that the node remembers. Whatever the elements are, whatever
their attempts come to and wherever they stop: in every order in which things happen the notes are truthful, that is,
what is seen is always the number of the attempt that has begun last, at any of the elements, which until one first
stops is one's own. And to every run of the node there is one with notes, which without them is that run. -/
theorem attempts_see_latest (hcalm : s.Calm node) {elements : α → Act World (List β)}
    (helements : ∀ a w, World.Spares node w (elements a w).2) {w : World} (hnode : node < w.memory.size) :
    (∀ t m, (Moment.start (s.notedTogether policy node elements) (w, [])).Steps World.sighted t m →
      Glance.Truthful m.pool.state.2) ∧
    ∀ t m, (Moment.start (s.together policy node elements) w).Steps World.chronicle t m →
      ∃ m', (Moment.start (s.notedTogether policy node elements) (w, [])).Steps World.sighted t m' ∧
        m'.unnoted [] = m := by
  refine ⟨fun t m hsteps => ?_, fun t m hsteps => ?_⟩
  · have htogether : ∀ w', (s.notedTogether policy node elements).Steady World.sighted (Renumbers node) w' :=
      steady_notedTogether hcalm helements
    have hsteady := Moment.steady_start fun w' (_ : Renumbers node (w, []) w') => htogether w'
    refine ((hsteady.steps renumbers_refl Renumbers.trans hsteps).2 ⟨hnode, ?_, Glance.truthful_nil⟩).truthful
    intro attempt hlatest
    simp [Moment.start, Pool.start, Glance.latest] at hlatest
  · refine (Moment.blind_start (blind_notedTogether elements) (w, [])).exists_steps ?_
    rw [Moment.unnoted_start, unnoted_notedTogether]
    exact hsteps

end Stages

end

/-! ## 5. Two elements at once -/

namespace Raced

/-- Code that gives way once and goes on to take a step, or that fails at its first attempt. -/
def code : Datum → Coop World Datum Datum
  | .int 0 => .act (fun w => ((w.memoryOf 0).attempt, w)) fun k =>
      .done (if k = 0 then .error (.reported .value "item failed") else .ok .null)
  | _ => .turn (.act (fun w => ((), w)) fun _ => .done (.ok .null))

/-- A node whose work is this code. -/
def stages : Stages (Coop World Datum) Unit Datum where
  prep := .done (.ok ())
  exec := code
  fallback _ _ := .done (.ok .null)
  post _ d := .done (.ok d)

/-- An element that gives way, and one that fails at first. -/
def elements (_ : Unit) : Act World (List Datum) := pure [.int 2, .int 0]

/-- Two tries, and no time in between. -/
def policy : RetryPolicy := ⟨.int 2, .int 0, .fixed⟩

/-- A node is there, and nothing has happened yet. -/
def world : World := ⟨.empty, .ofLimit none, #[.blank], .none, []⟩

theorem calm : stages.Calm 0 where
  prep := .done _
  exec b := by
    have hstays : ∀ w : World, World.Spares 0 w w ∧ ¬ World.chronicle.rests w w := fun w =>
      ⟨World.spares_of_memory rfl, @World.not_rests_of_journal _ _ [] rfl fun _ h => nomatch h⟩
    change (code b).Always _
    unfold code
    split
    · exact .act hstays fun k => .done _
    · exact .turn (.act hstays fun _ => .done _)
  fallback _ _ := .done _
  post _ _ := .done _

/-- After so many rounds what has been seen is the number that had been given last. -/
theorem attempts_see_latest_raced :
    ∃ t m, (Moment.start (stages.notedTogether policy 0 elements) (world, [])).Steps World.sighted t m ∧
      Glance.Truthful m.pool.state.2 := by
  obtain ⟨t, hsteps⟩ := Moment.exists_steps_rounds World.sighted 4
    (Pool.start (stages.notedTogether policy 0 elements) (world, []))
  refine ⟨t, _, hsteps, ?_⟩
  exact (Stages.attempts_see_latest calm (fun _ _ => World.spares_of_memory rfl) (by decide)).1 t _ hsteps

/-- The first attempt at the one element goes on after the other has begun its second, and sees the number of that. -/
theorem attempt_sees_other_number :
    ∃ t m, (Moment.start (stages.notedTogether policy 0 elements) (world, [])).Steps World.sighted t m ∧
      .sees 0 1 false 1 ∈ m.pool.state.2 := by
  obtain ⟨t, hsteps⟩ := Moment.exists_steps_rounds World.sighted 4
    (Pool.start (stages.notedTogether policy 0 elements) (world, []))
  exact ⟨t, _, hsteps, by decide +kernel⟩

end Raced

end NodeFlow
