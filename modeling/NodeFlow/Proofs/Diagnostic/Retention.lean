import Mathlib.Data.List.DropRight
import NodeFlow.Proofs.Run.Listening
/-!
# What a channel keeps and whom it tells

A channel forgets in two ways only: it drops its oldest record when there is one too many, and all of them when it is
cleared. Neither has anything to do with who listens. Whatever has been done with a channel, its records are the last
ones of those emitted since it was last cleared, and each subscription has been handed every record emitted between
the moment it was made and the moment its subscriber left, dropped since or not. This holds for every limit that a
channel can be made with: a list has only so many places, and a limit beyond them is refused at the start.

The awkward thing is to say which call belongs to which subscription. A channel knows its subscribers only by their
places in a list that shrinks and grows, and one subscriber may stand there twice. So a subscription is named by the
place of the operation that made it, in the history of the channel, and what is in force after a history is read off
the history alone.
-/

set_option autoImplicit false

namespace NodeFlow

namespace Channel

/-! ## 1. Operations -/

/-- Something done with a channel. Subscribers may fail at any emission, depending on all that has been told. -/
inductive Operation
  | emit (d : Diagnostic) (fails : List Delivery → Listener → Bool)
  | subscribe (l : Listener)
  | unsubscribe (number : Nat)
  | clear

/-- A channel in use, with all that its subscribers have been handed. -/
structure Station where
  channel : Channel
  told : List Delivery

namespace Operation

/-- Performs an operation. -/
def perform : Operation → Act Station Unit
  | .emit d fails => fun s =>
    let heard := Listener.tellEach fails (fun l => ⟨l.tag, d⟩) s.channel.subscribers s.told
    (heard.1, ⟨(s.channel.emit d).1, heard.2⟩)
  | .subscribe l => .modify fun s => { s with channel := s.channel.subscribe l }
  | .unsubscribe number => .modify fun s => { s with channel := s.channel.unsubscribe number }
  | .clear => .modify fun s => { s with channel := s.channel.clear }

/-- Performs operations one after another. -/
def performAll : List Operation → Act Station Unit
  | [] => pure ()
  | op :: ops => do
    op.perform
    performAll ops

/-- Whoever fails, an emission is what the channel does with the record. -/
theorem perform_emit (d : Diagnostic) (fails : List Delivery → Listener → Bool) (s : Station) :
    (emit d fails).perform s = (.ok (), ⟨(s.channel.emit d).1, s.told ++ (s.channel.emit d).2⟩) := by
  rw [emit_snd, perform]
  simp only [Listener.tellEach_eq]

theorem performAll_cons {op : Operation} {s s' : Station} (h : op.perform s = (.ok (), s')) (ops : List Operation) :
    performAll (op :: ops) s = performAll ops s' := by
  show Act.bind op.perform (fun _ => performAll ops) s = _
  rw [Act.bind, h]

/-! ## 2. What a history says -/

/-- The record that an operation emits. -/
def record? : Operation → Option Diagnostic
  | .emit d _ => some d
  | _ => none

/-- Who subscribes by an operation. -/
def listener? : Operation → Option Listener
  | .subscribe l => some l
  | _ => none

/-- Does an operation end the subscriptions of a number? -/
def withdraws (number : Nat) : Operation → Bool
  | .unsubscribe n => number == n
  | _ => false

def isClear : Operation → Bool
  | .clear => true
  | _ => false

end Operation

open Operation

/-- The records emitted in a history, in order. -/
def emitted (ops : List Operation) : List Diagnostic := ops.filterMap record?

/-- What has been done since the channel was last cleared. -/
def sinceClear (ops : List Operation) : List Operation := ops.rtakeWhile fun op => !op.isClear

/-- The last ones, as many as a limit allows. -/
def lastOf (limit : Option Nat) (ds : List Diagnostic) : List Diagnostic := limit.elim ds ds.rtake

/-- A subscription: how much had been done before it was made, and whose it is. -/
structure Subscription where
  made : Nat
  listener : Listener

/-- The record as it is handed to whoever has the subscription. -/
def Subscription.handed (x : Subscription) (d : Diagnostic) : Delivery := ⟨x.listener.tag, d⟩

/-- What was done while the subscription made in a place of a history was in force; nothing if none was made there. -/
def whileInForce (ops : List Operation) (place : Nat) : List Operation :=
  match ops[place]?.bind listener? with
  | none => []
  | some l => (ops.drop (place + 1)).takeWhile fun op => !op.withdraws l.number

/-- The subscription made in a place of a history, unless its subscriber has left since. -/
def inForce? (ops : List Operation) (place : Nat) : Option Subscription :=
  (ops[place]?.bind listener?).bind fun l =>
    if (ops.drop (place + 1)).any (withdraws l.number) then none else some ⟨place, l⟩

/-- The subscriptions in force after a history, oldest first. -/
def inForce (ops : List Operation) : List Subscription := (List.range ops.length).filterMap (inForce? ops)

/-- All that is due in a history: each record, when it is emitted, to each subscription then in force. -/
def due (ops : List Operation) : List (Subscription × Diagnostic) :=
  (List.range ops.length).flatMap fun k =>
    (ops[k]?.bind record?).toList.flatMap fun d => (inForce (ops.take k)).map fun x => (x, d)

/-- What is due to the subscription made in a place of a history. -/
def dueTo (ops : List Operation) (place : Nat) : List Diagnostic :=
  ((due ops).filter fun e => e.1.made = place).map Prod.snd

/-! ## 3. One operation more -/

section

variable {ops : List Operation} {op : Operation} {place : Nat}

theorem emitted_concat (ops : List Operation) (op : Operation) :
    emitted (ops ++ [op]) = emitted ops ++ op.record?.toList := by
  rw [emitted, List.filterMap_append]
  cases h : op.record? <;> simp [emitted, h]

theorem sinceClear_concat (hclear : op.isClear = false) (ops : List Operation) :
    sinceClear (ops ++ [op]) = sinceClear ops ++ [op] :=
  List.rtakeWhile_concat_pos _ _ _ (by rw [hclear]; exact Bool.not_false)

/-- What neither emits nor clears changes nothing of what was emitted since. -/
theorem emitted_sinceClear_of_silent (hrecord : op.record? = none) (hclear : op.isClear = false)
    (ops : List Operation) : emitted (sinceClear (ops ++ [op])) = emitted (sinceClear ops) := by
  rw [sinceClear_concat hclear, emitted_concat, hrecord]
  exact List.append_nil _

/-- Dropping the oldest before the next record comes makes no difference. -/
theorem newest_append {α : Type} (limit : Option Nat) (xs ys : List α) :
    newest limit (newest limit xs ++ ys) = newest limit (xs ++ ys) := by
  cases limit with
  | none => rfl
  | some n =>
    have hle : xs.length - n ≤ xs.length := Nat.sub_le _ _
    simp only [newest]
    rw [← List.drop_append_of_le_length hle, List.drop_drop, List.length_drop, List.length_append]
    congr 1
    omega

theorem newest_eq_lastOf (limit : Option Nat) (ds : List Diagnostic) : newest limit ds = lastOf limit ds := by
  cases limit <;> rfl

theorem lastOf_nil (limit : Option Nat) : lastOf limit [] = [] := by
  cases limit with
  | none => rfl
  | some n => exact List.rtake_nil n

theorem inForce?_concat_of_lt (hplace : place < ops.length) (op : Operation) :
    inForce? (ops ++ [op]) place = (inForce? ops place).filter fun x => !op.withdraws x.listener.number := by
  rw [inForce?, inForce?, List.getElem?_append_left hplace, List.drop_append_of_le_length hplace]
  cases ops[place]?.bind listener? with
  | none => rfl
  | some l =>
    simp only [Option.bind_some, List.any_append, List.any_cons, List.any_nil, Bool.or_false]
    cases (ops.drop (place + 1)).any (withdraws l.number) <;> cases h : op.withdraws l.number <;>
      simp [Option.filter, h]

theorem inForce?_concat_self (ops : List Operation) (op : Operation) :
    inForce? (ops ++ [op]) ops.length = op.listener?.map (Subscription.mk ops.length) := by
  have hdrop : (ops ++ [op]).drop (ops.length + 1) = [] := List.drop_of_length_le (by simp)
  rw [inForce?, hdrop]
  cases h : op.listener? <;> simp [h]

theorem inForce?_of_le (hplace : ops.length ≤ place) : inForce? ops place = none := by
  rw [inForce?, List.getElem?_eq_none hplace]
  rfl

/-- Who leaves is in force no more, and who comes is in force after the others. -/
theorem inForce_concat (ops : List Operation) (op : Operation) :
    inForce (ops ++ [op]) = (inForce ops).filter (fun x => !op.withdraws x.listener.number) ++
      (op.listener?.map (Subscription.mk ops.length)).toList := by
  have hrest : (List.range ops.length).filterMap (inForce? (ops ++ [op])) =
      (inForce ops).filter fun x => !op.withdraws x.listener.number := by
    rw [inForce, List.filter_filterMap]
    exact List.filterMap_congr fun i hi => inForce?_concat_of_lt (List.mem_range.1 hi) op
  rw [inForce, List.length_append, List.length_singleton, List.range_succ, List.filterMap_append, hrest]
  congr 1
  rw [← inForce?_concat_self]
  cases h : inForce? (ops ++ [op]) ops.length <;> simp [h]

/-- Where nobody comes and nobody leaves, the same subscriptions are in force. -/
theorem inForce_of_staying (hcomes : op.listener? = none) (hleaves : ∀ number, op.withdraws number = false)
    (ops : List Operation) : inForce (ops ++ [op]) = inForce ops := by
  rw [inForce_concat, hcomes]
  simp [hleaves]

theorem due_concat (ops : List Operation) (op : Operation) :
    due (ops ++ [op]) = due ops ++ op.record?.toList.flatMap fun d => (inForce ops).map fun x => (x, d) := by
  rw [due, List.length_append, List.length_singleton, List.range_succ, List.flatMap_append, List.flatMap_singleton,
    List.getElem?_concat_length, List.take_left]
  refine congrArg (· ++ _) (List.flatMap_congr fun k hk => ?_)
  have hlt := List.mem_range.1 hk
  rw [List.getElem?_append_left hlt, List.take_append_of_le_length hlt.le]

theorem due_of_silent (hrecord : op.record? = none) (ops : List Operation) : due (ops ++ [op]) = due ops := by
  rw [due_concat, hrecord]
  exact List.append_nil _

/-- No more than one subscription is made in a place. -/
theorem filter_inForce (ops : List Operation) (place : Nat) :
    ((inForce ops).filter fun x => x.made = place) = (inForce? ops place).toList := by
  induction ops using List.reverseRecOn with
  | nil => rfl
  | append_singleton ops op ih =>
    rw [inForce_concat, List.filter_append, List.filter_comm, ih]
    rcases Nat.lt_trichotomy place ops.length with hlt | rfl | hgt
    · rw [inForce?_concat_of_lt hlt, Option.toList_filter]
      cases op.listener? with
      | none => simp
      | some l => simp [hlt.ne']
    · rw [inForce?_of_le le_rfl, inForce?_concat_self]
      cases op.listener? <;> simp
    · rw [inForce?_of_le hgt.le, inForce?_of_le (by simpa using Nat.succ_le_of_lt hgt)]
      cases op.listener? with
      | none => simp
      | some l => simp [hgt.ne]

theorem whileInForce_of_le (hplace : ops.length ≤ place + 1) : whileInForce ops place = [] := by
  rw [whileInForce, List.drop_of_length_le hplace]
  split <;> rfl

/-- What is done while a subscription is in force goes on until it ends. -/
theorem whileInForce_concat_of_lt (hplace : place < ops.length) (op : Operation) :
    whileInForce (ops ++ [op]) place =
      whileInForce ops place ++ (inForce? (ops ++ [op]) place).toList.map fun _ => op := by
  rw [whileInForce, whileInForce, inForce?, List.getElem?_append_left hplace, List.drop_append_of_le_length hplace]
  cases ops[place]?.bind listener? with
  | none => rfl
  | some l =>
    simp only [Option.bind_some, List.any_append, List.any_cons, List.any_nil, Bool.or_false]
    rw [List.takeWhile_append]
    split
    · rename_i hlength
      have hself := (List.takeWhile_prefix _).eq_of_length hlength
      have hstays : (ops.drop (place + 1)).any (withdraws l.number) = false := by
        simpa using List.takeWhile_eq_self_iff.1 hself
      rw [hself, hstays]
      cases h : op.withdraws l.number <;> simp [h]
    · rename_i hlength
      have hleft : (ops.drop (place + 1)).any (withdraws l.number) = true := by
        by_contra hstays
        exact hlength (congrArg List.length (List.takeWhile_eq_self_iff.2 (by simpa using hstays)))
      simp [hleft]

theorem dueTo_concat (ops : List Operation) (op : Operation) (place : Nat) :
    dueTo (ops ++ [op]) place =
      dueTo ops place ++ op.record?.toList.flatMap fun d => (inForce? ops place).toList.map fun _ => d := by
  rw [dueTo, due_concat, List.filter_append, List.map_append, ← dueTo]
  cases op.record? with
  | none => rfl
  | some d =>
    rw [← filter_inForce]
    simp [List.filter_map, Function.comp_def]

/-- **What is due to a subscription** is what is emitted while it is in force. -/
theorem dueTo_eq (ops : List Operation) (place : Nat) : dueTo ops place = emitted (whileInForce ops place) := by
  induction ops using List.reverseRecOn with
  | nil => rfl
  | append_singleton ops op ih =>
    rw [dueTo_concat, ih]
    rcases Nat.lt_or_ge place ops.length with hlt | hle
    · rw [whileInForce_concat_of_lt hlt, inForce?_concat_of_lt hlt, emitted, emitted, List.filterMap_append]
      -- an emission ends no subscription, and nothing else is a record
      cases op with
      | emit d fails => cases inForce? ops place <;> rfl
      | subscribe | unsubscribe | clear =>
        cases Option.filter _ (inForce? ops place) <;> rfl
    · rw [inForce?_of_le hle, whileInForce_of_le (by omega), whileInForce_of_le (by simpa using hle)]
      cases op.record? <;> rfl

end

/-! ## 4. Any number of operations -/

section

variable {limit : Option Nat} {ops : List Operation} {s : Station}

/-- A station is where a history has left it, from the first moment of its channel on. -/
structure LeftBy (limit : Option Nat) (ops : List Operation) (s : Station) : Prop where
  sameLimit : s.channel.limit = limit
  records : s.channel.records = lastOf limit (emitted (sinceClear ops))
  subscribers : s.channel.subscribers = (inForce ops).map Subscription.listener
  told : s.told = (due ops).map fun e => e.1.handed e.2

theorem LeftBy.opened (limit : Option Nat) : LeftBy limit [] ⟨ofLimit limit, []⟩ where
  sameLimit := rfl
  records := (lastOf_nil limit).symm
  subscribers := rfl
  told := rfl

/-- **One operation** never fails, and leaves the channel as the history does with it. -/
theorem LeftBy.perform (h : LeftBy limit ops s) (op : Operation) :
    ∃ s', op.perform s = (.ok (), s') ∧ LeftBy limit (ops ++ [op]) s' := by
  cases op with
  | emit d fails =>
    refine ⟨_, perform_emit d fails s, h.sameLimit, ?_, ?_, ?_⟩
    · show newest s.channel.limit (s.channel.records ++ [d]) = _
      rw [h.sameLimit, h.records, ← newest_eq_lastOf, newest_append, newest_eq_lastOf, sinceClear_concat rfl,
        emitted_concat, record?, Option.toList_some]
    · rw [inForce_of_staying rfl fun _ => rfl]
      exact h.subscribers
    · -- whoever is on the list of the channel is told, and that is who is in force
      show s.told ++ (s.channel.emit d).2 = _
      rw [h.told, emit_snd, h.subscribers, due_concat, List.map_append]
      simp [record?, Subscription.handed, Function.comp_def]
  | subscribe l =>
    refine ⟨_, rfl, h.sameLimit, ?_, ?_, ?_⟩
    · rw [emitted_sinceClear_of_silent rfl rfl]
      exact h.records
    · show s.channel.subscribers ++ [l] = _
      rw [h.subscribers, inForce_concat]
      simp [withdraws, listener?]
    · rw [due_of_silent rfl]
      exact h.told
  | unsubscribe number =>
    refine ⟨_, rfl, h.sameLimit, ?_, ?_, ?_⟩
    · rw [emitted_sinceClear_of_silent rfl rfl]
      exact h.records
    · show Listener.without number s.channel.subscribers = _
      rw [h.subscribers, inForce_concat, Listener.without, List.filter_map]
      simp [withdraws, listener?, Function.comp_def, bne]
    · rw [due_of_silent rfl]
      exact h.told
  | clear =>
    refine ⟨_, rfl, h.sameLimit, ?_, ?_, ?_⟩
    · show [] = _
      rw [sinceClear, List.rtakeWhile_concat_neg _ _ _ Bool.false_ne_true]
      exact (lastOf_nil limit).symm
    · rw [inForce_of_staying rfl fun _ => rfl]
      exact h.subscribers
    · rw [due_of_silent rfl]
      exact h.told

/-- **Any number of operations** after a history. -/
theorem LeftBy.performAll (h : LeftBy limit ops s) (more : List Operation) :
    ∃ s', Operation.performAll more s = (.ok (), s') ∧ LeftBy limit (ops ++ more) s' := by
  induction more generalizing ops s with
  | nil => exact ⟨s, rfl, by rwa [List.append_nil]⟩
  | cons op more ih =>
    obtain ⟨s₁, hop, h₁⟩ := h.perform op
    obtain ⟨s', hmore, h'⟩ := ih h₁
    refine ⟨s', (performAll_cons hop more).trans hmore, ?_⟩
    rwa [List.append_assoc, List.singleton_append] at h'

/-! ## 5. Channels with a limit -/

/-- Up to the number of places that a list can have, any limit will do. -/
theorem make_limit (hlimit : ∀ n ∈ limit, n < Value.placesEnd) :
    make (limit.elim .null fun n => .int n) = .ok (ofLimit limit) := by
  cases limit with
  | none => rfl
  | some n =>
    have hn : n < Value.placesEnd := hlimit n rfl
    have hrange : ¬((n : Int) < -(Value.placesEnd : Int) || (Value.placesEnd : Int) ≤ n) = true := by
      rw [Bool.or_eq_true, decide_eq_true_iff, decide_eq_true_iff]
      omega
    rw [Option.elim_some, make, if_neg hrange, if_neg (by omega), Int.toNat_natCast]

/-- **The newest records are kept, and all are told.** Whatever is done with a channel, and whoever fails, no operation
does: the records are the last ones, up to the limit, of those emitted since the channel was last cleared, those of a
code are the ones among them that have it, and each subscription is handed what is emitted while it is in force. -/
theorem newest_kept_all_told (limit : Option Nat) (hlimit : ∀ n ∈ limit, n < Value.placesEnd)
    (ops : List Operation) : ∃ c s, make (limit.elim .null fun n => .int n) = .ok c ∧
      Operation.performAll ops ⟨c, []⟩ = (.ok (), s) ∧
      s.channel.records = lastOf limit (emitted (sinceClear ops)) ∧
      (∀ code, s.channel.byCode code = (lastOf limit (emitted (sinceClear ops))).filter fun d => d.code = code) ∧
      s.told = (due ops).map (fun e => e.1.handed e.2) ∧
      ∀ place, dueTo ops place = emitted (whileInForce ops place) := by
  obtain ⟨s, hrun, hs⟩ := (LeftBy.opened limit).performAll ops
  rw [List.nil_append] at hs
  refine ⟨_, s, make_limit hlimit, hrun, hs.records, fun code => ?_, hs.told, dueTo_eq ops⟩
  rw [byCode, hs.records]

end

/-- A record with nothing but a message. -/
def remark (message : String) : Diagnostic := ⟨"remark", message, .str "", []⟩

/-- Someone who always fails subscribes twice and leaves once; another one stays, and fails when told a second time. -/
def twiceSubscribed : List Operation :=
  let fails : List Delivery → Listener → Bool := fun told l => l.fails || told.length == 4
  [.subscribe ⟨0, "a", true⟩, .emit (remark "1") fails, .subscribe ⟨0, "a", true⟩, .subscribe ⟨1, "b", false⟩,
    .emit (remark "2") fails, .unsubscribe 0, .clear, .emit (remark "3") fails, .emit (remark "4") fails,
    .emit (remark "5") fails]

/-- Two of the records are kept. The one who stays has been handed all five but the first. -/
theorem newest_kept_all_told_twiceSubscribed : ∃ c s, make (.int 2) = .ok c ∧
    Operation.performAll twiceSubscribed ⟨c, []⟩ = (.ok (), s) ∧
    s.channel.records = [remark "4", remark "5"] ∧ s.channel.byCode "other" = [] ∧
    s.told = [⟨"a", remark "1"⟩, ⟨"a", remark "2"⟩, ⟨"a", remark "2"⟩, ⟨"b", remark "2"⟩, ⟨"b", remark "3"⟩,
      ⟨"b", remark "4"⟩, ⟨"b", remark "5"⟩] ∧
    dueTo twiceSubscribed 0 = [remark "1", remark "2"] ∧ dueTo twiceSubscribed 2 = [remark "2"] := by
  have hlimit : ∀ n ∈ some 2, n < Value.placesEnd := by
    rintro n ⟨⟩
    decide
  obtain ⟨c, s, hmake, hrun, hrecords, hcode, htold, hdue⟩ := newest_kept_all_told (some 2) hlimit twiceSubscribed
  exact ⟨c, s, hmake, hrun, hrecords, hcode "other", htold, hdue 0, hdue 2⟩

/-- With a limit that is no number of places there is no channel. -/
theorem no_channel_beyond_places : make (.int 9223372036854775808) = .error .overflow := rfl

end Channel

end NodeFlow
