import NodeFlow.Proofs.Expr.Grammar
/-!
# What the reader of expressions takes

Every step of the reader takes tokens off the front of what is left, and they are derived from the
production that the step is for. Whatever else there is, it refuses the text.

The awkward thing up front: the reader goes down with a bound, and running into it would be a fault,
as asking for a token behind the end would be. So the bound is paid with tokens: going down one
production costs one, a token pays for sixteen, and the end, which no step takes, is always there to
be looked at. Nothing is said of a step without room under its bound.
-/

set_option autoImplicit false

namespace NodeFlow.Expr

/-! ## 1. Closed lists and bounds -/

/-- The end closes the list, and is nowhere else in it. -/
def Closed (ts : List Token) : Prop :=
  ∃ us, Token.ended ∉ us ∧ ts = us ++ [.ended]

theorem not_closed_nil : ¬ Closed [] := by
  rintro ⟨us, -, h⟩
  exact absurd h.symm (by simp)

theorem Closed.tail {t : Token} {ts : List Token} (h : Closed (t :: ts)) (ht : t ≠ .ended) :
    Closed ts := by
  obtain ⟨us, hus, heq⟩ := h
  cases us with
  | nil => exact absurd (List.cons.inj heq).1 ht
  | cons u us =>
    obtain ⟨-, rfl⟩ := List.cons.inj heq
    exact ⟨us, fun hmem => hus (List.mem_cons_of_mem u hmem), rfl⟩

theorem Closed.tail_eq_nil {ts : List Token} (h : Closed (.ended :: ts)) : ts = [] := by
  obtain ⟨us, hus, heq⟩ := h
  cases us with
  | nil => exact (List.cons.inj heq).2
  | cons u us => exact absurd (List.cons.inj heq).1 (fun hu => hus (hu ▸ List.mem_cons_self))

/-- The levels between an operand of a chain and a token. -/
def Tier.depth : Tier → Nat
  | .product => 4
  | .sum => 6
  | .both => 10
  | .either => 12

/-- The levels between a production and a token. -/
def Level.depth : Level → Nat
  | .chain tier => tier.depth + 1
  | .negation => 9
  | .comparison => 8
  | .signed => 3
  | .suffixed => 2
  | .primary => 1

/-- A bound that lets a step go down so many levels, and sixteen for each of the tokens. -/
def Room (depth : Nat) (ts : List Token) (fuel : Nat) : Prop :=
  16 * ts.length + depth ≤ fuel

theorem Room.down {depth fuel : Nat} {ts : List Token} (h : Room (depth + 1) ts (fuel + 1)) :
    Room depth ts fuel :=
  Nat.le_of_succ_le_succ h

/-- Where a token has been taken there is room for all the levels again. -/
theorem Room.rest {depth depth' fuel : Nat} {ts rest : List Token} (h : Room depth ts (fuel + 1))
    (used : List Token) (hts : ts = used ++ rest) (hused : used ≠ []) (hdepth : depth' ≤ 15) : Room depth' rest fuel := by
  have hpos : 0 < used.length := List.length_pos_iff.mpr hused
  simp only [Room, hts, List.length_append] at h ⊢
  omega

theorem Room.tail {depth depth' fuel : Nat} {t : Token} {rest : List Token}
    (h : Room depth (t :: rest) (fuel + 1)) (hdepth : depth' ≤ 15) : Room depth' rest fuel :=
  h.rest [t] rfl (List.cons_ne_nil t []) hdepth

theorem Tier.depth_le (tier : Tier) : tier.depth + 1 ≤ 15 := by
  cases tier <;> decide

/-! ## 2. What an expression starts with -/

/-- How loose a production must be to start with the token. -/
def entry : Token → Nat
  | .number _ _ | .quoted _ _ | .name _ | .symbol .openParen | .symbol .openBracket => 0
  | .symbol .minus => 1
  | .symbol .bang | .symbol .notWord => 2
  | _ => 3

/-- How loose a production is, as far as its first token tells. -/
def Level.entry : Level → Nat
  | .primary | .suffixed => 0
  | .signed | .chain .product | .chain .sum | .comparison => 1
  | .negation | .chain .both | .chain .either => 2

theorem Derives.starts {level : Level} {ts : List Token} {e : Expr} (h : Derives level ts e) :
    ∃ t us, ts = t :: us ∧ entry t ≤ level.entry := by
  induction h with
  | @operand tier ts e _ ih =>
    obtain ⟨t, us, rfl, ht⟩ := ih
    have hentry : tier.operand.entry ≤ (Level.chain tier).entry := by cases tier <;> decide
    exact ⟨t, us, rfl, Nat.le_trans ht hentry⟩
  | unnegated _ ih | uncompared _ ih | unsigned _ ih | bare _ ih =>
    obtain ⟨t, us, rfl, ht⟩ := ih
    exact ⟨t, us, rfl, Nat.le_trans ht (by decide)⟩
  | join _ _ _ ih _ | compare _ _ _ ih _ | property _ _ ih | place _ ih | twoPlaces _ ih
  | method _ _ _ ih _ | item _ _ ih _ =>
    obtain ⟨t, us, rfl, ht⟩ := ih
    exact ⟨t, _, List.cons_append, ht⟩
  | not hs _ _ => exact ⟨_, _, rfl, by cases hs <;> decide⟩
  | _ => exact ⟨_, _, rfl, Nat.le_refl _⟩

theorem Derives.ne_nil {level : Level} {ts : List Token} {e : Expr} (h : Derives level ts e) :
    ts ≠ [] := by
  obtain ⟨t, us, rfl, -⟩ := h.starts
  exact List.cons_ne_nil t us

/-! ## 3. What a step takes -/

/-- A step takes tokens off the front of a closed list, and something holds of them and of what it
gives; or it refuses the text. It never ends in a fault. -/
def Takes {α : Type} (ts : List Token) (P : List Token → α → Prop) : Parsed α → Prop
  | .ok (a, rest) => ∃ used, ts = used ++ rest ∧ Closed rest ∧ P used a
  | .error r => ∀ f, r ≠ .fault f

section Takes

variable {α β : Type} {ts : List Token} {P : List Token → α → Prop} {Q : List Token → β → Prop}

theorem Takes.done {a : α} (hts : Closed ts) (ha : P [] a) : Takes ts P (.ok (a, ts)) :=
  ⟨[], rfl, hts, ha⟩

theorem Takes.mono {P' : List Token → α → Prop} {x : Parsed α} (hx : Takes ts P x)
    (hP : ∀ used a, P used a → P' used a) : Takes ts P' x := by
  rcases x with r | ⟨a, rest⟩
  · exact hx
  · obtain ⟨used, hts, hrest, ha⟩ := hx
    exact ⟨used, hts, hrest, hP used a ha⟩

/-- A token is taken, and then what a step takes. -/
theorem Takes.cons {t : Token} {x : Parsed α} (hx : Takes ts (fun used a => P (t :: used) a) x) :
    Takes (t :: ts) P x := by
  rcases x with r | ⟨a, rest⟩
  · exact hx
  · obtain ⟨used, rfl, hrest, ha⟩ := hx
    exact ⟨t :: used, rfl, hrest, ha⟩

theorem Takes.bind {x : Parsed α} {k : α × List Token → Parsed β} (hx : Takes ts P x)
    (hk : ∀ a used rest, ts = used ++ rest → Closed rest → P used a →
      Takes rest (fun more b => Q (used ++ more) b) (k (a, rest))) : Takes ts Q (x.bind k) := by
  rcases x with r | ⟨a, rest⟩
  · exact hx
  · obtain ⟨used, rfl, hrest, ha⟩ := hx
    have hb := hk a used rest rfl hrest ha
    simp only [Except.bind]
    cases hk : k (a, rest) with
    | error r =>
      rw [hk] at hb
      exact hb
    | ok b =>
      rw [hk] at hb
      obtain ⟨more, rfl, hafter, hb⟩ := hb
      exact ⟨used ++ more, (List.append_assoc ..).symm, hafter, hb⟩

theorem Takes.map {x : Parsed α} {f : α → β} (hx : Takes ts (fun used a => Q used (f a)) x) :
    Takes ts Q (x.map fun (a, rest) => (f a, rest)) := by
  rcases x with r | ⟨a, rest⟩
  · exact hx
  · exact hx

/-- An expected symbol is taken, or the text is refused. -/
theorem Takes.expect {s : Symbol} {k : List Token → Parsed α} (hts : Closed ts)
    (hk : ∀ rest, ts = .symbol s :: rest → Closed rest →
      Takes rest (fun used a => P (.symbol s :: used) a) (k rest)) :
    Takes ts P ((Expr.expect s ts).bind k) := by
  cases ts with
  | nil => exact absurd hts not_closed_nil
  | cons t rest =>
    rw [Expr.expect]
    split_ifs with ht
    · subst ht
      exact (hk rest rfl (hts.tail (by simp))).cons
    · intro f hf
      cases hf

end Takes

/-! ## 4. From the reader to the grammar -/

/-- The tokens of a list of arguments, the closing symbol among them. -/
def Lists (closer : Symbol) (ts : List Token) (es : List Expr) : Prop :=
  ∃ args : List (List Token × Expr), (∀ arg ∈ args, Writes arg.1 arg.2) ∧
    ts = commas (args.map Prod.fst) ++ [.symbol closer] ∧ es = args.map Prod.snd

theorem Lists.single {closer : Symbol} {ts : List Token} {e : Expr} (he : Writes ts e) :
    Lists closer (ts ++ [.symbol closer]) [e] :=
  ⟨[(ts, e)], by simpa using he, by simp [commas], rfl⟩

theorem Lists.cons {closer : Symbol} {ts us : List Token} {e : Expr} {es : List Expr}
    (h : Lists closer us es) (hne : es ≠ []) (he : Writes ts e) :
    Lists closer (ts ++ .symbol .comma :: us) (e :: es) := by
  obtain ⟨args, hargs, rfl, rfl⟩ := h
  refine ⟨(ts, e) :: args, List.forall_mem_cons.mpr ⟨he, hargs⟩, ?_, rfl⟩
  cases args with
  | nil => exact absurd rfl hne
  | cons arg args => simp [commas]

/-- What every step of the reader takes, with room for it under a bound. -/
structure Reads (fuel : Nat) : Prop where
  chain : ∀ tier ts, Closed ts → Room (tier.depth + 1) ts fuel →
    Takes ts (Derives (.chain tier)) (chain fuel tier ts)
  chainFrom : ∀ tier left done ts, Closed ts → Room 1 ts fuel → Derives (.chain tier) done left →
    Takes ts (fun used e => Derives (.chain tier) (done ++ used) e) (chainFrom fuel tier left ts)
  operand : ∀ tier ts, Closed ts → Room tier.depth ts fuel →
    Takes ts (Derives tier.operand) (operand fuel tier ts)
  negation : ∀ ts, Closed ts → Room 9 ts fuel → Takes ts (Derives .negation) (negation fuel ts)
  comparison : ∀ ts, Closed ts → Room 8 ts fuel →
    Takes ts (Derives .comparison) (comparison fuel ts)
  signed : ∀ ts, Closed ts → Room 3 ts fuel → Takes ts (Derives .signed) (signed fuel ts)
  suffixed : ∀ ts, Closed ts → Room 2 ts fuel → Takes ts (Derives .suffixed) (suffixed fuel ts)
  suffixes : ∀ base done ts, Closed ts → Room 1 ts fuel → Derives .suffixed done base →
    Takes ts (fun used e => Derives .suffixed (done ++ used) e) (suffixes fuel base ts)
  arguments : ∀ closer ts, Closed ts → Room 15 ts fuel →
    Takes ts (Lists closer) (arguments fuel closer ts)
  argumentsFrom : ∀ closer ts, Closed ts → Room 14 ts fuel →
    Takes ts (fun used es => es ≠ [] ∧ Lists closer used es) (argumentsFrom fuel closer ts)
  primary : ∀ ts, Closed ts → Room 1 ts fuel → Takes ts (Derives .primary) (primary fuel ts)

theorem Room.not_zero {depth : Nat} {ts : List Token} (h : Room depth ts 0) (hts : Closed ts) :
    False := by
  cases ts with
  | nil => exact not_closed_nil hts
  | cons t ts =>
    simp only [Room, List.length_cons] at h
    omega

theorem reads_zero : Reads 0 where
  chain _ _ hts hroom := (hroom.not_zero hts).elim
  chainFrom _ _ _ _ hts hroom := (hroom.not_zero hts).elim
  operand _ _ hts hroom := (hroom.not_zero hts).elim
  negation _ hts hroom := (hroom.not_zero hts).elim
  comparison _ hts hroom := (hroom.not_zero hts).elim
  signed _ hts hroom := (hroom.not_zero hts).elim
  suffixed _ hts hroom := (hroom.not_zero hts).elim
  suffixes _ _ _ hts hroom := (hroom.not_zero hts).elim
  arguments _ _ hts hroom := (hroom.not_zero hts).elim
  argumentsFrom _ _ hts hroom := (hroom.not_zero hts).elim
  primary _ hts hroom := (hroom.not_zero hts).elim

section Step

variable {fuel : Nat} (ih : Reads fuel)
include ih

theorem Reads.chain_succ (tier : Tier) (ts : List Token) (hts : Closed ts)
    (hroom : Room (tier.depth + 1) ts (fuel + 1)) :
    Takes ts (Derives (.chain tier)) (Expr.chain (fuel + 1) tier ts) := by
  refine (ih.operand tier ts hts hroom.down).bind fun e used rest heq hrest he => ?_
  exact ih.chainFrom tier e used rest hrest (hroom.rest used heq he.ne_nil (by decide)) (.operand he)

theorem Reads.chainFrom_succ (tier : Tier) (left : Expr) (done ts : List Token) (hts : Closed ts)
    (hroom : Room 1 ts (fuel + 1)) (hleft : Derives (.chain tier) done left) :
    Takes ts (fun used e => Derives (.chain tier) (done ++ used) e)
      (Expr.chainFrom (fuel + 1) tier left ts) := by
  cases ts with
  | nil => exact absurd hts not_closed_nil
  | cons t rest =>
    simp only [Expr.chainFrom]
    cases hjoin : tier.join? t with
    | none => exact .done hts (by rwa [List.append_nil])
    | some join =>
      obtain ⟨s, rfl, hs⟩ := join?_eq_some_iff.mp hjoin
      have hrest : Closed rest := hts.tail (by simp)
      have hdepth : tier.depth ≤ 15 := Nat.le_of_succ_le tier.depth_le
      refine .cons ((ih.operand tier rest hrest (hroom.tail hdepth)).bind ?_)
      intro right used more heq hmore hright
      have hroom' : Room 1 more fuel :=
        hroom.rest (.symbol s :: used) (by rw [heq, List.cons_append]) (by simp) (by decide)
      refine (ih.chainFrom tier _ _ more hmore hroom' (.join hleft hs hright)).mono fun _ _ h => ?_
      simpa only [List.append_assoc, List.cons_append] using h

theorem Reads.operand_succ (tier : Tier) (ts : List Token) (hts : Closed ts)
    (hroom : Room tier.depth ts (fuel + 1)) :
    Takes ts (Derives tier.operand) (Expr.operand (fuel + 1) tier ts) := by
  cases tier with
  | either => exact ih.chain .both ts hts hroom.down
  | both => exact ih.negation ts hts hroom.down
  | sum => exact ih.chain .product ts hts hroom.down
  | product => exact ih.signed ts hts hroom.down

theorem Reads.negation_succ (ts : List Token) (hts : Closed ts) (hroom : Room 9 ts (fuel + 1)) :
    Takes ts (Derives .negation) (Expr.negation (fuel + 1) ts) := by
  cases ts with
  | nil => exact absurd hts not_closed_nil
  | cons t rest =>
    simp only [Expr.negation]
    split_ifs with hnot
    · obtain ⟨s, rfl, hs⟩ := isNot_iff.mp hnot
      refine .cons (.map ?_)
      exact (ih.negation rest (hts.tail (by simp)) (hroom.tail (by decide))).mono fun _ _ h => .not hs h
    · exact (ih.comparison (t :: rest) hts hroom.down).mono fun _ _ h => .unnegated h

theorem Reads.comparison_succ (ts : List Token) (hts : Closed ts) (hroom : Room 8 ts (fuel + 1)) :
    Takes ts (Derives .comparison) (Expr.comparison (fuel + 1) ts) := by
  refine (ih.chain .sum ts hts hroom.down).bind fun left used rest heq hrest hleft => ?_
  cases rest with
  | nil => exact absurd hrest not_closed_nil
  | cons t after =>
    dsimp only
    cases hop : compareOp? t with
    | none => exact .done hrest (by rw [List.append_nil]; exact .uncompared hleft)
    | some op =>
      obtain ⟨s, rfl, hs⟩ := compareOp?_eq_some_iff.mp hop
      have hroom' : Room 7 after fuel :=
        hroom.rest (used ++ [.symbol s]) (by simp [heq]) (by simp) (by decide)
      refine .cons (.map ?_)
      exact (ih.chain .sum after (hrest.tail (by simp)) hroom').mono fun _ _ h => .compare hleft hs h

theorem Reads.signed_succ (ts : List Token) (hts : Closed ts) (hroom : Room 3 ts (fuel + 1)) :
    Takes ts (Derives .signed) (Expr.signed (fuel + 1) ts) := by
  cases ts with
  | nil => exact absurd hts not_closed_nil
  | cons t rest =>
    simp only [Expr.signed]
    split_ifs with ht
    · subst ht
      refine .cons (.map ?_)
      exact (ih.signed rest (hts.tail (by simp)) (hroom.tail (by decide))).mono fun _ _ h => .neg h
    · exact (ih.suffixed (t :: rest) hts hroom.down).mono fun _ _ h => .unsigned h

theorem Reads.suffixed_succ (ts : List Token) (hts : Closed ts) (hroom : Room 2 ts (fuel + 1)) :
    Takes ts (Derives .suffixed) (Expr.suffixed (fuel + 1) ts) := by
  refine (ih.primary ts hts hroom.down).bind fun e used rest heq hrest he => ?_
  exact ih.suffixes e used rest hrest (hroom.rest used heq he.ne_nil (by decide)) (.bare he)

/-- A suffix behind an expression has been taken: the others follow. -/
theorem Reads.suffixes_next {e : Expr} {done suffix rest : List Token} (hrest : Closed rest)
    (hroom : Room 1 rest fuel) (he : Derives .suffixed (done ++ suffix) e) :
    Takes rest (fun used e' => Derives .suffixed (done ++ (suffix ++ used)) e')
      (Expr.suffixes fuel e rest) :=
  (ih.suffixes e _ rest hrest hroom he).mono fun _ _ h => by rwa [List.append_assoc] at h

theorem Reads.suffixes_point (base : Expr) (done rest : List Token)
    (hts : Closed (.symbol .point :: rest)) (hroom : Room 1 (.symbol .point :: rest) (fuel + 1))
    (hbase : Derives .suffixed done base) :
    Takes (.symbol .point :: rest) (fun used e => Derives .suffixed (done ++ used) e)
      (Expr.suffixes (fuel + 1) base (.symbol .point :: rest)) := by
  have hrest : Closed rest := hts.tail (by simp)
  simp only [Expr.suffixes]
  split
  · exact absurd hrest not_closed_nil
  · next whole fraction more =>
    have hroom' : Room 1 more fuel :=
      hroom.rest [.symbol .point, .number whole fraction] rfl (by simp) (by decide)
    have hplaces : Derives .suffixed (done ++ [.symbol .point, .number whole fraction])
        (places base whole fraction) := by
      cases fraction with
      | none => exact .place hbase
      | some _ => exact .twoPlaces hbase
    exact .cons (.cons (ih.suffixes_next (hrest.tail (by simp)) hroom' hplaces))
  · next t more _ =>
    cases hn : property? t with
    | none =>
      intro f hf
      cases hf
    | some n =>
      have hnamed : Named t n := property?_eq_some_iff.mp hn
      have hmore : Closed more := hrest.tail (by rintro rfl; cases hnamed)
      have hroom' : Room 1 more fuel :=
        hroom.rest [.symbol .point, t] rfl (by simp) (by decide)
      dsimp only
      split
      · exact absurd hmore not_closed_nil
      · next next inner =>
        split_ifs with hnext
        · subst hnext
          have hinner : Closed inner := hmore.tail (by simp)
          have hdown : Room 15 inner fuel :=
            hroom.rest [.symbol .point, t, .symbol .openParen] rfl (by simp) (by decide)
          refine .cons (.cons (.cons ((ih.arguments _ inner hinner hdown).bind ?_)))
          rintro es used after heq hafter ⟨args, hargs, rfl, rfl⟩
          have hroom'' : Room 1 after fuel :=
            hroom.rest (.symbol .point :: t :: .symbol .openParen ::
              (commas (args.map Prod.fst) ++ [.symbol .closeParen])) (by simp [heq]) (by simp)
              (by decide)
          exact ih.suffixes_next hafter hroom'' (.method hbase hnamed hargs)
        · exact .cons (.cons (ih.suffixes_next hmore hroom' (.property hbase hnamed)))

theorem Reads.suffixes_bracket (base : Expr) (done rest : List Token)
    (hts : Closed (.symbol .openBracket :: rest))
    (hroom : Room 1 (.symbol .openBracket :: rest) (fuel + 1)) (hbase : Derives .suffixed done base) :
    Takes (.symbol .openBracket :: rest) (fun used e => Derives .suffixed (done ++ used) e)
      (Expr.suffixes (fuel + 1) base (.symbol .openBracket :: rest)) := by
  simp only [Expr.suffixes]
  refine .cons ((ih.chain .either rest (hts.tail (by simp)) (hroom.tail (by decide))).bind ?_)
  intro key used more heq hmore hkey
  refine .expect hmore fun after hafter hclosed => ?_
  have hroom' : Room 1 after fuel :=
    hroom.rest (.symbol .openBracket :: (used ++ [.symbol .closeBracket]))
      (by simp [heq, hafter]) (by simp) (by decide)
  refine (ih.suffixes_next hclosed hroom' (.item hbase hkey)).mono fun _ _ h => ?_
  simpa only [List.append_assoc, List.cons_append, List.nil_append] using h

theorem Reads.suffixes_succ (base : Expr) (done ts : List Token) (hts : Closed ts)
    (hroom : Room 1 ts (fuel + 1)) (hbase : Derives .suffixed done base) :
    Takes ts (fun used e => Derives .suffixed (done ++ used) e)
      (Expr.suffixes (fuel + 1) base ts) := by
  by_cases hpoint : ∃ rest, ts = .symbol .point :: rest
  · obtain ⟨rest, rfl⟩ := hpoint
    exact ih.suffixes_point base done rest hts hroom hbase
  by_cases hbracket : ∃ rest, ts = .symbol .openBracket :: rest
  · obtain ⟨rest, rfl⟩ := hbracket
    exact ih.suffixes_bracket base done rest hts hroom hbase
  simp only [Expr.suffixes]
  split
  · exact absurd hts not_closed_nil
  · next rest => exact absurd ⟨rest, rfl⟩ hpoint
  · next rest => exact absurd ⟨rest, rfl⟩ hbracket
  · exact .done hts (by rwa [List.append_nil])

theorem Reads.arguments_succ (closer : Symbol) (ts : List Token) (hts : Closed ts)
    (hroom : Room 15 ts (fuel + 1)) :
    Takes ts (Lists closer) (Expr.arguments (fuel + 1) closer ts) := by
  cases ts with
  | nil => exact absurd hts not_closed_nil
  | cons t rest =>
    simp only [Expr.arguments]
    split_ifs with ht
    · subst ht
      exact .cons (.done (hts.tail (by simp)) ⟨[], by simp, rfl, rfl⟩)
    · exact (ih.argumentsFrom closer (t :: rest) hts hroom.down).mono fun _ _ h => h.2

theorem Reads.argumentsFrom_succ (closer : Symbol) (ts : List Token) (hts : Closed ts)
    (hroom : Room 14 ts (fuel + 1)) :
    Takes ts (fun used es => es ≠ [] ∧ Lists closer used es)
      (Expr.argumentsFrom (fuel + 1) closer ts) := by
  refine (ih.chain .either ts hts hroom.down).bind fun e used rest heq hrest he => ?_
  cases rest with
  | nil => exact absurd hrest not_closed_nil
  | cons t more =>
    dsimp only
    split_ifs with ht
    · subst ht
      exact .cons (.done (hrest.tail (by simp)) ⟨by simp, Lists.single he⟩)
    · refine .expect hrest fun next hnext hclosed => .map ?_
      have hroom' : Room 14 next fuel :=
        hroom.rest (used ++ [.symbol .comma]) (by simp [heq, hnext]) (by simp) (by decide)
      refine (ih.argumentsFrom closer next hclosed hroom').mono fun more' es h => ?_
      exact ⟨by simp, h.2.cons h.1 he⟩

theorem Reads.primary_succ (ts : List Token) (hts : Closed ts) (hroom : Room 1 ts (fuel + 1)) :
    Takes ts (Derives .primary) (Expr.primary (fuel + 1) ts) := by
  simp only [Expr.primary]
  split
  · exact absurd hts not_closed_nil
  · intro f hf
    cases hf
  · exact .cons (.done (hts.tail (by simp)) .number)
  · exact .cons (.done (hts.tail (by simp)) .text)
  · next n rest =>
    have hrest : Closed rest := hts.tail (by simp)
    split
    · next l hl => exact .cons (.done hrest (.word (wordLiteral?_eq_some_iff.mp hl)))
    · next hfree =>
      replace hfree := wordLiteral?_eq_none_iff.mp hfree
      split
      · exact absurd hrest not_closed_nil
      · next t inner =>
        split_ifs with ht
        · subst ht
          have hdown : Room 15 inner fuel :=
            hroom.rest [.name n, .symbol .openParen] rfl (by simp) (by decide)
          refine .cons (.cons (.map ?_))
          refine (ih.arguments _ inner (hrest.tail (by simp)) hdown).mono ?_
          rintro used es ⟨args, hargs, rfl, rfl⟩
          exact .call hfree hargs
        · exact .cons (.done hrest (.name hfree))
  · next rest =>
    refine .cons ((ih.chain .either rest (hts.tail (by simp)) (hroom.tail (by decide))).bind ?_)
    intro e used more heq hmore he
    exact .expect hmore fun after hafter hclosed => .done hclosed (.parens he)
  · next rest =>
    refine .cons (.map ?_)
    refine (ih.arguments _ rest (hts.tail (by simp)) (hroom.tail (by decide))).mono ?_
    rintro used es ⟨args, hargs, rfl, rfl⟩
    exact .list hargs
  · intro f hf
    cases hf

theorem Reads.succ : Reads (fuel + 1) where
  chain := ih.chain_succ
  chainFrom := ih.chainFrom_succ
  operand := ih.operand_succ
  negation := ih.negation_succ
  comparison := ih.comparison_succ
  signed := ih.signed_succ
  suffixed := ih.suffixed_succ
  suffixes := ih.suffixes_succ
  arguments := ih.arguments_succ
  argumentsFrom := ih.argumentsFrom_succ
  primary := ih.primary_succ

end Step

theorem reads (fuel : Nat) : Reads fuel := by
  induction fuel with
  | zero => exact reads_zero
  | succ fuel ih => exact ih.succ

end NodeFlow.Expr
