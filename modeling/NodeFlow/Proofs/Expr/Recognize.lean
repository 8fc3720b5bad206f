import NodeFlow.Proofs.Expr.Reads
/-!
# Reading is deriving

The reader of expressions accepts exactly what the grammar derives, and gives the tree of the
derivation.

The awkward thing up front: the reader is greedy and looks one token ahead, and a derivation knows
nothing of what follows it. So a derivation is read back only before a token that cannot go on with
it, and the looser its production is the fewer those tokens are. That is all the lookahead there is,
and it makes the tree unique.
-/

set_option autoImplicit false

namespace NodeFlow.Expr

/-! ## 1. What an expression ends before -/

/-- How loose a production must be for the token to go on with it. -/
def reach : Token → Nat
  | .symbol .openParen => 0
  | .symbol .point | .symbol .openBracket => 1
  | .symbol .times | .symbol .slash | .symbol .percent => 2
  | .symbol .plus | .symbol .minus => 3
  | .symbol .eq | .symbol .ne | .symbol .same | .symbol .notSame | .symbol .lt | .symbol .le
  | .symbol .gt | .symbol .ge | .symbol .inWord => 4
  | .symbol .bothSign | .symbol .bothWord => 5
  | .symbol .eitherSign | .symbol .eitherWord => 6
  | _ => 7

/-- How loose a production is: it goes on with the tokens that reach less far. -/
def Level.width : Level → Nat
  | .primary => 1
  | .suffixed | .signed => 2
  | .chain .product => 3
  | .chain .sum => 4
  | .comparison | .negation => 5
  | .chain .both => 6
  | .chain .either => 7

/-- The next token does not go on with an expression of the production. -/
def Ends (level : Level) (ts : List Token) : Prop :=
  ∃ t rest, ts = t :: rest ∧ level.width ≤ reach t

theorem Ends.mono {level level' : Level} {ts : List Token} (h : Ends level ts)
    (hwidth : level'.width ≤ level.width) : Ends level' ts := by
  obtain ⟨t, rest, rfl, ht⟩ := h
  exact ⟨t, rest, rfl, Nat.le_trans hwidth ht⟩

theorem Ends.width_le {level : Level} {t : Token} {rest : List Token} (h : Ends level (t :: rest)) :
    level.width ≤ reach t := by
  obtain ⟨_, _, heq, ht⟩ := h
  rwa [(List.cons.inj heq).1]

theorem Tier.width_operand (tier : Tier) : tier.operand.width ≤ (Level.chain tier).width := by
  cases tier <;> decide

theorem Ends.join? {tier : Tier} {t : Token} {rest : List Token}
    (h : Ends (.chain tier) (t :: rest)) : tier.join? t = none := by
  refine Option.eq_none_iff_forall_ne_some.mpr fun f hf => ?_
  obtain ⟨s, rfl, hs⟩ := join?_eq_some_iff.mp hf
  have ht := h.width_le
  cases hs <;> exact absurd ht (by decide)

theorem Joins.ends {tier : Tier} {s : Symbol} {f : Expr → Expr → Expr} (h : Joins tier s f)
    (rest : List Token) : Ends tier.operand (.symbol s :: rest) :=
  ⟨_, _, rfl, by cases h <;> decide⟩

theorem Ends.compareOp? {t : Token} {rest : List Token} (h : Ends .comparison (t :: rest)) :
    compareOp? t = none := by
  refine Option.eq_none_iff_forall_ne_some.mpr fun op hop => ?_
  obtain ⟨s, rfl, hs⟩ := compareOp?_eq_some_iff.mp hop
  have ht := h.width_le
  cases hs <;> exact absurd ht (by decide)

theorem Compares.ends {s : Symbol} {op : CompareOp} (h : Compares s op) (rest : List Token) :
    Ends (.chain .sum) (.symbol s :: rest) :=
  ⟨_, _, rfl, by cases h <;> decide⟩

/-! ## 2. From the grammar to the reader -/

/-- The reader gives the tree of an expression back that stands before something else. Where an
expression may grow at its right end, the reader comes to where it looks for more. -/
def ReadsBack : Level → List Token → Expr → Prop
  | .chain tier, ts, e => ∀ rest fuel, Ends tier.operand rest →
      Room (tier.depth + 1) (ts ++ rest) fuel →
      ∃ fuel', Room 1 rest fuel' ∧ chain fuel tier (ts ++ rest) = chainFrom fuel' tier e rest
  | .negation, ts, e => ∀ rest fuel, Ends .negation rest → Room 9 (ts ++ rest) fuel →
      negation fuel (ts ++ rest) = .ok (e, rest)
  | .comparison, ts, e => ∀ rest fuel, Ends .comparison rest → Room 8 (ts ++ rest) fuel →
      comparison fuel (ts ++ rest) = .ok (e, rest)
  | .signed, ts, e => ∀ rest fuel, Ends .signed rest → Room 3 (ts ++ rest) fuel →
      signed fuel (ts ++ rest) = .ok (e, rest)
  | .suffixed, ts, e => ∀ rest fuel, Ends .primary rest → Room 2 (ts ++ rest) fuel →
      ∃ fuel', Room 1 rest fuel' ∧ suffixed fuel (ts ++ rest) = suffixes fuel' e rest
  | .primary, ts, e => ∀ rest fuel, Ends .primary rest → Room 1 (ts ++ rest) fuel →
      primary fuel (ts ++ rest) = .ok (e, rest)

theorem Room.exists_succ {depth fuel : Nat} {ts : List Token} (h : Room (depth + 1) ts fuel) :
    ∃ fuel', fuel = fuel' + 1 :=
  ⟨fuel - 1, by simp only [Room] at h; omega⟩

/-- A chain has been read when the next token does not go on with it. -/
theorem ReadsBack.chain_eq {tier : Tier} {ts rest : List Token} {e : Expr} {fuel : Nat}
    (h : ReadsBack (.chain tier) ts e) (hends : Ends (.chain tier) rest)
    (hroom : Room (tier.depth + 1) (ts ++ rest) fuel) :
    chain fuel tier (ts ++ rest) = .ok (e, rest) := by
  obtain ⟨fuel', hroom', heq⟩ := h rest fuel (hends.mono tier.width_operand) hroom
  obtain ⟨fuel', rfl⟩ := hroom'.exists_succ
  obtain ⟨t, more, rfl, -⟩ := id hends
  rw [heq, chainFrom]
  simp only [hends.join?]

theorem ReadsBack.operand_eq {tier : Tier} {ts rest : List Token} {e : Expr} {fuel : Nat}
    (h : ReadsBack tier.operand ts e) (hends : Ends tier.operand rest)
    (hroom : Room tier.depth (ts ++ rest) fuel) :
    operand fuel tier (ts ++ rest) = .ok (e, rest) := by
  cases tier with
  | either =>
    obtain ⟨fuel, rfl⟩ := hroom.exists_succ
    exact ReadsBack.chain_eq h hends hroom.down
  | both =>
    obtain ⟨fuel, rfl⟩ := hroom.exists_succ
    exact h rest fuel hends hroom.down
  | sum =>
    obtain ⟨fuel, rfl⟩ := hroom.exists_succ
    exact ReadsBack.chain_eq h hends hroom.down
  | product =>
    obtain ⟨fuel, rfl⟩ := hroom.exists_succ
    exact h rest fuel hends hroom.down

/-- Lists of arguments are read up to the symbol that closes them. -/
theorem argumentsFrom_eq {closer : Symbol} (hcloser : closer = .closeParen ∨ closer = .closeBracket)
    {args : List (List Token × Expr)} (hne : args ≠ [])
    (hargs : ∀ arg ∈ args, Writes arg.1 arg.2 ∧ ReadsBack (.chain .either) arg.1 arg.2)
    {rest : List Token} {fuel : Nat}
    (hroom : Room 14 (commas (args.map Prod.fst) ++ .symbol closer :: rest) fuel) :
    argumentsFrom fuel closer (commas (args.map Prod.fst) ++ .symbol closer :: rest) =
      .ok (args.map Prod.snd, rest) := by
  induction args generalizing fuel with
  | nil => exact absurd rfl hne
  | cons arg args ih =>
    obtain ⟨fuel, rfl⟩ := hroom.exists_succ
    obtain ⟨⟨harg, hback⟩, hargs⟩ := List.forall_mem_cons.mp hargs
    rw [argumentsFrom]
    cases args with
    | nil =>
      have hends : Ends (.chain .either) (.symbol closer :: rest) :=
        ⟨_, _, rfl, by rcases hcloser with rfl | rfl <;> decide⟩
      simp only [commas, List.map_cons, List.map_nil, List.intercalate_singleton] at hroom ⊢
      rw [hback.chain_eq hends hroom.down]
      simp [Except.bind]
    | cons next args =>
      have hcomma : commas ((arg :: next :: args).map Prod.fst) ++ .symbol closer :: rest =
          arg.1 ++ .symbol .comma ::
            (commas ((next :: args).map Prod.fst) ++ .symbol closer :: rest) := by
        simp [commas]
      have hends : Ends (.chain .either)
          (.symbol .comma :: (commas ((next :: args).map Prod.fst) ++ .symbol closer :: rest)) :=
        ⟨_, _, rfl, Nat.le_refl _⟩
      rw [hcomma] at hroom ⊢
      have hroom' : Room 14 (commas ((next :: args).map Prod.fst) ++ .symbol closer :: rest) fuel :=
        hroom.rest (arg.1 ++ [.symbol .comma]) (by simp) (by simp) (by decide)
      rw [hback.chain_eq hends hroom.down]
      have hne' : Token.symbol .comma ≠ .symbol closer := by
        rcases hcloser with rfl | rfl <;> decide
      simp only [Except.bind, if_neg hne', expect, if_true, ih (List.cons_ne_nil _ _) hargs hroom']
      rfl

theorem arguments_eq {closer : Symbol} (hcloser : closer = .closeParen ∨ closer = .closeBracket)
    {args : List (List Token × Expr)}
    (hargs : ∀ arg ∈ args, Writes arg.1 arg.2 ∧ ReadsBack (.chain .either) arg.1 arg.2)
    {rest : List Token} {fuel : Nat}
    (hroom : Room 15 (commas (args.map Prod.fst) ++ .symbol closer :: rest) fuel) :
    arguments fuel closer (commas (args.map Prod.fst) ++ .symbol closer :: rest) =
      .ok (args.map Prod.snd, rest) := by
  obtain ⟨fuel, rfl⟩ := hroom.exists_succ
  cases args with
  | nil => simp [commas, arguments]
  | cons arg args =>
    obtain ⟨t, us, hts, ht⟩ := (hargs arg List.mem_cons_self).1.starts
    obtain ⟨more, hmore⟩ : ∃ more,
        commas ((arg :: args).map Prod.fst) ++ .symbol closer :: rest = t :: more := by
      cases args with
      | nil => exact ⟨us ++ .symbol closer :: rest, by simp [commas, hts]⟩
      | cons next args => exact ⟨_, by simp [commas, hts]; rfl⟩
    have hne : t ≠ .symbol closer := by
      rintro rfl
      rcases hcloser with rfl | rfl <;> exact absurd ht (by decide)
    have hfrom := argumentsFrom_eq hcloser (List.cons_ne_nil arg args) hargs hroom.down
    rw [hmore] at hfrom ⊢
    simp only [arguments, if_neg hne, hfrom]

section Suffixes

variable {base : Expr} {t : Token} {n : String} {rest : List Token} {fuel : Nat}

theorem suffixes_ends (hends : Ends .signed rest) (hroom : Room 1 rest fuel) :
    suffixes fuel base rest = .ok (base, rest) := by
  obtain ⟨fuel, rfl⟩ := hroom.exists_succ
  obtain ⟨t, more, rfl, ht⟩ := hends
  simp only [suffixes]
  split
  · next heq => cases heq
  · next heq => cases heq; exact absurd ht (by decide)
  · next heq => cases heq; exact absurd ht (by decide)
  · next heq => rw [heq]

theorem suffixes_property (hn : Named t n) (hends : Ends .primary rest) :
    suffixes (fuel + 1) base (.symbol .point :: t :: rest) =
      suffixes fuel (.get base (.lit (.str n))) rest := by
  obtain ⟨next, more, rfl, hnext⟩ := hends
  have hne : next ≠ .symbol .openParen := by
    rintro rfl
    exact absurd hnext (by decide)
  cases hn <;> simp only [suffixes, property?, Symbol.isWord, Symbol.text, if_true, if_neg hne]

theorem suffixes_method {args : List Expr} {after : List Token} (hn : Named t n)
    (hargs : arguments fuel .closeParen rest = .ok (args, after)) :
    suffixes (fuel + 1) base (.symbol .point :: t :: .symbol .openParen :: rest) =
      suffixes fuel (.method base n args) after := by
  cases hn <;>
    simp only [suffixes, property?, Symbol.isWord, Symbol.text, if_true, hargs, Except.bind]

/-- One more suffix is read back if it is taken in one step. -/
theorem ReadsBack.suffix {ts more : List Token} {s : Symbol} {e e' : Expr} (h : ReadsBack .suffixed ts e)
    (hs : s = .point ∨ s = .openBracket)
    (hread : ∀ rest fuel, Ends .primary rest → Room 1 (.symbol s :: (more ++ rest)) (fuel + 1) →
      suffixes (fuel + 1) e (.symbol s :: (more ++ rest)) = suffixes fuel e' rest) :
    ReadsBack .suffixed (ts ++ .symbol s :: more) e' := by
  intro rest fuel hends hroom
  rw [List.append_assoc, List.cons_append] at hroom ⊢
  have hstarts : Ends .primary (.symbol s :: (more ++ rest)) :=
    ⟨_, _, rfl, by rcases hs with rfl | rfl <;> decide⟩
  obtain ⟨fuel', hroom', heq⟩ := h _ fuel hstarts hroom
  obtain ⟨fuel', rfl⟩ := hroom'.exists_succ
  refine ⟨fuel', ?_, heq.trans (hread rest fuel' hends hroom')⟩
  exact hroom'.rest (.symbol s :: more) rfl (List.cons_ne_nil _ _) (by decide)

end Suffixes

/-! ### One production after another

Each takes one step of the reader, and leaves what it is made of to be read back. -/

section Productions

variable {tier : Tier} {s : Symbol} {ts ls rs : List Token} {e l r : Expr}

theorem ReadsBack.operand (h : ReadsBack tier.operand ts e) (hne : ts ≠ []) : ReadsBack (.chain tier) ts e := by
  intro rest fuel hends hroom
  obtain ⟨fuel, rfl⟩ := hroom.exists_succ
  refine ⟨fuel, hroom.rest ts rfl hne (by decide), ?_⟩
  rw [chain, h.operand_eq hends hroom.down]
  rfl

theorem ReadsBack.join {f : Expr → Expr → Expr} (hl : ReadsBack (.chain tier) ls l) (hs : Joins tier s f)
    (hr : ReadsBack tier.operand rs r) : ReadsBack (.chain tier) (ls ++ .symbol s :: rs) (f l r) := by
  intro rest fuel hends hroom
  rw [List.append_assoc, List.cons_append] at hroom ⊢
  obtain ⟨fuel', hroom', heq⟩ := hl _ fuel (hs.ends _) hroom
  obtain ⟨fuel', rfl⟩ := hroom'.exists_succ
  have hdepth : tier.depth ≤ 15 := Nat.le_of_succ_le tier.depth_le
  refine ⟨fuel', hroom'.rest (.symbol s :: rs) rfl (by simp) (by decide), ?_⟩
  have hjoin : tier.join? (.symbol s) = some f := join?_eq_some_iff.mpr ⟨s, rfl, hs⟩
  rw [heq, chainFrom]
  simp only [hjoin, hr.operand_eq hends (hroom'.tail hdepth)]
  rfl

theorem ReadsBack.not (h : ReadsBack .negation ts e) (hs : Negates s) :
    ReadsBack .negation (.symbol s :: ts) (.not e) := by
  intro rest fuel hends hroom
  obtain ⟨fuel, rfl⟩ := hroom.exists_succ
  have hnot : isNot (.symbol s) = true := isNot_iff.mpr ⟨s, rfl, hs⟩
  simp only [List.cons_append, negation, hnot, if_true, h rest fuel hends (hroom.tail (by decide))]
  rfl

/-- A comparison starts with no token that negates. -/
theorem ReadsBack.unnegated (h : ReadsBack .comparison ts e) (he : Derives .comparison ts e) :
    ReadsBack .negation ts e := by
  intro rest fuel hends hroom
  obtain ⟨fuel, rfl⟩ := hroom.exists_succ
  have hback := h rest fuel hends hroom.down
  obtain ⟨t, us, rfl, ht⟩ := he.starts
  have hnot : ¬ isNot t = true := by
    intro hnot
    obtain ⟨s, rfl, hs⟩ := isNot_iff.mp hnot
    cases hs <;> exact absurd ht (by decide)
  rw [List.cons_append] at hback ⊢
  simp only [negation, if_neg hnot, hback]

theorem ReadsBack.compare {op : CompareOp} (hl : ReadsBack (.chain .sum) ls l) (hs : Compares s op)
    (hr : ReadsBack (.chain .sum) rs r) : ReadsBack .comparison (ls ++ .symbol s :: rs) (.compare op l r) := by
  intro rest fuel hends hroom
  obtain ⟨fuel, rfl⟩ := hroom.exists_succ
  rw [List.append_assoc, List.cons_append] at hroom ⊢
  have hop : compareOp? (.symbol s) = some op := compareOp?_eq_some_iff.mpr ⟨s, rfl, hs⟩
  have hroom' : Room 7 (rs ++ rest) fuel := hroom.rest (ls ++ [.symbol s]) (by simp) (by simp) (by decide)
  rw [comparison, hl.chain_eq (hs.ends _) hroom.down]
  simp only [Except.bind, hop, hr.chain_eq (hends.mono (by decide)) hroom']
  rfl

theorem ReadsBack.uncompared (h : ReadsBack (.chain .sum) ts e) : ReadsBack .comparison ts e := by
  intro rest fuel hends hroom
  obtain ⟨fuel, rfl⟩ := hroom.exists_succ
  rw [comparison, h.chain_eq (hends.mono (by decide)) hroom.down]
  obtain ⟨t, more, rfl, -⟩ := id hends
  simp only [Except.bind, hends.compareOp?]

theorem ReadsBack.neg (h : ReadsBack .signed ts e) : ReadsBack .signed (.symbol .minus :: ts) (.neg e) := by
  intro rest fuel hends hroom
  obtain ⟨fuel, rfl⟩ := hroom.exists_succ
  simp only [List.cons_append, signed, if_true, h rest fuel hends (hroom.tail (by decide))]
  rfl

/-- What has suffixes starts with no minus. -/
theorem ReadsBack.unsigned (h : ReadsBack .suffixed ts e) (he : Derives .suffixed ts e) :
    ReadsBack .signed ts e := by
  intro rest fuel hends hroom
  obtain ⟨fuel, rfl⟩ := hroom.exists_succ
  obtain ⟨fuel', hroom', hback⟩ := h rest fuel (hends.mono (by decide)) hroom.down
  obtain ⟨t, us, rfl, ht⟩ := he.starts
  have hne : t ≠ .symbol .minus := by
    rintro rfl
    exact absurd ht (by decide)
  rw [List.cons_append] at hback ⊢
  simp only [signed, if_neg hne, hback, suffixes_ends hends hroom']

theorem ReadsBack.bare (h : ReadsBack .primary ts e) (hne : ts ≠ []) : ReadsBack .suffixed ts e := by
  intro rest fuel hends hroom
  obtain ⟨fuel, rfl⟩ := hroom.exists_succ
  refine ⟨fuel, hroom.rest ts rfl hne (by decide), ?_⟩
  rw [suffixed, h rest fuel hends hroom.down]
  rfl

theorem ReadsBack.method {t : Token} {n : String} {args : List (List Token × Expr)} (h : ReadsBack .suffixed ts e)
    (hn : Named t n) (hargs : ∀ arg ∈ args, Writes arg.1 arg.2 ∧ ReadsBack (.chain .either) arg.1 arg.2) :
    ReadsBack .suffixed
      (ts ++ .symbol .point :: t :: .symbol .openParen :: (commas (args.map Prod.fst) ++ [.symbol .closeParen]))
      (.method e n (args.map Prod.snd)) := by
  refine h.suffix (.inl rfl) fun rest fuel _ hroom => ?_
  simp only [List.append_assoc, List.cons_append, List.nil_append] at hroom ⊢
  have hdown : Room 15 (commas (args.map Prod.fst) ++ .symbol .closeParen :: rest) fuel :=
    hroom.rest [.symbol .point, t, .symbol .openParen] rfl (by simp) (by decide)
  exact suffixes_method hn (arguments_eq (.inl rfl) hargs hdown)

theorem ReadsBack.item {ks : List Token} {key : Expr} (h : ReadsBack .suffixed ts e)
    (hkey : ReadsBack (.chain .either) ks key) :
    ReadsBack .suffixed (ts ++ .symbol .openBracket :: (ks ++ [.symbol .closeBracket])) (.get e key) := by
  refine h.suffix (.inr rfl) fun rest fuel _ hroom => ?_
  simp only [List.append_assoc, List.cons_append, List.nil_append] at hroom ⊢
  have hclose : Ends (.chain .either) (.symbol .closeBracket :: rest) := ⟨_, _, rfl, Nat.le_refl _⟩
  simp only [suffixes, hkey.chain_eq hclose (hroom.tail (by decide)), Except.bind, expect, if_true]

/-- A primary expression is read back if it is read in one step. -/
theorem ReadsBack.primary (hread : ∀ rest fuel, Ends .primary rest → Room 1 (ts ++ rest) (fuel + 1) →
    Expr.primary (fuel + 1) (ts ++ rest) = .ok (e, rest)) : ReadsBack .primary ts e := by
  intro rest fuel hends hroom
  obtain ⟨fuel, rfl⟩ := hroom.exists_succ
  exact hread rest fuel hends hroom

theorem ReadsBack.call {n : String} {args : List (List Token × Expr)} (hn : IsFree n)
    (hargs : ∀ arg ∈ args, Writes arg.1 arg.2 ∧ ReadsBack (.chain .either) arg.1 arg.2) :
    ReadsBack .primary
      (.name n :: .symbol .openParen :: (commas (args.map Prod.fst) ++ [.symbol .closeParen]))
      (.call n (args.map Prod.snd)) := by
  refine .primary fun rest fuel _ hroom => ?_
  simp only [List.append_assoc, List.cons_append, List.nil_append] at hroom ⊢
  have hdown : Room 15 (commas (args.map Prod.fst) ++ .symbol .closeParen :: rest) fuel :=
    hroom.rest [.name n, .symbol .openParen] rfl (by simp) (by decide)
  have hread := arguments_eq (.inl rfl) hargs hdown
  simp only [Expr.primary, wordLiteral?_eq_none_iff.mpr hn, if_true, hread]
  rfl

theorem ReadsBack.parens (h : ReadsBack (.chain .either) ts e) :
    ReadsBack .primary (.symbol .openParen :: (ts ++ [.symbol .closeParen])) e := by
  refine .primary fun rest fuel _ hroom => ?_
  simp only [List.append_assoc, List.cons_append, List.nil_append] at hroom ⊢
  have hclose : Ends (.chain .either) (.symbol .closeParen :: rest) := ⟨_, _, rfl, Nat.le_refl _⟩
  simp only [Expr.primary, h.chain_eq hclose (hroom.tail (by decide)), Except.bind, expect, if_true]

theorem ReadsBack.list {items : List (List Token × Expr)}
    (hitems : ∀ item ∈ items, Writes item.1 item.2 ∧ ReadsBack (.chain .either) item.1 item.2) :
    ReadsBack .primary (.symbol .openBracket :: (commas (items.map Prod.fst) ++ [.symbol .closeBracket]))
      (.list (items.map Prod.snd)) := by
  refine .primary fun rest fuel _ hroom => ?_
  simp only [List.append_assoc, List.cons_append, List.nil_append] at hroom ⊢
  have hread := arguments_eq (.inr rfl) hitems (hroom.tail (by decide))
  simp only [Expr.primary, hread]
  rfl

/-- A name is read back as one only if no parenthesis follows, for that would be a call. -/
theorem ReadsBack.name {n : String} (hn : IsFree n) : ReadsBack .primary [.name n] (.name n) := by
  refine .primary fun rest fuel hends _ => ?_
  obtain ⟨t, more, rfl, ht⟩ := hends
  have hne : t ≠ .symbol .openParen := by
    rintro rfl
    exact absurd ht (by decide)
  simp only [List.cons_append, List.nil_append, Expr.primary, wordLiteral?_eq_none_iff.mpr hn, if_neg hne]

end Productions

/-- What the grammar derives is read back: induction on the derivation, a lemma for each production. -/
theorem Derives.readsBack {level : Level} {ts : List Token} {e : Expr} (h : Derives level ts e) :
    ReadsBack level ts e := by
  induction h with
  | operand he ih => exact ih.operand he.ne_nil
  | join _ hs _ ihl ihr => exact ihl.join hs ihr
  | not hs _ ih => exact ih.not hs
  | unnegated he ih => exact ih.unnegated he
  | compare _ hs _ ihl ihr => exact ihl.compare hs ihr
  | uncompared _ ih => exact ih.uncompared
  | neg _ ih => exact ih.neg
  | unsigned he ih => exact ih.unsigned he
  | bare he ih => exact ih.bare he.ne_nil
  | property _ hn ih => exact ih.suffix (.inl rfl) fun rest fuel hends _ => suffixes_property hn hends
  | place _ ih => exact ih.suffix (.inl rfl) fun rest fuel _ _ => rfl
  | twoPlaces _ ih => exact ih.suffix (.inl rfl) fun rest fuel _ _ => rfl
  | method _ hn hargs ih ihargs => exact ih.method hn fun arg ha => ⟨hargs arg ha, ihargs arg ha⟩
  | item _ _ ih ihkey => exact ih.item ihkey
  | number => exact .primary fun rest fuel _ _ => by simp only [List.cons_append, List.nil_append, primary]
  | text => exact .primary fun rest fuel _ _ => by simp only [List.cons_append, List.nil_append, primary]
  | word hl =>
    refine .primary fun rest fuel _ _ => ?_
    simp only [List.cons_append, List.nil_append, primary, wordLiteral?_eq_some_iff.mpr hl]
  | name hn => exact .name hn
  | call hn hargs ih => exact .call hn fun arg ha => ⟨hargs arg ha, ih arg ha⟩
  | parens _ ih => exact ih.parens
  | list hitems ih => exact .list fun item hi => ⟨hitems item hi, ih item hi⟩

/-! ## 3. Whole lists of tokens -/

theorem closed_append {ts : List Token} (hts : Token.ended ∉ ts) : Closed (ts ++ [.ended]) :=
  ⟨ts, hts, rfl⟩

theorem room_ofTokens (ts : List Token) : Room 13 ts (16 * (ts.length + 1)) := by
  simp only [Room]
  omega

/-- What is read from tokens and their end is a tree that the tokens write, or a refusal. -/
theorem ofTokens_cases {ts : List Token} (hts : Token.ended ∉ ts) :
    (∃ e, ofTokens (ts ++ [.ended]) = .ok e ∧ Writes ts e) ∨
      ∃ r, ofTokens (ts ++ [.ended]) = .error r ∧ ∀ f, r ≠ .fault f := by
  have htakes := (reads _).chain .either _ (closed_append hts) (room_ofTokens _)
  rw [ofTokens]
  cases hchain : chain (16 * ((ts ++ [Token.ended]).length + 1)) .either (ts ++ [.ended]) with
  | error r =>
    rw [hchain] at htakes
    exact .inr ⟨r, rfl, htakes⟩
  | ok result =>
    rw [hchain] at htakes
    obtain ⟨e, rest⟩ := result
    obtain ⟨used, hused, hrest, he⟩ := htakes
    cases rest with
    | nil => exact absurd hrest not_closed_nil
    | cons t more =>
      simp only [Except.bind]
      split_ifs with ht
      · subst ht
        obtain rfl := hrest.tail_eq_nil
        obtain rfl := List.append_cancel_right hused
        exact .inl ⟨e, rfl, he⟩
      · exact .inr ⟨_, rfl, fun f hf => by cases hf⟩

theorem ofTokens_of_writes {ts : List Token} {e : Expr} (h : Writes ts e) :
    ofTokens (ts ++ [.ended]) = .ok e := by
  have hends : Ends (.chain .either) [.ended] := ⟨_, _, rfl, Nat.le_refl _⟩
  rw [ofTokens, h.readsBack.chain_eq hends (room_ofTokens _)]
  rfl

/-- **The reader accepts the grammar.** Of tokens that their end closes, the reader gives a tree
exactly when the tokens write it, and they write one tree at most. Whatever else there is, the text
is refused, and no token is ever asked for behind the end. -/
theorem ofTokens_iff_writes (ts : List Token) (hts : Token.ended ∉ ts) :
    (∀ e, ofTokens (ts ++ [.ended]) = .ok e ↔ Writes ts e) ∧
      (∀ e e', Writes ts e → Writes ts e' → e = e') ∧
      ((∀ e, ¬ Writes ts e) → ∃ r, ofTokens (ts ++ [.ended]) = .error r ∧ ∀ f, r ≠ .fault f) ∧
      ofTokens (ts ++ [.ended]) ≠ .error behindEnd := by
  refine ⟨fun e => ⟨fun h => ?_, ofTokens_of_writes⟩, fun e e' he he' => ?_, fun hno => ?_, ?_⟩
  · obtain ⟨e', he', hwrites⟩ | ⟨r, hr, -⟩ := ofTokens_cases hts
    · cases he'.symm.trans h
      exact hwrites
    · cases hr.symm.trans h
  · exact Except.ok.inj ((ofTokens_of_writes he).symm.trans (ofTokens_of_writes he'))
  · obtain ⟨e, -, he⟩ | hrefused := ofTokens_cases hts
    · exact absurd he (hno e)
    · exact hrefused
  · intro h
    obtain ⟨e, he, -⟩ | ⟨r, hr, hrefused⟩ := ofTokens_cases hts
    · cases he.symm.trans h
    · cases hr.symm.trans h
      exact hrefused _ rfl

/-- The tokens of `a - b - c.0.1`. -/
def differences : List Token :=
  [.name "a", .symbol .minus, .name "b", .symbol .minus, .name "c", .symbol .point,
    .number "0" (some "1")]

/-- Differences lean to the left, and a number behind a point is two properties. -/
theorem ofTokens_iff_writes_differences :
    Token.ended ∉ differences ∧
      ∀ e, Writes differences e ↔
        e = .arith .sub (.arith .sub (.name "a") (.name "b"))
          (.get (.get (.name "c") (.lit (.str "0"))) (.lit (.str "1"))) := by
  have hended : Token.ended ∉ differences := by decide
  obtain ⟨haccepts, -, -, -⟩ := ofTokens_iff_writes differences hended
  refine ⟨hended, fun e => (haccepts e).symm.trans ?_⟩
  exact ⟨fun h => (Except.ok.inj h).symm, fun h => h ▸ rfl⟩

/-- Comparisons do not chain. -/
example : ofTokens [.name "a", .symbol .lt, .name "b", .symbol .lt, .name "c", .ended] =
    .error (.unexpected "<") := rfl

end NodeFlow.Expr
