import NodeFlow.Template.Placeholder
/-!
# How a text falls into parts

A text is read in one go from left to right. What stands in front of the first opening brace is plain, and a
placeholder that stands at the front is one part, whatever follows it. So the parts of a text that is put
together from plain stretches and placeholders are the ones that it is put together from.

The awkward thing up front: the body of a placeholder may hold opening braces, so a placeholder may begin
earlier than it seems. The reader takes the first opening braces there are and the first closing ones behind
them; a stretch is sure to be plain only if it has no opening brace at all.
-/

set_option autoImplicit false

namespace NodeFlow.Template

/-- What can stand in a placeholder: something, and no closing brace. -/
structure IsBody (body : List Char) : Prop where
  ne_nil : body ≠ []
  closes : '\x7d' ∉ body

/-! ## 1. One placeholder -/

theorem readBody?_append {body : List Char} (hbody : '\x7d' ∉ body) (after : List Char) :
    readBody? (body ++ '\x7d' :: '\x7d' :: after) = some (body, after) := by
  induction body with
  | nil => rfl
  | cons c body ih =>
    have hc : c ≠ '\x7d' := (List.ne_of_not_mem_cons hbody).symm
    rw [List.cons_append, readBody?.eq_def]
    dsimp only
    rw [if_neg hc, ih (List.not_mem_of_not_mem_cons hbody)]
    rfl

/-- The body behind the opening braces goes up to the first closing one, and another one follows that. -/
theorem readBody?_eq_some_iff {cs body after : List Char} :
    readBody? cs = some (body, after) ↔ '\x7d' ∉ body ∧ cs = body ++ '\x7d' :: '\x7d' :: after := by
  refine ⟨fun h => ?_, fun ⟨hbody, heq⟩ => heq ▸ readBody?_append hbody after⟩
  induction cs generalizing body with
  | nil => cases h
  | cons c rest ih =>
    rw [readBody?.eq_def] at h
    dsimp only at h
    split at h
    · next hc =>
      subst hc
      split at h
      · obtain ⟨rfl, rfl⟩ := Prod.mk.inj (Option.some.inj h)
        exact ⟨List.not_mem_nil, rfl⟩
      · cases h
    · next hc =>
      obtain ⟨⟨body', after'⟩, hrest, heq⟩ := Option.map_eq_some_iff.1 h
      obtain ⟨rfl, rfl⟩ := Prod.mk.inj heq
      obtain ⟨hbody, rfl⟩ := ih hrest
      exact ⟨List.not_mem_cons_of_ne_of_not_mem (Ne.symm hc) hbody, rfl⟩

/-- A single closing brace is in no placeholder. -/
theorem readBody?_single {body : List Char} (hbody : '\x7d' ∉ body) {rest : List Char}
    (hrest : ∀ after, rest ≠ '\x7d' :: after) : readBody? (body ++ '\x7d' :: rest) = none := by
  induction body with
  | nil =>
    rw [List.nil_append, readBody?.eq_def]
    dsimp only
    rw [if_pos rfl]
    split
    · next after => exact absurd rfl (hrest after)
    · rfl
  | cons c body ih =>
    have hc : c ≠ '\x7d' := (List.ne_of_not_mem_cons hbody).symm
    rw [List.cons_append, readBody?.eq_def]
    dsimp only
    rw [if_neg hc, ih (List.not_mem_of_not_mem_cons hbody)]
    rfl

theorem text_hole_append (body after : List Char) : (Piece.hole body).text ++ after =
    '\x7b' :: '\x7b' :: (body ++ '\x7d' :: '\x7d' :: after) := by
  simp [Piece.text]

/-- The reader finds a placeholder at the front exactly where there is one. -/
theorem readHole?_eq_some_iff {cs body after : List Char} :
    readHole? cs = some (body, after) ↔ IsBody body ∧ cs = (Piece.hole body).text ++ after := by
  constructor
  · intro h
    rw [readHole?.eq_def] at h
    split at h
    · split at h
      · next c inner after' hbody =>
        obtain ⟨rfl, rfl⟩ := Prod.mk.inj (Option.some.inj h)
        obtain ⟨hcloses, rfl⟩ := readBody?_eq_some_iff.1 hbody
        exact ⟨⟨List.cons_ne_nil c inner, hcloses⟩, (text_hole_append _ _).symm⟩
      · cases h
    · cases h
  · rintro ⟨hbody, rfl⟩
    rw [text_hole_append, readHole?]
    obtain ⟨c, inner, rfl⟩ := List.exists_cons_of_ne_nil hbody.ne_nil
    rw [readBody?_append hbody.closes]

theorem readHole?_of_ne {c : Char} (hc : c ≠ '\x7b') (rest : List Char) : readHole? (c :: rest) = none := by
  refine Option.eq_none_iff_forall_ne_some.2 fun ⟨body, after⟩ h => ?_
  obtain ⟨-, heq⟩ := readHole?_eq_some_iff.1 h
  rw [text_hole_append] at heq
  exact hc (List.cons.inj heq).1

/-! ## 2. All parts -/

/-- A bound that is large enough does not show: induction on it, since a placeholder takes any number of
characters at once. -/
theorem piecesFrom_eq {fuel : Nat} {cs : List Char} (hfuel : cs.length ≤ fuel) :
    piecesFrom fuel cs = pieces cs := by
  have hsame : ∀ fuel fuel' (cs : List Char), cs.length ≤ fuel → cs.length ≤ fuel' →
      piecesFrom fuel cs = piecesFrom fuel' cs := by
    intro fuel
    induction fuel with
    | zero =>
      intro fuel' cs hfuel _
      obtain rfl := List.eq_nil_of_length_eq_zero (Nat.le_zero.1 hfuel)
      cases fuel' <;> rfl
    | succ fuel ih =>
      intro fuel' cs hfuel hfuel'
      cases cs with
      | nil => cases fuel' <;> rfl
      | cons c rest =>
        obtain ⟨fuel', rfl⟩ := Nat.exists_eq_add_of_le' (Nat.le_trans (Nat.succ_pos _) hfuel')
        rw [piecesFrom, piecesFrom]
        cases hhole : readHole? (c :: rest) with
        | none =>
          dsimp only
          rw [ih fuel' rest (Nat.le_of_succ_le_succ hfuel) (Nat.le_of_succ_le_succ hfuel')]
        | some part =>
          obtain ⟨body, after⟩ := part
          have hlength := congrArg List.length (readHole?_eq_some_iff.1 hhole).2
          simp only [Piece.text, List.length_cons, List.length_append] at hlength hfuel hfuel'
          dsimp only
          rw [ih fuel' after (by omega) (by omega)]
  exact hsame fuel cs.length cs hfuel (Nat.le_refl _)

@[simp] theorem pieces_nil : pieces [] = [] := rfl

theorem pieces_cons_plain {c : Char} {rest : List Char} (h : readHole? (c :: rest) = none) :
    pieces (c :: rest) = .plain c :: pieces rest := by
  rw [pieces, List.length_cons, piecesFrom, h]
  rfl

/-- A placeholder at the front is one part, and what follows is read on its own. -/
theorem pieces_hole_append {body : List Char} (hbody : IsBody body) (after : List Char) :
    pieces ((Piece.hole body).text ++ after) = .hole body :: pieces after := by
  have hread : readHole? ((Piece.hole body).text ++ after) = some (body, after) :=
    readHole?_eq_some_iff.2 ⟨hbody, rfl⟩
  rw [text_hole_append] at hread ⊢
  rw [pieces, List.length_cons, piecesFrom, hread]
  dsimp only
  rw [piecesFrom_eq]
  simp only [List.length_append, List.length_cons]
  omega

/-- What has no opening brace is plain, and what follows is read on its own. -/
theorem pieces_append_of_notMem {before : List Char} (hbefore : '\x7b' ∉ before) (cs : List Char) :
    pieces (before ++ cs) = before.map .plain ++ pieces cs := by
  induction before with
  | nil => rfl
  | cons c before ih =>
    have hc : c ≠ '\x7b' := (List.ne_of_not_mem_cons hbefore).symm
    rw [List.cons_append, pieces_cons_plain (readHole?_of_ne hc _), ih (List.not_mem_of_not_mem_cons hbefore)]
    rfl

theorem pieces_of_notMem {cs : List Char} (hcs : '\x7b' ∉ cs) : pieces cs = cs.map .plain := by
  have h := pieces_append_of_notMem hcs []
  rwa [List.append_nil, pieces_nil, List.append_nil] at h

/-- Induction along the reader: over the parts of a text. -/
theorem pieces_induction {P : List Char → Prop} (nil : P [])
    (plain : ∀ c rest, readHole? (c :: rest) = none → P rest → P (c :: rest))
    (hole : ∀ body after, IsBody body → P after → P ((Piece.hole body).text ++ after)) (cs : List Char) :
    P cs := by
  have hbound : ∀ n (cs : List Char), cs.length ≤ n → P cs := by
    intro n
    induction n with
    | zero =>
      intro cs hn
      obtain rfl := List.eq_nil_of_length_eq_zero (Nat.le_zero.1 hn)
      exact nil
    | succ n ih =>
      intro cs hn
      cases cs with
      | nil => exact nil
      | cons c rest =>
        cases hhole : readHole? (c :: rest) with
        | none => exact plain c rest hhole (ih rest (Nat.le_of_succ_le_succ hn))
        | some part =>
          obtain ⟨body, after⟩ := part
          obtain ⟨hbody, heq⟩ := readHole?_eq_some_iff.1 hhole
          have hlength := congrArg List.length heq
          simp only [Piece.text, List.length_cons, List.length_append] at hlength hn
          rw [heq]
          exact hole body after hbody (ih after (by omega))
  exact hbound cs.length cs (Nat.le_refl _)

/-- The parts of a text make up the text. -/
theorem flatMap_text_pieces (cs : List Char) : (pieces cs).flatMap Piece.text = cs := by
  induction cs using pieces_induction with
  | nil => rfl
  | plain c rest hhole ih => rw [pieces_cons_plain hhole, List.flatMap_cons, ih]; rfl
  | hole body after hbody ih => rw [pieces_hole_append hbody, List.flatMap_cons, ih]

theorem isBody_of_mem {cs body : List Char} (h : Piece.hole body ∈ pieces cs) : IsBody body := by
  induction cs using pieces_induction with
  | nil => exact absurd h List.not_mem_nil
  | plain c rest hhole ih =>
    rw [pieces_cons_plain hhole] at h
    exact ih ((List.mem_cons.1 h).resolve_left nofun)
  | hole body' after hbody ih =>
    rw [pieces_hole_append hbody] at h
    rcases List.mem_cons.1 h with heq | hmem
    · cases heq
      exact hbody
    · exact ih hmem

/-- A text is one placeholder and nothing else exactly if it is written as one. -/
theorem pieces_eq_singleton_iff {cs body : List Char} :
    pieces cs = [.hole body] ↔ IsBody body ∧ cs = (Piece.hole body).text := by
  constructor
  · intro h
    have htext := flatMap_text_pieces cs
    rw [h, List.flatMap_singleton] at htext
    exact ⟨isBody_of_mem (h ▸ List.mem_singleton_self _), htext.symm⟩
  · rintro ⟨hbody, rfl⟩
    have h := pieces_hole_append hbody []
    rwa [List.append_nil, pieces_nil] at h

/-! ## 3. Texts without placeholders -/

/-- Nowhere in the text is there a placeholder. -/
def Plain (cs : List Char) : Prop := ∀ body, IsBody body → ¬ (Piece.hole body).text <:+: cs

theorem Plain.pieces_eq {cs : List Char} (h : Plain cs) : pieces cs = cs.map .plain := by
  induction cs using pieces_induction with
  | nil => rfl
  | plain c rest hhole ih =>
    have hrest : Plain rest := fun body hbody hin => h body hbody (hin.trans (List.suffix_cons c rest).isInfix)
    rw [pieces_cons_plain hhole, ih hrest, List.map_cons]
  | hole body after hbody _ => exact absurd (List.prefix_append _ _).isInfix (h body hbody)

end NodeFlow.Template
