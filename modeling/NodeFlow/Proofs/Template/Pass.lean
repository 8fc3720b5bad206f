import NodeFlow.Proofs.Template.Escapes
import NodeFlow.Text.Blank
import Mathlib.Data.List.TakeWhile
/-!
# Filling is one pass

What is left of a text when the blanks at its ends are cut off is the text without some blanks on its left and
some on its right, and nothing more can be cut off it.

A text that is put together from plain stretches and placeholders becomes the stretches as they are and, between
them, what the placeholders show. Every placeholder is evaluated once, in the order in which they stand, and
nothing else is: what a value shows goes into the result as it is, also if it looks like a placeholder.

The awkward thing up front: the expression in a body of blanks alone is its last blank, not nothing. That makes no
difference to what is evaluated, because the blanks around an expression are cut off once more.
-/

set_option autoImplicit false

namespace NodeFlow.Text

/-! ## 1. Blanks cut off -/

/-- A text of blanks only. -/
def Blank (cs : List Char) : Prop := ∀ c ∈ cs, isBlank c

theorem dropWhile_of_blank {cs : List Char} (h : Blank cs) : cs.dropWhile isBlank = [] := by
  have hdrop : (cs ++ []).dropWhile isBlank = [] := List.dropWhile_append_of_pos h
  rwa [List.append_nil] at hdrop

theorem Blank.reverse {cs : List Char} (h : Blank cs) : Blank cs.reverse :=
  fun c hc => h c (List.mem_reverse.1 hc)

theorem blank_takeWhile (cs : List Char) : Blank (cs.takeWhile isBlank) :=
  fun _ hc => List.mem_takeWhile_imp hc

theorem Blank.strip_eq {cs : List Char} (h : Blank cs) : strip cs = [] := by
  rw [strip, stripBy, dropWhile_of_blank h]
  rfl

/-- Blanks at the ends make no difference. -/
theorem strip_append {lead cs trail : List Char} (hlead : Blank lead) (htrail : Blank trail) :
    strip (lead ++ cs ++ trail) = strip cs := by
  rw [List.append_assoc]
  simp only [strip, stripBy]
  rw [List.dropWhile_append_of_pos hlead, List.dropWhile_append]
  split
  · next hempty =>
    -- nothing but blanks in the middle either
    rw [List.isEmpty_iff.1 hempty, dropWhile_of_blank htrail]
  · rw [List.reverse_append, List.dropWhile_append_of_pos htrail.reverse]

/-- What is cut off are blanks. -/
theorem exists_eq_strip (cs : List Char) :
    ∃ lead trail, Blank lead ∧ Blank trail ∧ cs = lead ++ strip cs ++ trail := by
  have hleft := List.takeWhile_append_dropWhile (p := isBlank) (l := cs)
  have hright := List.takeWhile_append_dropWhile (p := isBlank) (l := (cs.dropWhile isBlank).reverse)
  refine ⟨cs.takeWhile isBlank, ((cs.dropWhile isBlank).reverse.takeWhile isBlank).reverse,
    blank_takeWhile cs, (blank_takeWhile _).reverse, ?_⟩
  rw [strip, stripBy, List.append_assoc, ← List.reverse_append, hright, List.reverse_reverse, hleft]

theorem strip_strip (cs : List Char) : strip (strip cs) = strip cs := by
  obtain ⟨lead, trail, hlead, htrail, heq⟩ := exists_eq_strip cs
  have h : strip (lead ++ strip cs ++ trail) = strip (strip cs) := strip_append hlead htrail
  rw [← heq] at h
  exact h.symm

theorem blank_of_strip_eq_nil {cs : List Char} (h : strip cs = []) : Blank cs := by
  obtain ⟨lead, trail, hlead, htrail, heq⟩ := exists_eq_strip cs
  rw [heq, h, List.append_nil]
  exact List.forall_mem_append.2 ⟨hlead, htrail⟩

end NodeFlow.Text

namespace NodeFlow.Template

variable (scope : Scope) (node : String)

/-! ## 2. What a placeholder becomes -/

theorem strip_expressionOf (body : List Char) : Text.strip (expressionOf body) = Text.strip body := by
  rw [expressionOf]
  split
  · next hblank =>
    have hlast : Text.Blank (body.drop (body.length - 1)) := fun c hc =>
      Text.blank_of_strip_eq_nil hblank c (List.mem_of_mem_drop hc)
    rw [hlast.strip_eq, hblank]
  · exact Text.strip_strip body

theorem evaluateIn_expressionOf (body : List Char) :
    evaluateIn scope (expressionOf body) = evaluateIn scope body := by
  rw [evaluateIn, evaluateIn, strip_expressionOf]

/-- What a placeholder becomes: what its value shows, or the placeholder as it stands. -/
def shows (body : List Char) : List Char :=
  match evaluateIn scope body with
  | .ok v => v.display.toList
  | .error _ => (Piece.hole body).text

/-- What is told of a placeholder: one diagnostic if it has no value. -/
def tells (body : List Char) : List Diagnostic :=
  match evaluateIn scope body with
  | .ok _ => []
  | .error e => [failure node (Piece.hole body).text (expressionOf body) e.reason]

/-- What a part of a text becomes. -/
def Piece.becomes : Piece → List Char
  | .plain c => [c]
  | .hole body => shows scope body

/-- What is told of a part of a text. -/
def Piece.told : Piece → List Diagnostic
  | .plain _ => []
  | .hole body => tells scope node body

theorem Piece.filled_eq (p : Piece) : p.filled scope node = p.becomes scope := by
  cases p with
  | plain c => rfl
  | hole body =>
    cases heval : evaluateIn scope body <;>
      simp only [filled, becomes, Slot.outcome, slotOf, shows, evaluateIn_expressionOf, heval]

theorem Piece.notes_slots (p : Piece) : (p.slots node).flatMap (Slot.notes scope) = p.told scope node := by
  cases p with
  | plain c => rfl
  | hole body =>
    cases heval : evaluateIn scope body <;>
      simp only [slots, told, List.flatMap_singleton, Slot.notes, slotOf, tells, evaluateIn_expressionOf, heval]

/-- No fault passes through the expression: it has a value or is refused. -/
def Calm (expr : List Char) : Prop := ∀ f, evaluateIn scope expr ≠ .error (.escaped f)

variable {scope} in
theorem calm_of_ok {expr : List Char} {v : Value} (h : evaluateIn scope expr = .ok v) : Calm scope expr := by
  intro f hf
  rw [h] at hf
  cases hf

variable {scope} in
theorem calm_of_refused {expr : List Char} {r : Rejection} (h : evaluateIn scope expr = .error (.refused r)) :
    Calm scope expr := by
  intro f hf
  rw [h] at hf
  cases hf

theorem calm_iff (shown body : List Char) :
    Calm scope body ↔ (slotOf node shown body).escapes scope = false := by
  rw [Calm, Slot.escapes, slotOf, evaluateIn_expressionOf]
  constructor
  · intro h
    split
    · next f heval => exact absurd heval (h f)
    · rfl
  · intro h f heval
    rw [heval] at h
    cases h

/-! ## 3. What a text becomes -/

/-- A text becomes what its parts become, if no fault passes through any of its placeholders. -/
theorem interpolate_eq {s : String} (hcalm : ∀ body, Piece.hole body ∈ pieces s.toList → Calm scope body) :
    interpolate scope node (.str s) =
      ⟨.ok (.str (.ofList ((pieces s.toList).flatMap (Piece.becomes scope)))),
        (pieces s.toList).flatMap (Piece.told scope node)⟩ := by
  have hslots : ∀ slot ∈ textSlots node s, slot.escapes scope = false := by
    intro slot hslot
    obtain ⟨p, hp, hmem⟩ := List.mem_flatMap.1 hslot
    cases p with
    | plain c => exact absurd hmem List.not_mem_nil
    | hole body =>
      obtain rfl := List.mem_singleton.1 hmem
      exact (calm_iff scope node _ body).1 (hcalm body hp)
  rw [(evaluates_interpolate scope node (.str s)).comes hslots, fillSlots, textSlots, List.flatMap_assoc,
    filled, filledText, funext (Piece.filled_eq scope node), funext (Piece.notes_slots scope node)]

theorem becomes_plain (cs : List Char) : (cs.map Piece.plain).flatMap (Piece.becomes scope) = cs := by
  induction cs with
  | nil => rfl
  | cons c cs ih => rw [List.map_cons, List.flatMap_cons, ih]; rfl

theorem told_plain (cs : List Char) : (cs.map Piece.plain).flatMap (Piece.told scope node) = [] := by
  induction cs with
  | nil => rfl
  | cons c cs ih => rw [List.map_cons, List.flatMap_cons, ih]; rfl

/-! ## 4. Texts put together -/

/-- A stretch without opening braces, and a placeholder behind it. -/
structure Stretch where
  before : List Char
  body : List Char
  plain : '\x7b' ∉ before
  isBody : IsBody body

namespace Stretch

/-- How it is written. -/
def text (p : Stretch) : List Char := p.before ++ (Piece.hole p.body).text

/-- What it becomes. -/
def becomes (p : Stretch) : List Char := p.before ++ shows scope p.body

/-- Its parts: every character of the stretch, and the placeholder. -/
def parts (p : Stretch) : List Piece := p.before.map .plain ++ [.hole p.body]

theorem becomes_parts (p : Stretch) : p.parts.flatMap (Piece.becomes scope) = p.becomes scope := by
  rw [parts, List.flatMap_append, becomes_plain, List.flatMap_singleton, Piece.becomes, becomes]

theorem told_parts (p : Stretch) : p.parts.flatMap (Piece.told scope node) = tells scope node p.body := by
  rw [parts, List.flatMap_append, told_plain, List.nil_append, List.flatMap_singleton, Piece.told]

end Stretch

/-- The parts of a text that is put together are those that it is put together from: induction on the
stretches, each read without a look at what follows. -/
theorem pieces_stretches (ps : List Stretch) {last : List Char} (hlast : '\x7b' ∉ last) :
    pieces (ps.flatMap Stretch.text ++ last) = ps.flatMap Stretch.parts ++ last.map .plain := by
  induction ps with
  | nil => exact pieces_of_notMem hlast
  | cons p ps ih =>
    have hsplit : (p :: ps).flatMap Stretch.text ++ last =
        p.before ++ ((Piece.hole p.body).text ++ (ps.flatMap Stretch.text ++ last)) := by
      simp only [List.flatMap_cons, Stretch.text, List.append_assoc]
    rw [hsplit, pieces_append_of_notMem p.plain, pieces_hole_append p.isBody, ih, List.flatMap_cons,
      Stretch.parts]
    simp only [List.append_assoc, List.nil_append, List.cons_append]

/-- **Filling is one pass.** A text of stretches without opening braces, each with a placeholder behind it, and a
last stretch becomes these stretches and, in the place of each placeholder, what its value shows, or the placeholder
itself if its expression is refused. One diagnostic tells of each that is refused, in order. Nothing is asked of
what the values show, so nothing that they bring into the text is read again. -/
theorem interpolate_is_one_pass (ps : List Stretch) (last : List Char) (hlast : '\x7b' ∉ last)
    (hcalm : ∀ p ∈ ps, Calm scope p.body) :
    interpolate scope node (.str (.ofList (ps.flatMap Stretch.text ++ last))) =
      ⟨.ok (.str (.ofList (ps.flatMap (Stretch.becomes scope) ++ last))),
        ps.flatMap fun p => tells scope node p.body⟩ := by
  have hparts := pieces_stretches ps hlast
  have hholes : ∀ body, Piece.hole body ∈ pieces (ps.flatMap Stretch.text ++ last) → Calm scope body := by
    intro body hmem
    rw [hparts] at hmem
    rcases List.mem_append.1 hmem with hmem | hmem
    · obtain ⟨p, hp, hmem⟩ := List.mem_flatMap.1 hmem
      rcases List.mem_append.1 hmem with hmem | hmem
      · obtain ⟨c, -, hc⟩ := List.mem_map.1 hmem
        cases hc
      · cases List.mem_singleton.1 hmem
        exact hcalm p hp
    · obtain ⟨c, -, hc⟩ := List.mem_map.1 hmem
      cases hc
  rw [interpolate_eq scope node (by rwa [String.toList_ofList]), String.toList_ofList, hparts]
  simp only [List.flatMap_append, List.flatMap_assoc, becomes_plain, told_plain, Stretch.becomes_parts,
    Stretch.told_parts, List.append_nil]

/-- A context with a text that looks like a placeholder. -/
def baitScope : Scope where
  ctx := .ofMembers [("bait", .str "\x7b\x7bctx.prey\x7d\x7d"), ("prey", .int 1)]
  result := .null
  exec := none
  item := none
  params := .null

/-- Three placeholders: one that brings in what looks like a placeholder, one of a blank, one that is refused. -/
def baitStretches : List Stretch :=
  [⟨"<".toList, "ctx.bait".toList, by decide, ⟨by decide, by decide⟩⟩,
    ⟨"\x7d ".toList, " ".toList, by decide, ⟨by decide, by decide⟩⟩,
    ⟨[], "nothing".toList, by decide, ⟨by decide, by decide⟩⟩]

/-- What is brought in is not read again, and of the two placeholders that stay one diagnostic each tells. -/
theorem interpolate_is_one_pass_bait :
    '\x7b' ∉ "\x7d\x7d>".toList ∧ (∀ p ∈ baitStretches, Calm baitScope p.body) ∧
      ∃ d d', interpolate baitScope "n"
          (.str "<\x7b\x7bctx.bait\x7d\x7d\x7d \x7b\x7b \x7d\x7d\x7b\x7bnothing\x7d\x7d\x7d\x7d>") =
        ⟨.ok (.str "<\x7b\x7bctx.prey\x7d\x7d\x7d \x7b\x7b \x7d\x7d\x7b\x7bnothing\x7d\x7d\x7d\x7d>"), [d, d']⟩ := by
  have hlast : '\x7b' ∉ "\x7d\x7d>".toList := by decide
  have hcalm : ∀ p ∈ baitStretches, Calm baitScope p.body := by
    have hescapes : ∀ p ∈ baitStretches, (slotOf "n" [] p.body).escapes baitScope = false := by decide +kernel
    exact fun p hp => (calm_iff baitScope "n" [] p.body).2 (hescapes p hp)
  have hpass := interpolate_is_one_pass baitScope "n" baitStretches _ hlast hcalm
  have htext : String.ofList (baitStretches.flatMap Stretch.text ++ "\x7d\x7d>".toList) =
      "<\x7b\x7bctx.bait\x7d\x7d\x7d \x7b\x7b \x7d\x7d\x7b\x7bnothing\x7d\x7d\x7d\x7d>" := by decide +kernel
  have hbecomes : String.ofList (baitStretches.flatMap (Stretch.becomes baitScope) ++ "\x7d\x7d>".toList) =
      "<\x7b\x7bctx.prey\x7d\x7d\x7d \x7b\x7b \x7d\x7d\x7b\x7bnothing\x7d\x7d\x7d\x7d>" := by decide +kernel
  have hlength : (baitStretches.flatMap fun p => tells baitScope "n" p.body).length = 2 := by decide +kernel
  rw [htext, hbecomes] at hpass
  obtain ⟨d, d', hnotes⟩ := List.length_eq_two.1 hlength
  rw [hnotes] at hpass
  exact ⟨hlast, hcalm, d, d', hpass⟩

end NodeFlow.Template
