import NodeFlow.Proofs.Expr.Scan
import NodeFlow.Proofs.Template.Pass
/-!
# Lone placeholders

A template text that is one placeholder and blanks around it stands for the value itself; any other text stands
for what it is filled to. The two ways of reading a template, asking for its value and filling it, look for the
placeholder differently: the one in the text without its blanks, as the whole of it, the other from left to right
in the text as it is. They see the same one, because blanks are plain and a body never goes beyond the first closing
brace.

Lists and objects of templates are asked leaf by leaf. So what a tree stands for is the tree with what each leaf
stands for in the place of the leaf, and what is told of it is what is told of its leaves.

An expression is put into a placeholder between blanks. The template is then read as that one placeholder exactly
if the expression has no closing brace, and it stands for what the expression stands for.

The awkward thing up front: the reader of placeholders knows nothing of quotes, and the reader of expressions
nothing of braces. A closing brace within a quoted text ends the placeholder in the middle of the expression, or
keeps it from being one.
-/

set_option autoImplicit false

namespace NodeFlow

/-! ## 1. Trees -/

namespace Value

/-- The value, or null in the place of the undefined one. -/
def orNull : Value → Value
  | .undefined => .null
  | v => v

mutual

/-- The leaves of a tree of lists and objects, from left to right. -/
def leaves : Value → List Value
  | .list _ items => itemLeaves items
  | .dict _ members => memberLeaves members
  | v => [v]
termination_by structural v => v

/-- The leaves of the elements of a list. -/
def itemLeaves : List Value → List Value
  | [] => []
  | x :: xs => leaves x ++ itemLeaves xs
termination_by structural xs => xs

/-- The leaves of the members of an object. -/
def memberLeaves : List (String × Value) → List Value
  | [] => []
  | (_, x) :: ms => leaves x ++ memberLeaves ms
termination_by structural ms => ms

end

mutual

/-- The tree with something else in the place of each leaf. Its lists and objects are new ones of the same lengths,
with the same keys in the same order. -/
def mapLeaves (f : Value → Value) : Value → Value
  | .list _ items => .ofList (mapItems f items)
  | .dict _ members => .ofMembers (mapMembers f members)
  | v => f v
termination_by structural v => v

/-- The elements of a list with something else in the place of each leaf. -/
def mapItems (f : Value → Value) : List Value → List Value
  | [] => []
  | x :: xs => mapLeaves f x :: mapItems f xs
termination_by structural xs => xs

/-- The members of an object with something else in the place of each leaf. -/
def mapMembers (f : Value → Value) : List (String × Value) → List (String × Value)
  | [] => []
  | (k, x) :: ms => (k, mapLeaves f x) :: mapMembers f ms
termination_by structural ms => ms

end

theorem itemLeaves_eq (xs : List Value) : itemLeaves xs = xs.flatMap leaves := by
  induction xs with
  | nil => rfl
  | cons x xs ih => rw [itemLeaves, ih, List.flatMap_cons]

theorem memberLeaves_eq (ms : List (String × Value)) : memberLeaves ms = ms.flatMap fun m => m.2.leaves := by
  induction ms with
  | nil => rfl
  | cons m ms ih => rw [memberLeaves, ih, List.flatMap_cons]

theorem mapItems_eq (f : Value → Value) (xs : List Value) : mapItems f xs = xs.map (mapLeaves f) := by
  induction xs with
  | nil => rfl
  | cons x xs ih => rw [mapItems, ih, List.map_cons]

theorem mapMembers_eq (f : Value → Value) (ms : List (String × Value)) :
    mapMembers f ms = ms.map fun m => (m.1, m.2.mapLeaves f) := by
  induction ms with
  | nil => rfl
  | cons m ms ih => rw [mapMembers, ih, List.map_cons]

theorem leaves_list (cell : Option Nat) (xs : List Value) : (Value.list cell xs).leaves = xs.flatMap leaves := by
  rw [leaves, itemLeaves_eq]

theorem leaves_dict (cell : Option Nat) (ms : List (String × Value)) :
    (Value.dict cell ms).leaves = ms.flatMap fun m => m.2.leaves := by
  rw [leaves, memberLeaves_eq]

theorem mapLeaves_list (f : Value → Value) (cell : Option Nat) (xs : List Value) :
    (Value.list cell xs).mapLeaves f = .ofList (xs.map (mapLeaves f)) := by
  rw [mapLeaves, mapItems_eq]

theorem mapLeaves_dict (f : Value → Value) (cell : Option Nat) (ms : List (String × Value)) :
    (Value.dict cell ms).mapLeaves f = .ofMembers (ms.map fun m => (m.1, m.2.mapLeaves f)) := by
  rw [mapLeaves, mapMembers_eq]

/-- With its leaves as they are a tree is the same but for its marks. -/
theorem mapLeaves_id (t : Value) : t.mapLeaves id = t.fresh := by
  induction t using Value.induction with
  | plain t hp => cases t <;> first | rfl | cases hp
  | list cell xs ih =>
    rw [mapLeaves_list, fresh_list, List.map_congr_left ih]
    rfl
  | dict cell ms ih =>
    rw [mapLeaves_dict, fresh_dict]
    exact congrArg ofMembers (List.map_congr_left fun m hm => congrArg (Prod.mk m.1) (ih m hm))
  | store cell name ms _ => rfl

end Value

namespace Template

variable (scope : Scope) (node : String)

/-! ## 2. One placeholder and blanks -/

/-- The text is one placeholder with blanks on either side. -/
structure Alone (s : String) (lead body trail : List Char) : Prop where
  left : Text.Blank lead
  right : Text.Blank trail
  isBody : IsBody body
  eq : s.toList = lead ++ (Piece.hole body).text ++ trail

theorem notMem_of_blank {cs : List Char} (h : Text.Blank cs) : '\x7b' ∉ cs := by
  intro hmem
  have hblank : Text.isBlank '\x7b' = false := by decide
  exact absurd (h _ hmem) (by rw [hblank]; exact Bool.false_ne_true)

theorem strip_text_hole (body : List Char) : Text.strip (Piece.hole body).text = (Piece.hole body).text := by
  have hbraces : Text.isBlank '\x7b' = false ∧ Text.isBlank '\x7d' = false := by decide
  refine Token.strip_of_edged ⟨⟨'\x7b', _, rfl, hbraces.1⟩, ?_⟩
  exact ⟨'\x7b' :: '\x7b' :: body ++ ['\x7d'], '\x7d', by simp [Piece.text], hbraces.2⟩

variable {s : String} {lead body trail : List Char}

/-- Asking for the value of a text and filling it see the same placeholder. -/
theorem Alone.pieces_strip (h : Alone s lead body trail) : pieces (Text.strip s.toList) = [.hole body] := by
  rw [h.eq, Text.strip_append h.left h.right, strip_text_hole]
  exact pieces_eq_singleton_iff.2 ⟨h.isBody, rfl⟩

theorem Alone.pieces_eq (h : Alone s lead body trail) :
    pieces s.toList = lead.map .plain ++ .hole body :: trail.map .plain := by
  rw [h.eq, List.append_assoc, pieces_append_of_notMem (notMem_of_blank h.left), pieces_hole_append h.isBody,
    pieces_of_notMem (notMem_of_blank h.right)]

theorem exists_alone (h : pieces (Text.strip s.toList) = [.hole body]) : ∃ lead trail, Alone s lead body trail := by
  obtain ⟨hbody, htext⟩ := pieces_eq_singleton_iff.1 h
  obtain ⟨lead, trail, hlead, htrail, heq⟩ := Text.exists_eq_strip s.toList
  rw [htext] at heq
  exact ⟨lead, trail, hlead, htrail, hbody, heq⟩

/-- A text that is not one placeholder and blanks stands for what it is filled to. -/
theorem render_of_not_alone (h : ¬ ∃ lead body trail, Alone s lead body trail) :
    render scope node (.str s) = interpolate scope node (.str s) := by
  rw [render, renderText]
  split
  · next body hpieces =>
    obtain ⟨lead, trail, halone⟩ := exists_alone hpieces
    exact absurd ⟨lead, body, trail, halone⟩ h
  · rfl

section

variable {scope}

theorem Alone.eq_of_mem (h : Alone s lead body trail) {b : List Char} (hb : Piece.hole b ∈ pieces s.toList) :
    b = body := by
  simpa [h.pieces_eq] using hb

/-- Filling it leaves the blanks as they are. -/
theorem Alone.interpolate_eq (h : Alone s lead body trail) (hcalm : Calm scope body) :
    interpolate scope node (.str s) =
      ⟨.ok (.str (.ofList (lead ++ shows scope body ++ trail))), tells scope node body⟩ := by
  rw [Template.interpolate_eq scope node fun b hb => h.eq_of_mem hb ▸ hcalm, h.pieces_eq]
  simp only [List.flatMap_append, List.flatMap_cons, becomes_plain, told_plain, Piece.becomes, Piece.told,
    List.append_nil, List.nil_append, List.append_assoc]

theorem Alone.interpolate_ok (h : Alone s lead body trail) {v : Value} (heval : evaluateIn scope body = .ok v) :
    interpolate scope node (.str s) = ⟨.ok (.str (.ofList (lead ++ v.display.toList ++ trail))), []⟩ := by
  rw [h.interpolate_eq node (calm_of_ok heval), shows, tells, heval]

theorem Alone.interpolate_refused (h : Alone s lead body trail) {r : Rejection}
    (heval : evaluateIn scope body = .error (.refused r)) :
    interpolate scope node (.str s) =
      ⟨.ok (.str s), [failure node (Piece.hole body).text (expressionOf body) r.reason]⟩ := by
  rw [h.interpolate_eq node (calm_of_refused heval), shows, tells, heval]
  dsimp only
  rw [← h.eq, String.ofList_toList]
  rfl

theorem Alone.render_ok (h : Alone s lead body trail) {v : Value} (heval : evaluateIn scope body = .ok v) :
    render scope node (.str s) = ⟨.ok v.orNull, []⟩ := by
  rw [render, renderText, h.pieces_strip]
  simp only [evaluateIn_expressionOf, heval]
  cases v <;> rfl

theorem Alone.render_refused (h : Alone s lead body trail) {r : Rejection}
    (heval : evaluateIn scope body = .error (.refused r)) :
    render scope node (.str s) = ⟨.ok (.str s), [failure node s.toList (expressionOf body) r.reason]⟩ := by
  rw [render, renderText, h.pieces_strip]
  simp only [evaluateIn_expressionOf, heval]

/-! ## 3. Texts of any kind -/

/-- A text that is read as plain characters stays, and nothing is told of it. -/
theorem interpolate_of_plain (h : pieces s.toList = s.toList.map .plain) :
    interpolate scope node (.str s) = ⟨.ok (.str s), []⟩ := by
  have hcalm : ∀ body, Piece.hole body ∈ pieces s.toList → Calm scope body := by
    intro body hbody
    rw [h] at hbody
    obtain ⟨c, -, hc⟩ := List.mem_map.1 hbody
    cases hc
  rw [interpolate_eq scope node hcalm, h, becomes_plain, told_plain, String.ofList_toList]

theorem render_of_plain (h : pieces s.toList = s.toList.map .plain) :
    render scope node (.str s) = ⟨.ok (.str s), []⟩ := by
  have halone : ¬ ∃ lead body trail, Alone s lead body trail := by
    rintro ⟨lead, body, trail, halone⟩
    have hmem : Piece.hole body ∈ s.toList.map Piece.plain := by
      rw [← h, halone.pieces_eq]
      simp
    obtain ⟨c, -, hc⟩ := List.mem_map.1 hmem
    cases hc
  rw [render_of_not_alone scope node halone, interpolate_of_plain node h]

/-- Asking for the value of a text gives one, if no fault passes through any of its placeholders. -/
theorem exists_render_text (hcalm : ∀ body, Piece.hole body ∈ pieces s.toList → Calm scope body) :
    ∃ v, (render scope node (.str s)).result = .ok v := by
  by_cases halone : ∃ lead body trail, Alone s lead body trail
  · obtain ⟨lead, body, trail, halone⟩ := halone
    have hbody : Calm scope body := hcalm body (by rw [halone.pieces_eq]; simp)
    cases heval : evaluateIn scope body with
    | ok v => exact ⟨_, congrArg Noted.result (halone.render_ok node heval)⟩
    | error e =>
      cases e with
      | refused r => exact ⟨_, congrArg Noted.result (halone.render_refused node heval)⟩
      | escaped f => exact absurd heval (hbody f)
  · rw [render_of_not_alone scope node halone, interpolate_eq scope node hcalm]
    exact ⟨_, rfl⟩

/-! ## 4. Trees -/

variable {f : Value → Value}

theorem renderItems_eq {xs : List Value} {g : Value → Value} {n : Value → List Diagnostic}
    (hxs : ∀ x ∈ xs, render scope node x = ⟨.ok (g x), n x⟩) :
    renderItems scope node xs = ⟨.ok (xs.map g), xs.flatMap n⟩ := by
  induction xs with
  | nil => rfl
  | cons x xs ih =>
    obtain ⟨hx, hxs⟩ := List.forall_mem_cons.1 hxs
    rw [renderItems, hx, ih hxs]
    rfl

theorem renderMembers_eq {ms : List (String × Value)} {g : Value → Value} {n : Value → List Diagnostic}
    (hms : ∀ m ∈ ms, render scope node m.2 = ⟨.ok (g m.2), n m.2⟩) :
    renderMembers scope node ms = ⟨.ok (ms.map fun m => (m.1, g m.2)), ms.flatMap fun m => n m.2⟩ := by
  induction ms with
  | nil => rfl
  | cons m ms ih =>
    obtain ⟨hm, hms⟩ := List.forall_mem_cons.1 hms
    rw [renderMembers, hm, ih hms]
    rfl

/-- A tree stands for the tree of what its leaves stand for: induction on the tree. -/
theorem render_eq_mapLeaves {t : Value} (hleaves : ∀ x ∈ t.leaves, (render scope node x).result = .ok (f x)) :
    render scope node t = ⟨.ok (t.mapLeaves f), t.leaves.flatMap fun x => (render scope node x).notes⟩ := by
  -- a leaf is its own tree
  have hleaf : ∀ t : Value, t.leaves = [t] ∧ t.mapLeaves f = f t →
      (∀ x ∈ t.leaves, (render scope node x).result = .ok (f x)) →
      render scope node t = ⟨.ok (t.mapLeaves f), t.leaves.flatMap fun x => (render scope node x).notes⟩ := by
    rintro t ⟨hself, hmap⟩ h
    rw [hself, List.forall_mem_singleton] at h
    rw [hself, hmap, List.flatMap_singleton, ← h]
  induction t using Value.induction with
  | list cell xs ih =>
    rw [Value.leaves_list, List.forall_mem_flatMap] at hleaves
    rw [render, renderItems_eq node fun x hx => ih x hx (hleaves x hx), Value.mapLeaves_list, Value.leaves_list,
      List.flatMap_assoc]
    rfl
  | dict cell ms ih =>
    rw [Value.leaves_dict, List.forall_mem_flatMap] at hleaves
    have hms := renderMembers_eq node (g := Value.mapLeaves f)
      (n := fun v => v.leaves.flatMap fun x => (render scope node x).notes) fun m hm => ih m hm (hleaves m hm)
    rw [render, hms, Value.mapLeaves_dict, Value.leaves_dict, List.flatMap_assoc]
    rfl
  | plain t hp => exact hleaf t (by cases t <;> first | exact ⟨rfl, rfl⟩ | cases hp) hleaves
  | store cell name ms _ => exact hleaf _ ⟨rfl, rfl⟩ hleaves

/-- The leaves of a tree are no lists or objects, so what is no text stays. -/
theorem render_leaf {t x : Value} (hx : x ∈ t.leaves) (htext : ∀ s, x ≠ .str s) :
    render scope node x = ⟨.ok x, []⟩ := by
  induction t using Value.induction with
  | list cell xs ih =>
    rw [Value.leaves_list] at hx
    obtain ⟨y, hy, hx⟩ := List.mem_flatMap.1 hx
    exact ih y hy hx
  | dict cell ms ih =>
    rw [Value.leaves_dict] at hx
    obtain ⟨m, hm, hx⟩ := List.mem_flatMap.1 hx
    exact ih m hm hx
  | plain t hp =>
    have hself : t.leaves = [t] := by cases t <;> first | rfl | cases hp
    rw [hself, List.mem_singleton] at hx
    subst hx
    cases x with
    | str s => exact absurd rfl (htext s)
    | list => cases hp
    | dict => cases hp
    | store => cases hp
    | _ => rfl
  | store cell name ms _ =>
    obtain rfl := List.mem_singleton.1 hx
    rfl

end

/-- **Asking for the value and filling agree.** A text that is not one placeholder and blanks stands for what it is
filled to, with the same diagnostics. One that is stands for the value of its expression, and is filled to what the
value shows between the same blanks; if the expression is refused both leave the text as it is and tell of it once.
A tree of lists and objects stands for the tree, with the same keys, order and lengths, of what its leaves stand
for, and what is told of it is what is told of the leaves, in order. Without any placeholder it stands for itself. -/
theorem render_agrees_with_filling :
    (∀ s, (¬ ∃ lead body trail, Alone s lead body trail) →
        render scope node (.str s) = interpolate scope node (.str s)) ∧
      (∀ s lead body trail, Alone s lead body trail → ∀ v, evaluateIn scope body = .ok v →
        render scope node (.str s) = ⟨.ok v.orNull, []⟩ ∧
          interpolate scope node (.str s) = ⟨.ok (.str (.ofList (lead ++ v.display.toList ++ trail))), []⟩) ∧
      (∀ s lead body trail, Alone s lead body trail → ∀ r, evaluateIn scope body = .error (.refused r) →
        ∃ d d', d.code = Diagnostic.evaluationFailed ∧ d'.code = Diagnostic.evaluationFailed ∧
          render scope node (.str s) = ⟨.ok (.str s), [d]⟩ ∧
            interpolate scope node (.str s) = ⟨.ok (.str s), [d']⟩) ∧
      (∀ t : Value, (∀ s, .str s ∈ t.leaves → ∀ body, .hole body ∈ pieces s.toList → Calm scope body) →
        ∃ f : Value → Value, (∀ x ∈ t.leaves, (render scope node x).result = .ok (f x)) ∧
          (∀ x ∈ t.leaves, (∀ s, x ≠ .str s) → render scope node x = ⟨.ok x, []⟩) ∧
            render scope node t =
              ⟨.ok (t.mapLeaves f), t.leaves.flatMap fun x => (render scope node x).notes⟩) ∧
      ∀ t : Value, (∀ s, .str s ∈ t.leaves → Plain s.toList) → render scope node t = ⟨.ok t.fresh, []⟩ := by
  refine ⟨fun s h => render_of_not_alone scope node h, fun s lead body trail halone v heval => ?_,
    fun s lead body trail halone r heval => ?_, fun t hcalm => ?_, fun t hplain => ?_⟩
  · exact ⟨halone.render_ok node heval, halone.interpolate_ok node heval⟩
  · exact ⟨_, _, rfl, rfl, halone.render_refused node heval, halone.interpolate_refused node heval⟩
  · have hresult : ∀ x ∈ t.leaves, ∃ v, (render scope node x).result = .ok v := by
      intro x hx
      by_cases htext : ∃ s, x = .str s
      · obtain ⟨s, rfl⟩ := htext
        exact exists_render_text node (hcalm s hx)
      · exact ⟨x, congrArg Noted.result (render_leaf node hx fun s hs => htext ⟨s, hs⟩)⟩
    choose! f hf using hresult
    exact ⟨f, hf, fun x hx htext => render_leaf node hx htext, render_eq_mapLeaves node hf⟩
  · have hsame : ∀ x ∈ t.leaves, render scope node x = ⟨.ok x, []⟩ := by
      intro x hx
      by_cases htext : ∃ s, x = .str s
      · obtain ⟨s, rfl⟩ := htext
        exact render_of_plain node (hplain s hx).pieces_eq
      · exact render_leaf node hx fun s hs => htext ⟨s, hs⟩
    have htree := render_eq_mapLeaves (f := id) node fun x hx => congrArg Noted.result (hsame x hx)
    have hnotes : (t.leaves.flatMap fun x => (render scope node x).notes) = [] :=
      List.flatMap_eq_nil_iff.2 fun x hx => congrArg Noted.notes (hsame x hx)
    rw [htree, hnotes, Value.mapLeaves_id]

/-- Is a result this whole number? -/
def givesNumber (n : Int) : Except EvalError Value → Bool
  | .ok (.int m) => m == n
  | _ => false

theorem eq_of_givesNumber {n : Int} {r : Except EvalError Value} (h : givesNumber n r = true) : r = .ok (.int n) := by
  rw [givesNumber.eq_def] at h
  split at h
  · next m => rw [beq_iff_eq.1 h]
  · cases h

/-- The blanks around a placeholder stay when it is filled, and count for nothing when its value is asked for. -/
theorem render_agrees_with_filling_prey :
    Alone " \x7b\x7bctx.prey\x7d\x7d\n" [' '] "ctx.prey".toList ['\n'] ∧
      render baitScope "n" (.str " \x7b\x7bctx.prey\x7d\x7d\n") = ⟨.ok (.int 1), []⟩ ∧
        interpolate baitScope "n" (.str " \x7b\x7bctx.prey\x7d\x7d\n") = ⟨.ok (.str " 1\n"), []⟩ := by
  have halone : Alone " \x7b\x7bctx.prey\x7d\x7d\n" [' '] "ctx.prey".toList ['\n'] :=
    ⟨by simp [Text.Blank]; decide, by simp [Text.Blank]; decide, ⟨by decide, by decide⟩, by decide⟩
  have heval : evaluateIn baitScope "ctx.prey".toList = .ok (.int 1) := eq_of_givesNumber (by decide +kernel)
  have hshown : String.ofList ([' '] ++ (Value.int 1).display.toList ++ ['\n']) = " 1\n" := by decide +kernel
  obtain ⟨-, hvalue, -⟩ := render_agrees_with_filling baitScope "n"
  obtain ⟨hrender, hfill⟩ := hvalue _ _ _ _ halone _ heval
  rw [hshown] at hfill
  exact ⟨halone, hrender, hfill⟩

end Template

/-! ## 5. Expressions in placeholders -/

namespace Template

variable {scope : Scope} {e : String} {v : Value}

/-- The template that is a placeholder of an expression. -/
def enclosed (e : String) : String := "\x7b\x7b " ++ e ++ " \x7d\x7d"

/-- The body of that placeholder: the expression between two blanks. -/
def bodyOf (e : String) : List Char := ' ' :: (e.toList ++ [' '])

theorem toList_enclosed (e : String) : (enclosed e).toList = (Piece.hole (bodyOf e)).text := by
  simp [enclosed, bodyOf, Piece.text]

theorem isBody_bodyOf_iff : IsBody (bodyOf e) ↔ '\x7d' ∉ e.toList := by
  constructor
  · rintro ⟨-, hcloses⟩ hmem
    exact hcloses (List.mem_cons_of_mem _ (List.mem_append_left _ hmem))
  · intro h
    refine ⟨List.cons_ne_nil _ _, fun hmem => ?_⟩
    rcases List.mem_cons.1 hmem with heq | hmem
    · exact absurd heq (by decide)
    · rcases List.mem_append.1 hmem with hmem | hmem
      · exact h hmem
      · exact absurd (List.mem_singleton.1 hmem) (by decide)

theorem strip_bodyOf (e : String) : Text.strip (bodyOf e) = Text.strip e.toList := by
  have hblank : Text.Blank [' '] := List.forall_mem_singleton.2 (by decide)
  exact Text.strip_append hblank hblank

/-- Cutting the blanks off makes no difference to what a text is read as. -/
theorem parse_strip {t : Expr} (h : Expr.parse e = .ok t) :
    Expr.parse (.ofList (Text.strip e.toList)) = .ok t := by
  rw [Expr.parse] at h ⊢
  rw [String.toList_ofList, Text.strip_strip]
  split at h
  · cases h
  · next hempty =>
    rw [if_neg hempty]
    cases hread : Token.readAll (Text.strip e.toList) with
    | error r =>
      rw [hread] at h
      cases h
    | ok ts =>
      rw [hread] at h
      dsimp only at h ⊢
      cases htree : Expr.ofTokens ts with
      | error r =>
        rw [htree] at h
        cases h
      | ok t' =>
        rw [htree] at h
        exact h

theorem evaluateIn_bodyOf (h : evaluate e scope.names = .ok v) : evaluateIn scope (bodyOf e) = .ok v := by
  rw [evaluateIn, strip_bodyOf, evaluate]
  rw [evaluate] at h
  split at h
  · cases h
  · next t hparse =>
    rw [parse_strip hparse]
    dsimp only
    cases heval : t.eval scope.names with
    | ok w =>
      rw [heval] at h
      exact h
    | error r =>
      rw [heval] at h
      cases h

variable (scope) (node : String)

/-- **An expression without closing braces can be used in a placeholder.** The template is read as that placeholder
and nothing else exactly if the expression has no closing brace. If it has none and has a value, the template is
filled to what the value shows and stands for the value itself, with no diagnostic. -/
theorem enclosed_stands_for_value (e : String) :
    (pieces (enclosed e).toList = [.hole (bodyOf e)] ↔ '\x7d' ∉ e.toList) ∧
      ∀ v, '\x7d' ∉ e.toList → evaluate e scope.names = .ok v →
        interpolate scope node (.str (enclosed e)) = ⟨.ok (.str v.display), []⟩ ∧
          render scope node (.str (enclosed e)) = ⟨.ok v.orNull, []⟩ := by
  constructor
  · rw [pieces_eq_singleton_iff, toList_enclosed, isBody_bodyOf_iff]
    exact and_iff_left rfl
  · intro v hbrace heval
    have hnone : Text.Blank [] := fun c hc => absurd hc List.not_mem_nil
    have halone : Alone (enclosed e) [] (bodyOf e) [] :=
      ⟨hnone, hnone, isBody_bodyOf_iff.2 hbrace, by rw [toList_enclosed, List.nil_append, List.append_nil]⟩
    have hbody := evaluateIn_bodyOf heval
    have hfill := halone.interpolate_ok node hbody
    rw [List.nil_append, List.append_nil, String.ofList_toList] at hfill
    exact ⟨hfill, halone.render_ok node hbody⟩

/-- Is a result this text? -/
def givesText (s : String) : Except EvalError Value → Bool
  | .ok (.str t) => t == s
  | _ => false

theorem eq_of_givesText {s : String} {r : Except EvalError Value} (h : givesText s r = true) :
    r = .ok (.str s) := by
  rw [givesText.eq_def] at h
  split at h
  · next t => rw [beq_iff_eq.1 h]
  · cases h

/-- Opening braces in a quoted text do no harm. -/
theorem enclosed_stands_for_value_opening :
    '\x7d' ∉ "'\x7b\x7b' + ctx.prey".toList ∧
      evaluate "'\x7b\x7b' + ctx.prey" baitScope.names = .ok (.str "\x7b\x7b1") ∧
        interpolate baitScope "" (.str (enclosed "'\x7b\x7b' + ctx.prey")) = ⟨.ok (.str "\x7b\x7b1"), []⟩ := by
  have hbrace : '\x7d' ∉ "'\x7b\x7b' + ctx.prey".toList := by decide
  have heval : evaluate "'\x7b\x7b' + ctx.prey" baitScope.names = .ok (.str "\x7b\x7b1") :=
    eq_of_givesText (by decide +kernel)
  exact ⟨hbrace, heval, ((enclosed_stands_for_value baitScope "" _).2 _ hbrace heval).1⟩

/-- A closing brace in a quoted text keeps the template from being a placeholder: it stays as it is, although the
expression has a value, and nothing is told of it. -/
theorem closing_brace_stays :
    evaluate "'\x7d'" baitScope.names = .ok (.str "\x7d") ∧
      interpolate baitScope "" (.str (enclosed "'\x7d'")) = ⟨.ok (.str (enclosed "'\x7d'")), []⟩ ∧
        render baitScope "" (.str (enclosed "'\x7d'")) = ⟨.ok (.str (enclosed "'\x7d'")), []⟩ ∧
          enclosed "'\x7d'" ≠ "\x7d" := by
  have heval : evaluate "'\x7d'" baitScope.names = .ok (.str "\x7d") := eq_of_givesText (by decide +kernel)
  have hplain : pieces (enclosed "'\x7d'").toList = (enclosed "'\x7d'").toList.map .plain := by decide +kernel
  exact ⟨heval, interpolate_of_plain "" hplain, render_of_plain "" hplain, by decide⟩

end Template

end NodeFlow
