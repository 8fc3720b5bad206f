import NodeFlow.Description.Load
import NodeFlow.Proofs.Json.Lexemes
/-!
# The grammar of JSON

Which texts write which values, without a reader and without a bound on the depth. The reader finds a value at the
front of a text exactly if a text that writes it stands there, and whatever stands behind an object makes no
difference.

So the first object of a text can be told without the search for it: it is the one whose text starts leftmost.
-/

set_option autoImplicit false

namespace NodeFlow

namespace Json

/-! ## 1. Values -/

/-- A text of blanks only. -/
def Blank (cs : List Char) : Prop := ∀ c ∈ cs, isSpace c = true

/-- A value without parts that is no string. -/
inductive Atom : List Char → Value → Prop
  | null : Atom "null".toList .null
  | yes : Atom "true".toList (.bool true)
  | no : Atom "false".toList (.bool false)
  | nan : Atom "NaN".toList (.float (.nan (some 0)))
  | infinity : Atom "Infinity".toList (.float (.infinite false))
  | negativeInfinity : Atom "-Infinity".toList (.float (.infinite true))
  | number {cs : List Char} {v : Value} : Magnitude false cs v → Atom cs v
  | negative {cs : List Char} {v : Value} : Magnitude true cs v → Atom ('-' :: cs) v

/-- A key in quotes and the colon behind it, with blanks around them. -/
inductive Key : List Char → String → Prop
  | mk {a cs b c t : List Char} : Blank a → Spells cs t → Blank b → Blank c →
    Key (a ++ '"' :: (cs ++ '"' :: (b ++ ':' :: c))) (String.ofList t)

/-- What a text can write: a value, the elements of a list up to its closing bracket, or the members of an object up
to its closing brace. -/
inductive Content
  | value (v : Value)
  | items (xs : List Value)
  | members (ms : List (String × Value))

/-- A text writes a content. Of members with one key the first place and the last value count. -/
inductive Writes : List Char → Content → Prop
  | atom {cs : List Char} {v : Value} : Atom cs v → Writes cs (.value v)
  | string {cs t : List Char} : Spells cs t → Writes ('"' :: (cs ++ ['"'])) (.value (.str (String.ofList t)))
  | emptyList {b : List Char} : Blank b → Writes ('[' :: (b ++ [']'])) (.value (.ofList []))
  | list {cs : List Char} {xs : List Value} : Writes cs (.items xs) → Writes ('[' :: cs) (.value (.ofList xs))
  | emptyObject {b : List Char} : Blank b → Writes ('\x7b' :: (b ++ ['\x7d'])) (.value (.ofMembers []))
  | object {cs : List Char} {ms : List (String × Value)} : Writes cs (.members ms) →
    Writes ('\x7b' :: cs) (.value (.ofMembers (Members.ofPairs ms)))
  | lastItem {a cs b : List Char} {x : Value} : Blank a → Writes cs (.value x) → Blank b →
    Writes (a ++ (cs ++ (b ++ [']']))) (.items [x])
  | item {a cs b more : List Char} {x : Value} {xs : List Value} : Blank a → Writes cs (.value x) → Blank b →
    Writes more (.items xs) → Writes (a ++ (cs ++ (b ++ ',' :: more))) (.items (x :: xs))
  | lastMember {key cs b : List Char} {k : String} {x : Value} : Key key k → Writes cs (.value x) → Blank b →
    Writes (key ++ (cs ++ (b ++ ['\x7d']))) (.members [(k, x)])
  | member {key cs b more : List Char} {k : String} {x : Value} {ms : List (String × Value)} : Key key k →
    Writes cs (.value x) → Blank b → Writes more (.members ms) →
    Writes (key ++ (cs ++ (b ++ ',' :: more))) (.members ((k, x) :: ms))

/-! ## 2. What is read is written -/

theorem skipSpaces_cons {c : Char} (hc : isSpace c = false) (rest : List Char) :
    skipSpaces (c :: rest) = c :: rest :=
  List.dropWhile_cons_of_neg (by simp [hc])

theorem skipSpaces_append {b : List Char} (hb : Blank b) (rest : List Char) : skipSpaces (b ++ rest) = skipSpaces rest :=
  List.dropWhile_append_of_pos hb

theorem skipSpaces_append_cons {b : List Char} (hb : Blank b) {c : Char} (hc : isSpace c = false) (rest : List Char) :
    skipSpaces (b ++ c :: rest) = c :: rest := by
  rw [skipSpaces_append hb, skipSpaces_cons hc]

/-- In front of what follows them there are only blanks. -/
theorem exists_blank (cs : List Char) : ∃ b, Blank b ∧ cs = b ++ skipSpaces cs :=
  ⟨cs.takeWhile isSpace, fun _ => List.mem_takeWhile_imp, List.takeWhile_append_dropWhile.symm⟩

theorem eq_append_of_dropWord? {ws cs rest : List Char} (h : dropWord? ws cs = some rest) : cs = ws ++ rest := by
  induction ws generalizing cs with
  | nil => exact Option.some.inj h
  | cons w ws ih =>
    cases cs with
    | nil => cases h
    | cons c cs =>
      rw [dropWord?] at h
      split at h
      next hw => rw [ih h, hw, List.cons_append]
      · cases h

theorem atom_of_readAtom? {cs rest : List Char} {v : Value} (h : readAtom? cs = some (v, rest)) :
    ∃ src, cs = src ++ rest ∧ Atom src v := by
  -- a word behind its first characters
  have hword : ∀ (front : List Char) {ws tail : List Char} {x : Value}, Atom (front ++ ws) x →
      ((dropWord? ws tail).map fun r => (x, r)) = some (v, rest) → ∃ src, front ++ tail = src ++ rest ∧ Atom src v := by
    intro front ws tail x hx hmap
    obtain ⟨r, hdrop, hr⟩ := Option.map_eq_some_iff.1 hmap
    obtain ⟨rfl, rfl⟩ := Prod.mk.inj hr
    exact ⟨front ++ ws, by rw [eq_append_of_dropWord? hdrop, List.append_assoc], hx⟩
  rw [readAtom?.eq_def] at h
  split at h
  · exact hword ['n'] .null h
  · exact hword ['t'] .yes h
  · exact hword ['f'] .no h
  · exact hword ['N'] .nan h
  · exact hword ['I'] .infinity h
  · exact hword ['-', 'I'] .negativeInfinity h
  · obtain ⟨src, rfl, hsrc⟩ := magnitude_of_read h
    exact ⟨'-' :: src, rfl, .negative hsrc⟩
  · obtain ⟨src, rfl, hsrc⟩ := magnitude_of_read h
    exact ⟨src, rfl, .number hsrc⟩

/-- What stands behind the blanks in front is a key and its colon. -/
theorem key_of_read {cs inner rest body : List Char} {t : List Char} {fuel : Nat} (hcs : skipSpaces cs = '"' :: inner)
    (htext : readText? fuel inner = some (t, rest)) (hcolon : skipSpaces rest = ':' :: body) :
    ∃ key, cs = key ++ skipSpaces body ∧ Key key (String.ofList t) := by
  obtain ⟨a, ha, hcs'⟩ := exists_blank cs
  obtain ⟨src, rfl, hspells⟩ := spells_of_readText? htext
  obtain ⟨b, hb, hrest⟩ := exists_blank rest
  obtain ⟨c, hc, hbody⟩ := exists_blank body
  refine ⟨_, ?_, .mk ha hspells hb hc⟩
  rw [hcs', hcs, hrest, hcolon]
  nth_rewrite 1 [hbody]
  simp

/-- What the three readers take with so much fuel is written in front of what they leave. They call each other with
one unit less, so all are about one fuel. -/
structure TakesWritten (fuel : Nat) : Prop where
  value : ∀ cs v rest, readValue? fuel cs = some (v, rest) → ∃ src, cs = src ++ rest ∧ Writes src (.value v)
  items : ∀ cs xs rest, readItems? fuel cs = some (xs, rest) → ∃ src, cs = src ++ rest ∧ Writes src (.items xs)
  members : ∀ cs ms rest, readMembers? fuel cs = some (ms, rest) → ∃ src, cs = src ++ rest ∧ Writes src (.members ms)

namespace TakesWritten

variable {fuel : Nat} (ih : TakesWritten fuel) {cs rest : List Char}
include ih

/-- A value is a string, a list, an object, or else one without parts. -/
theorem value_succ {v : Value} (h : readValue? (fuel + 1) cs = some (v, rest)) :
    ∃ src, cs = src ++ rest ∧ Writes src (.value v) := by
  rw [readValue?.eq_def] at h
  dsimp only at h
  split at h
  next inner =>
    obtain ⟨⟨t, r⟩, hread, hr⟩ := Option.map_eq_some_iff.1 h
    obtain ⟨rfl, rfl⟩ := Prod.mk.inj hr
    obtain ⟨src, rfl, hspells⟩ := spells_of_readText? hread
    exact ⟨'"' :: (src ++ ['"']), by simp, .string hspells⟩
  next inner =>
    split at h
    next after hclose =>
      obtain ⟨rfl, rfl⟩ := Prod.mk.inj (Option.some.inj h)
      obtain ⟨b, hb, hinner⟩ := exists_blank inner
      exact ⟨'[' :: (b ++ [']']), by rw [hinner, hclose]; simp, .emptyList hb⟩
    · obtain ⟨⟨xs, r⟩, hread, hr⟩ := Option.map_eq_some_iff.1 h
      obtain ⟨rfl, rfl⟩ := Prod.mk.inj hr
      obtain ⟨src, rfl, hwrites⟩ := ih.items _ xs r hread
      exact ⟨'[' :: src, rfl, .list hwrites⟩
  next inner =>
    split at h
    next after hclose =>
      obtain ⟨rfl, rfl⟩ := Prod.mk.inj (Option.some.inj h)
      obtain ⟨b, hb, hinner⟩ := exists_blank inner
      exact ⟨'\x7b' :: (b ++ ['\x7d']), by rw [hinner, hclose]; simp, .emptyObject hb⟩
    · obtain ⟨⟨ms, r⟩, hread, hr⟩ := Option.map_eq_some_iff.1 h
      obtain ⟨rfl, rfl⟩ := Prod.mk.inj hr
      obtain ⟨src, rfl, hwrites⟩ := ih.members _ ms r hread
      exact ⟨'\x7b' :: src, rfl, .object hwrites⟩
  · obtain ⟨src, hsrc, hatom⟩ := atom_of_readAtom? h
    exact ⟨src, hsrc, .atom hatom⟩

/-- The first of the items is a value, and after a comma there are more. -/
theorem items_succ {xs : List Value} (h : readItems? (fuel + 1) cs = some (xs, rest)) :
    ∃ src, cs = src ++ rest ∧ Writes src (.items xs) := by
  rw [readItems?.eq_def] at h
  dsimp only at h
  split at h
  · cases h
  next x after hx =>
  obtain ⟨a, ha, hcs⟩ := exists_blank cs
  obtain ⟨src, hsrc, hwrites⟩ := ih.value _ x after hx
  obtain ⟨b, hb, hafter⟩ := exists_blank after
  split at h
  next more hcomma =>
    obtain ⟨⟨ys, r⟩, hread, hr⟩ := Option.map_eq_some_iff.1 h
    obtain ⟨rfl, rfl⟩ := Prod.mk.inj hr
    obtain ⟨src', rfl, hmore⟩ := ih.items _ ys r hread
    exact ⟨_, by rw [hcs, hsrc, hafter, hcomma]; simp, .item ha hwrites hb hmore⟩
  next tail hclose =>
    obtain ⟨rfl, rfl⟩ := Prod.mk.inj (Option.some.inj h)
    exact ⟨_, by rw [hcs, hsrc, hafter, hclose]; simp, .lastItem ha hwrites hb⟩
  · cases h

/-- The members are read like items, each behind a key. -/
theorem members_succ {ms : List (String × Value)} (h : readMembers? (fuel + 1) cs = some (ms, rest)) :
    ∃ src, cs = src ++ rest ∧ Writes src (.members ms) := by
  rw [readMembers?.eq_def] at h
  dsimp only at h
  split at h
  next inner hinner =>
    split at h
    · cases h
    next t behind htext =>
    split at h
    next body hcolon =>
      split at h
      · cases h
      next x after hx =>
      obtain ⟨key, hcs, hkey⟩ := key_of_read hinner htext hcolon
      obtain ⟨src, hsrc, hwrites⟩ := ih.value _ x after hx
      obtain ⟨b, hb, hafter⟩ := exists_blank after
      split at h
      next more hcomma =>
        obtain ⟨⟨ns, r⟩, hread, hr⟩ := Option.map_eq_some_iff.1 h
        obtain ⟨rfl, rfl⟩ := Prod.mk.inj hr
        obtain ⟨src', rfl, hmore⟩ := ih.members _ ns r hread
        exact ⟨_, by rw [hcs, hsrc, hafter, hcomma]; simp, .member hkey hwrites hb hmore⟩
      next tail hclose =>
        obtain ⟨rfl, rfl⟩ := Prod.mk.inj (Option.some.inj h)
        exact ⟨_, by rw [hcs, hsrc, hafter, hclose]; simp, .lastMember hkey hwrites hb⟩
      · cases h
    · cases h
  · cases h

end TakesWritten

theorem takesWritten (fuel : Nat) : TakesWritten fuel := by
  induction fuel with
  | zero =>
    refine ⟨fun cs v rest h => ?_, fun cs xs rest h => ?_, fun cs ms rest h => ?_⟩
    · rw [readValue?] at h; cases h
    · rw [readItems?] at h; cases h
    · rw [readMembers?] at h; cases h
  | succ fuel ih => exact ⟨fun _ _ _ => ih.value_succ, fun _ _ _ => ih.items_succ, fun _ _ _ => ih.members_succ⟩

/-! ## 3. What is written is read -/

/-- A letter, a digit or a sign. -/
def StartsAtom (c : Char) : Prop := isSpace c = false ∧ c ≠ '"' ∧ c ≠ '[' ∧ c ≠ ']' ∧ c ≠ '\x7b' ∧ c ≠ '\x7d'

instance (c : Char) : Decidable (StartsAtom c) := inferInstanceAs (Decidable (_ ∧ _))

theorem startsAtom_of_digit {c : Char} (hc : isPlainDigit c = true) : StartsAtom c := by
  have hne : ∀ d, isPlainDigit d = false → c ≠ d := by
    rintro d hd rfl
    rw [hc] at hd
    cases hd
  have hspaces : c ≠ ' ' ∧ c ≠ '\t' ∧ c ≠ '\n' ∧ c ≠ '\r' :=
    ⟨hne _ (by decide), hne _ (by decide), hne _ (by decide), hne _ (by decide)⟩
  refine ⟨?_, hne _ (by decide), hne _ (by decide), hne _ (by decide), hne _ (by decide), hne _ (by decide)⟩
  simp only [isSpace, hspaces, decide_false, Bool.or_false]

theorem Whole.front {ds : List Char} (h : Whole ds) : ∃ c cs, ds = c :: cs ∧ isPlainDigit c = true := by
  obtain ⟨c, cs, rfl⟩ := List.exists_cons_of_ne_nil h.1.1
  exact ⟨c, cs, rfl, h.1.2 c List.mem_cons_self⟩

theorem Magnitude.front {negative : Bool} {cs : List Char} {v : Value} (h : Magnitude negative cs v) :
    ∃ c more, cs = c :: more ∧ isPlainDigit c = true := by
  cases h with
  | int hwhole => exact hwhole.front
  | float hwhole =>
    obtain ⟨c, more, rfl, hc⟩ := hwhole.front
    exact ⟨c, _, rfl, hc⟩

theorem Atom.front {cs : List Char} {v : Value} (h : Atom cs v) : ∃ c more, cs = c :: more ∧ StartsAtom c := by
  cases h with
  | number hnumber =>
    obtain ⟨c, more, rfl, hc⟩ := hnumber.front
    exact ⟨c, more, rfl, startsAtom_of_digit hc⟩
  | negative _ => exact ⟨_, _, rfl, by decide⟩
  | _ => exact ⟨_, _, rfl, by decide⟩

theorem readAtom?_of_digit {c : Char} (hc : isPlainDigit c = true) (cs : List Char) :
    readAtom? (c :: cs) = readMagnitude? false (c :: cs) ∧
      readAtom? ('-' :: c :: cs) = readMagnitude? true (c :: cs) := by
  have hne : ∀ d, isPlainDigit d = false → c ≠ d := by
    rintro d hd rfl
    rw [hc] at hd
    cases hd
  constructor
  · rw [readAtom?.eq_def]
    split
    case h_8 => rfl
    all_goals
      next heq => exact absurd (List.cons.inj heq).1 (hne _ (by decide))
  · rw [readAtom?.eq_def]
    split
    case h_6 =>
      next heq => exact absurd (List.cons.inj (List.cons.inj heq).2).1 (hne _ (by decide))
    case h_7 =>
      next heq => rw [(List.cons.inj heq).2]
    case h_8 h => exact absurd rfl (h _)
    all_goals
      next heq => exact absurd (List.cons.inj heq).1 (by decide)

theorem Atom.read {cs rest : List Char} {v : Value} (h : Atom cs v) (hrest : v.isNumber = true → EndsNumber rest) :
    readAtom? (cs ++ rest) = some (v, rest) := by
  have hnumber : ∀ {negative : Bool} {cs : List Char} {v : Value}, Magnitude negative cs v → v.isNumber = true := by
    intro negative cs v hv
    cases hv <;> rfl
  cases h with
  | number hv =>
    have hread := hv.read (hrest (hnumber hv))
    obtain ⟨c, more, rfl, hc⟩ := hv.front
    rw [List.cons_append] at hread ⊢
    rw [(readAtom?_of_digit hc _).1, hread]
  | negative hv =>
    have hread := hv.read (hrest (hnumber hv))
    obtain ⟨c, more, rfl, hc⟩ := hv.front
    rw [List.cons_append] at hread
    rw [List.cons_append, List.cons_append, (readAtom?_of_digit hc _).2, hread]
  | _ => rfl

/-- The text of a value starts with no blank, and not as the end of a list does. -/
theorem Writes.front {cs : List Char} {v : Value} (h : Writes cs (.value v)) :
    ∃ c more, cs = c :: more ∧ isSpace c = false ∧ c ≠ ']' := by
  cases h with
  | atom hatom =>
    obtain ⟨c, more, rfl, hspace, -, -, hclose, -⟩ := hatom.front
    exact ⟨c, more, rfl, hspace, hclose⟩
  | _ => exact ⟨_, _, rfl, by decide, by decide⟩

theorem Writes.skipSpaces {cs b : List Char} {v : Value} (h : Writes cs (.value v)) (hb : Blank b)
    (rest : List Char) : skipSpaces (b ++ (cs ++ rest)) = cs ++ rest := by
  obtain ⟨c, more, rfl, hspace, -⟩ := h.front
  rw [List.cons_append, skipSpaces_append_cons hb hspace]

theorem Writes.items_front {cs : List Char} {xs : List Value} (h : Writes cs (.items xs)) (rest : List Char) :
    ∀ after, Json.skipSpaces (cs ++ rest) ≠ ']' :: after := by
  cases h with
  | lastItem ha hx hb =>
    intro after
    rw [List.append_assoc, List.append_assoc, hx.skipSpaces ha]
    obtain ⟨c, more, rfl, -, hclose⟩ := hx.front
    exact fun heq => hclose (List.cons.inj heq).1
  | item ha hx hb _ =>
    intro after
    rw [List.append_assoc, List.append_assoc, hx.skipSpaces ha]
    obtain ⟨c, more, rfl, -, hclose⟩ := hx.front
    exact fun heq => hclose (List.cons.inj heq).1

theorem Key.front {key : List Char} {k : String} (h : Key key k) (rest : List Char) :
    ∃ more, Json.skipSpaces (key ++ rest) = '"' :: more := by
  obtain ⟨ha, _, _, _⟩ := h
  rw [List.append_assoc, List.cons_append, skipSpaces_append_cons ha (by decide)]
  exact ⟨_, rfl⟩

theorem Writes.members_front {cs : List Char} {ms : List (String × Value)} (h : Writes cs (.members ms))
    (rest : List Char) : ∀ after, Json.skipSpaces (cs ++ rest) ≠ '\x7d' :: after := by
  have hkey : ∀ {key tail after : List Char} {k : String}, Key key k →
      Json.skipSpaces (key ++ tail) ≠ '\x7d' :: after := by
    intro key tail after k hk heq
    obtain ⟨more, hmore⟩ := hk.front tail
    rw [hmore] at heq
    exact absurd (List.cons.inj heq).1 (by decide)
  cases h with
  | lastMember hk _ _ =>
    rw [List.append_assoc]
    exact fun after => hkey hk
  | member hk _ _ _ =>
    rw [List.append_assoc]
    exact fun after => hkey hk

/-- A value inside another one ends with it or with a comma, so no number goes on. -/
theorem endsNumber_of_blank {b : List Char} (hb : Blank b) {c : Char} (hc : c ∈ [',', ']', '\x7d'])
    (rest : List Char) : EndsNumber (b ++ c :: rest) := by
  cases b with
  | nil =>
    obtain ⟨hdigit, hpoint, he, hE⟩ : isPlainDigit c = false ∧ c ≠ '.' ∧ c ≠ 'e' ∧ c ≠ 'E' := by
      simp only [List.mem_cons, List.not_mem_nil, or_false] at hc
      rcases hc with rfl | rfl | rfl <;> decide
    exact .cons hdigit hpoint he hE rest
  | cons d b =>
    have hd := hb d List.mem_cons_self
    rintro e he
    obtain rfl := Option.some.inj he
    refine ⟨?_, ?_, ?_, ?_⟩
    · by_contra hdigit
      rw [(startsAtom_of_digit (Bool.not_eq_false _ ▸ hdigit)).1] at hd
      cases hd
    all_goals
      rintro rfl
      exact absurd hd (by decide)

theorem Key.read {key : List Char} {k : String} (h : Key key k) {cs : List Char} {v : Value}
    (hv : Writes cs (.value v)) (rest : List Char) :
    ∃ inner t behind body, Json.skipSpaces (key ++ (cs ++ rest)) = '"' :: inner ∧
      readText? (inner.length + 1) inner = some (t, behind) ∧ String.ofList t = k ∧
      Json.skipSpaces behind = ':' :: body ∧ Json.skipSpaces body = cs ++ rest := by
  obtain @⟨a, src, b, c, t, ha, hspells, hb, hc⟩ := h
  let behind := b ++ ':' :: (c ++ (cs ++ rest))
  refine ⟨src ++ '"' :: behind, t, behind, c ++ (cs ++ rest), ?_, hspells.readText? behind ?_, rfl, ?_,
    hv.skipSpaces hc rest⟩
  · rw [List.append_assoc, List.cons_append, skipSpaces_append_cons ha (by decide)]
    simp only [behind, List.append_assoc, List.cons_append]
  · rw [List.length_append]
    omega
  · rw [skipSpaces_append_cons hb (by decide)]

theorem readValue?_of_atom {c : Char} (hquote : c ≠ '"') (hlist : c ≠ '[') (hdict : c ≠ '\x7b') (fuel : Nat)
    (cs : List Char) : readValue? (fuel + 1) (c :: cs) = readAtom? (c :: cs) := by
  rw [readValue?.eq_def]
  dsimp only
  split
  next heq => exact absurd (List.cons.inj heq).1 hquote
  next heq => exact absurd (List.cons.inj heq).1 hlist
  next heq => exact absurd (List.cons.inj heq).1 hdict
  · rfl

/-- What a content asks of the reader: with two units of fuel for every character it takes the text of the content and
leaves what follows. Only behind a number must the text not go on with one. -/
def Content.Read (cs : List Char) : Content → Prop
  | .value v => ∀ (fuel : Nat) (rest : List Char), (v.isNumber = true → EndsNumber rest) → 2 * cs.length ≤ fuel →
      readValue? fuel (cs ++ rest) = some (v, rest)
  | .items xs => ∀ (fuel : Nat) (rest : List Char), 2 * cs.length ≤ fuel →
      readItems? fuel (cs ++ rest) = some (xs, rest)
  | .members ms => ∀ (fuel : Nat) (rest : List Char), 2 * cs.length ≤ fuel →
      readMembers? fuel (cs ++ rest) = some (ms, rest)

theorem Writes.read {cs : List Char} {c : Content} (h : Writes cs c) : c.Read cs := by
  -- a text that is not empty leaves fuel for a step
  have hsucc : ∀ {n fuel : Nat}, 2 * (n + 1) ≤ fuel → ∃ fuel', fuel = fuel' + 1 ∧ 2 * n < fuel' := by
    intro n fuel hfuel
    exact ⟨fuel - 1, by omega, by omega⟩
  induction h with
  | @atom cs v hatom =>
    intro fuel rest hrest hfuel
    have hread := hatom.read hrest
    obtain ⟨c, more, rfl, -, hquote, hlist, -, hdict, -⟩ := hatom.front
    obtain ⟨fuel, rfl, -⟩ := hsucc hfuel
    rw [List.cons_append] at hread ⊢
    rw [readValue?_of_atom hquote hlist hdict, hread]
  | @string cs t hspells =>
    intro fuel rest _ hfuel
    obtain ⟨fuel, rfl, -⟩ := hsucc hfuel
    have hinner : cs.length < (cs ++ '"' :: rest).length + 1 := by
      rw [List.length_append]
      omega
    have htext := hspells.readText? rest hinner
    rw [List.cons_append, List.append_assoc, List.singleton_append, readValue?, htext]
    rfl
  | emptyList hb =>
    intro fuel rest _ hfuel
    obtain ⟨fuel, rfl, -⟩ := hsucc hfuel
    rw [List.cons_append, List.append_assoc, List.singleton_append, readValue?, skipSpaces_append_cons hb (by decide)]
    rfl
  | @list cs xs hwrites ih =>
    intro fuel rest _ hfuel
    obtain ⟨fuel, rfl, hless⟩ := hsucc hfuel
    rw [List.cons_append, readValue?]
    split
    next after heq => exact absurd heq (hwrites.items_front rest after)
    · rw [ih fuel rest hless.le]
      rfl
  | emptyObject hb =>
    intro fuel rest _ hfuel
    obtain ⟨fuel, rfl, -⟩ := hsucc hfuel
    rw [List.cons_append, List.append_assoc, List.singleton_append, readValue?, skipSpaces_append_cons hb (by decide)]
    rfl
  | @object cs ms hwrites ih =>
    intro fuel rest _ hfuel
    obtain ⟨fuel, rfl, hless⟩ := hsucc hfuel
    rw [List.cons_append, readValue?]
    split
    next after heq => exact absurd heq (hwrites.members_front rest after)
    · rw [ih fuel rest hless.le]
      rfl
  | @lastItem a cs b x ha hx hb ih =>
    intro fuel rest hfuel
    simp only [List.length_append, List.length_cons, List.length_nil] at hfuel
    have hstep : 2 * (a.length + cs.length + b.length + 1) ≤ fuel := by omega
    obtain ⟨fuel, rfl, hless⟩ := hsucc hstep
    have hread := ih fuel (b ++ ']' :: rest) (fun _ => endsNumber_of_blank hb (by decide) rest) (by omega)
    simp only [List.append_assoc, List.singleton_append]
    rw [readItems?, hx.skipSpaces ha, hread]
    simp only [skipSpaces_append_cons hb (c := ']') (by decide)]
  | @item a cs b more x xs ha hx hb _ ih ihmore =>
    intro fuel rest hfuel
    simp only [List.length_append, List.length_cons] at hfuel
    have hstep : 2 * (a.length + cs.length + b.length + more.length + 1) ≤ fuel := by omega
    obtain ⟨fuel, rfl, hless⟩ := hsucc hstep
    have hread := ih fuel (b ++ ',' :: (more ++ rest)) (fun _ => endsNumber_of_blank hb (by decide) _) (by omega)
    have hmore := ihmore fuel rest (by omega)
    simp only [List.append_assoc, List.cons_append]
    rw [readItems?, hx.skipSpaces ha, hread]
    simp only [skipSpaces_append_cons hb (c := ',') (by decide), hmore, Option.map_some]
  | @lastMember key cs b k x hk hx hb ih =>
    intro fuel rest hfuel
    simp only [List.length_append, List.length_cons, List.length_nil] at hfuel
    have hstep : 2 * (key.length + cs.length + b.length + 1) ≤ fuel := by omega
    obtain ⟨fuel, rfl, hless⟩ := hsucc hstep
    have hread := ih fuel (b ++ '\x7d' :: rest) (fun _ => endsNumber_of_blank hb (by decide) rest) (by omega)
    obtain ⟨inner, t, behind, body, hinner, htext, rfl, hbehind, hbody⟩ := hk.read hx (b ++ '\x7d' :: rest)
    simp only [List.append_assoc, List.singleton_append]
    rw [readMembers?, hinner]
    simp only [htext, hbehind, hbody, hread, skipSpaces_append_cons hb (c := '\x7d') (by decide)]
  | @member key cs b more k x ms hk hx hb _ ih ihmore =>
    intro fuel rest hfuel
    simp only [List.length_append, List.length_cons] at hfuel
    have hstep : 2 * (key.length + cs.length + b.length + more.length + 1) ≤ fuel := by omega
    obtain ⟨fuel, rfl, hless⟩ := hsucc hstep
    have hread := ih fuel (b ++ ',' :: (more ++ rest)) (fun _ => endsNumber_of_blank hb (by decide) _) (by omega)
    have hmore := ihmore fuel rest (by omega)
    obtain ⟨inner, t, behind, body, hinner, htext, rfl, hbehind, hbody⟩ := hk.read hx (b ++ ',' :: (more ++ rest))
    simp only [List.append_assoc, List.cons_append]
    rw [readMembers?, hinner]
    simp only [htext, hbehind, hbody, hread, skipSpaces_append_cons hb (c := ',') (by decide), hmore, Option.map_some]

theorem readFront?_of_writes {cs rest : List Char} {v : Value} (h : Writes cs (.value v))
    (hrest : v.isNumber = true → EndsNumber rest) : readFront? (cs ++ rest) = some (v, rest) := by
  have hread : (Content.value v).Read cs := h.read
  refine hread _ rest hrest ?_
  rw [List.length_append]
  omega

end Json

/-! ## 4. The first object -/

namespace Description

open Json

/-- A text that writes an object, from its opening brace to its closing one. -/
def WritesObject (t : List Char) (v : Value) : Prop := Writes t (.value v) ∧ t.head? = some '\x7b'

/-- The object that is written leftmost in a text. -/
def FirstObject (cs : List Char) (v : Value) : Prop :=
  ∃ front t rest, cs = front ++ (t ++ rest) ∧ WritesObject t v ∧
    ∀ front' t' rest' v', cs = front' ++ (t' ++ rest') → WritesObject t' v' → front.length ≤ front'.length

theorem writesObject_of_dict {t : List Char} {cell : Option Nat} {ms : List (String × Value)}
    (h : Writes t (.value (.dict cell ms))) : WritesObject t (.dict cell ms) := by
  refine ⟨h, ?_⟩
  cases h with
  | atom hatom =>
    cases hatom with
    | number hnumber => cases hnumber
    | negative hnumber => cases hnumber
  | emptyObject _ => rfl
  | object _ => rfl

theorem WritesObject.dict {t : List Char} {v : Value} (h : WritesObject t v) : ∃ ms, v = .ofMembers ms := by
  obtain ⟨hwrites, hbrace⟩ := h
  cases hwrites with
  | atom hatom =>
    obtain ⟨c, more, rfl, -, -, -, -, hdict, -⟩ := hatom.front
    exact absurd (Option.some.inj hbrace) hdict
  | string _ => cases hbrace
  | emptyList _ => cases hbrace
  | list _ => cases hbrace
  | emptyObject _ => exact ⟨_, rfl⟩
  | object _ => exact ⟨_, rfl⟩

/-- An object is found in front exactly if its text stands there, whatever follows. -/
theorem objectAtFront?_eq_some_iff {cs : List Char} {v : Value} :
    objectAtFront? cs = some v ↔ ∃ t rest, cs = t ++ rest ∧ WritesObject t v := by
  constructor
  · intro h
    rw [objectAtFront?] at h
    split at h
    next cell ms rest hread =>
      obtain rfl := Option.some.inj h
      obtain ⟨t, rfl, hwrites⟩ := (takesWritten _).value _ _ _ hread
      exact ⟨t, rest, rfl, writesObject_of_dict hwrites⟩
    · cases h
  · rintro ⟨t, rest, rfl, hobject⟩
    obtain ⟨ms, rfl⟩ := hobject.dict
    rw [objectAtFront?, readFront?_of_writes hobject.1 (fun h => by cases h)]
    rfl

/-- The look for a brace is only a short cut. -/
theorem firstObject?_cons (c : Char) (rest : List Char) :
    firstObject? (c :: rest) = (objectAtFront? (c :: rest)).or (firstObject? rest) := by
  rw [firstObject?]
  split
  next =>
    cases objectAtFront? (c :: rest) <;> rfl
  next hc =>
    have hnone : objectAtFront? (c :: rest) = none := by
      rw [Option.eq_none_iff_forall_ne_some]
      intro v hv
      obtain ⟨t, more, heq, -, hbrace⟩ := objectAtFront?_eq_some_iff.1 hv
      cases t with
      | nil => cases hbrace
      | cons d t =>
        obtain ⟨rfl, -⟩ := List.cons.inj heq
        exact hc (Option.some.inj hbrace)
    rw [hnone, Option.none_or]

/-- Where the search finds nothing there is no object, and else it finds the first one. -/
theorem firstObject?_sound (cs : List Char) :
    match firstObject? cs with
    | some v => FirstObject cs v
    | none => ∀ front t rest v, cs = front ++ (t ++ rest) → ¬ WritesObject t v := by
  induction cs with
  | nil =>
    rintro front t rest v heq ⟨-, hbrace⟩
    obtain ⟨-, heq⟩ := List.append_eq_nil_iff.1 heq.symm
    obtain ⟨rfl, -⟩ := List.append_eq_nil_iff.1 heq
    cases hbrace
  | cons c rest ih =>
    rw [firstObject?_cons]
    cases hfront : objectAtFront? (c :: rest) with
    | some v =>
      obtain ⟨t, more, heq, hobject⟩ := objectAtFront?_eq_some_iff.1 hfront
      exact ⟨[], t, more, heq, hobject, fun _ _ _ _ _ _ => Nat.zero_le _⟩
    | none =>
      -- nothing stands in front, so what stands in the text stands in its rest
      have hrest : ∀ {front t more v}, c :: rest = front ++ (t ++ more) → WritesObject t v →
          ∃ front', front = c :: front' ∧ rest = front' ++ (t ++ more) := by
        intro front t more v heq hobject
        cases front with
        | nil =>
          have hsome := objectAtFront?_eq_some_iff.2 ⟨t, more, heq, hobject⟩
          rw [hfront] at hsome
          cases hsome
        | cons d front =>
          obtain ⟨rfl, htail⟩ := List.cons.inj heq
          exact ⟨front, rfl, htail⟩
      rw [Option.none_or]
      cases hfirst : firstObject? rest with
      | some v =>
        rw [hfirst] at ih
        obtain ⟨front, t, more, rfl, hobject, hleft⟩ := ih
        refine ⟨c :: front, t, more, rfl, hobject, fun front' t' more' v' heq hobject' => ?_⟩
        obtain ⟨front', rfl, htail⟩ := hrest heq hobject'
        exact Nat.succ_le_succ (hleft front' t' more' v' htail hobject')
      | none =>
        rw [hfirst] at ih
        intro front t more v heq hobject
        obtain ⟨front', -, htail⟩ := hrest heq hobject
        exact ih front' t more v htail hobject

/-- There is one first object at most. -/
theorem FirstObject.unique {cs : List Char} {v v' : Value} (h : FirstObject cs v) (h' : FirstObject cs v') : v = v' := by
  obtain ⟨front, t, rest, rfl, hobject, hleft⟩ := h
  obtain ⟨front', t', rest', heq, hobject', hleft'⟩ := h'
  have hlength : front.length = front'.length :=
    Nat.le_antisymm (hleft _ _ _ _ heq hobject') (hleft' _ _ _ _ rfl hobject)
  obtain ⟨-, heq⟩ := List.append_inj heq hlength
  have hread := objectAtFront?_eq_some_iff.2 ⟨t, rest, rfl, hobject⟩
  rw [objectAtFront?_eq_some_iff.2 ⟨t', rest', heq, hobject'⟩] at hread
  exact (Option.some.inj hread).symm

theorem firstObject?_eq_some_iff {cs : List Char} {v : Value} : firstObject? cs = some v ↔ FirstObject cs v := by
  have hsound := firstObject?_sound cs
  constructor
  · intro h
    rwa [h] at hsound
  · intro h
    cases hfound : firstObject? cs with
    | some v' =>
      rw [hfound] at hsound
      rw [hsound.unique h]
    | none =>
      rw [hfound] at hsound
      obtain ⟨front, t, rest, heq, hobject, -⟩ := h
      exact absurd hobject (hsound front t rest v heq)

end Description

end NodeFlow
