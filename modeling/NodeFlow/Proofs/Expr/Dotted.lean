import NodeFlow.Expr.Eval
import NodeFlow.Proofs.Expr.Spell
import NodeFlow.Proofs.Memory.Lens
/-!
# Paths in expressions

A dotted path can be written as an expression, behind a name, and it can be asked of a value as it stands. Both go
one segment at a time, and both come to the same.

The awkward thing up front: the segments are not the tokens. Behind a point a numeral takes the next segment with it
if that is a numeral too, because a numeral, a point and a numeral are one number. So the tokens of a path depend on
how its numerals are grouped, and a number is taken apart again when the tree is built. Words that mean something
elsewhere are properties like others behind a point.

The two ways of looking a segment up differ in two things, and a path has to keep clear of both: texts have places
for expressions and none for dotted paths, and only expressions know of a length.
-/

set_option autoImplicit false

namespace NodeFlow

/-! ## 1. Segments -/

/-- A numeral of plain digits. -/
structure IsNumeral (s : String) : Prop where
  ne_nil : s.toList ≠ []
  digits : ∀ c ∈ s.toList, 48 ≤ c.toNat ∧ c.toNat < 58

theorem IsNumeral.of_all {s : String} (hne : s.toList ≠ [])
    (hs : s.toList.all (fun c => decide (48 ≤ c.toNat ∧ c.toNat < 58)) = true) : IsNumeral s :=
  ⟨hne, fun c hc => of_decide_eq_true (List.all_eq_true.1 hs c hc)⟩

/-- What a segment of a path may be: a name as the grammar of tokens has it, or a numeral. -/
def IsSegment (s : String) : Prop := Token.IsIdentifier s ∨ IsNumeral s

namespace Token

theorem IsIdentifier.exists_cons {n : String} (hn : IsIdentifier n) :
    ∃ c cs, n.toList = c :: cs ∧ ∀ d ∈ n.toList, isNameRest d := by
  obtain ⟨c, cs, heq, hc, hcs⟩ := hn
  refine ⟨c, cs, heq, heq ▸ List.forall_mem_cons.2 ⟨?_, hcs⟩⟩
  rw [isNameRest, hc, Bool.true_or]

theorem isBlank_of_isNameRest {c : Char} (hc : isNameRest c) : Text.isBlank c = false := by
  rw [isNameRest, Bool.or_eq_true, Bool.and_eq_true, decide_eq_true_eq, decide_eq_true_eq] at hc
  rcases hc with hc | ⟨hlow, hhigh⟩
  · have hcases := isNameStart_cases hc
    exact Text.isBlank_of_lt (by omega) (by omega)
  · have hrange : 48 ≤ c.toNat ∧ c.toNat ≤ 57 := ⟨hlow, hhigh⟩
    exact Text.isBlank_of_lt (by omega) (by omega)

end Token

open Token

theorem IsNumeral.isDigit {s : String} (hs : IsNumeral s) : ∀ c ∈ s.toList, Text.isDigit c := by
  intro c hc
  have hrange := hs.digits c hc
  rw [Text.isDigit_of_lt (by omega)]
  exact decide_eq_true hrange

/-- The characters of a segment: at least one, none of them blank and none a point. -/
theorem IsSegment.chars {s : String} (hs : IsSegment s) :
    s.toList ≠ [] ∧ ∀ c ∈ s.toList, Text.isBlank c = false ∧ c ≠ '.' := by
  rcases hs with hs | hs
  · obtain ⟨c, cs, heq, hall⟩ := hs.exists_cons
    refine ⟨heq ▸ List.cons_ne_nil c cs, fun d hd => ⟨isBlank_of_isNameRest (hall d hd), ?_⟩⟩
    rintro rfl
    exact absurd (hall _ hd) (by decide)
  · refine ⟨hs.ne_nil, fun d hd => ?_⟩
    have hrange := hs.digits d hd
    refine ⟨Text.isBlank_of_lt (by omega) (by omega), ?_⟩
    rintro rfl
    exact absurd hrange.1 (by decide)

/-- A name does not begin like a number. -/
theorem IsIdentifier.stops_isDigit {n : String} (hn : IsIdentifier n) (rest : List Char) :
    Stops Text.isDigit (n.toList ++ rest) := by
  obtain ⟨c, cs, heq, hc, -⟩ := hn
  intro d more hd
  rw [heq, List.cons_append] at hd
  have hcases := isNameStart_cases hc
  rw [← (List.cons.inj hd).1, Text.isDigit_of_lt (by omega)]
  exact decide_eq_false (by omega)

/-! ## 2. Tokens -/

/-- Segments as they are written behind something: each behind a point. -/
def dotted (segs : List String) : List Char := segs.flatMap fun s => '.' :: s.toList

theorem dotted_cons (s : String) (segs : List String) : dotted (s :: segs) = '.' :: (s.toList ++ dotted segs) := by
  rw [dotted, List.flatMap_cons, List.cons_append, dotted]

theorem stops_dotted {p : Char → Bool} (hp : p '.' = false) (segs : List String) : Stops p (dotted segs) := by
  intro c more heq
  cases segs with
  | nil => cases heq
  | cons s segs =>
    rw [dotted_cons] at heq
    rw [← (List.cons.inj heq).1, hp]

/-- The tokens of segments that each stand behind a point. A numeral is a token of its own only if no numeral
follows. -/
inductive Grouping : List String → List Token → Prop
  | nil : Grouping [] []
  | name {n : String} {segs : List String} {ts : List Token} : IsIdentifier n → Grouping segs ts →
      Grouping (n :: segs) (.symbol .point :: ofWord n :: ts)
  | number {d : String} {segs : List String} {ts : List Token} : IsNumeral d →
      (∀ s more, segs = s :: more → IsIdentifier s) → Grouping segs ts →
      Grouping (d :: segs) (.symbol .point :: .number d none :: ts)
  | pair {d e : String} {segs : List String} {ts : List Token} : IsNumeral d → IsNumeral e → Grouping segs ts →
      Grouping (d :: e :: segs) (.symbol .point :: .number d (some e) :: ts)

/-- Segments have tokens: a numeral is paired with the next one, if there is one. -/
theorem exists_grouping : ∀ segs : List String, (∀ s ∈ segs, IsSegment s) → ∃ ts, Grouping segs ts
  | [], _ => ⟨[], .nil⟩
  | [s], h => by
    rcases h s List.mem_cons_self with hs | hs
    · exact ⟨_, .name hs .nil⟩
    · exact ⟨_, .number hs (fun _ _ heq => by cases heq) .nil⟩
  | s :: e :: segs, h => by
    obtain ⟨hs, hrest⟩ := List.forall_mem_cons.1 h
    obtain ⟨he, hmore⟩ := List.forall_mem_cons.1 hrest
    obtain ⟨ts, hts⟩ := exists_grouping (e :: segs) hrest
    rcases hs with hs | hs
    · exact ⟨_, .name hs hts⟩
    · rcases he with he | he
      · refine ⟨_, .number hs (fun d more heq => ?_) hts⟩
        rw [← (List.cons.inj heq).1]
        exact he
      · obtain ⟨ts, hts⟩ := exists_grouping segs hmore
        exact ⟨_, .pair hs he hts⟩

/-- A token at the front of what is left, with no blank in front of it. -/
theorem readFrom_token {total fuel : Nat} {c : Char} {cs rest : List Char} {t : Token}
    (hblank : Text.isBlank c = false) (hread : readFront? (c :: cs) = some (t, rest)) :
    readFrom total (fuel + 1) (c :: cs) = (readFrom total fuel rest).map (t :: ·) := by
  rw [readFrom, List.dropWhile_cons, hblank]
  simp only [Bool.false_eq_true, if_false, hread]

/-- A point, and a token behind it that is not empty. -/
theorem readFrom_point {total fuel : Nat} {seg rest after : List Char} {t : Token} (hne : seg ≠ [])
    (hblank : ∀ c ∈ seg, Text.isBlank c = false) (hread : readFront? (seg ++ rest) = some (t, after)) :
    readFrom total (fuel + 2) ('.' :: (seg ++ rest)) =
      (readFrom total fuel after).map fun ts => .symbol .point :: t :: ts := by
  obtain ⟨c, cs, rfl⟩ := List.exists_cons_of_ne_nil hne
  have hpoint : readFront? ('.' :: (c :: cs ++ rest)) = some (.symbol .point, c :: cs ++ rest) := rfl
  rw [readFrom_token (by decide) hpoint]
  rw [List.cons_append] at hread ⊢
  rw [readFrom_token (hblank c List.mem_cons_self) hread]
  cases readFrom total fuel after <;> rfl

theorem readFront?_numeral {d : String} (hd : IsNumeral d) {rest : List Char} (hrest : Stops Text.isDigit rest) :
    readFront? (d.toList ++ rest) = some (readNumber d.toList rest) := by
  obtain ⟨c, cs, hcs⟩ := List.exists_cons_of_ne_nil hd.ne_nil
  have hspan := hrest.span_eq hd.isDigit
  have hc : Text.isDigit c = true := hd.isDigit c (hcs ▸ List.mem_cons_self)
  rw [hcs, List.cons_append] at hspan ⊢
  simp only [readFront?, hc, if_true, hspan]

theorem readNumber_alone {d : String} {segs : List String} (hnext : ∀ s more, segs = s :: more → IsIdentifier s) :
    readNumber d.toList (dotted segs) = (.number d none, dotted segs) := by
  cases segs with
  | nil => simp only [dotted, List.flatMap_nil, readNumber, String.ofList_toList]
  | cons s segs =>
    have hnone : ([] ++ (s.toList ++ dotted segs)).span Text.isDigit = ([], s.toList ++ dotted segs) :=
      (IsIdentifier.stops_isDigit (hnext s segs rfl) (dotted segs)).span_eq fun c hc => absurd hc List.not_mem_nil
    rw [List.nil_append] at hnone
    rw [dotted_cons, readNumber]
    simp only [hnone, String.ofList_toList]

theorem readNumber_pair {d e : String} (he : IsNumeral e) (segs : List String) :
    readNumber d.toList (dotted (e :: segs)) = (.number d (some e), dotted segs) := by
  have hspan := (stops_dotted (by decide) segs).span_eq he.isDigit
  rw [dotted_cons, readNumber]
  simp only [hspan, String.ofList_toList]
  split
  · next heq => exact absurd (Prod.mk.inj heq).1 he.ne_nil
  · next heq =>
    obtain ⟨rfl, rfl⟩ := Prod.mk.inj heq
    rw [String.ofList_toList]

/-- The tokens of grouped segments are read one after another: induction on the grouping, each step with what follows it left
open. -/
theorem Grouping.readFrom {segs : List String} {ts : List Token} (h : Grouping segs ts) (total : Nat) {fuel : Nat}
    (hfuel : (dotted segs).length ≤ fuel) : Token.readFrom total fuel (dotted segs) = .ok (ts ++ [.ended]) := by
  induction h generalizing fuel with
  | nil => cases fuel <;> rfl
  | @name n segs ts hn _ ih =>
    obtain ⟨hne, hchars⟩ := IsSegment.chars (.inl hn)
    have hpos := List.length_pos_iff.2 hne
    rw [dotted_cons] at hfuel ⊢
    simp only [List.length_cons, List.length_append] at hfuel
    obtain ⟨fuel, rfl⟩ : ∃ fuel', fuel = fuel' + 2 := ⟨fuel - 2, by omega⟩
    rw [readFrom_point hne (fun c hc => (hchars c hc).1) (readFront?_word hn (stops_dotted (by decide) segs)),
      ih (by omega)]
    rfl
  | @number d segs ts hd hnext _ ih =>
    obtain ⟨hne, hchars⟩ := IsSegment.chars (.inr hd)
    have hpos := List.length_pos_iff.2 hne
    rw [dotted_cons] at hfuel ⊢
    simp only [List.length_cons, List.length_append] at hfuel
    obtain ⟨fuel, rfl⟩ : ∃ fuel', fuel = fuel' + 2 := ⟨fuel - 2, by omega⟩
    have hread := readFront?_numeral hd (stops_dotted (by decide) segs)
    rw [readNumber_alone hnext] at hread
    rw [readFrom_point hne (fun c hc => (hchars c hc).1) hread, ih (by omega)]
    rfl
  | @pair d e segs ts hd he _ ih =>
    obtain ⟨hne, hchars⟩ := IsSegment.chars (.inr hd)
    have hpos := List.length_pos_iff.2 hne
    rw [dotted_cons] at hfuel ⊢
    simp only [dotted_cons e, List.length_cons, List.length_append] at hfuel
    obtain ⟨fuel, rfl⟩ : ∃ fuel', fuel = fuel' + 2 := ⟨fuel - 2, by omega⟩
    have hread := readFront?_numeral hd (stops_dotted (by decide) (e :: segs))
    rw [readNumber_pair he] at hread
    rw [readFrom_point hne (fun c hc => (hchars c hc).1) hread, ih (by omega)]
    rfl

/-! ## 3. Trees -/

namespace Expr

/-- A tree with the properties behind it that a path names. -/
def along (base : Expr) (segs : List String) : Expr := segs.foldl (fun e s => .get e (.lit (.str s))) base

theorem derives_grouping {segs : List String} {ts : List Token} (h : Grouping segs ts) {front : List Token} {base : Expr}
    (hbase : Derives .suffixed front base) : Derives .suffixed (front ++ ts) (base.along segs) := by
  induction h generalizing front base with
  | nil => rwa [List.append_nil]
  | @name n segs ts hn _ ih =>
    have hstep := ih (hbase.property (plain_ofWord hn).2.2)
    rwa [List.append_assoc] at hstep
  | @number d segs ts _ _ _ ih =>
    have hplace : Derives .suffixed (front ++ [.symbol .point, .number d none]) (.get base (.lit (.str d))) :=
      .place hbase
    have hstep := ih hplace
    rwa [List.append_assoc] at hstep
  | @pair d e segs ts _ _ _ ih =>
    have hplaces : Derives .suffixed (front ++ [.symbol .point, .number d (some e)])
        (.get (.get base (.lit (.str d))) (.lit (.str e))) := .twoPlaces hbase
    have hstep := ih hplaces
    rwa [List.append_assoc] at hstep

/-- A name and a path behind it. -/
def pathText (root : String) (segs : List String) : String := root ++ "." ++ ".".intercalate segs

theorem toList_pathText (root : String) {segs : List String} (hne : segs ≠ []) :
    (pathText root segs).toList = root.toList ++ dotted segs := by
  have hdotted : ∀ (s : String) (segs : List String),
      '.' :: (".".intercalate (s :: segs)).toList = dotted (s :: segs) := by
    intro s segs
    induction segs generalizing s with
    | nil => simp [dotted]
    | cons e segs ih =>
      rw [String.intercalate_cons_cons, dotted_cons, ← ih e]
      simp
  obtain ⟨s, segs, rfl⟩ := List.exists_cons_of_ne_nil hne
  rw [pathText, ← hdotted]
  simp

/-- A path behind a name is read as the properties that it names, one segment at a time. -/
theorem parse_pathText {root : String} (hroot : IsVariable root) {segs : List String} (hne : segs ≠ [])
    (hsegs : ∀ s ∈ segs, IsSegment s) : parse (pathText root segs) = .ok ((Expr.name root).along segs) := by
  obtain ⟨ts, hts⟩ := exists_grouping segs hsegs
  obtain ⟨hrootNe, hrootChars⟩ := IsSegment.chars (.inl hroot.identifier)
  obtain ⟨c, cs, hcs, -⟩ := hroot.identifier.exists_cons
  have htext := toList_pathText root hne
  -- no character is a blank, so nothing is cut off
  have hchars : ∀ c ∈ root.toList ++ dotted segs, Text.isBlank c = false := by
    refine List.forall_mem_append.2 ⟨fun c hc => (hrootChars c hc).1, ?_⟩
    refine List.forall_mem_flatMap.2 fun s hs => List.forall_mem_cons.2 ⟨by decide, fun c hc => ?_⟩
    exact ((hsegs s hs).chars.2 c hc).1
  have hstrip : Text.strip (root.toList ++ dotted segs) = root.toList ++ dotted segs :=
    strip_of_edged (.of_forall (by rw [hcs]; exact List.cons_ne_nil _ _) hchars)
  have hempty : (root.toList ++ dotted segs).isEmpty = false := by rw [hcs]; rfl
  -- the name is one token, and the path behind it is the others
  have hread : readAll (root.toList ++ dotted segs) = .ok ((.name root :: ts) ++ [.ended]) := by
    have hword := readFront?_word hroot.identifier (stops_dotted (by decide) segs)
    rw [hroot.ofWord_eq] at hword
    rw [hcs, List.cons_append] at hword hchars ⊢
    rw [readAll, List.length_cons, readFrom_token (hchars c List.mem_cons_self) hword,
      hts.readFrom _ (by simp)]
    rfl
  have hwrites : Writes (.name root :: ts) ((Expr.name root).along segs) :=
    (derives_grouping hts (.bare (.name hroot.free))).loosen (by decide)
  simp only [parse, htext, hstrip, hempty, hread, ofTokens_of_writes hwrites]
  rfl

/-! ## 4. Values -/

variable {names : Names} {v : Value}

/-- A segment that is no length is looked up alike in whatever is no text. -/
theorem property_eq_step {key : String} (hkey : key ≠ "length") (hv : ∀ t, v ≠ .str t) :
    v.property (.str key) = .ok ((v.step key).getD .undefined) := by
  cases v with
  | null | undefined => rfl
  | str t => exact absurd rfl (hv t)
  | bool b =>
    simp only [Value.property, Value.step]
    generalize Value.wholePart (if b = true then 1 else 0) (.str key) = part
    cases part <;> rfl
  | int n =>
    simp only [Value.property, Value.step]
    generalize Value.wholePart n (.str key) = part
    cases part <;> rfl
  | float x =>
    simp only [Value.property, Value.step]
    generalize Value.binaryPart x (.str key) = part
    cases part <;> rfl
  | dict cell ms | store cell name ms =>
    simp only [Value.property, Value.memberAt, Value.step]
    cases Members.get? ms key with
    | none => rw [if_neg hkey]; rfl
    | some w => rfl
  | list cell xs =>
    simp only [Value.property, Value.step, Value.elementOf, Value.place?]
    split
    · next heq => exact absurd (Value.str.inj heq) hkey
    · next heq =>
      split
      · next f h => cases h
      · next h => rw [Except.ok.inj h]; rfl
      · next n h => rw [Except.ok.inj h]; rfl

/-- Nothing is found below what is undefined. -/
theorem at?_undefined (segs : List String) : (Value.undefined.at? segs).getD .undefined = .undefined := by
  cases segs <;> rfl

/-- A path is followed alike from a value on: induction on the path, one segment after another. -/
theorem eval_along {base : Expr} (hbase : base.eval names = .ok v) {segs : List String}
    (hlength : "length" ∉ segs) (htexts : ∀ k < segs.length, ∀ t, v.at? (segs.take k) ≠ some (.str t)) :
    (base.along segs).eval names = .ok ((v.at? segs).getD .undefined) := by
  induction segs generalizing base v with
  | nil => exact hbase
  | cons s segs ih =>
    have hv : ∀ t, v ≠ .str t := fun t ht => htexts 0 (Nat.succ_pos _) t (congrArg some ht)
    have hstep : (Expr.get base (.lit (.str s))).eval names = .ok ((v.step s).getD .undefined) := by
      simp only [eval, hbase, Literal.value, property_eq_step (Ne.symm (List.ne_of_not_mem_cons hlength)) hv,
        refused]
    have hrest := List.not_mem_of_not_mem_cons hlength
    cases hs : v.step s with
    | none =>
      -- nothing is undefined, and nothing is found below it
      rw [hs, Option.getD_none] at hstep
      have hnone : v.at? (s :: segs) = none := by rw [Value.at?, hs]; rfl
      have htextless : ∀ more t, Value.undefined.at? more ≠ some (.str t) := by
        intro more t ht
        cases more <;> cases ht
      have hrun := ih hstep hrest fun k _ => htextless _
      rw [at?_undefined] at hrun
      rw [hnone]
      exact hrun
    | some w =>
      rw [hs, Option.getD_some] at hstep
      have hsome : ∀ more, v.at? (s :: more) = w.at? more := fun more => by rw [Value.at?, hs]; rfl
      rw [hsome]
      refine ih hstep hrest fun k hk t => ?_
      have h := htexts (k + 1) (Nat.succ_lt_succ hk) t
      rwa [List.take_succ_cons, hsome] at h

end Expr

/-! ## 5. Paths as texts -/

theorem Path.cut_of_notMem {cs : List Char} (h : '.' ∉ cs) : Path.cut cs = [cs] := by
  induction cs with
  | nil => rfl
  | cons c cs ih =>
    have hc : c ≠ '.' := (List.ne_of_not_mem_cons h).symm
    rw [Path.cut, if_neg hc, ih (List.not_mem_of_not_mem_cons h)]

theorem Path.segments_intercalate {segs : List String} (hne : segs ≠ []) (hsegs : ∀ s ∈ segs, IsSegment s) :
    Path.segments (".".intercalate segs) = segs := by
  have hone : ∀ s, IsSegment s → Path.segments s = [s] := by
    intro s hs
    rw [Path.segments, Path.cut_of_notMem fun hmem => (hs.chars.2 _ hmem).2 rfl, List.map_singleton,
      String.ofList_toList]
  obtain ⟨s, segs, rfl⟩ := List.exists_cons_of_ne_nil hne
  induction segs generalizing s with
  | nil => rw [String.intercalate_singleton, hone s (hsegs s List.mem_cons_self)]
  | cons e segs ih =>
    obtain ⟨hs, hrest⟩ := List.forall_mem_cons.1 hsegs
    rw [String.intercalate_cons_cons, Path.segments_append, hone s hs, ih e (List.cons_ne_nil _ _) hrest]
    rfl

/-- **A path in an expression leads where the path of the context leads.** Behind `ctx`, a path of names and numerals
that has no segment `length` and leads through no text is evaluated to what the context has there, or to the
undefined value if it has nothing there, however the numerals are grouped into numbers and whatever its names mean
elsewhere. -/
theorem evaluate_path_eq (names : Names) (data : Value) (segs : List String)
    (hctx : names.lookup "ctx" = some data) (hne : segs ≠ []) (hsegs : ∀ s ∈ segs, IsSegment s)
    (hlength : "length" ∉ segs) (htexts : ∀ k < segs.length, ∀ t, data.at? (segs.take k) ≠ some (.str t)) :
    evaluate (Expr.pathText "ctx" segs) names =
      .ok ((data.atPath? (".".intercalate segs)).getD .undefined) := by
  have hroot : Expr.IsVariable "ctx" :=
    ⟨.of_eq rfl rfl rfl, Expr.wordLiteral?_eq_none_iff.mp (by decide), by decide⟩
  have hname : (Expr.name "ctx").eval names = .ok data := by rw [Expr.eval, hctx]
  rw [Value.atPath?, Path.segments_intercalate hne hsegs, evaluate, Expr.parse_pathText hroot hne hsegs]
  dsimp only
  rw [Expr.eval_along hname hlength htexts]

/-- Lists within lists, below words that are an operator and a literal elsewhere. -/
def nestedRows : Value :=
  .ofMembers [("in", .ofList [.ofList [.int 0, .ofList [.int 1, .ofMembers [("true", .int 7)]]]])]

/-- The three numerals are two tokens, and each is a segment of its own. -/
theorem evaluate_path_eq_nestedRows :
    (∀ s ∈ ["in", "0", "1", "1", "true"], IsSegment s) ∧
      (∀ k < 5, ∀ t, nestedRows.at? (["in", "0", "1", "1", "true"].take k) ≠ some (.str t)) ∧
        evaluate "ctx.in.0.1.1.true" [("ctx", nestedRows)] = .ok (.int 7) := by
  have hzero : IsNumeral "0" := .of_all (by decide) rfl
  have hone : IsNumeral "1" := .of_all (by decide) rfl
  have hsegs : ∀ s ∈ ["in", "0", "1", "1", "true"], IsSegment s := by
    simp only [List.forall_mem_cons, List.not_mem_nil, false_imp_iff, implies_true, and_true]
    exact ⟨.inl (.of_eq rfl rfl rfl), .inr hzero, .inr hone, .inr hone, .inl (.of_eq rfl rfl rfl)⟩
  have htexts : ∀ k < 5, ∀ t, nestedRows.at? (["in", "0", "1", "1", "true"].take k) ≠ some (.str t) := by
    have hno : ∀ k < 5, (nestedRows.at? (["in", "0", "1", "1", "true"].take k)).any Value.isText = false := by
      decide +kernel
    intro k hk t ht
    have h := hno k hk
    rw [ht] at h
    cases h
  have hpath := evaluate_path_eq [("ctx", nestedRows)] nestedRows ["in", "0", "1", "1", "true"] rfl
    (List.cons_ne_nil _ _) hsegs (by decide) htexts
  exact ⟨hsegs, htexts, hpath⟩

end NodeFlow
