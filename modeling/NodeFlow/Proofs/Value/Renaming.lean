import Mathlib.Logic.Function.Basic
import NodeFlow.Proofs.Description.Marks
import NodeFlow.Proofs.Json.Decoded
import NodeFlow.Proofs.Memory.Seal
import NodeFlow.Value.Combine
import NodeFlow.Value.Display
/-!
# Renaming

A value is marked by the cells that it is a view of, and a not-a-number is labelled. Which cells and labels
they are is of no account: computing with values only ever asks whether two of them are the same. So a
computation gives the same for values that are renamed, up to the renaming, as long as different cells and
labels stay different.

The awkward thing up front: equality of containers looks at labels, and equality of stores at cells. Those are
the two places where a renaming has to be injective.
-/

set_option autoImplicit false

namespace NodeFlow

/-- A way to rename cells, and the labels of not-a-numbers. Different ones stay different, and so does the
label of what is decoded. -/
structure Renaming where
  cell : Addr → Addr
  label : Nat → Nat
  cell_injective : Function.Injective cell
  label_injective : Function.Injective label
  label_zero : label 0 = 0

/-- The renaming that changes nothing. -/
def Renaming.refl : Renaming := ⟨id, id, Function.injective_id, Function.injective_id, rfl⟩

@[simp] theorem Renaming.refl_cell : Renaming.refl.cell = id := rfl

@[simp] theorem Renaming.refl_label : Renaming.refl.label = id := rfl

/-! ## 1. What is renamed -/

/-- A number under a renaming. -/
def Binary64.renamed (σ : Renaming) : Binary64 → Binary64
  | .nan label => .nan (label.map σ.label)
  | x => x

/-- A number of either kind under a renaming. -/
def Number.renamed (σ : Renaming) : Number → Number
  | .int n => .int n
  | .float x => .float (x.renamed σ)

mutual

/-- A value under a renaming. -/
def Value.renamed (σ : Renaming) : Value → Value
  | .float x => .float (x.renamed σ)
  | .list cell items => .list (cell.map σ.cell) (renamedItems σ items)
  | .dict cell members => .dict (cell.map σ.cell) (renamedMembers σ members)
  | .store cell name members => .store (σ.cell cell) name (renamedMembers σ members)
  | v => v
termination_by structural v => v

/-- The elements of a list under a renaming. -/
def renamedItems (σ : Renaming) : List Value → List Value
  | [] => []
  | x :: xs => x.renamed σ :: renamedItems σ xs
termination_by structural xs => xs

/-- The members of an object under a renaming. -/
def renamedMembers (σ : Renaming) : List (String × Value) → List (String × Value)
  | [] => []
  | (k, x) :: ms => (k, x.renamed σ) :: renamedMembers σ ms
termination_by structural ms => ms

end

variable {σ : Renaming}

@[simp] theorem Binary64.render_renamed (x : Binary64) : (x.renamed σ).render = x.render := by
  cases x <;> rfl

namespace Value

theorem renamedItems_eq (xs : List Value) : renamedItems σ xs = xs.map (renamed σ) := by
  induction xs with
  | nil => rfl
  | cons x xs ih => rw [renamedItems, ih, List.map_cons]

theorem renamedMembers_eq (ms : List (String × Value)) :
    renamedMembers σ ms = ms.map fun m => (m.1, m.2.renamed σ) := by
  induction ms with
  | nil => rfl
  | cons m ms ih => rw [renamedMembers, ih, List.map_cons]

@[simp] theorem renamed_null : Value.null.renamed σ = .null := rfl

@[simp] theorem renamed_undefined : Value.undefined.renamed σ = .undefined := rfl

@[simp] theorem renamed_bool (b : Bool) : (Value.bool b).renamed σ = .bool b := rfl

@[simp] theorem renamed_int (n : Int) : (Value.int n).renamed σ = .int n := rfl

@[simp] theorem renamed_float (x : Binary64) : (Value.float x).renamed σ = .float (x.renamed σ) := rfl

@[simp] theorem renamed_str (s : String) : (Value.str s).renamed σ = .str s := rfl

@[simp] theorem renamed_list (cell : Option Addr) (xs : List Value) :
    (Value.list cell xs).renamed σ = .list (cell.map σ.cell) (xs.map (renamed σ)) := by
  rw [renamed, renamedItems_eq]

@[simp] theorem renamed_dict (cell : Option Addr) (ms : List (String × Value)) :
    (Value.dict cell ms).renamed σ = .dict (cell.map σ.cell) (ms.map fun m => (m.1, m.2.renamed σ)) := by
  rw [renamed, renamedMembers_eq]

@[simp] theorem renamed_store (cell : Addr) (name : String) (ms : List (String × Value)) :
    (Value.store cell name ms).renamed σ =
      .store (σ.cell cell) name (ms.map fun m => (m.1, m.2.renamed σ)) := by
  rw [renamed, renamedMembers_eq]

@[simp] theorem renamed_ofList (xs : List Value) : (ofList xs).renamed σ = ofList (xs.map (renamed σ)) := by
  simp [ofList]

@[simp] theorem renamed_ofMembers (ms : List (String × Value)) :
    (ofMembers ms).renamed σ = ofMembers (ms.map fun m => (m.1, m.2.renamed σ)) := by
  simp [ofMembers]

/-- The renaming that changes nothing changes no value. -/
theorem renamed_refl (v : Value) : v.renamed .refl = v := by
  induction v using Value.induction with
  | plain v hp =>
    cases v with
    | float x =>
      cases x with
      | nan label => simp [Binary64.renamed]
      | _ => rfl
    | list | dict | store => cases hp
    | _ => rfl
  | list cell xs ih =>
    have hxs : xs.map (renamed .refl) = xs := by simpa using List.map_congr_left ih
    simp [hxs]
  | dict cell ms ih =>
    have hms : ms.map (fun m => (m.1, m.2.renamed .refl)) = ms := by
      have hpairs : ∀ m ∈ ms, (m.1, m.2.renamed .refl) = m := fun m hm => by rw [ih m hm]
      simpa using List.map_congr_left hpairs
    simp [hms]
  | store cell name ms ih =>
    have hms : ms.map (fun m => (m.1, m.2.renamed .refl)) = ms := by
      have hpairs : ∀ m ∈ ms, (m.1, m.2.renamed .refl) = m := fun m hm => by rw [ih m hm]
      simpa using List.map_congr_left hpairs
    simp [hms]

/-- A decoded value has nothing that could be renamed. -/
theorem IsDecoded.renamed_eq {v : Value} (hv : v.IsDecoded) : v.renamed σ = v := by
  induction hv with
  | @float x hx =>
    cases x with
    | nan label =>
      obtain rfl := hx label rfl
      simp [Binary64.renamed, σ.label_zero]
    | _ => rfl
  | @list xs _ ih =>
    have hxs : xs.map (renamed σ) = xs := by simpa using List.map_congr_left ih
    simp [hxs]
  | @dict ms _ ih =>
    have hpairs : ∀ m ∈ ms, (m.1, m.2.renamed σ) = m := fun m hm => by rw [ih m hm]
    have hms : ms.map (fun m => (m.1, m.2.renamed σ)) = ms := by simpa using List.map_congr_left hpairs
    simp [hms]
  | _ => rfl

/-! ## 2. Parts -/

@[simp] theorem truthy_renamed (v : Value) : (v.renamed σ).truthy = v.truthy := by
  cases v with
  | float x => cases x <;> rfl
  | _ => simp [truthy]

@[simp] theorem isNumber_renamed (v : Value) : (v.renamed σ).isNumber = v.isNumber := by
  cases v <;> simp [isNumber]

@[simp] theorem typeName_renamed (v : Value) : (v.renamed σ).typeName = v.typeName := by
  cases v <;> simp [typeName]

@[simp] theorem isDict_renamed (v : Value) : (v.renamed σ).isDict = v.isDict := by
  cases v <;> simp [isDict]

@[simp] theorem isList_renamed (v : Value) : (v.renamed σ).isList = v.isList := by
  cases v <;> simp [isList]

@[simp] theorem isNull_renamed (v : Value) : (v.renamed σ).isNull = v.isNull := by
  cases v <;> simp [isNull]

@[simp] theorem isText_renamed (v : Value) : (v.renamed σ).isText = v.isText := by
  cases v <;> simp [isText]

@[simp] theorem isHashable_renamed (v : Value) : (v.renamed σ).isHashable = v.isHashable := by
  cases v <;> simp [isHashable]

@[simp] theorem name?_renamed (v : Value) : (v.renamed σ).name? = v.name? := by
  cases v <;> simp [name?]

@[simp] theorem items_renamed (v : Value) : (v.renamed σ).items = v.items.map (renamed σ) := by
  cases v <;> simp [items]

@[simp] theorem members_renamed (v : Value) :
    (v.renamed σ).members = v.members.map fun m => (m.1, m.2.renamed σ) := by
  cases v <;> simp [members]

@[simp] theorem field_renamed (v : Value) (key : String) :
    (v.renamed σ).field key = (v.field key).renamed σ := by
  rw [field, field, members_renamed, Members.get?_map]
  cases Members.get? v.members key <;> rfl

@[simp] theorem fieldOr_renamed (v other : Value) (key : String) :
    Description.fieldOr (v.renamed σ) key (other.renamed σ) = (Description.fieldOr v key other).renamed σ := by
  rw [Description.fieldOr, Description.fieldOr, members_renamed, Members.get?_map]
  cases Members.get? v.members key <;> rfl

@[simp] theorem orElse_renamed (v other : Value) :
    (v.renamed σ).orElse (other.renamed σ) = (v.orElse other).renamed σ := by
  rw [orElse, orElse, truthy_renamed]
  split <;> rfl

/-! ## 3. Texts -/

theorem notateItems_eq (xs : List Value) : notateItems xs = xs.map notate := by
  induction xs with
  | nil => rfl
  | cons x xs ih => rw [notateItems, ih, List.map_cons]

theorem notateMembers_eq (ms : List (String × Value)) :
    notateMembers ms = ms.map fun m => Text.quoted m.1 ++ ": " ++ m.2.notate := by
  induction ms with
  | nil => rfl
  | cons m ms ih => rw [notateMembers, ih, List.map_cons]

/-- Messages show nothing of marks and labels. -/
@[simp] theorem notate_renamed (v : Value) : (v.renamed σ).notate = v.notate := by
  induction v using Value.induction with
  | plain v hp =>
    cases v with
    | float x => exact Binary64.render_renamed x
    | list | dict | store => cases hp
    | _ => rfl
  | list cell xs ih =>
    have hall := congrArg (joinWith ", ") (List.map_congr_left ih)
    simpa [notate, notateItems_eq, Function.comp_def] using hall
  | dict cell ms ih =>
    have hms : ∀ m ∈ ms, Text.quoted m.1 ++ ": " ++ (m.2.renamed σ).notate =
        Text.quoted m.1 ++ ": " ++ m.2.notate := fun m hm => by rw [ih m hm]
    have hall := congrArg (joinWith ", ") (List.map_congr_left hms)
    simpa [notate, notateMembers_eq, Function.comp_def] using hall
  | store cell name ms ih => simp [notate, Function.comp_def]

@[simp] theorem plain_renamed (v : Value) : (v.renamed σ).plain = v.plain := by
  cases v with
  | str s => rfl
  | _ =>
    rw [plain, plain, notate_renamed] <;> simp

theorem writeItems_renamed {xs : List Value}
    (hxs : ∀ x ∈ xs, Json.writeHeld (x.renamed σ) = Json.writeHeld x) :
    Json.writeItems (xs.map (renamed σ)) = Json.writeItems xs := by
  induction xs with
  | nil => rfl
  | cons x xs ih =>
    rw [List.forall_mem_cons] at hxs
    rw [List.map_cons, Json.writeItems, Json.writeItems, hxs.1, ih hxs.2]

theorem writeMembers_renamed {ms : List (String × Value)}
    (hms : ∀ m ∈ ms, Json.writeHeld (m.2.renamed σ) = Json.writeHeld m.2) :
    Json.writeMembers (ms.map fun m => (m.1, m.2.renamed σ)) = Json.writeMembers ms := by
  induction ms with
  | nil => rfl
  | cons m ms ih =>
    rw [List.forall_mem_cons] at hms
    rw [List.map_cons, Json.writeMembers, Json.writeMembers, hms.1, ih hms.2]

/-- Nor does JSON. -/
@[simp] theorem writeHeld_renamed (v : Value) : Json.writeHeld (v.renamed σ) = Json.writeHeld v := by
  induction v using Value.induction with
  | plain v hp =>
    cases v with
    | float x => cases x <;> rfl
    | list | dict | store => cases hp
    | _ => rfl
  | list cell xs ih =>
    cases xs with
    | nil => simp [Json.writeHeld]
    | cons x xs =>
      rw [List.forall_mem_cons] at ih
      simp [Json.writeHeld, ih.1, writeItems_renamed ih.2]
  | dict cell ms ih =>
    cases ms with
    | nil => simp [Json.writeHeld]
    | cons m ms =>
      rw [List.forall_mem_cons] at ih
      simp [Json.writeHeld, ih.1, writeMembers_renamed ih.2]
  | store cell name ms ih =>
    have hnotate := @notate_renamed σ (.store cell name ms)
    rw [renamed_store] at hnotate ⊢
    rw [Json.writeHeld, Json.writeHeld, Json.writeAtom, Json.writeAtom, hnotate] <;> simp

@[simp] theorem render_renamed (v : Value) : Json.render (v.renamed σ) = Json.render v := by
  have hwrite : Json.write (v.renamed σ) = Json.write v := by
    have hheld := @writeHeld_renamed σ v
    cases v with
    | undefined => rfl
    | list | dict | store => simpa [Json.write] using hheld
    | _ => exact hheld
  rw [Json.render, Json.render, hwrite]

@[simp] theorem display_renamed (v : Value) : (v.renamed σ).display = v.display := by
  cases v with
  | float x => cases x <;> rfl
  | list cell xs =>
    have hrender := @render_renamed σ (.list cell xs)
    rw [renamed_list] at hrender ⊢
    exact hrender
  | dict cell ms =>
    have hrender := @render_renamed σ (.dict cell ms)
    rw [renamed_dict] at hrender ⊢
    exact hrender
  | store cell name ms => simp [display, Function.comp_def]
  | _ => rfl

end Value

end NodeFlow
