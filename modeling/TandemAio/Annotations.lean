import Mathlib.Data.List.Basic
import Mathlib.Tactic.FinCases

/-!
# `_is_wasm_compatible_annotation` and `_rust_type` of the SDK

Which type annotations the validator lets through, and what the builder lowers them to.
-/

namespace TandemAio

/-- The syntax of an annotation. -/
inductive Annotation
  /-- The constant `None`. -/
  | none
  | name (id : String)
  | subscript (value slice : Annotation)
  | tuple (elts : List Annotation)
  /-- `left | right` -/
  | bitOr (left right : Annotation)
  /-- The constant `...`. -/
  | ellipsis
  /-- Any other expression: neither function looks into it. -/
  | other

namespace Annotation

/-! ## The validator -/

def wasmScalarNames : List String := ["int", "float", "bool", "str", "bytes"]

def wasmContainerNames : List String := ["list", "List", "dict", "Dict", "tuple", "Tuple"]

mutual

/-- `_is_wasm_compatible_annotation` -/
def isWasmCompatible : Annotation → Bool
  | .none => true
  | .name id => id ∈ wasmScalarNames ∨ id = "None"
  | .subscript (.name origin) slice =>
    if origin ∉ wasmContainerNames then false
    else
      match slice with
      | .tuple elts => allWasmCompatible elts
      | slice => slice.isWasmCompatible
  | .subscript _ _ => false
  | .bitOr left right => left.isWasmCompatible && right.isWasmCompatible
  | .tuple _ => false
  | .ellipsis => false
  | .other => false

def allWasmCompatible : List Annotation → Bool
  | [] => true
  | elt :: rest => elt.isWasmCompatible && allWasmCompatible rest

end

/-! ## The builder -/

/-- `_TYPE_MAP` -/
def typeMap : List (String × String) :=
  [("int", "i64"), ("float", "f64"), ("bool", "bool"), ("str", "String"), ("bytes", "Vec<u8>"),
    ("None", "()")]

mutual

/-- `_rust_type` of an annotation. -/
def rustType : Annotation → String
  | .none => "()"
  | .name id => if id = "None" then "()" else (typeMap.lookup id).getD "i64"
  | .subscript (.name origin) slice =>
    if origin ∈ ["list", "List"] then "Vec<" ++ slice.rustType ++ ">"
    else if origin ∈ ["dict", "Dict"] then
      match slice with
      | .tuple [k, v] =>
        "std::collections::HashMap<" ++ k.rustType ++ ", " ++ v.rustType ++ ">"
      | _ => "i64"
    else if origin ∈ ["tuple", "Tuple"] then
      match slice with
      | .tuple elts => "(" ++ ", ".intercalate (rustTypes elts) ++ ")"
      | _ => "i64"
    else "i64"
  | _ => "i64"

def rustTypes : List Annotation → List String
  | [] => []
  | elt :: rest => elt.rustType :: rustTypes rest

end

/-- `_rust_type` of an annotation that may be missing. -/
def rustTypeOrDefault (hint : Option Annotation) : String :=
  (hint.map rustType).getD "i64"

attribute [local simp] isWasmCompatible allWasmCompatible rustType rustTypes

theorem allWasmCompatible_iff {elts : List Annotation} :
    allWasmCompatible elts = true ↔ ∀ elt ∈ elts, elt.isWasmCompatible = true := by
  induction elts with
  | nil => simp
  | cons elt rest ih => simp [ih]

theorem rustTypes_eq_map (elts : List Annotation) : rustTypes elts = elts.map rustType := by
  induction elts with
  | nil => rfl
  | cons elt rest ih => rw [rustTypes, ih, List.map_cons]

/-! ## Structural lowering -/

/-- The Rust type of the tuples of some types. -/
def rustTuple : List String → String
  | [] => "()"
  | [t] => "(" ++ t ++ ",)"
  | ts => "(" ++ ", ".intercalate ts ++ ")"

/-- The builder lowers the annotation as what it says, and so everything in it. -/
inductive Lowered : Annotation → Prop
  | none : rustType .none = "()" → Lowered .none
  | scalar {id t} : typeMap.lookup id = some t → rustType (.name id) = t → Lowered (.name id)
  | list {origin elt} : origin ∈ ["list", "List"] → Lowered elt →
      rustType (.subscript (.name origin) elt) = "Vec<" ++ elt.rustType ++ ">" →
      Lowered (.subscript (.name origin) elt)
  | dict {origin k v} : origin ∈ ["dict", "Dict"] → Lowered k → Lowered v →
      rustType (.subscript (.name origin) (.tuple [k, v])) =
        "std::collections::HashMap<" ++ k.rustType ++ ", " ++ v.rustType ++ ">" →
      Lowered (.subscript (.name origin) (.tuple [k, v]))
  | tuple {origin elts} : origin ∈ ["tuple", "Tuple"] → (∀ elt ∈ elts, Lowered elt) →
      rustType (.subscript (.name origin) (.tuple elts)) = rustTuple (elts.map rustType) →
      Lowered (.subscript (.name origin) (.tuple elts))

/-- The forms that the validator's documentation allows. -/
inductive Documented : Annotation → Prop
  | none : Documented .none
  | scalar {id} : id ∈ ["int", "float", "bool", "str", "bytes", "None"] → Documented (.name id)
  | list {elt} : elt.isWasmCompatible = true → Documented (.subscript (.name "list") elt)
  | dict {k v} : k.isWasmCompatible = true → v.isWasmCompatible = true →
      Documented (.subscript (.name "dict") (.tuple [k, v]))
  | tuple {elt} : elt.isWasmCompatible = true →
      Documented (.subscript (.name "tuple") (.tuple [elt, .ellipsis]))

/-- The validator and the builder agree on an annotation: what is let through is lowered as what
it says, and what is documented is let through. -/
structure Agreed (a : Annotation) : Prop where
  lowered : a.isWasmCompatible = true → a.Lowered
  accepted : a.Documented → a.isWasmCompatible = true

/-- An annotation that says what it is of: no union, one argument for a list, two for a dict, and
a tuple's arguments in a tuple that is not of length one. -/
inductive Plain : Annotation → Prop
  | none : Plain .none
  | name (id) : Plain (.name id)
  | list {origin elt} : origin ∈ ["list", "List"] → Plain elt →
      Plain (.subscript (.name origin) elt)
  | dict {origin k v} : origin ∈ ["dict", "Dict"] → Plain k → Plain v →
      Plain (.subscript (.name origin) (.tuple [k, v]))
  | tuple {origin elts} : origin ∈ ["tuple", "Tuple"] → elts.length ≠ 1 →
      (∀ elt ∈ elts, Plain elt) → Plain (.subscript (.name origin) (.tuple elts))

/-! ## Where the two agree -/

variable {a elt : Annotation} {elts : List Annotation} {origin : String}

theorem rustType_list (h : origin ∈ ["list", "List"]) (elt : Annotation) :
    rustType (.subscript (.name origin) elt) = "Vec<" ++ elt.rustType ++ ">" := by
  conv_lhs => unfold rustType
  rw [if_pos h]

theorem rustType_dict (h : origin ∈ ["dict", "Dict"]) (k v : Annotation) :
    rustType (.subscript (.name origin) (.tuple [k, v])) =
      "std::collections::HashMap<" ++ k.rustType ++ ", " ++ v.rustType ++ ">" := by
  have hlist : origin ∉ ["list", "List"] := by
    rintro hlist
    revert h
    fin_cases hlist <;> decide
  rw [rustType, if_neg hlist, if_pos h]

theorem rustType_tuple (h : origin ∈ ["tuple", "Tuple"]) (elts : List Annotation) :
    rustType (.subscript (.name origin) (.tuple elts)) =
      "(" ++ ", ".intercalate (elts.map rustType) ++ ")" := by
  have hlist : origin ∉ ["list", "List"] := by
    rintro hlist
    revert h
    fin_cases hlist <;> decide
  have hdict : origin ∉ ["dict", "Dict"] := by
    rintro hdict
    revert h
    fin_cases hdict <;> decide
  conv_lhs => unfold rustType
  rw [if_neg hlist, if_neg hdict, if_pos h]
  dsimp only
  rw [rustTypes_eq_map]

theorem isWasmCompatible_tuple (h : origin ∈ wasmContainerNames) (elts : List Annotation) :
    (subscript (.name origin) (.tuple elts)).isWasmCompatible = true ↔
      ∀ elt ∈ elts, elt.isWasmCompatible = true := by
  rw [isWasmCompatible, if_neg (not_not.mpr h)]
  exact allWasmCompatible_iff

theorem isWasmCompatible_list (h : origin ∈ wasmContainerNames)
    (helt : ∀ elts, elt ≠ .tuple elts) :
    (subscript (.name origin) elt).isWasmCompatible = elt.isWasmCompatible := by
  rw [isWasmCompatible, if_neg (not_not.mpr h)]
  exact helt

theorem Plain.not_tuple (h : elt.Plain) (elts : List Annotation) : elt ≠ .tuple elts := by
  rintro rfl
  cases h

/-- A name that is let through is a type that the builder knows. -/
theorem lowered_name {id : String} (h : (name id).isWasmCompatible = true) :
    (name id).Lowered := by
  have hid : id ∈ ["int", "float", "bool", "str", "bytes", "None"] := by
    rw [isWasmCompatible] at h
    rcases of_decide_eq_true h with hid | rfl
    · exact List.mem_append_left ["None"] hid
    · decide
  fin_cases hid <;> exact .scalar (by decide) rfl

theorem Plain.lowered (h : a.Plain) (ha : a.isWasmCompatible = true) : a.Lowered := by
  induction h with
  | none => exact .none rfl
  | name id => exact lowered_name ha
  | @list origin elt horigin helt ih =>
    have hname : origin ∈ wasmContainerNames := List.mem_append_left _ horigin
    rw [isWasmCompatible_list hname helt.not_tuple] at ha
    exact .list horigin (ih ha) (rustType_list horigin elt)
  | @dict origin k v horigin _ _ ihk ihv =>
    have hname : origin ∈ wasmContainerNames :=
      List.mem_append_right ["list", "List"] (List.mem_append_left _ horigin)
    have hall := (isWasmCompatible_tuple hname [k, v]).mp ha
    exact .dict horigin (ihk (hall k (by simp))) (ihv (hall v (by simp)))
      (rustType_dict horigin k v)
  | @tuple origin elts horigin hlength _ ih =>
    have hname : origin ∈ wasmContainerNames :=
      List.mem_append_right ["list", "List", "dict", "Dict"] horigin
    have hall := (isWasmCompatible_tuple hname elts).mp ha
    refine .tuple horigin (fun elt helt ↦ ih elt helt (hall elt helt)) ?_
    rw [rustType_tuple horigin]
    match elts, hlength with
    | [], _ => rfl
    | _ :: _ :: _, _ => rfl

theorem Lowered.plain (h : a.Lowered) : a.Plain := by
  induction h with
  | none => exact .none
  | scalar => exact .name _
  | list horigin _ _ ih => exact .list horigin ih
  | dict horigin _ _ _ ihk ihv => exact .dict horigin ihk ihv
  | @tuple origin elts horigin _ htype ih =>
    refine .tuple horigin (fun hlength ↦ ?_) ih
    -- the type of a tuple of one type has a comma, which the builder leaves out
    obtain ⟨elt, rfl⟩ := List.length_eq_one_iff.mp hlength
    rw [rustType_tuple horigin] at htype
    have hlengths := congrArg String.length htype
    have hone : ", ".intercalate ([elt].map rustType) = elt.rustType := rfl
    rw [hone] at hlengths
    have hends : ")".length = ",)".length := by
      simpa [rustTuple, String.length_append] using hlengths
    revert hends
    decide

/-- What the documentation allows is let through, but for tuples of any length. -/
theorem documented_accepted : (a.Documented → a.isWasmCompatible = true) ↔
    ¬∃ elt : Annotation, elt.isWasmCompatible = true ∧
      a = .subscript (.name "tuple") (.tuple [elt, .ellipsis]) := by
  constructor
  · rintro h ⟨elt, helt, rfl⟩
    have hall := (isWasmCompatible_tuple (by decide) _).mp (h (.tuple helt))
    have hellipsis := hall .ellipsis (by simp)
    revert hellipsis
    decide
  · intro h hdocumented
    cases hdocumented with
    | none => rfl
    | scalar hid => fin_cases hid <;> decide
    | @list elt helt =>
      rw [isWasmCompatible_list (by decide)]
      · exact helt
      · rintro elts rfl
        cases helt
    | @dict k v hk hv =>
      apply (isWasmCompatible_tuple (by decide) _).mpr
      intro elt helt
      fin_cases helt
      · exact hk
      · exact hv
    | @tuple elt helt => exact absurd ⟨elt, helt, rfl⟩ h

/-- The two agree on exactly the annotations that are plain if they are let through, and are no
tuple of any length. -/
theorem agreed_iff (a : Annotation) : a.Agreed ↔
    (a.isWasmCompatible = true → a.Plain) ∧
      ¬∃ elt : Annotation, elt.isWasmCompatible = true ∧
        a = .subscript (.name "tuple") (.tuple [elt, .ellipsis]) := by
  rw [← documented_accepted]
  constructor
  · exact fun h ↦ ⟨fun ha ↦ (h.lowered ha).plain, h.accepted⟩
  · exact fun h ↦ ⟨fun ha ↦ (h.1 ha).lowered ha, h.2⟩

/-- An optional integer is let through, and lowered to an integer. -/
theorem union_not_agreed : ¬∀ a : Annotation, a.Agreed := by
  intro h
  have hlowered := (h (.bitOr (.name "int") .none)).lowered (by decide)
  cases hlowered

end Annotation

end TandemAio
