/-
# JSON values

The values that `json.loads` makes and `json.dumps` takes.  An object is the list of its fields
in key order: the texts this development reads and writes are all made with `sort_keys`, and
two dicts that differ only in insertion order are equal.  `dict` and `set` keep the order, and
the lemmas about `get?` do not ask for it.

`pyEq` is `==`: it does not tell `True` from `1` or `1.0`.
-/
import Mathlib.Algebra.Group.Int.Defs
import Mathlib.Data.List.Basic
import Mathlib.Data.String.Basic

namespace ProductPdfQr

/-! ## 1. Values -/

/-- A float literal: `digits · 10 ^ exponent` with a sign, or one of the three literals that
are no number. -/
inductive FloatLit
  | finite (negative : Bool) (digits : Nat) (exponent : Int)
  | infinity (negative : Bool)
  | nan
  deriving DecidableEq, Repr

/-- A JSON value.  The fields of an object stand in key order. -/
inductive Json
  | null
  | bool (b : Bool)
  | int (n : Int)
  | float (x : FloatLit)
  | str (s : String)
  | arr (items : List Json)
  | obj (fields : List (String × Json))
  deriving Repr

namespace Json

/-- The fields of an object. -/
abbrev Fields := List (String × Json)

instance : Inhabited Json := ⟨.null⟩

/-! ### Equality is decidable -/

mutual

/-- Decide whether two values are the same. -/
def decEq : (a b : Json) → Decidable (a = b)
  | .null, .null => isTrue rfl
  | .bool a, .bool b => decidable_of_iff (a = b) ⟨congrArg _, fun h => Json.bool.inj h⟩
  | .int a, .int b => decidable_of_iff (a = b) ⟨congrArg _, fun h => Json.int.inj h⟩
  | .float a, .float b => decidable_of_iff (a = b) ⟨congrArg _, fun h => Json.float.inj h⟩
  | .str a, .str b => decidable_of_iff (a = b) ⟨congrArg _, fun h => Json.str.inj h⟩
  | .arr a, .arr b =>
    match decEqItems a b with
    | isTrue h => isTrue (congrArg _ h)
    | isFalse h => isFalse fun h' => h (Json.arr.inj h')
  | .obj a, .obj b =>
    match decEqFields a b with
    | isTrue h => isTrue (congrArg _ h)
    | isFalse h => isFalse fun h' => h (Json.obj.inj h')
  | .null, .bool _ | .null, .int _ | .null, .float _ | .null, .str _ | .null, .arr _
  | .null, .obj _ | .bool _, .null | .bool _, .int _ | .bool _, .float _ | .bool _, .str _
  | .bool _, .arr _ | .bool _, .obj _ | .int _, .null | .int _, .bool _ | .int _, .float _
  | .int _, .str _ | .int _, .arr _ | .int _, .obj _ | .float _, .null | .float _, .bool _
  | .float _, .int _ | .float _, .str _ | .float _, .arr _ | .float _, .obj _ | .str _, .null
  | .str _, .bool _ | .str _, .int _ | .str _, .float _ | .str _, .arr _ | .str _, .obj _
  | .arr _, .null | .arr _, .bool _ | .arr _, .int _ | .arr _, .float _ | .arr _, .str _
  | .arr _, .obj _ | .obj _, .null | .obj _, .bool _ | .obj _, .int _ | .obj _, .float _
  | .obj _, .str _ | .obj _, .arr _ => isFalse (by simp)

/-- Decide whether two arrays have the same items. -/
def decEqItems : (a b : List Json) → Decidable (a = b)
  | [], [] => isTrue rfl
  | [], _ :: _ | _ :: _, [] => isFalse (by simp)
  | x :: xs, y :: ys =>
    match decEq x y, decEqItems xs ys with
    | isTrue h, isTrue h' => isTrue (by rw [h, h'])
    | isFalse h, _ => isFalse fun h' => h (List.cons.inj h').1
    | _, isFalse h => isFalse fun h' => h (List.cons.inj h').2

/-- Decide whether two objects have the same fields. -/
def decEqFields : (a b : Fields) → Decidable (a = b)
  | [], [] => isTrue rfl
  | [], _ :: _ | _ :: _, [] => isFalse (by simp)
  | (k, x) :: xs, (k', y) :: ys =>
    if hk : k = k' then
      match decEq x y, decEqFields xs ys with
      | isTrue h, isTrue h' => isTrue (by rw [hk, h, h'])
      | isFalse h, _ => isFalse fun h' => h (Prod.mk.inj (List.cons.inj h').1).2
      | _, isFalse h => isFalse fun h' => h (List.cons.inj h').2
    else isFalse fun h' => hk (Prod.mk.inj (List.cons.inj h').1).1

end

instance : DecidableEq Json := decEq

/-! ## 2. Fields -/

/-- The value of the field `k`. -/
def lookupField (k : String) : Fields → Option Json
  | [] => none
  | (k', v) :: rest => if k = k' then some v else lookupField k rest

/-- Set the field `k`, keeping the order of the keys. -/
def insertField (k : String) (v : Json) : Fields → Fields
  | [] => [(k, v)]
  | (k', v') :: rest =>
    if k = k' then (k, v) :: rest
    else if k < k' then (k, v) :: (k', v') :: rest
    else (k', v') :: insertField k v rest

/-- Drop the field `k`. -/
def eraseField (k : String) (fs : Fields) : Fields := fs.filter (·.1 ≠ k)

@[simp] theorem lookupField_nil (k : String) : lookupField k [] = none := rfl

theorem lookupField_insertField (k k' : String) (v : Json) (fs : Fields) :
    lookupField k' (insertField k v fs) = if k' = k then some v else lookupField k' fs := by
  induction fs with
  | nil => simp [insertField, lookupField]
  | cons f rest ih =>
    obtain ⟨k₁, v₁⟩ := f
    by_cases hk : k = k₁
    · subst hk
      by_cases hk' : k' = k <;> simp [insertField, lookupField, hk']
    · by_cases hlt : k < k₁
      · simp only [insertField, hk, hlt, if_true, if_false, lookupField]
      · simp only [insertField, hk, hlt, if_false, lookupField, ih]
        by_cases h₁ : k' = k₁
        · subst h₁
          simp [Ne.symm hk]
        · simp [h₁]

theorem mem_keys_insertField {k k' : String} {v : Json} {fs : Fields} :
    k' ∈ (insertField k v fs).map Prod.fst ↔ k' = k ∨ k' ∈ fs.map Prod.fst := by
  induction fs with
  | nil => simp [insertField]
  | cons f rest ih =>
    obtain ⟨k₁, v₁⟩ := f
    by_cases hk : k = k₁
    · subst hk
      simp [insertField]
    · by_cases hlt : k < k₁
      · simp [insertField, hk, hlt]
      · simp only [insertField, hk, hlt, if_false, List.map_cons, List.mem_cons, ih]
        tauto

/-- The keys stand in order, each once. -/
def SortedFields (fs : Fields) : Prop := (fs.map Prod.fst).Pairwise (· < ·)

instance (fs : Fields) : Decidable (SortedFields fs) :=
  inferInstanceAs (Decidable (List.Pairwise _ _))

theorem SortedFields.insertField {fs : Fields} (h : SortedFields fs) (k : String) (v : Json) :
    SortedFields (Json.insertField k v fs) := by
  induction fs with
  | nil => simp [Json.insertField, SortedFields]
  | cons f rest ih =>
    obtain ⟨k₁, v₁⟩ := f
    have hrest : SortedFields rest := (List.pairwise_cons.mp h).2
    have hhead : ∀ k' ∈ rest.map Prod.fst, k₁ < k' := (List.pairwise_cons.mp h).1
    by_cases hk : k = k₁
    · subst hk
      simp only [Json.insertField, if_true]
      exact h
    · by_cases hlt : k < k₁
      · simp only [Json.insertField, hk, hlt, if_true, if_false]
        refine List.pairwise_cons.mpr ⟨fun k' hk' => ?_, h⟩
        rcases List.mem_cons.mp hk' with rfl | hk'
        · exact hlt
        · exact hlt.trans (hhead k' hk')
      · simp only [Json.insertField, hk, hlt, if_false]
        refine List.pairwise_cons.mpr ⟨fun k' hk' => ?_, ih hrest⟩
        rcases mem_keys_insertField.mp hk' with rfl | hk'
        · exact lt_of_le_of_ne (not_lt.mp hlt) (Ne.symm hk)
        · exact hhead k' hk'

/-- A field that sorts after all the others goes to the end. -/
theorem insertField_append {fs : Fields} {k : String} {v : Json}
    (h : ∀ k' ∈ fs.map Prod.fst, k' < k) : insertField k v fs = fs ++ [(k, v)] := by
  induction fs with
  | nil => rfl
  | cons f rest ih =>
    obtain ⟨k₁, v₁⟩ := f
    have hlt : k₁ < k := h k₁ (by simp)
    simp only [insertField, hlt.ne', hlt.le.not_gt, if_false, List.cons_append,
      ih fun k' hk' => h k' (by simp at hk' ⊢; exact Or.inr hk')]

/-! ## 3. Objects -/

/-- A dict display: the last value given for a key is the one it has. -/
def dict (fs : Fields) : Json := .obj (fs.foldl (fun acc f => insertField f.1 f.2 acc) [])

/-- `document.get(k)`, for a dict. -/
def get? (j : Json) (k : String) : Option Json :=
  match j with
  | .obj fs => lookupField k fs
  | _ => none

/-- `document.get(k)`: `None` when there is no such field. -/
def get (j : Json) (k : String) : Json := (j.get? k).getD .null

/-- `document[k] = v`. -/
def set (j : Json) (k : String) (v : Json) : Json :=
  match j with
  | .obj fs => .obj (insertField k v fs)
  | j => j

/-- `isinstance(value, dict)`. -/
def isDict : Json → Bool
  | .obj _ => true
  | _ => false

/-- The fields of a dict. -/
def fields : Json → Fields
  | .obj fs => fs
  | _ => []

/-- The keys of a dict. -/
def keys (j : Json) : List String := j.fields.map Prod.fst

/-- `set(document) == names`. -/
def hasKeys (j : Json) (names : List String) : Bool :=
  j.isDict && j.keys.all (· ∈ names) && names.all (· ∈ j.keys)

/-- The items of a list. -/
def items : Json → List Json
  | .arr xs => xs
  | _ => []

/-- `isinstance(value, list)`. -/
def isList : Json → Bool
  | .arr _ => true
  | _ => false

/-- The string a value is. -/
def str? : Json → Option String
  | .str s => some s
  | _ => none

/-- The integer a value is; a bool is none. -/
def int? : Json → Option Int
  | .int n => some n
  | _ => none

theorem get?_obj (fs : Fields) (k : String) : (obj fs).get? k = lookupField k fs := rfl

theorem get?_set (fs : Fields) (k k' : String) (v : Json) :
    ((obj fs).set k v).get? k' = if k' = k then some v else (obj fs).get? k' :=
  lookupField_insertField k k' v fs

theorem lookupField_append (k : String) (fs fs' : Fields) :
    lookupField k (fs ++ fs') = (lookupField k fs).or (lookupField k fs') := by
  induction fs with
  | nil => simp
  | cons f rest ih =>
    obtain ⟨k₁, v₁⟩ := f
    by_cases hk : k = k₁ <;> simp [lookupField, hk, ih]

/-- A field of a dict display is the last one given for its key. -/
theorem get?_dict (fs : Fields) (k : String) : (dict fs).get? k = lookupField k fs.reverse := by
  have key : ∀ fs acc : Fields, lookupField k (fs.foldl (fun acc f => insertField f.1 f.2 acc) acc) =
      (lookupField k fs.reverse).or (lookupField k acc) := by
    intro fs
    induction fs with
    | nil => simp
    | cons f rest ih =>
      intro acc
      obtain ⟨k₁, v₁⟩ := f
      rw [List.foldl_cons, ih, lookupField_insertField, List.reverse_cons, lookupField_append]
      by_cases hk : k = k₁ <;> simp [lookupField, hk]
  simpa [dict, get?] using key fs []

theorem get_dict (fs : Fields) (k : String) :
    (dict fs).get k = (lookupField k fs.reverse).getD .null := by
  rw [get, get?_dict]

theorem lookupField_eq_some_mem {k : String} {v : Json} {fs : Fields}
    (h : lookupField k fs = some v) : (k, v) ∈ fs := by
  induction fs with
  | nil => simp at h
  | cons f rest ih =>
    obtain ⟨k₁, v₁⟩ := f
    by_cases hk : k = k₁
    · subst hk
      simp only [lookupField, if_true, Option.some.injEq] at h
      simp [h]
    · simp only [lookupField, hk, if_false] at h
      exact List.mem_cons_of_mem _ (ih h)

theorem lookupField_isSome {k : String} {fs : Fields} :
    (lookupField k fs).isSome ↔ k ∈ fs.map Prod.fst := by
  induction fs with
  | nil => simp
  | cons f rest ih =>
    obtain ⟨k₁, v₁⟩ := f
    by_cases hk : k = k₁ <;> simp_all [lookupField]

theorem eraseField_insertField {k : String} {v : Json} :
    ∀ {fs : Fields}, lookupField k fs = none → eraseField k (insertField k v fs) = fs := by
  have hkeep : ∀ fs : Fields, lookupField k fs = none → eraseField k fs = fs := by
    intro fs h
    refine List.filter_eq_self.mpr fun f hf => ?_
    have hk : f.1 ∈ fs.map Prod.fst := List.mem_map_of_mem hf
    have hne : f.1 ≠ k := by
      rintro rfl
      rw [← lookupField_isSome, h] at hk
      exact absurd hk (by simp)
    simpa using hne
  intro fs
  induction fs with
  | nil => intro _; simp [insertField, eraseField]
  | cons f rest ih =>
    obtain ⟨k₁, v₁⟩ := f
    intro h
    have hk : k ≠ k₁ := by
      rintro rfl
      simp [lookupField] at h
    have hrest : lookupField k rest = none := by simpa [lookupField, hk] using h
    have hall := hkeep ((k₁, v₁) :: rest) h
    have ih := ih hrest
    simp only [eraseField, insertField, hk, if_false] at ih hall ⊢
    split
    · simpa using hall
    · simpa [Ne.symm hk] using ih

theorem hasKeys_obj {fs : Fields} {names : List String} (h : (obj fs).hasKeys names = true)
    {k : String} : (lookupField k fs).isSome ↔ k ∈ names := by
  rw [hasKeys, Bool.and_eq_true, Bool.and_eq_true, List.all_eq_true, List.all_eq_true] at h
  rw [lookupField_isSome]
  exact ⟨fun hk => of_decide_eq_true (h.1.2 k hk), fun hk => of_decide_eq_true (h.2 k hk)⟩

theorem hasKeys_iff {fs : Fields} {names : List String} :
    (obj fs).hasKeys names = true ↔ ∀ k, (lookupField k fs).isSome ↔ k ∈ names := by
  constructor
  · exact fun h k => hasKeys_obj h
  · intro h
    rw [hasKeys, Bool.and_eq_true, Bool.and_eq_true, List.all_eq_true, List.all_eq_true]
    refine ⟨⟨rfl, fun k hk => decide_eq_true ((h k).mp (lookupField_isSome.mpr hk))⟩,
      fun k hk => decide_eq_true (lookupField_isSome.mp ((h k).mpr hk))⟩

/-- The keys of a dict display are those it was given. -/
theorem hasKeys_dict {fs : Fields} {names : List String}
    (h : ∀ k, k ∈ fs.map Prod.fst ↔ k ∈ names) : (dict fs).hasKeys names = true := by
  refine hasKeys_iff.mpr fun k => ?_
  have hlookup := get?_dict fs k
  rw [dict, get?_obj] at hlookup
  rw [hlookup, lookupField_isSome, ← h k]
  simp

theorem mem_insertField {f : String × Json} {k : String} {v : Json} {fs : Fields}
    (h : f ∈ insertField k v fs) : f = (k, v) ∨ f ∈ fs := by
  induction fs with
  | nil => exact .inl (List.mem_singleton.mp h)
  | cons g fs ih =>
    obtain ⟨k', v'⟩ := g
    simp only [insertField] at h
    split at h
    · rcases List.mem_cons.mp h with rfl | h
      · exact .inl rfl
      · exact .inr (List.mem_cons_of_mem _ h)
    split at h
    · exact List.mem_cons.mp h
    · rcases List.mem_cons.mp h with rfl | h
      · exact .inr (List.mem_cons_self ..)
      · exact (ih h).imp_right (List.mem_cons_of_mem _)

/-- An object has no other fields than it was made of. -/
theorem mem_fields_dict {f : String × Json} {fs : Fields} (h : f ∈ (dict fs).fields) : f ∈ fs := by
  have hfold : ∀ (fs acc : Fields), f ∈ fs.foldl (fun acc f => insertField f.1 f.2 acc) acc →
      f ∈ fs ∨ f ∈ acc := by
    intro fs
    induction fs with
    | nil => exact fun acc h => .inr h
    | cons g fs ih =>
      intro acc h
      rcases ih _ h with h | h
      · exact .inl (List.mem_cons_of_mem _ h)
      · rcases mem_insertField h with rfl | h
        · exact .inl (List.mem_cons_self ..)
        · exact .inr h
  rcases hfold fs [] h with h | h
  · exact h
  · cases h

theorem mem_keys_dict {fs : Fields} {k : String} : k ∈ (dict fs).keys ↔ k ∈ fs.map Prod.fst := by
  have hlookup := get?_dict fs k
  rw [dict, get?_obj] at hlookup
  rw [dict, keys, fields, ← lookupField_isSome, hlookup, lookupField_isSome]
  simp

theorem get_set {j : Json} (h : j.isDict = true) (k k' : String) (v : Json) :
    (j.set k v).get k' = if k' = k then v else j.get k' := by
  cases j with
  | obj fs =>
    rw [get, get?_set]
    split <;> rfl
  | _ => simp [isDict] at h

theorem insertField_insertField (k : String) (v v' : Json) (fs : Fields) :
    insertField k v' (insertField k v fs) = insertField k v' fs := by
  induction fs with
  | nil => simp [insertField]
  | cons f rest ih =>
    obtain ⟨k₁, v₁⟩ := f
    by_cases hk : k = k₁
    · subst hk
      simp [insertField]
    · by_cases hlt : k < k₁
      · simp [insertField, hk, hlt]
      · simp [insertField, hk, hlt, ih]

/-- The last value set is the one that stays. -/
@[simp] theorem set_set (j : Json) (k : String) (v v' : Json) :
    (j.set k v).set k v' = j.set k v' := by
  cases j with
  | obj fs => exact congrArg obj (insertField_insertField k v v' fs)
  | _ => rfl

@[simp] theorem isDict_set (j : Json) (k : String) (v : Json) : (j.set k v).isDict = j.isDict := by
  cases j <;> rfl

@[simp] theorem isDict_dict (fs : Fields) : (dict fs).isDict = true := rfl

theorem hasKeys_isDict {j : Json} {names : List String} (h : j.hasKeys names = true) :
    ∃ fs, j = .obj fs := by
  cases j <;> simp_all [hasKeys, isDict]

/-- Setting a key that is there leaves the keys. -/
theorem hasKeys_set {j : Json} {names : List String} (h : j.hasKeys names = true) {k : String}
    (hk : k ∈ names) (v : Json) : (j.set k v).hasKeys names = true := by
  obtain ⟨fs, rfl⟩ := hasKeys_isDict h
  refine hasKeys_iff.mpr fun k' => ?_
  rw [lookupField_insertField]
  by_cases hk' : k' = k
  · simp [hk', hk]
  · rw [if_neg hk']
    exact hasKeys_obj h

/-! ## 4. Python's `==` and truth value -/

/-- The integer a float is, when it is one. -/
def FloatLit.toInt? : FloatLit → Option Int
  | .finite negative digits exponent =>
    let signed : Int := if negative then -digits else digits
    if 0 ≤ exponent then some (signed * 10 ^ exponent.toNat)
    else if signed % 10 ^ exponent.natAbs = 0 then some (signed / 10 ^ exponent.natAbs)
    else none
  | _ => none

mutual

/-- One spelling for the numbers that are equal: `True`, `1` and `1.0` become `1`. -/
def norm : Json → Json
  | .bool b => .int (if b then 1 else 0)
  | .float x => match FloatLit.toInt? x with
    | some n => .int n
    | none => .float x
  | .arr xs => .arr (normItems xs)
  | .obj fs => .obj (normFields fs)
  | .null => .null
  | .int n => .int n
  | .str s => .str s

/-- The items of an array, each with its numbers in one spelling. -/
def normItems : List Json → List Json
  | [] => []
  | x :: xs => norm x :: normItems xs

/-- The fields of an object, each with its numbers in one spelling. -/
def normFields : Fields → Fields
  | [] => []
  | (k, v) :: fs => (k, norm v) :: normFields fs

end

/-- `a == b`.  (A NaN is never compared with a NaN here: one side is always a value the code
itself wrote down.) -/
def pyEq (a b : Json) : Bool := norm a = norm b

/-- `bool(value)`. -/
def truthy : Json → Bool
  | .null => false
  | .bool b => b
  | .int n => n ≠ 0
  | .float (.finite _ digits _) => digits ≠ 0
  | .float _ => true
  | .str s => s ≠ ""
  | .arr xs => !xs.isEmpty
  | .obj fs => !fs.isEmpty

@[simp] theorem pyEq_str {j : Json} {s : String} : j.pyEq (.str s) = true ↔ j = .str s := by
  cases j with
  | float x => cases h : FloatLit.toInt? x <;> simp [pyEq, norm, h]
  | _ => simp [pyEq, norm]

@[simp] theorem pyEq_null {j : Json} : j.pyEq .null = true ↔ j = .null := by
  cases j with
  | float x => cases h : FloatLit.toInt? x <;> simp [pyEq, norm, h]
  | _ => simp [pyEq, norm]

theorem pyEq_refl (j : Json) : j.pyEq j = true := by simp [pyEq]

/-! ## 5. Plain values -/

mutual

/-- No floats, and the keys of every object in order: the values that survive a trip through
text unchanged. -/
def Plain : Json → Prop
  | .arr xs => PlainItems xs
  | .obj fs => SortedFields fs ∧ PlainFields fs
  | .float _ => False
  | .null | .bool _ | .int _ | .str _ => True

/-- Every item is plain. -/
def PlainItems : List Json → Prop
  | [] => True
  | x :: xs => Plain x ∧ PlainItems xs

/-- Every field's value is plain. -/
def PlainFields : Fields → Prop
  | [] => True
  | (_, v) :: fs => Plain v ∧ PlainFields fs

end

theorem plainItems_iff {xs : List Json} : PlainItems xs ↔ ∀ x ∈ xs, Plain x := by
  induction xs with
  | nil => simp [PlainItems]
  | cons x xs ih => simp [PlainItems, ih]

theorem plainFields_iff {fs : Fields} : PlainFields fs ↔ ∀ f ∈ fs, Plain f.2 := by
  induction fs with
  | nil => simp [PlainFields]
  | cons f fs ih =>
    obtain ⟨k, v⟩ := f
    simp [PlainFields, ih]

theorem PlainFields.insertField {fs : Fields} (h : PlainFields fs) {k : String} {v : Json}
    (hv : Plain v) : PlainFields (Json.insertField k v fs) := by
  induction fs with
  | nil => exact ⟨hv, trivial⟩
  | cons f rest ih =>
    obtain ⟨k₁, v₁⟩ := f
    unfold Json.insertField
    split
    · exact ⟨hv, h.2⟩
    · split
      · exact ⟨hv, h⟩
      · exact ⟨h.1, ih h.2⟩

/-- A dict display of plain values is plain. -/
theorem plain_dict {fs : Fields} (h : PlainFields fs) : Plain (dict fs) := by
  have key : ∀ (fs acc : Fields), PlainFields fs → SortedFields acc → PlainFields acc →
      Plain (.obj (fs.foldl (fun acc f => insertField f.1 f.2 acc) acc)) := by
    intro fs
    induction fs with
    | nil => intro acc _ hs hp; exact ⟨hs, hp⟩
    | cons f rest ih =>
      intro acc hf hs hp
      exact ih _ hf.2 (hs.insertField _ _) (hp.insertField hf.1)
  exact key fs [] h List.Pairwise.nil trivial

/-- Replacing a field of a plain object by a plain value leaves it plain. -/
theorem Plain.set {j : Json} (h : Plain j) {k : String} {v : Json} (hv : Plain v) :
    Plain (j.set k v) := by
  cases j with
  | obj fs => exact ⟨h.1.insertField k v, h.2.insertField hv⟩
  | _ => exact h

end Json

end ProductPdfQr
