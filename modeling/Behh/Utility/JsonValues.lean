import Behh.Std.Numerals
import Behh.Utility.CsvReader
import Mathlib.Data.Finmap
import Mathlib.Data.Finset.Sort

/-!
# JSON values

What jsoncpp and taocpp-json promise of their values, and libraries that keep the promises: over
values that are scalars, objects of scalars, or arrays. Two libraries whose values are different
types are compared by what is seen of their tables (`TableView`).

An object of `Json` is a finite map, so that objects with the same members are equal. Its keys come
in alphabetical order, as those of a `std::map` do.

## Main definitions

* `Taojson.Lawful`: arrays are sequences, objects are maps, strings and booleans are themselves.
* `Taojson.LawfulNumbers`, `Taojson.LawfulTexts`: and numbers are no strings; and integers are
  written in digits, and keys come in order.
* `Jsoncpp.Lawful`: the same of arrays, objects and scalars of jsoncpp.
* `TableView`, `TableView.Builds`: what is seen of tables, and how they are built.
* `Json`, `Json.taojson`, `Json.jsoncpp`: values, and both libraries over them.

## Main results

* `TableView.Builds.elements_foldl_append`, `TableView.Builds.find_foldl_setMember`: the arrays and
  objects that loops build.
* `Json.lawful`, `Json.lawfulNumbers`, `Json.lawful_jsoncpp`: the promises are kept.
* `Json.keys_eq`: the keys of an object.
-/

namespace Behh

variable {D V : Type}

/-! ### Tables -/

/-- What is seen of tables: the arrays and the objects, the elements of an array, and the members
of an object. -/
structure TableView (V : Type) where
  /-- The arrays. -/
  IsArray : V → Prop
  /-- The elements of an array. -/
  elements : V → List V
  /-- The objects. -/
  IsObject : V → Prop
  /-- The member of an object under a key. -/
  find : V → Bytes → Option V

namespace TableView

/-- Arrays are built by putting elements behind the others, and objects by setting members to
values without parts. -/
structure Builds (view : TableView V) (emptyArray : V) (append : V → V → V) (emptyObject : V)
    (setMember : V → Bytes → V → V) (IsPlain : V → Prop) : Prop where
  /-- An empty array is an array. -/
  isArray_emptyArray : view.IsArray emptyArray
  /-- It has no elements. -/
  elements_emptyArray : view.elements emptyArray = []
  /-- An element is put behind the others. -/
  elements_append : ∀ a x, view.IsArray a →
    view.IsArray (append a x) ∧ view.elements (append a x) = view.elements a ++ [x]
  /-- An empty object is an object. -/
  isObject_emptyObject : view.IsObject emptyObject
  /-- It has no members. -/
  find_emptyObject : ∀ k, view.find emptyObject k = none
  /-- A member that is set is found, and no other one is changed. -/
  find_setMember : ∀ o k x, view.IsObject o → IsPlain x →
    view.IsObject (setMember o k x) ∧
      ∀ k', view.find (setMember o k x) k' = if k' = k then some x else view.find o k'

variable {view : TableView V} {emptyArray emptyObject : V} {append : V → V → V}
  {setMember : V → Bytes → V → V} {IsPlain : V → Prop}

/-- **Putting elements into an array** one after the other. -/
theorem Builds.elements_foldl_append
    (h : view.Builds emptyArray append emptyObject setMember IsPlain) (rows : List V) {a : V}
    (ha : view.IsArray a) :
    view.IsArray (rows.foldl append a) ∧
      view.elements (rows.foldl append a) = view.elements a ++ rows := by
  induction rows generalizing a with
  | nil => exact ⟨ha, (List.append_nil _).symm⟩
  | cons row rows ih =>
    obtain ⟨harray, hget⟩ := h.elements_append a row ha
    obtain ⟨harray', hget'⟩ := ih harray
    refine ⟨harray', ?_⟩
    rw [List.foldl_cons, hget', hget, List.append_assoc, List.singleton_append]

/-- **Setting members** one after the other: the last value of a key is found. -/
theorem Builds.find_foldl_setMember
    (h : view.Builds emptyArray append emptyObject setMember IsPlain) (value : Bytes → V)
    (hvalue : ∀ cell, IsPlain (value cell)) (pairs : List (Bytes × Bytes)) :
    view.IsObject (pairs.foldl (fun o p => setMember o p.1 (value p.2)) emptyObject) ∧
      ∀ k, view.find (pairs.foldl (fun o p => setMember o p.1 (value p.2)) emptyObject) k =
        (pairs.reverse.lookup k).map value := by
  induction pairs using List.reverseRecOn with
  | nil => exact ⟨h.isObject_emptyObject, h.find_emptyObject⟩
  | append_singleton pairs p ih =>
    obtain ⟨hobject, hfind⟩ := ih
    obtain ⟨hobject', hfind'⟩ := h.find_setMember _ p.1 (value p.2) hobject (hvalue p.2)
    rw [List.foldl_append, List.foldl_cons, List.foldl_nil]
    refine ⟨hobject', fun k => ?_⟩
    rw [hfind', hfind, List.reverse_append, List.reverse_singleton, List.singleton_append,
      List.lookup_cons]
    by_cases hk : k = p.1
    · rw [if_pos hk, beq_iff_eq.2 hk, Option.map_some]
    · rw [if_neg hk, beq_false_of_ne hk]

end TableView

/-! ### taocpp-json -/

namespace Taojson

variable (lib : Taojson D V)

/-- A string or a boolean. -/
def IsScalar (x : V) : Prop := (∃ s, x = lib.ofString s) ∨ ∃ b, x = lib.ofBool b

/-- What taocpp-json promises: an array is the sequence of its elements, an object is a map from
keys to values, and strings and booleans are what they are made of. -/
structure Lawful : Prop where
  /-- An empty array is an array. -/
  isArray_emptyArray : lib.isArray lib.emptyArray = true
  /-- It has no elements. -/
  getArray_emptyArray : lib.getArray lib.emptyArray = []
  /-- An element is put behind the others. -/
  getArray_emplaceBack : ∀ a x, lib.isArray a = true →
    lib.isArray (lib.emplaceBack a x) = true ∧
      lib.getArray (lib.emplaceBack a x) = lib.getArray a ++ [x]
  /-- Arrays with the same elements are equal. -/
  array_ext : ∀ a a', lib.isArray a = true → lib.isArray a' = true →
    lib.getArray a = lib.getArray a' → a = a'
  /-- An empty object is an object. -/
  isObject_emptyObject : lib.isObject lib.emptyObject = true
  /-- It has no members. -/
  find_emptyObject : ∀ k, lib.find lib.emptyObject k = none
  /-- A member that is set is found, and no other one is changed. -/
  find_setMember : ∀ o k x, lib.isObject o = true → lib.IsScalar x →
    lib.isObject (lib.setMember o k x) = true ∧
      ∀ k', lib.find (lib.setMember o k x) k' = if k' = k then some x else lib.find o k'
  /-- Objects with the same members are equal. -/
  object_ext : ∀ o o', lib.isObject o = true → lib.isObject o' = true →
    (∀ k, lib.find o k = lib.find o' k) → o = o'
  /-- The keys of an object are those of its members. -/
  mem_keys : ∀ o k, lib.isObject o = true → (k ∈ lib.keys o ↔ lib.find o k ≠ none)
  /-- A string is a string. -/
  getString_ofString : ∀ s, lib.getString (lib.ofString s) = some s
  /-- A boolean is no string. -/
  getString_ofBool : ∀ b, lib.getString (lib.ofBool b) = none
  /-- The text of a boolean. -/
  toString_ofBool : ∀ b, lib.toString (lib.ofBool b) = if b then str "true" else str "false"

/-- A number. -/
def IsNumber (x : V) : Prop := (∃ n, x = lib.ofInt n) ∨ ∃ d, x = lib.ofDouble d

/-- What taocpp-json promises of numbers: they are no strings, and members may be numbers. -/
structure LawfulNumbers : Prop extends lib.Lawful where
  /-- An integer is no string. -/
  getString_ofInt : ∀ n, lib.getString (lib.ofInt n) = none
  /-- A double is no string. -/
  getString_ofDouble : ∀ x, lib.getString (lib.ofDouble x) = none
  /-- A number that a member is set to is found, and no other member is changed. -/
  find_setMember_number : ∀ o k x, lib.isObject o = true → lib.IsNumber x →
    lib.isObject (lib.setMember o k x) = true ∧
      ∀ k', lib.find (lib.setMember o k x) k' = if k' = k then some x else lib.find o k'

/-- What it promises of the texts that it writes and of the order of the keys, which are those of a
`std::map`. -/
structure LawfulTexts : Prop extends lib.LawfulNumbers where
  /-- An integer is written in digits. -/
  toString_ofInt : ∀ n, lib.toString (lib.ofInt n) = intNumeral n
  /-- The keys of an object come in alphabetical order. -/
  keys_sorted : ∀ o, lib.isObject o = true → (lib.keys o).Pairwise (· ≤ ·)
  /-- Each of them comes once. -/
  keys_nodup : ∀ o, lib.isObject o = true → (lib.keys o).Nodup

/-- A string, a boolean or a number. -/
def IsPlain (x : V) : Prop := lib.IsScalar x ∨ lib.IsNumber x

/-- What is seen of the tables of taocpp-json. -/
def view : TableView V where
  IsArray v := lib.isArray v = true
  elements := lib.getArray
  IsObject v := lib.isObject v = true
  find := lib.find

variable {lib}

theorem Lawful.builds (h : lib.Lawful) :
    lib.view.Builds lib.emptyArray lib.emplaceBack lib.emptyObject lib.setMember lib.IsScalar where
  isArray_emptyArray := h.isArray_emptyArray
  elements_emptyArray := h.getArray_emptyArray
  elements_append := h.getArray_emplaceBack
  isObject_emptyObject := h.isObject_emptyObject
  find_emptyObject := h.find_emptyObject
  find_setMember := h.find_setMember

theorem LawfulNumbers.builds (h : lib.LawfulNumbers) :
    lib.view.Builds lib.emptyArray lib.emplaceBack lib.emptyObject lib.setMember lib.IsPlain where
  __ := h.toLawful.builds
  find_setMember o k x ho hx :=
    hx.elim (h.find_setMember o k x ho) (h.find_setMember_number o k x ho)

theorem LawfulNumbers.ofString_ne (h : lib.LawfulNumbers) {x : V} (hx : lib.IsNumber x)
    (s : Bytes) : lib.ofString s ≠ x := by
  intro heq
  have hstring := h.getString_ofString s
  rw [heq] at hstring
  obtain ⟨n, rfl⟩ | ⟨d, rfl⟩ := hx
  · rw [h.getString_ofInt] at hstring
    cases hstring
  · rw [h.getString_ofDouble] at hstring
    cases hstring

end Taojson

/-! ### jsoncpp -/

namespace Jsoncpp

variable (lib : Jsoncpp D V)

/-- A string, a boolean or a number. -/
def IsPlain (x : V) : Prop :=
  (∃ s, x = lib.ofString s) ∨ (∃ b, x = lib.ofBool b) ∨ (∃ n, x = lib.ofInt n) ∨
    ∃ d, x = lib.ofDouble d

/-- The objects that are made of an empty one by setting members to values without parts. -/
inductive IsObject : V → Prop
  | empty : IsObject lib.emptyObject
  | setMember {o x : V} (ho : IsObject o) (k : Bytes) (hx : lib.IsPlain x) :
      IsObject (lib.setMember o k x)

/-- What jsoncpp promises: an array is the sequence of its elements, an object is a map from keys
to values, and a string is neither a boolean nor a number. -/
structure Lawful : Prop where
  /-- An empty array is an array. -/
  isArray_emptyArray : lib.isArray lib.emptyArray = true
  /-- It has no elements. -/
  elements_emptyArray : lib.elements lib.emptyArray = []
  /-- An element is put behind the others. -/
  elements_append : ∀ a x, lib.isArray a = true →
    lib.isArray (lib.append a x) = true ∧
      lib.elements (lib.append a x) = lib.elements a ++ [x]
  /-- An empty object has no keys. -/
  keys_emptyObject : lib.keys lib.emptyObject = []
  /-- A member that is set has a key, and no other key is changed. -/
  mem_keys_setMember : ∀ o k x, lib.IsObject o → lib.IsPlain x →
    ∀ k', k' ∈ lib.keys (lib.setMember o k x) ↔ k' = k ∨ k' ∈ lib.keys o
  /-- A member that is set is found, and no other one is changed. -/
  member_setMember : ∀ o k x, lib.IsObject o → lib.IsPlain x →
    ∀ k', lib.member (lib.setMember o k x) k' = if k' = k then some x else lib.member o k'
  /-- A string is no boolean. -/
  ofString_ne_ofBool : ∀ s b, lib.ofString s ≠ lib.ofBool b
  /-- A string is no integer. -/
  ofString_ne_ofInt : ∀ s n, lib.ofString s ≠ lib.ofInt n
  /-- A string is no double. -/
  ofString_ne_ofDouble : ∀ s x, lib.ofString s ≠ lib.ofDouble x

/-- What is seen of the tables of jsoncpp. `operator[]` has a value for a key that is not there, so
the keys are asked first. -/
def view : TableView V where
  IsArray v := lib.isArray v = true
  elements := lib.elements
  IsObject := lib.IsObject
  find o k := if (lib.keys o).contains k then lib.member o k else none

variable {lib}

theorem Lawful.builds (h : lib.Lawful) :
    lib.view.Builds lib.emptyArray lib.append lib.emptyObject lib.setMember lib.IsPlain where
  isArray_emptyArray := h.isArray_emptyArray
  elements_emptyArray := h.elements_emptyArray
  elements_append := h.elements_append
  isObject_emptyObject := .empty
  find_emptyObject k := if_neg (by rw [h.keys_emptyObject]; exact Bool.false_ne_true)
  find_setMember o k x ho hx := by
    refine ⟨ho.setMember k hx, fun k' => ?_⟩
    simp only [view, List.contains_iff_mem, h.mem_keys_setMember o k x ho hx,
      h.member_setMember o k x ho hx]
    by_cases hk : k' = k
    · simp [hk]
    · simp [hk]

end Jsoncpp

/-! ### A library of values -/

/-- A value without parts. -/
inductive Json.Scalar (D : Type) where
  | null
  | bool (b : Bool)
  | int (n : ℤ)
  | double (x : D)
  | string (s : Bytes)

/-- A value. The members of an object have no parts. -/
inductive Json (D : Type) where
  | scalar (x : Json.Scalar D)
  | object (members : Finmap fun _ : Bytes => Json.Scalar D)
  | array (elements : List (Json D))

namespace Json

/-- `find`. -/
def find : Json D → Bytes → Option (Json D)
  | object members, key => (members.lookup key).map scalar
  | _, _ => none

/-- The keys of `get_object`. -/
def keys : Json D → List Bytes
  | object members => members.keys.sort (· ≤ ·)
  | _ => []

/-- The assignment of a scalar to a member. -/
def setMember : Json D → Bytes → Json D → Json D
  | object members, key, scalar x => object (members.insert key x)
  | v, _, _ => v

/-- `emplace_back`. -/
def emplaceBack : Json D → Json D → Json D
  | array elements, x => array (elements ++ [x])
  | v, _ => v

/-- `get_array`. -/
def getArray : Json D → List (Json D)
  | array elements => elements
  | _ => []

/-- `get_string`, where `is_string` holds. -/
def getString : Json D → Option Bytes
  | scalar (.string s) => some s
  | _ => none

/-- `tao::json::to_string` of a boolean. -/
def toString : Json D → Bytes
  | scalar (.bool true) => str "true"
  | scalar (.bool false) => str "false"
  | _ => []

/-- A library with these values, which reads and writes no JSON texts. -/
def taojson : Taojson D (Json D) where
  null := scalar .null
  emptyArray := array []
  emptyObject := object ∅
  ofBool b := scalar (.bool b)
  ofInt n := scalar (.int n)
  ofDouble x := scalar (.double x)
  ofString s := scalar (.string s)
  setMember := setMember
  emplaceBack := emplaceBack
  fromStream _ := none
  toStream _ _ := []
  toString := toString
  isArray | array _ => true | _ => false
  getArray := getArray
  isObject | object _ => true | _ => false
  keys := keys
  find := find
  getString := getString

/-- `operator[]` with a string. -/
def member : Json D → Bytes → Option (Json D)
  | object members, key => some (((members.lookup key).map scalar).getD (scalar .null))
  | scalar .null, _ => some (scalar .null)
  | _, _ => none

/-- `asString` of a value that is no number. -/
def asString : Json D → Option Bytes
  | scalar .null => some []
  | scalar (.bool b) => some (if b then str "true" else str "false")
  | scalar (.string s) => some s
  | _ => none

/-- The other library with these values. -/
def jsoncpp : Jsoncpp D (Json D) where
  null := scalar .null
  emptyArray := array []
  emptyObject := object ∅
  ofBool b := scalar (.bool b)
  ofInt n := scalar (.int n)
  ofDouble x := scalar (.double x)
  ofString s := scalar (.string s)
  setMember := setMember
  append := emplaceBack
  parse _ := none
  writeString _ _ _ := []
  isArray | array _ => true | _ => false
  elements := getArray
  keys := keys
  member := member
  asString := asString

theorem isArray_iff {v : Json D} : taojson.isArray v = true ↔ ∃ elements, v = array elements := by
  cases v <;> simp [taojson]

theorem isObject_iff {v : Json D} : taojson.isObject v = true ↔ ∃ members, v = object members := by
  cases v <;> simp [taojson]

theorem exists_of_isScalar {v : Json D} (h : taojson.IsScalar v) : ∃ x, v = scalar x := by
  obtain ⟨s, rfl⟩ | ⟨b, rfl⟩ := h
  · exact ⟨_, rfl⟩
  · exact ⟨_, rfl⟩

/-- The keys of an object are a sorted list of them. -/
theorem keys_eq {members : Finmap fun _ : Bytes => Scalar D} {l : List Bytes}
    (hsorted : l.Pairwise (· < ·)) (hkeys : members.keys = l.toFinset) :
    taojson.keys (object members) = l := by
  have hnodup : l.Nodup := by
    refine hsorted.imp ?_
    rintro k _ hlt rfl
    exact List.lt_irrefl k hlt
  have hle : l.Pairwise (· ≤ ·) := hsorted.imp List.le_of_lt
  change members.keys.sort (· ≤ ·) = l
  rw [hkeys, (List.toFinset_sort (· ≤ ·) hnodup).2 hle]

/-- The assignment of a scalar to a member, as it is found. -/
theorem find_setMember {o : Json D} (ho : taojson.isObject o = true) (key : Bytes) (x : Scalar D) :
    taojson.isObject (setMember o key (scalar x)) = true ∧
      ∀ key', find (setMember o key (scalar x)) key' =
        if key' = key then some (scalar x) else find o key' := by
  obtain ⟨members, rfl⟩ := isObject_iff.1 ho
  refine ⟨rfl, fun key' => ?_⟩
  change ((members.insert key x).lookup key').map scalar = _
  by_cases hkey : key' = key
  · rw [hkey, Finmap.lookup_insert, if_pos rfl, Option.map_some]
  · rw [Finmap.lookup_insert_of_ne _ hkey, if_neg hkey]
    rfl

/-- **The library keeps the promise** of taocpp-json. -/
theorem lawful : (taojson : Taojson D (Json D)).Lawful where
  isArray_emptyArray := rfl
  getArray_emptyArray := rfl
  getArray_emplaceBack := by
    intro a x ha
    obtain ⟨elements, rfl⟩ := isArray_iff.1 ha
    exact ⟨rfl, rfl⟩
  array_ext := by
    intro a a' ha ha' h
    obtain ⟨elements, rfl⟩ := isArray_iff.1 ha
    obtain ⟨elements', rfl⟩ := isArray_iff.1 ha'
    exact congrArg array h
  isObject_emptyObject := rfl
  find_emptyObject _ := rfl
  find_setMember := by
    intro o key x ho hx
    obtain ⟨x, rfl⟩ := exists_of_isScalar hx
    exact find_setMember ho key x
  object_ext := by
    intro o o' ho ho' h
    obtain ⟨members, rfl⟩ := isObject_iff.1 ho
    obtain ⟨members', rfl⟩ := isObject_iff.1 ho'
    have hinj : Function.Injective (Json.scalar (D := D)) := fun _ _ heq => by injection heq
    exact congrArg object (Finmap.ext_lookup fun key => Option.map_injective hinj (h key))
  mem_keys := by
    intro o key ho
    obtain ⟨members, rfl⟩ := isObject_iff.1 ho
    change key ∈ members.keys.sort (· ≤ ·) ↔ (members.lookup key).map scalar ≠ none
    rw [Finset.mem_sort, Finmap.mem_keys, Ne, Option.map_eq_none_iff, Finmap.lookup_eq_none,
      not_not]
  getString_ofString _ := rfl
  getString_ofBool _ := rfl
  toString_ofBool b := by cases b <;> rfl

/-- **It keeps that of numbers**, too. -/
theorem lawfulNumbers : (taojson : Taojson D (Json D)).LawfulNumbers where
  toLawful := lawful
  getString_ofInt _ := rfl
  getString_ofDouble _ := rfl
  find_setMember_number o key x ho hx := by
    obtain ⟨n, rfl⟩ | ⟨d, rfl⟩ := hx
    · exact find_setMember ho key (.int n)
    · exact find_setMember ho key (.double d)

theorem exists_of_isPlain {v : Json D} (h : jsoncpp.IsPlain v) : ∃ x, v = scalar x := by
  obtain ⟨s, rfl⟩ | ⟨b, rfl⟩ | ⟨n, rfl⟩ | ⟨d, rfl⟩ := h
  · exact ⟨_, rfl⟩
  · exact ⟨_, rfl⟩
  · exact ⟨_, rfl⟩
  · exact ⟨_, rfl⟩

theorem isObject_of_jsoncpp {v : Json D} (h : jsoncpp.IsObject v) :
    ∃ members, v = object members := by
  induction h with
  | empty => exact ⟨∅, rfl⟩
  | setMember ho key hx ih =>
    obtain ⟨members, rfl⟩ := ih
    obtain ⟨x, rfl⟩ := exists_of_isPlain hx
    exact ⟨members.insert key x, rfl⟩

/-- **The other library keeps the promise** of jsoncpp. -/
theorem lawful_jsoncpp : (jsoncpp : Jsoncpp D (Json D)).Lawful where
  isArray_emptyArray := rfl
  elements_emptyArray := rfl
  elements_append := lawful.getArray_emplaceBack
  keys_emptyObject := by
    change (∅ : Finmap fun _ : Bytes => Scalar D).keys.sort (· ≤ ·) = []
    rw [Finmap.keys_empty, Finset.sort_empty]
  mem_keys_setMember := by
    intro o key x ho hx key'
    obtain ⟨members, rfl⟩ := isObject_of_jsoncpp ho
    obtain ⟨x, rfl⟩ := exists_of_isPlain hx
    change key' ∈ (members.insert key x).keys.sort (· ≤ ·) ↔ _ ∨ key' ∈ members.keys.sort (· ≤ ·)
    rw [Finset.mem_sort, Finset.mem_sort, Finmap.mem_keys, Finmap.mem_keys, Finmap.mem_insert]
  member_setMember := by
    intro o key x ho hx key'
    obtain ⟨members, rfl⟩ := isObject_of_jsoncpp ho
    obtain ⟨x, rfl⟩ := exists_of_isPlain hx
    change some ((((members.insert key x).lookup key').map scalar).getD (scalar .null)) = _
    by_cases hkey : key' = key
    · rw [hkey, Finmap.lookup_insert, if_pos rfl]
      rfl
    · rw [Finmap.lookup_insert_of_ne _ hkey, if_neg hkey]
      rfl
  ofString_ne_ofBool _ _ h := by cases h
  ofString_ne_ofInt _ _ h := by cases h
  ofString_ne_ofDouble _ _ h := by cases h

end Json

end Behh
