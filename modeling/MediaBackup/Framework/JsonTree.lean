import Mathlib

/-!
# JSON documents

A document as it stands in a text, what a map with ordered keys keeps of it, and how a record with
named fields is read from one.
-/

namespace MediaBackup

namespace Json

variable {ν μ α : Type}

/-- The fields of an object are in the order of the text, and may repeat a key. -/
inductive Tree (ν : Type)
  | null
  | bool (value : Bool)
  | number (value : ν)
  | string (value : String)
  | array (items : List (Tree ν))
  | object (fields : List (String × Tree ν))

namespace Tree

/-- The induction goes through the items of an array and the fields of an object. -/
@[elab_as_elim]
theorem induct {motive : Tree ν → Prop} (null : motive .null) (bool : ∀ b, motive (.bool b))
    (number : ∀ n, motive (.number n)) (string : ∀ s, motive (.string s))
    (array : ∀ items, (∀ item ∈ items, motive item) → motive (.array items))
    (object : ∀ fields, (∀ field ∈ fields, motive field.2) → motive (.object fields))
    (t : Tree ν) : motive t := by
  refine @Tree.rec ν motive (fun items => ∀ item ∈ items, motive item)
    (fun fields => ∀ field ∈ fields, motive field.2) (fun field => motive field.2)
    null bool number string array object ?_ ?_ ?_ ?_ ?_ t
  · intro item hitem
    cases hitem
  · intro item items hitem hitems
    exact List.forall_mem_cons.mpr ⟨hitem, hitems⟩
  · intro field hfield
    cases hfield
  · intro field fields hfield hfields
    exact List.forall_mem_cons.mpr ⟨hfield, hfields⟩
  · intro _ _ h
    exact h

/-! ## Walking a document -/

/-- What is made of a document, by what is made of each kind of node. -/
structure Algebra (ν α : Type) where
  null : α
  bool : Bool → α
  number : ν → α
  string : String → α
  array : List α → α
  object : List (String × α) → α

mutual

def fold (a : Algebra ν α) : Tree ν → α
  | .null => a.null
  | .bool b => a.bool b
  | .number n => a.number n
  | .string s => a.string s
  | .array items => a.array (foldItems a items)
  | .object fields => a.object (foldFields a fields)

def foldItems (a : Algebra ν α) : List (Tree ν) → List α
  | [] => []
  | item :: items => fold a item :: foldItems a items

def foldFields (a : Algebra ν α) : List (String × Tree ν) → List (String × α)
  | [] => []
  | field :: fields => foldField a field :: foldFields a fields

def foldField (a : Algebra ν α) : String × Tree ν → String × α
  | (key, t) => (key, fold a t)

end

section

variable (a : Algebra ν α)

@[simp] theorem fold_null : fold a .null = a.null := rfl

@[simp] theorem fold_bool (b : Bool) : fold a (.bool b) = a.bool b := rfl

@[simp] theorem fold_number (n : ν) : fold a (.number n) = a.number n := rfl

@[simp] theorem fold_string (s : String) : fold a (.string s) = a.string s := rfl

end

theorem fold_array (a : Algebra ν α) (items : List (Tree ν)) :
    fold a (.array items) = a.array (items.map (fold a)) := by
  have hitems : foldItems a items = items.map (fold a) := by
    induction items with
    | nil => simp [foldItems]
    | cons item items ih => simp [foldItems, ih]
  rw [fold, hitems]

theorem fold_object (a : Algebra ν α) (fields : List (String × Tree ν)) :
    fold a (.object fields) = a.object (fields.map fun field => (field.1, fold a field.2)) := by
  have hfields : foldFields a fields = fields.map fun field => (field.1, fold a field.2) := by
    induction fields with
    | nil => simp [foldFields]
    | cons field fields ih =>
      obtain ⟨key, t⟩ := field
      simp [foldFields, foldField, ih]
  rw [fold, hfields]

/-! ## Nesting -/

/-- How many arrays and objects are open at the deepest place. -/
def depth : Tree ν → Nat :=
  fold {
    null := 0
    bool _ := 0
    number _ := 0
    string _ := 0
    array depths := depths.foldr max 0 + 1
    object fields := (fields.map Prod.snd).foldr max 0 + 1 }

theorem foldr_max_le {depths : List Nat} {n : Nat} :
    depths.foldr max 0 ≤ n ↔ ∀ d ∈ depths, d ≤ n := by
  induction depths with
  | nil => simp
  | cons d depths ih => simp [ih]

@[simp] theorem depth_null : depth (.null : Tree ν) = 0 := by simp [depth]

@[simp] theorem depth_bool (b : Bool) : depth (.bool b : Tree ν) = 0 := by simp [depth]

@[simp] theorem depth_number (n : ν) : depth (.number n) = 0 := by simp [depth]

@[simp] theorem depth_string (s : String) : depth (.string s : Tree ν) = 0 := by
  simp [depth]

theorem depth_array (items : List (Tree ν)) :
    depth (.array items) = (items.map depth).foldr max 0 + 1 := fold_array _ _

theorem depth_object (fields : List (String × Tree ν)) :
    depth (.object fields) = (fields.map fun field => field.2.depth).foldr max 0 + 1 := by
  have hvalues : (fields.map fun field => (field.1, depth field.2)).map Prod.snd =
      fields.map fun field => field.2.depth := by
    rw [List.map_map]
    rfl
  rw [← hvalues]
  exact fold_object _ _

theorem depth_array_le {items : List (Tree ν)} {n : Nat} :
    depth (.array items) ≤ n + 1 ↔ ∀ item ∈ items, item.depth ≤ n := by
  rw [depth_array, Nat.add_le_add_iff_right, foldr_max_le, List.forall_mem_map]

theorem depth_object_le {fields : List (String × Tree ν)} {n : Nat} :
    depth (.object fields) ≤ n + 1 ↔ ∀ field ∈ fields, field.2.depth ≤ n := by
  rw [depth_object, Nat.add_le_add_iff_right, foldr_max_le, List.forall_mem_map]

/-! ## Numbers -/

/-- The document with its numbers replaced. -/
def mapNumbers (f : ν → μ) : Tree ν → Tree μ :=
  fold {
    null := .null
    bool := .bool
    number n := .number (f n)
    string := .string
    array := .array
    object := .object }

section

variable (f : ν → μ)

@[simp] theorem mapNumbers_null : mapNumbers f .null = .null := by simp [mapNumbers]

@[simp] theorem mapNumbers_bool (b : Bool) : mapNumbers f (.bool b) = .bool b := by
  simp [mapNumbers]

@[simp] theorem mapNumbers_number (n : ν) : mapNumbers f (.number n) = .number (f n) := by
  simp [mapNumbers]

@[simp] theorem mapNumbers_string (s : String) : mapNumbers f (.string s) = .string s := by
  simp [mapNumbers]

@[simp] theorem mapNumbers_array (items : List (Tree ν)) :
    mapNumbers f (.array items) = .array (items.map (mapNumbers f)) := by
  rw [mapNumbers, fold_array]

@[simp] theorem mapNumbers_object (fields : List (String × Tree ν)) :
    mapNumbers f (.object fields) =
      .object (fields.map fun field => (field.1, mapNumbers f field.2)) := by
  rw [mapNumbers, fold_object]

end

@[simp] theorem depth_mapNumbers (f : ν → μ) (t : Tree ν) : (t.mapNumbers f).depth = t.depth := by
  induction t using induct with
  | null => simp
  | bool b => simp
  | number n => simp
  | string s => simp
  | array items ih =>
    rw [mapNumbers_array, depth_array, depth_array, List.map_map]
    congr 2
    exact List.map_congr_left ih
  | object fields ih =>
    rw [mapNumbers_object, depth_object, depth_object, List.map_map]
    congr 2
    exact List.map_congr_left ih

theorem mapNumbers_id (t : Tree ν) : t.mapNumbers id = t := by
  induction t using induct with
  | null => simp
  | bool b => simp
  | number n => simp
  | string s => simp
  | array items ih =>
    rw [mapNumbers_array, List.map_congr_left ih]
    simp
  | object fields ih =>
    have hfields : (fields.map fun field => (field.1, mapNumbers id field.2)) =
        fields.map fun field => (field.1, field.2) :=
      List.map_congr_left fun field hfield => congrArg (Prod.mk field.1) (ih field hfield)
    rw [mapNumbers_object, hfields]
    simp

/-! ## Maps with ordered keys -/

/-- A key that is there already gets the new value. -/
def insertField (key : String) (value : α) : List (String × α) → List (String × α)
  | [] => [(key, value)]
  | field :: fields =>
      if key < field.1 then (key, value) :: field :: fields
      else if key = field.1 then (key, value) :: fields
      else field :: insertField key value fields

section

variable (key : String) (value : α)

theorem insertField_nil : insertField key value [] = [(key, value)] := rfl

theorem insertField_cons (field : String × α) (fields : List (String × α)) :
    insertField key value (field :: fields) =
      if key < field.1 then (key, value) :: field :: fields
      else if key = field.1 then (key, value) :: fields
      else field :: insertField key value fields := rfl

end

/-- The fields one after the other into an empty map. -/
def sortFields (fields : List (String × α)) : List (String × α) :=
  fields.foldl (fun map field => insertField field.1 field.2 map) []

def Sorted (fields : List (String × α)) : Prop := fields.Pairwise fun a b => a.1 < b.1

theorem mem_insertField {key : String} {value : α} {fields : List (String × α)} {field}
    (h : field ∈ insertField key value fields) : field = (key, value) ∨ field ∈ fields := by
  induction fields with
  | nil => simpa [insertField_nil] using h
  | cons first fields ih =>
    rw [insertField_cons] at h
    split_ifs at h
    · simpa using h
    · rcases List.mem_cons.mp h with h | h
      · exact .inl h
      · exact .inr (List.mem_cons_of_mem _ h)
    · rcases List.mem_cons.mp h with h | h
      · exact .inr (h ▸ List.mem_cons_self)
      · exact (ih h).imp_right (List.mem_cons_of_mem _)

theorem Sorted.insertField {fields : List (String × α)} (h : Sorted fields) (key : String)
    (value : α) : Sorted (insertField key value fields) := by
  induction fields with
  | nil => exact List.pairwise_singleton _ _
  | cons first fields ih =>
    have hfirst := List.pairwise_cons.mp h
    rw [insertField_cons]
    by_cases hlt : key < first.1
    · rw [if_pos hlt]
      refine List.pairwise_cons.mpr ⟨?_, h⟩
      intro field hfield
      rcases List.mem_cons.mp hfield with rfl | hfield
      · exact hlt
      · exact hlt.trans (hfirst.1 field hfield)
    · rw [if_neg hlt]
      by_cases heq : key = first.1
      · rw [if_pos heq]
        exact List.pairwise_cons.mpr ⟨heq ▸ hfirst.1, hfirst.2⟩
      · rw [if_neg heq]
        refine List.pairwise_cons.mpr ⟨?_, ih hfirst.2⟩
        intro field hfield
        rcases mem_insertField hfield with rfl | hfield
        · exact lt_of_le_of_ne (not_lt.mp hlt) (Ne.symm heq)
        · exact hfirst.1 field hfield

theorem sortFields_sorted (fields : List (String × α)) : Sorted (sortFields fields) := by
  have general : ∀ (l map : List (String × α)), Sorted map →
      Sorted (l.foldl (fun map field => Tree.insertField field.1 field.2 map) map) := by
    intro l
    induction l with
    | nil =>
      intro map hmap
      exact hmap
    | cons field l ih =>
      intro map hmap
      exact ih _ (hmap.insertField _ _)
  exact general fields [] List.Pairwise.nil

/-- A key above all others comes last. -/
theorem insertField_last {fields : List (String × α)} {key : String} (value : α)
    (h : ∀ field ∈ fields, field.1 < key) :
    insertField key value fields = fields ++ [(key, value)] := by
  induction fields with
  | nil => rfl
  | cons first fields ih =>
    have hfirst := h first List.mem_cons_self
    have hrest := ih fun field hfield => h field (List.mem_cons_of_mem _ hfield)
    rw [insertField_cons, if_neg hfirst.not_gt, if_neg hfirst.ne', hrest]
    rfl

theorem sortFields_of_sorted {fields : List (String × α)} (h : Sorted fields) :
    sortFields fields = fields := by
  have general : ∀ l map : List (String × α), Sorted (map ++ l) →
      l.foldl (fun map field => insertField field.1 field.2 map) map = map ++ l := by
    intro l
    induction l with
    | nil =>
      intro map _
      simp
    | cons field l ih =>
      intro map hmap
      have hbelow : ∀ other ∈ map, other.1 < field.1 := fun other hother =>
        (List.pairwise_append.mp hmap).2.2 other hother field List.mem_cons_self
      rw [List.foldl_cons, insertField_last field.2 hbelow, ih]
      · simp
      · simpa using hmap
  exact general fields [] h

theorem insertField_map (g : α → μ) (key : String) (value : α) (fields : List (String × α)) :
    (insertField key value fields).map (fun field => (field.1, g field.2)) =
      insertField key (g value) (fields.map fun field => (field.1, g field.2)) := by
  induction fields with
  | nil => rfl
  | cons first fields ih =>
    rw [insertField_cons, List.map_cons, insertField_cons]
    by_cases hlt : key < first.1
    · rw [if_pos hlt, if_pos hlt]
      rfl
    · rw [if_neg hlt, if_neg hlt]
      by_cases heq : key = first.1
      · rw [if_pos heq, if_pos heq]
        rfl
      · rw [if_neg heq, if_neg heq, List.map_cons, ih]

theorem sortFields_map (g : α → μ) (fields : List (String × α)) :
    (sortFields fields).map (fun field => (field.1, g field.2)) =
      sortFields (fields.map fun field => (field.1, g field.2)) := by
  have general : ∀ l map : List (String × α),
      (l.foldl (fun map field => insertField field.1 field.2 map) map).map
          (fun field => (field.1, g field.2)) =
        (l.map fun field => (field.1, g field.2)).foldl
          (fun map field => insertField field.1 field.2 map)
          (map.map fun field => (field.1, g field.2)) := by
    intro l
    induction l with
    | nil =>
      intro map
      rfl
    | cons field l ih =>
      intro map
      rw [List.foldl_cons, ih, insertField_map]
      rfl
  exact general fields []

/-- The document with every object read into a map. -/
def collect : Tree ν → Tree ν :=
  fold {
    null := .null
    bool := .bool
    number := .number
    string := .string
    array := .array
    object fields := .object (sortFields fields) }

@[simp] theorem collect_null : collect (.null : Tree ν) = .null := by simp [collect]

@[simp] theorem collect_bool (b : Bool) : collect (.bool b : Tree ν) = .bool b := by
  simp [collect]

@[simp] theorem collect_number (n : ν) : collect (.number n) = .number n := by
  simp [collect]

@[simp] theorem collect_string (s : String) : collect (.string s : Tree ν) = .string s := by
  simp [collect]

theorem collect_array (items : List (Tree ν)) :
    collect (.array items) = .array (items.map collect) := fold_array _ _

theorem collect_object (fields : List (String × Tree ν)) :
    collect (.object fields) =
      .object (sortFields (fields.map fun field => (field.1, collect field.2))) :=
  fold_object _ _

/-- What a map has kept it keeps again. -/
theorem collect_collect (t : Tree ν) : t.collect.collect = t.collect := by
  induction t using induct with
  | null => simp
  | bool b => simp
  | number n => simp
  | string s => simp
  | array items ih =>
    rw [collect_array, collect_array, List.map_map]
    congr 1
    exact List.map_congr_left ih
  | object fields ih =>
    have hvalues : (fields.map fun field => (field.1, collect field.2)).map
        (fun field => (field.1, collect field.2)) =
          fields.map fun field => (field.1, collect field.2) := by
      rw [List.map_map]
      exact List.map_congr_left fun field hfield => congrArg (Prod.mk field.1) (ih field hfield)
    rw [collect_object, collect_object, sortFields_map, hvalues,
      sortFields_of_sorted (sortFields_sorted _)]

theorem collect_mapNumbers (f : ν → μ) (t : Tree ν) :
    (t.mapNumbers f).collect = t.collect.mapNumbers f := by
  induction t using induct with
  | null => simp
  | bool b => simp
  | number n => simp
  | string s => simp
  | array items ih =>
    rw [mapNumbers_array, collect_array, collect_array, mapNumbers_array, List.map_map,
      List.map_map]
    congr 1
    exact List.map_congr_left ih
  | object fields ih =>
    rw [mapNumbers_object, collect_object, collect_object, mapNumbers_object, sortFields_map,
      List.map_map, List.map_map]
    congr 2
    exact List.map_congr_left fun field hfield => congrArg (Prod.mk field.1) (ih field hfield)

/-! ## Records -/

/-- The fields of a record: by name from an object, which may name none twice and none that is
not known, or by position from an array. -/
def record (names : List String) : Tree ν → Option (List (String × Tree ν))
  | .object fields =>
      if (fields.map Prod.fst).Nodup ∧ ∀ name ∈ fields.map Prod.fst, name ∈ names then some fields
      else none
  | .array items => if items.length = names.length then some (names.zip items) else none
  | _ => none

def asString : Tree ν → Option String
  | .string s => some s
  | _ => none

/-- An integer of a type with these bounds. -/
def asInteger (toInt : ν → Option Int) (low high : Int) : Tree ν → Option Int
  | .number n => (toInt n).filter fun i => low ≤ i ∧ i ≤ high
  | _ => none

/-- A variant without content: its name, or an object with its name and nothing for it. -/
def asVariant : Tree ν → Option String
  | .string s => some s
  | .object [(name, .null)] => some name
  | _ => none

def asList (read : Tree ν → Option α) : Tree ν → Option (List α)
  | .array items => items.mapM read
  | _ => none

def asOption (read : Tree ν → Option α) : Tree ν → Option (Option α)
  | .null => some none
  | t => (read t).map some

/-- A field that must be there. -/
def required (fields : List (String × Tree ν)) (name : String) (read : Tree ν → Option α) :
    Option α :=
  (fields.lookup name).bind read

/-- A field that may be left out. -/
def omissible (fields : List (String × Tree ν)) (name : String) (read : Tree ν → Option α) :
    Option (Option α) :=
  match fields.lookup name with
  | none => some none
  | some t => asOption read t

theorem record_object (names : List String) (fields : List (String × Tree ν))
    (h : fields.map Prod.fst = names) (hnames : names.Nodup) :
    record names (.object fields) = some fields := by
  rw [record, if_pos]
  rw [h]
  exact ⟨hnames, fun _ hname => hname⟩

theorem asInteger_number {toInt : ν → Option Int} {n : ν} {low high i : Int}
    (h : toInt n = some i) (hlow : low ≤ i) (hhigh : i ≤ high) :
    asInteger toInt low high (.number n) = some i := by
  simp [asInteger, h, hlow, hhigh]

theorem asList_array_map {β : Type} (read : Tree ν → Option α) (write : β → Tree ν)
    (make : β → α) {l : List β} (h : ∀ b ∈ l, read (write b) = some (make b)) :
    asList read (.array (l.map write)) = some (l.map make) := by
  rw [asList, List.mapM_map]
  induction l with
  | nil => rfl
  | cons b l ih =>
    have hb := h b List.mem_cons_self
    have hl := ih fun c hc => h c (List.mem_cons_of_mem _ hc)
    simp only [List.mapM_cons, Function.comp_apply, hb, hl]
    rfl

end Tree

/-! ## Values -/

/-- A document whose objects are maps with ordered keys. -/
structure Value (ν : Type) where
  tree : Tree ν
  collected : tree.collect = tree

namespace Value

@[ext] theorem ext {v w : Value ν} (h : v.tree = w.tree) : v = w := by
  cases v
  cases w
  cases h
  rfl

/-- The value that is read from a document. -/
def ofTree (t : Tree ν) : Value ν := ⟨t.collect, t.collect_collect⟩

def null : Value ν := ⟨.null, Tree.collect_null⟩

def depth (v : Value ν) : Nat := v.tree.depth

def mapNumbers (f : ν → ν) (v : Value ν) : Value ν where
  tree := v.tree.mapNumbers f
  collected := by rw [Tree.collect_mapNumbers, v.collected]

@[simp] theorem ofTree_tree (v : Value ν) : ofTree v.tree = v := ext v.collected

def isNull (v : Value ν) : Bool :=
  match v.tree with
  | .null => true
  | _ => false

/-- The text of a null value is the text of none. -/
theorem asOption_tree (v : Value ν) :
    v.tree.asOption (fun t => some (ofTree t)) = some (if v.isNull then none else some v) := by
  have hself := ofTree_tree v
  obtain ⟨t, ht⟩ := v
  cases t with
  | null => rfl
  | bool b => simp [Tree.asOption, isNull, hself]
  | number n => simp [Tree.asOption, isNull, hself]
  | string s => simp [Tree.asOption, isNull, hself]
  | array items => simp [Tree.asOption, isNull, hself]
  | object fields => simp [Tree.asOption, isNull, hself]

end Value

end Json

end MediaBackup
