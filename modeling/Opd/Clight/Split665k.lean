import Mathlib.Data.Char
import Mathlib.Data.List.Dedup
import Mathlib.Data.List.Lex
import Opd.Clight.Preprocessor
import Opd.Lib.Buckets
import Opd.Lib.Decimal
import Opd.Lib.Sorting

/-!
# Splitting a dataset by its image folders

`split_665k.py` puts every row in the group of each of the first folders of its images, and writes each group to the
file of its name. The name of the file is a sanitised name of the group.

* `placed_of_distinct`, `counted_of_distinct`: every row is in the files of its groups when these have distinct names.
* `distinct_of_length`: otherwise the files have fewer rows.
* `lossless_iff`: no row is lost exactly when the names of the files are distinct.
-/

namespace Opd.Clight.Split665k

open Lib
open Preprocessor (Text)

/-! ## Rows -/

/-- What `json.load` returns. A number with a fraction is given by its `repr`. -/
inductive Json
  | null
  | bool (b : Bool)
  | int (z : ℤ)
  | float (repr : Text)
  | str (s : Text)
  | list (l : List Json)
  | dict (items : List (Text × Json))

abbrev Row := List (Text × Json)

/-- `row.get(key)` -/
def get (row : Row) (key : Text) : Json := (row.lookup key).getD .null

/-- `row[key] = value` -/
def set : Row → Text → Json → Row
  | [], key, value => [(key, value)]
  | item :: row, key, value => if item.1 = key then (key, value) :: row else item :: set row key value

def Json.truthy : Json → Bool
  | .null => false
  | .bool b => b
  | .int z => z ≠ 0
  | .float repr => repr ≠ "0.0".toList ∧ repr ≠ "-0.0".toList
  | .str s => s ≠ []
  | .list l => !l.isEmpty
  | .dict items => !items.isEmpty

/-- `type(value).__name__` -/
def Json.typeName : Json → String
  | .null => "NoneType"
  | .bool _ => "bool"
  | .int _ => "int"
  | .float _ => "float"
  | .str _ => "str"
  | .list _ => "list"
  | .dict _ => "dict"

/-- `a or b` -/
def Json.or (a b : Json) : Json := if a.truthy then a else b

/-- The arguments, and the `repr` of lists and dictionaries. -/
structure Args where
  inputJson : String
  imageCol : Text
  textonlyName : Text
  reprOf : Json → Text

/-- `str(value)` -/
def strOf (args : Args) : Json → Text
  | .null => "None".toList
  | .bool b => if b then "True".toList else "False".toList
  | .int z => textOfInt z
  | .float repr => repr
  | .str s => s
  | value => args.reprOf value

def idKey : Text := "id".toList

/-- A missing `id` and one that is `None` stay. -/
def normalizeRow (args : Args) (row : Row) : Row :=
  match get row idKey with
  | .null => row
  | value => set row idKey (.str (strOf args value))

/-! ## Groups and files -/

/-- The characters that `safe_filename` keeps. -/
def isSafe (c : Char) : Bool := c.isAlphanum || c = '.' || c = '_' || c = '-'

/-- `re.sub(r"[^A-Za-z0-9._-]+", "_", name)`, after a character that is kept or replaced. -/
def replaceRuns : Bool → Text → Text
  | _, [] => []
  | replaced, c :: rest =>
    if isSafe c then c :: replaceRuns false rest
    else if replaced then replaceRuns true rest
    else '_' :: replaceRuns true rest

def safeFilename (name : Text) : Text :=
  replaceRuns false (if strip name = [] then "empty".toList else strip name)

def itemPath : Json → Option Text
  | .str s => some s
  | .dict item =>
    match ((get item "path".toList).or (get item "file_name".toList)).or (get item "filename".toList) with
    | .str path => some path
    | _ => none
  | _ => none

def imagePaths : Json → List Text
  | .null => []
  | .list values => values.filterMap itemPath
  | value => (itemPath value).toList

def firstFolder (path : Text) : Option Text :=
  ((strip (path.map fun c => if c = '\\' then '/' else c)).splitOn '/').find? fun part => part ≠ [] ∧ part ≠ ['.']

def groupNames (args : Args) (row : Row) : List Text :=
  let folders := ((imagePaths (get row args.imageCol)).filterMap firstFolder).dedup
  if folders = [] then [args.textonlyName] else folders.insertionSort fun a b => a ≤ b

/-- `f"{safe_filename(group)}.json"`, in the output directory -/
def filename (group : Text) : Text := safeFilename group ++ ".json".toList

/-! ## The run -/

inductive Error
  | typeError (message : String)

/-- The groups of a row, each with the row that is appended to it. -/
def rowEntries (args : Args) (row : Row) : List (Text × Row) :=
  (groupNames args row).map fun group => (group, normalizeRow args row)

def writeGroups (groups : Dict Text (List Row)) : Dict Text (List Row) :=
  store ((groups.items.insertionSort fun a b => a.1 ≤ b.1).map fun item => (filename item.1, item.2))

/-- `main`, from the value that was loaded to the files. -/
def main (args : Args) : Json → Except Error (Dict Text (List Row))
  | .list rows => do
    let entries ← rows.mapM fun row =>
      match row with
      | .dict row => Except.ok (rowEntries args row)
      | value => .error (.typeError ("sample is not an object: " ++ value.typeName))
    .ok (writeGroups (buckets entries.flatten))
  | _ => .error (.typeError (args.inputJson ++ " must be a JSON list."))

/-- **No row is lost**, where rows are compared after `view`: every file has the rows that have one of its groups, and
the files together have every row once for each of its groups. -/
structure Lossless (args : Args) (view : Row → Row) (rows : List Row) (files : Dict Text (List Row)) : Prop where
  placed : ∀ path : Text, (files.get? path).getD [] =
    (rows.filter fun row => path ∈ (groupNames args row).map filename).map view
  counted : files.contents.Perm (rows.flatMap fun row => (groupNames args row).map fun _ => view row)

def DistinctNames (args : Args) (rows : List Row) : Prop :=
  ∀ row ∈ rows, ∀ row' ∈ rows, ∀ group ∈ groupNames args row, ∀ group' ∈ groupNames args row',
    safeFilename group = safeFilename group' → group = group'

/-! ## Normalised rows -/

theorem get_set_self (row : Row) (key : Text) (value : Json) : get (set row key value) key = value := by
  have hlookup : (set row key value).lookup key = some value := by
    induction row with
    | nil => simp [set]
    | cons item row ih =>
      unfold set
      by_cases hkey : item.1 = key
      · rw [if_pos hkey, List.lookup_cons_self]
      · rw [if_neg hkey, List.lookup_cons, beq_false_of_ne (Ne.symm hkey)]
        exact ih
  rw [get, hlookup, Option.getD_some]

theorem set_get {row : Row} {key : Text} (h : row.lookup key ≠ none) : set row key (get row key) = row := by
  induction row with
  | nil => exact absurd rfl h
  | cons item row ih =>
    unfold set
    by_cases hkey : item.1 = key
    · subst hkey
      rw [if_pos rfl, get, List.lookup_cons_self, Option.getD_some]
    · have hlookup : (item :: row).lookup key = row.lookup key := by
        rw [List.lookup_cons, beq_false_of_ne (Ne.symm hkey)]
      rw [hlookup] at h
      rw [if_neg hkey, get, hlookup]
      exact congrArg (item :: ·) (ih h)

variable {args : Args}

theorem normalizeRow_eq_self_iff {row : Row} :
    normalizeRow args row = row ↔ get row idKey = .null ∨ ∃ s, get row idKey = .str s := by
  constructor
  · intro h
    rcases hid : get row idKey with _ | _ | _ | _ | s | _ | _
    case null => exact .inl rfl
    case str => exact .inr ⟨s, rfl⟩
    all_goals
      have hset := get_set_self row idKey (.str (strOf args (get row idKey)))
      unfold normalizeRow at h
      rw [hid] at h hset
      dsimp only at h
      rw [h, hid] at hset
      exact absurd hset nofun
  · rintro (hid | ⟨s, hid⟩)
    · unfold normalizeRow
      rw [hid]
    · have hlookup : row.lookup idKey ≠ none := by
        intro hnone
        rw [get, hnone] at hid
        exact absurd hid nofun
      have hset := set_get hlookup
      unfold normalizeRow
      rw [hid] at hset ⊢
      exact hset

theorem normalizeRow_normalizeRow (args : Args) (row : Row) :
    normalizeRow args (normalizeRow args row) = normalizeRow args row := by
  refine normalizeRow_eq_self_iff.2 ?_
  by_cases hid : get row idKey = .null
  · have hself : normalizeRow args row = row := normalizeRow_eq_self_iff.2 (.inl hid)
    exact .inl (hself.symm ▸ hid)
  · refine .inr ⟨strOf args (get row idKey), ?_⟩
    have hset := get_set_self row idKey (.str (strOf args (get row idKey)))
    unfold normalizeRow
    split
    · exact absurd (by assumption) hid
    · exact hset

/-! ## The groups of the rows -/

theorem groupNames_ne_nil (args : Args) (row : Row) : groupNames args row ≠ [] := by
  unfold groupNames
  by_cases hfolders : ((imagePaths (get row args.imageCol)).filterMap firstFolder).dedup = []
  · rw [if_pos hfolders]
    exact List.cons_ne_nil _ _
  · rw [if_neg hfolders]
    intro hsorted
    refine hfolders (List.length_eq_zero_iff.1 ?_)
    rw [← List.length_insertionSort (fun a b => a ≤ b), hsorted, List.length_nil]

theorem nodup_groupNames (args : Args) (row : Row) : (groupNames args row).Nodup := by
  unfold groupNames
  dsimp only
  split
  · exact List.nodup_singleton _
  · exact (List.perm_insertionSort _ _).nodup_iff.2 (List.nodup_dedup _)

theorem main_rows (args : Args) (rows : List Row) :
    main args (.list (rows.map .dict)) = .ok (writeGroups (buckets (rows.flatMap (rowEntries args)))) := by
  have hrows : ((rows.map Json.dict).mapM fun row =>
      match row with
      | .dict row => Except.ok (rowEntries args row)
      | value => .error (Error.typeError ("sample is not an object: " ++ value.typeName))) =
      .ok (rows.map (rowEntries args)) := by
    induction rows with
    | nil => rfl
    | cons row rows ih =>
      rw [List.map_cons, List.mapM_cons, ih]
      rfl
  unfold main
  simp only [hrows, bind, Except.bind]
  rw [List.flatMap_def]

theorem filter_rowEntries (args : Args) (row : Row) (group : Text) :
    ((rowEntries args row).filter fun entry => entry.1 = group).map Prod.snd =
      if group ∈ groupNames args row then [normalizeRow args row] else [] := by
  have hnodup := nodup_groupNames args row
  unfold rowEntries
  revert hnodup
  induction groupNames args row with
  | nil => exact fun _ => rfl
  | cons name names ih =>
    intro hnodup
    rw [List.nodup_cons] at hnodup
    rw [List.map_cons]
    by_cases hname : name = group
    · subst hname
      rw [List.filter_cons_of_pos (by simp), List.map_cons, ih hnodup.2, if_neg hnodup.1, if_pos List.mem_cons_self]
    · rw [List.filter_cons_of_neg (by simpa using hname), ih hnodup.2]
      simp only [List.mem_cons, Ne.symm hname, false_or]

/-- **The bucket of a group** has its rows, in their order. -/
theorem bucket_eq (args : Args) (rows : List Row) (group : Text) :
    ((buckets (rows.flatMap (rowEntries args))).get? group).getD [] =
      (rows.filter fun row => group ∈ groupNames args row).map (normalizeRow args) := by
  rw [getD_buckets]
  induction rows with
  | nil => rfl
  | cons row rows ih =>
    rw [List.flatMap_cons, List.filter_append, List.map_append, filter_rowEntries, ih]
    by_cases hgroup : group ∈ groupNames args row
    · rw [if_pos hgroup, List.filter_cons_of_pos (by simpa using hgroup), List.map_cons, List.singleton_append]
    · rw [if_neg hgroup, List.filter_cons_of_neg (by simpa using hgroup), List.nil_append]

variable {rows : List Row}

theorem mem_keys_groups {group : Text} :
    group ∈ (buckets (rows.flatMap (rowEntries args))).keys ↔ ∃ row ∈ rows, group ∈ groupNames args row := by
  rw [mem_keys_buckets, List.map_flatMap, List.mem_flatMap]
  refine exists_congr fun row => and_congr_right fun _ => ?_
  rw [rowEntries, List.map_map, show Prod.fst ∘ (fun name => (name, normalizeRow args row)) = id from rfl, List.map_id]

theorem filename_injective {group group' : Text} :
    filename group = filename group' ↔ safeFilename group = safeFilename group' := List.append_left_inj _

/-! ## The files -/

def named (groups : Dict Text (List Row)) : List (Text × List Row) :=
  (groups.items.insertionSort fun a b => a.1 ≤ b.1).map fun item => (filename item.1, item.2)

theorem perm_named (groups : Dict Text (List Row)) :
    (named groups).Perm (groups.items.map fun item => (filename item.1, item.2)) :=
  (List.perm_insertionSort _ _).map _

theorem perm_contents_named (groups : Dict Text (List Row)) :
    ((named groups).flatMap Prod.snd).Perm groups.contents := by
  refine ((perm_named groups).flatMap_right _).trans ?_
  rw [List.flatMap_map]
  exact List.Perm.refl _

theorem nodup_named_iff :
    ((named (buckets (rows.flatMap (rowEntries args)))).map Prod.fst).Nodup ↔ DistinctNames args rows := by
  have hkeys : ∀ groups : Dict Text (List Row),
      ((named groups).map Prod.fst).Nodup ↔ (groups.keys.map filename).Nodup := by
    intro groups
    rw [((perm_named groups).map Prod.fst).nodup_iff, List.map_map, Dict.keys, List.map_map]
    rfl
  rw [hkeys, List.nodup_map_iff_inj_on (show (Dict.keys _).Nodup from Dict.nodup _)]
  constructor
  · intro h row hrow row' hrow' group hgroup group' hgroup' hsafe
    exact h group (mem_keys_groups.2 ⟨row, hrow, hgroup⟩) group' (mem_keys_groups.2 ⟨row', hrow', hgroup'⟩)
      (filename_injective.2 hsafe)
  · intro h group hgroup group' hgroup' hname
    obtain ⟨row, hrow, hmem⟩ := mem_keys_groups.1 hgroup
    obtain ⟨row', hrow', hmem'⟩ := mem_keys_groups.1 hgroup'
    exact h row hrow row' hrow' group hmem group' hmem' (filename_injective.1 hname)

theorem perm_groups (args : Args) (rows : List Row) :
    (buckets (rows.flatMap (rowEntries args))).contents.Perm
      (rows.flatMap fun row => (groupNames args row).map fun _ => normalizeRow args row) := by
  refine (perm_buckets _).trans (List.Perm.of_eq ?_)
  rw [List.map_flatMap]
  refine congrArg (fun f => rows.flatMap f) (funext fun row => ?_)
  rw [rowEntries, List.map_map]
  rfl

theorem counted_of_distinct (h : DistinctNames args rows) :
    (writeGroups (buckets (rows.flatMap (rowEntries args)))).contents.Perm
      (rows.flatMap fun row => (groupNames args row).map fun _ => normalizeRow args row) := by
  have hcontents := contents_store (nodup_named_iff.2 h)
  refine (List.Perm.of_eq hcontents).trans ?_
  exact (perm_contents_named _).trans (perm_groups args rows)

theorem placed_of_distinct (h : DistinctNames args rows) (path : Text) :
    ((writeGroups (buckets (rows.flatMap (rowEntries args)))).get? path).getD [] =
      (rows.filter fun row => path ∈ (groupNames args row).map filename).map (normalizeRow args) := by
  have hitems := items_store (nodup_named_iff.2 h)
  by_cases hpath : ∃ row ∈ rows, ∃ group ∈ groupNames args row, filename group = path
  · obtain ⟨row, hrow, group, hgroup, rfl⟩ := hpath
    obtain ⟨bucket, hbucket⟩ := Dict.mem_keys.1 (mem_keys_groups.2 ⟨row, hrow, hgroup⟩)
    have hfile : (writeGroups (buckets (rows.flatMap (rowEntries args)))).get? (filename group) = some bucket := by
      refine Dict.mem_items.1 (hitems.symm ▸ (perm_named _).mem_iff.2 ?_)
      exact List.mem_map.2 ⟨(group, bucket), hbucket, rfl⟩
    have hrows := bucket_eq args rows group
    rw [Dict.mem_items.1 hbucket, Option.getD_some] at hrows
    rw [hfile, Option.getD_some, hrows]
    refine congrArg (List.map _) (List.filter_congr fun row' hrow' => decide_eq_decide.2 ?_)
    constructor
    · exact fun hmem => List.mem_map_of_mem hmem
    · intro hmem
      obtain ⟨group', hgroup', hname⟩ := List.mem_map.1 hmem
      exact h row' hrow' row hrow group' hgroup' group hgroup (filename_injective.1 hname) ▸ hgroup'
  · have hnone : (writeGroups (buckets (rows.flatMap (rowEntries args)))).get? path = none := by
      refine Dict.get?_eq_none.2 fun hmem => hpath ?_
      obtain ⟨bucket, hbucket⟩ := Dict.mem_keys.1 hmem
      obtain ⟨item, hitem, hname⟩ := List.mem_map.1 ((perm_named _).mem_iff.1 (hitems ▸ hbucket))
      obtain ⟨row, hrow, hgroup⟩ := mem_keys_groups.1 (Dict.mem_keys.2 ⟨item.2, hitem⟩)
      exact ⟨row, hrow, item.1, hgroup, congrArg Prod.fst hname⟩
    rw [hnone, Option.getD_none, List.filter_eq_nil_iff.2, List.map_nil]
    intro row hrow hmem
    obtain ⟨group, hgroup, hname⟩ := List.mem_map.1 (of_decide_eq_true hmem)
    exact hpath ⟨row, hrow, group, hgroup, hname⟩

/-- **Files with one name** overwrite each other. -/
theorem distinct_of_length (h : (writeGroups (buckets (rows.flatMap (rowEntries args)))).contents.length =
      (rows.flatMap (groupNames args)).length) : DistinctNames args rows := by
  refine nodup_named_iff.1 ((size_store_eq_iff ?_).1 (h.trans ?_))
  · intro item hitem
    obtain ⟨group, hgroup, rfl⟩ := List.mem_map.1 ((perm_named _).mem_iff.1 hitem)
    have hne := ne_nil_of_mem_buckets hgroup
    exact hne
  · rw [((perm_contents_named _).trans (perm_groups args rows)).length_eq, List.length_flatMap, List.length_flatMap]
    simp only [List.length_map]

/-! ## What is lost -/

theorem length_of_counted {view : Row → Row} {files : Dict Text (List Row)} (h : Lossless args view rows files) :
    files.contents.length = (rows.flatMap (groupNames args)).length := by
  rw [h.counted.length_eq, List.length_flatMap, List.length_flatMap]
  simp only [List.length_map]

theorem normalizeRow_of_lossless (h : Lossless args id rows (writeGroups (buckets (rows.flatMap (rowEntries args)))))
    (hdistinct : DistinctNames args rows) {row : Row} (hrow : row ∈ rows) : normalizeRow args row = row := by
  obtain ⟨group, hgroup⟩ := List.exists_mem_of_ne_nil _ (groupNames_ne_nil args row)
  have hmem : row ∈ rows.flatMap fun row => (groupNames args row).map fun _ => id row :=
    List.mem_flatMap.2 ⟨row, hrow, List.mem_map.2 ⟨group, hgroup, rfl⟩⟩
  have hfiles := (counted_of_distinct hdistinct).mem_iff.1 (h.counted.mem_iff.2 hmem)
  obtain ⟨other, _, hother⟩ := List.mem_flatMap.1 hfiles
  obtain ⟨_, _, rfl⟩ := List.mem_map.1 hother
  exact normalizeRow_normalizeRow args other

/-- **No row is lost** exactly when different groups have different sanitised names. The rows themselves are kept when
their ids are texts already, since the others are made texts. -/
theorem lossless_iff (args : Args) (rows : List Row) :
    ∃ files, main args (.list (rows.map .dict)) = .ok files ∧
      (Lossless args (normalizeRow args) rows files ↔ DistinctNames args rows) ∧
      (Lossless args id rows files ↔ DistinctNames args rows ∧
        ∀ row ∈ rows, get row idKey = .null ∨ ∃ s, get row idKey = .str s) := by
  refine ⟨_, main_rows args rows, ⟨fun h => distinct_of_length (length_of_counted h),
    fun h => ⟨placed_of_distinct h, counted_of_distinct h⟩⟩, ?_, ?_⟩
  · intro h
    have hdistinct := distinct_of_length (length_of_counted h)
    exact ⟨hdistinct, fun row hrow => normalizeRow_eq_self_iff.1 (normalizeRow_of_lossless h hdistinct hrow)⟩
  · rintro ⟨hdistinct, hids⟩
    have hself : ∀ row ∈ rows, normalizeRow args row = id row :=
      fun row hrow => normalizeRow_eq_self_iff.2 (hids row hrow)
    refine ⟨fun path => ?_, ?_⟩
    · rw [placed_of_distinct hdistinct]
      exact List.map_congr_left fun row hrow => hself row (List.mem_of_mem_filter hrow)
    · refine (counted_of_distinct hdistinct).trans (List.Perm.of_eq ?_)
      refine List.flatMap_congr fun row hrow => ?_
      rw [hself row hrow]

def exampleArgs : Args := ⟨"in.json", "image".toList, "textonly".toList, fun _ => []⟩

def imageRow (path : String) : Row := [(idKey, .str "0".toList), ("image".toList, .str path.toList)]

/-- A folder with a space, and one with an underscore: the second file overwrites the first one. -/
theorem not_lossless_two_folders : ∃ files,
    main exampleArgs (.list ([imageRow "a b/1.png", imageRow "a_b/2.png"].map .dict)) = .ok files ∧
      files.contents.length = 1 ∧ ¬ Lossless exampleArgs id [imageRow "a b/1.png", imageRow "a_b/2.png"] files := by
  refine ⟨_, main_rows _ _, by decide +kernel, fun h => ?_⟩
  have hlength := length_of_counted h
  revert hlength
  decide +kernel

end Opd.Clight.Split665k
