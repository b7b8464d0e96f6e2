import Opd.Lib.Blocks
import Opd.Lib.Tensor

/-!
# Resuming a dataset

A dataset is saved without its rows. After it is restored, `resume_dataset_state` reads the rows again from the
original files, with the settings that were saved. `split` gives datasets with a part of the rows each, but with the
same files and settings.

* `Made.invariant`: what the fields of a dataset are after any of these operations.
* `keepsRows_iff`: the rows after resuming are those before saving just where the dataset has not been split into more
  than one part since its rows were read.
-/

namespace Opd.Verl.ResumedDataset

open Lib

abbrev Text := List Char

inductive Format
  | parquet
  | json

inductive DatasetError
  | valueError (message : String)
  | attributeError (message : String)
  | indexError (message : String)
  | loadError
  deriving DecidableEq

/-- `np.random.default_rng`: with a seed, or with what is drawn from the system. -/
inductive Rng (σ δ : Type)
  | seeded (seed : σ)
  | drawn (draw : δ)

variable {ρ σ δ : Type}

/-- The functions that are called on files, rows and random generators. The length of a prompt is not known if it
could not be computed. -/
structure Library (ρ σ δ : Type) where
  copyToLocal : Text → Text
  loadDataset : Format → Text → Option (List ρ)
  choice : Rng σ δ → ℕ → ℕ → List ℕ
  doc2len : ρ → Option ℕ

structure Settings (σ : Type) where
  maxSamples : ℤ
  shuffle : Bool
  seed : Option σ
  filterOverlongPrompts : Bool
  maxPromptLength : ℕ

/-- The attributes of a dataset. One of an older version has no original files, and one that was restored has no
rows. -/
structure RLHFDataset (ρ σ : Type) where
  dataFiles : List Text
  originalDataFiles : Option (List Text)
  settings : Settings σ
  serializeDataset : Bool
  dataframe : Option (List ρ)

/-! ## Reading -/

def readFile (lib : Library ρ σ δ) (path : Text) : Except DatasetError (List ρ) :=
  let rows := if ".parquet".toList <:+ path then some (lib.loadDataset .parquet path)
    else if ".json".toList <:+ path ∨ ".jsonl".toList <:+ path then some (lib.loadDataset .json path) else none
  match rows with
  | some (some rows) => .ok rows
  | some none => .error .loadError
  | none => .error (.valueError s!"Unsupported file format: {String.ofList path}")

/-- `datasets.concatenate_datasets` -/
def concatenateDatasets (dataframes : List (List ρ)) : Except DatasetError (List ρ) :=
  if dataframes = [] then .error (.valueError "Unable to concatenate an empty list of datasets.")
  else .ok dataframes.flatten

/-- `dataframe.select(indices)` -/
def select (dataframe : List ρ) (indices : List ℕ) : Except DatasetError (List ρ) :=
  indices.mapM fun i =>
    match dataframe[i]? with
    | some row => .ok row
    | none => .error (.indexError s!"Index {i} out of range for dataset of size {dataframe.length}.")

def rngOf (settings : Settings σ) (draw : δ) : Rng σ δ := settings.seed.elim (.drawn draw) .seeded

def sample (lib : Library ρ σ δ) (settings : Settings σ) (draw : δ) (dataframe : List ρ) :
    Except DatasetError (List ρ) :=
  let total := dataframe.length
  if settings.maxSamples > 0 ∧ settings.maxSamples < total then
    select dataframe (if settings.shuffle then lib.choice (rngOf settings draw) total settings.maxSamples.toNat
      else List.range settings.maxSamples.toNat)
  else .ok dataframe

def maybeFilterOutLongPrompts (lib : Library ρ σ δ) (settings : Settings σ) (dataframe : List ρ) : List ρ :=
  if settings.filterOverlongPrompts then
    dataframe.filter fun doc => (lib.doc2len doc).getD (settings.maxPromptLength + 1) ≤ settings.maxPromptLength
  else dataframe

def readFilesAndTokenize (lib : Library ρ σ δ) (settings : Settings σ) (draw : δ) (dataFiles : List Text) :
    Except DatasetError (List ρ) := do
  let dataframes ← dataFiles.mapM (readFile lib)
  let dataframe ← concatenateDatasets dataframes
  let dataframe ← sample lib settings draw dataframe
  .ok (maybeFilterOutLongPrompts lib settings dataframe)

namespace RLHFDataset

/-- `_download`: a file of the dataset is replaced by a local copy of the one at its position in the list. -/
def download (lib : Library ρ σ δ) (sources : List Text) (ds : RLHFDataset ρ σ) :
    Except DatasetError (RLHFDataset ρ σ) :=
  if sources.length ≤ ds.dataFiles.length then
    .ok { ds with dataFiles := sources.map lib.copyToLocal ++ ds.dataFiles.drop sources.length }
  else .error (.indexError "list assignment index out of range")

def read (lib : Library ρ σ δ) (draw : δ) (ds : RLHFDataset ρ σ) : Except DatasetError (RLHFDataset ρ σ) := do
  let rows ← readFilesAndTokenize lib ds.settings draw ds.dataFiles
  .ok { ds with dataframe := some rows }

/-- `RLHFDataset(data_files, ...)` -/
def init (lib : Library ρ σ δ) (settings : Settings σ) (draw : δ) (dataFiles : List Text) :
    Except DatasetError (RLHFDataset ρ σ) := do
  let ds ← download lib dataFiles ⟨dataFiles, some dataFiles, settings, false, none⟩
  ds.read lib draw

/-- `__getstate__`, which restoring takes as the attributes. -/
def getstate (ds : RLHFDataset ρ σ) : RLHFDataset ρ σ :=
  if ds.serializeDataset then ds else { ds with dataframe := none }

def resumeDatasetState (lib : Library ρ σ δ) (draw : δ) (ds : RLHFDataset ρ σ) :
    Except DatasetError (RLHFDataset ρ σ) :=
  match ds.originalDataFiles with
  | none => .ok { ds with serializeDataset := true }
  | some originalDataFiles => do
    let ds ← download lib originalDataFiles { ds with serializeDataset := false }
    ds.read lib draw

/-- A part of a split, made from the files of the dataset before it is given its rows. -/
def splitPart (lib : Library ρ σ δ) (ds : RLHFDataset ρ σ) (dataframe : List ρ) (numSplits totalSamples : ℕ)
    (draw : δ) (i : ℕ) : Except DatasetError (RLHFDataset ρ σ) := do
  let splitSize := totalSamples / numSplits
  let startIdx := i * splitSize
  let endIdx := if i < numSplits - 1 then (i + 1) * splitSize else totalSamples
  let splitDataframe ← select dataframe (List.range' startIdx (endIdx - startIdx))
  let splitDataset ← init lib ds.settings draw ds.dataFiles
  .ok { splitDataset with
    dataframe := some splitDataframe
    serializeDataset := ds.serializeDataset
    originalDataFiles := ds.originalDataFiles }

def split (lib : Library ρ σ δ) (draws : ℕ → δ) (numSplits : ℤ) (ds : RLHFDataset ρ σ) :
    Except DatasetError (List (RLHFDataset ρ σ)) :=
  if numSplits ≤ 0 then .error (.valueError s!"num_splits must be a positive integer, got {numSplits}")
  else
    match ds.dataframe with
    | none => .error (.attributeError ("dataframe not found in RLHFDataset\n" ++
        "reason: _read_files_and_tokenize() not called or Parquet file loading failed"))
    | some dataframe =>
      if dataframe.length = 0 then .error (.valueError "Cannot split an empty dataset")
      else
        let n := numSplits.toNat
        let totalSamples := dataframe.length - dataframe.length % n
        (List.range n).mapM fun i => splitPart lib ds dataframe n totalSamples (draws i) i

end RLHFDataset

/-! ## What the operations do -/

/-- **What is assumed of the called functions**: a generator chooses positions of the rows, and a local copy is read
as its source is. -/
structure Lawful (lib : Library ρ σ δ) : Prop where
  choice_lt : ∀ rng total size, size ≤ total → ∀ i ∈ lib.choice rng total size, i < total
  read_copy : ∀ path, readFile lib (lib.copyToLocal path) = readFile lib path

/-- A part of the rows: the position in a number of parts of equal size. -/
def part (rows : List ρ) (cut : ℕ × ℕ) : List ρ := block (cut.2 * (rows.length / cut.1)) (rows.length / cut.1) rows

def cutRows (cuts : List (ℕ × ℕ)) (rows : List ρ) : List ρ := cuts.foldl part rows

/-- The datasets that are made of some files: by reading them, as a part of a split, and by saving and resuming. The
draw is that of the last reading, and the cuts are those since then. -/
inductive Made (lib : Library ρ σ δ) (settings : Settings σ) (files : List Text) :
    δ → List (ℕ × ℕ) → RLHFDataset ρ σ → Prop
  | init {draw : δ} {ds : RLHFDataset ρ σ} (h : RLHFDataset.init lib settings draw files = .ok ds) :
    Made lib settings files draw [] ds
  | split {draw : δ} {cuts : List (ℕ × ℕ)} {ds : RLHFDataset ρ σ} {draws : ℕ → δ} {n i : ℕ}
    {parts : List (RLHFDataset ρ σ)} {one : RLHFDataset ρ σ} (hds : Made lib settings files draw cuts ds)
    (h : ds.split lib draws n = .ok parts) (hone : parts[i]? = some one) :
    Made lib settings files draw (cuts ++ [(n, i)]) one
  | resume {draw draw' : δ} {cuts : List (ℕ × ℕ)} {ds ds' : RLHFDataset ρ σ}
    (hds : Made lib settings files draw cuts ds) (h : ds.getstate.resumeDatasetState lib draw' = .ok ds') :
    Made lib settings files draw' [] ds'

variable {lib : Library ρ σ δ} {settings : Settings σ} {files : List Text} {draw draw' : δ} {cuts : List (ℕ × ℕ)}
  {ds ds' : RLHFDataset ρ σ}

theorem select_eq {dataframe : List ρ} {indices : List ℕ} (h : ∀ i ∈ indices, i < dataframe.length) :
    ∃ rows, select dataframe indices = .ok rows :=
  mapM_of_forall fun i hi => ⟨dataframe.get ⟨i, h i hi⟩, by rw [List.getElem?_eq_getElem (h i hi)]; rfl⟩

/-- **The rows of a range** are a block. -/
theorem select_range' {dataframe : List ρ} {start size : ℕ} (h : start + size ≤ dataframe.length) :
    select dataframe (List.range' start size) = .ok (block start size dataframe) := by
  unfold select
  rw [mapM_eq_ok_iff, List.forall₂_iff_get]
  have hlength : (block start size dataframe).length = size := length_block h
  refine ⟨by rw [List.length_range', hlength], fun k hk hk' => ?_⟩
  rw [List.length_range'] at hk
  have hentry : dataframe[start + k]? = some ((block start size dataframe).get ⟨k, hk'⟩) := by
    rw [← getElem?_block hk, List.get_eq_getElem]
    exact List.getElem?_eq_getElem hk'
  simp only [List.get_eq_getElem, List.getElem_range', Nat.one_mul, hentry]

theorem exists_sample (h : Lawful lib) (settings : Settings σ) (draw : δ) (dataframe : List ρ) :
    ∃ rows, sample lib settings draw dataframe = .ok rows := by
  unfold sample
  simp only []
  split
  · rename_i hsize
    have hlt : settings.maxSamples.toNat < dataframe.length := by omega
    refine select_eq fun i hi => ?_
    split at hi
    · exact h.choice_lt _ _ _ hlt.le i hi
    · exact (List.mem_range.1 hi).trans hlt
  · exact ⟨dataframe, rfl⟩

theorem exists_read (h : Lawful lib) {rows : List ρ} (hread : readFilesAndTokenize lib settings draw files = .ok rows)
    (draw' : δ) : ∃ rows', readFilesAndTokenize lib settings draw' files = .ok rows' := by
  unfold readFilesAndTokenize at hread ⊢
  obtain ⟨dataframes, hfiles, hread⟩ := bind_eq_ok.1 hread
  obtain ⟨dataframe, hconcat, -⟩ := bind_eq_ok.1 hread
  obtain ⟨sampled, hsample⟩ := exists_sample h settings draw' dataframe
  rw [hfiles]
  exact ⟨_, bind_eq_ok.2 ⟨dataframes, rfl, bind_eq_ok.2 ⟨dataframe, hconcat, bind_eq_ok.2 ⟨sampled, hsample, rfl⟩⟩⟩⟩

theorem readFiles_congr {paths paths' : List Text} (h : paths.mapM (readFile lib) = paths'.mapM (readFile lib)) :
    readFilesAndTokenize lib settings draw paths = readFilesAndTokenize lib settings draw paths' := by
  unfold readFilesAndTokenize
  rw [h]

theorem mapM_copy (h : Lawful lib) (paths : List Text) :
    (paths.map lib.copyToLocal).mapM (readFile lib) = paths.mapM (readFile lib) := by
  induction paths with
  | nil => rfl
  | cons path paths ih => rw [List.map_cons, List.mapM_cons, List.mapM_cons, h.read_copy, ih]

def whole (lib : Library ρ σ δ) (settings : Settings σ) (files : List Text) (rows : List ρ) : RLHFDataset ρ σ :=
  ⟨files.map lib.copyToLocal, some files, settings, false, some rows⟩

theorem download_eq {sources : List Text} (h : ds.dataFiles.length = sources.length) :
    ds.download lib sources = .ok { ds with dataFiles := sources.map lib.copyToLocal } := by
  unfold RLHFDataset.download
  rw [if_pos h.ge, List.drop_eq_nil_of_le h.le, List.append_nil]

theorem read_eq : ds.read lib draw =
    (readFilesAndTokenize lib ds.settings draw ds.dataFiles).map fun rows => { ds with dataframe := some rows } := by
  unfold RLHFDataset.read
  cases readFilesAndTokenize lib ds.settings draw ds.dataFiles
  · rfl
  · rfl

theorem download_read (h : Lawful lib) (hlength : ds.dataFiles.length = files.length) :
    (do
      let ds ← ds.download lib files
      ds.read lib draw) = (readFilesAndTokenize lib ds.settings draw files).map fun rows =>
        { ds with dataFiles := files.map lib.copyToLocal, dataframe := some rows } := by
  rw [download_eq hlength, ← readFiles_congr (mapM_copy h files)]
  exact read_eq

theorem init_eq (h : Lawful lib) : RLHFDataset.init lib settings draw files =
    (readFilesAndTokenize lib settings draw files).map (whole lib settings files) := download_read h rfl

/-! ## What is kept of the operations -/

/-- **The fields of a dataset** that was made of some files. -/
structure Invariant (lib : Library ρ σ δ) (settings : Settings σ) (files : List Text) (draw : δ) (cuts : List (ℕ × ℕ))
    (ds : RLHFDataset ρ σ) : Prop where
  settings_eq : ds.settings = settings
  original_eq : ds.originalDataFiles = some files
  serialize_eq : ds.serializeDataset = false
  length_files : ds.dataFiles.length = files.length
  read_files : ds.dataFiles.mapM (readFile lib) = files.mapM (readFile lib)
  cuts_lt : ∀ cut ∈ cuts, cut.2 < cut.1
  rows : ∃ rows, readFilesAndTokenize lib settings draw files = .ok rows ∧ ds.dataframe = some (cutRows cuts rows) ∧
    ((∃ cut ∈ cuts, cut.1 ≠ 1) → (cutRows cuts rows).length < rows.length)

theorem invariant_whole (h : Lawful lib) {rows : List ρ}
    (hread : readFilesAndTokenize lib settings draw files = .ok rows) :
    Invariant lib settings files draw [] (whole lib settings files rows) where
  settings_eq := rfl
  original_eq := rfl
  serialize_eq := rfl
  length_files := List.length_map _
  read_files := mapM_copy h files
  cuts_lt := fun cut hcut => by cases hcut
  rows := ⟨rows, hread, rfl, fun hcut => by
    obtain ⟨cut, hcut, -⟩ := hcut
    cases hcut⟩

/-- **Resuming reads the original files.** -/
theorem Invariant.resume_eq (hi : Invariant lib settings files draw cuts ds) (h : Lawful lib) (draw' : δ) :
    ds.getstate.resumeDatasetState lib draw' =
      (readFilesAndTokenize lib settings draw' files).map (whole lib settings files) := by
  have hstate : ds.getstate = { ds with dataframe := none } := by
    unfold RLHFDataset.getstate
    rw [hi.serialize_eq]
    rfl
  rw [hstate, RLHFDataset.resumeDatasetState]
  simp only [hi.original_eq, hi.settings_eq]
  exact download_read h hi.length_files

theorem sub_mod_div (len n : ℕ) : (len - len % n) / n = len / n := by
  rcases Nat.eq_zero_or_pos n with rfl | hpos
  · rw [Nat.div_zero, Nat.div_zero]
  · have hlen : len - len % n = n * (len / n) := by
      have := Nat.div_add_mod len n
      omega
    rw [hlen, Nat.mul_div_cancel_left _ hpos]

theorem Invariant.splitPart_eq (hi : Invariant lib settings files draw cuts ds) (h : Lawful lib) {rows : List ρ}
    {n i : ℕ} (hlt : i < n) (draw' : δ) :
    ds.splitPart lib rows n (rows.length - rows.length % n) draw' i =
      .ok { ds with dataFiles := ds.dataFiles.map lib.copyToLocal, dataframe := some (part rows (n, i)) } := by
  have hrest : rows.length - rows.length % n = n * (rows.length / n) := by
    have := Nat.div_add_mod rows.length n
    omega
  have hend : (if i < n - 1 then (i + 1) * (rows.length / n) else rows.length - rows.length % n) =
      (i + 1) * (rows.length / n) := by
    split
    · rfl
    · rw [hrest, show i + 1 = n by omega]
  have hle : i * (rows.length / n) + rows.length / n ≤ rows.length := by
    have hmul := Nat.mul_le_mul_right (rows.length / n) (Nat.succ_le_of_lt hlt)
    have := Nat.mod_le rows.length n
    rw [Nat.succ_mul, ← hrest] at hmul
    omega
  obtain ⟨whole', hwhole, -⟩ := hi.rows
  obtain ⟨rows', hread⟩ := exists_read h hwhole draw'
  rw [← readFiles_congr hi.read_files] at hread
  have hinit : RLHFDataset.init lib ds.settings draw' ds.dataFiles =
      .ok (whole lib ds.settings ds.dataFiles rows') := by
    rw [init_eq h, hi.settings_eq, hread]
    rfl
  unfold RLHFDataset.splitPart
  simp only [sub_mod_div, hend]
  rw [Nat.succ_mul, Nat.add_sub_cancel_left, select_range' hle, hinit]
  rfl

/-- **A split gives all its parts.** -/
theorem Invariant.split_eq (hi : Invariant lib settings files draw cuts ds) (h : Lawful lib) {rows : List ρ}
    (hrows : ds.dataframe = some rows) (hne : rows ≠ []) {n : ℕ} (hn : 1 ≤ n) (draws : ℕ → δ) :
    ds.split lib draws n = .ok ((List.range n).map fun i =>
      { ds with dataFiles := ds.dataFiles.map lib.copyToLocal, dataframe := some (part rows (n, i)) }) := by
  unfold RLHFDataset.split
  rw [if_neg (by omega), hrows]
  simp only []
  rw [if_neg fun hzero => hne (List.length_eq_zero_iff.1 hzero), Int.toNat_natCast]
  exact mapM_eq_map fun i hmem => hi.splitPart_eq h (List.mem_range.1 hmem) (draws i)

theorem rows_of_split {draws : ℕ → δ} {n : ℕ} {parts : List (RLHFDataset ρ σ)}
    (h : ds.split lib draws n = .ok parts) :
    1 ≤ n ∧ ∃ rows, ds.dataframe = some rows ∧ rows ≠ [] := by
  unfold RLHFDataset.split at h
  split at h
  · cases h
  · rename_i hpos
    split at h
    · cases h
    · rename_i rows hrows
      split at h
      · cases h
      · rename_i hne
        exact ⟨by omega, rows, hrows, fun hnil => hne (List.length_eq_zero_iff.2 hnil)⟩

theorem length_part_le (rows : List ρ) (cut : ℕ × ℕ) : (part rows cut).length ≤ rows.length / cut.1 := by
  rw [part, block, List.length_take]
  exact Nat.min_le_left _ _

theorem length_cutRows_le (cuts : List (ℕ × ℕ)) (rows : List ρ) : (cutRows cuts rows).length ≤ rows.length := by
  induction cuts generalizing rows with
  | nil => exact Nat.le_refl _
  | cons cut cuts ih => exact (ih _).trans ((length_part_le rows cut).trans (Nat.div_le_self _ _))

/-- **The invariant** of the datasets that are made of some files. -/
theorem Made.invariant (h : Lawful lib) (hds : Made lib settings files draw cuts ds) :
    Invariant lib settings files draw cuts ds := by
  induction hds with
  | @init draw ds hinit =>
    rw [init_eq h] at hinit
    cases hread : readFilesAndTokenize lib settings draw files with
    | error e =>
      rw [hread] at hinit
      cases hinit
    | ok rows =>
      rw [hread] at hinit
      cases hinit
      exact invariant_whole h hread
  | @split draw cuts ds draws n i parts one hds hsplit hone ih =>
    obtain ⟨hn, rows, hrows, hne⟩ := rows_of_split hsplit
    rw [ih.split_eq h hrows hne hn draws] at hsplit
    cases hsplit
    rw [List.getElem?_map] at hone
    obtain ⟨i', hi', rfl⟩ := Option.map_eq_some_iff.1 hone
    obtain ⟨hlt, rfl⟩ := List.getElem?_eq_some_iff.1 hi'
    rw [List.getElem_range] at hone ⊢
    obtain ⟨base, hread, hbase, hless⟩ := ih.rows
    obtain rfl : rows = cutRows cuts base := Option.some.inj (hrows.symm.trans hbase)
    have hcut : cutRows (cuts ++ [(n, i)]) base = part (cutRows cuts base) (n, i) := List.foldl_append
    refine ⟨ih.settings_eq, ih.original_eq, ih.serialize_eq, ?_, ?_, ?_, base, hread, by rw [hcut], fun hmore => ?_⟩
    · rw [List.length_map, ih.length_files]
    · rw [mapM_copy h, ih.read_files]
    · intro cut hmem
      rw [List.mem_append, List.mem_singleton] at hmem
      rcases hmem with hmem | rfl
      · exact ih.cuts_lt cut hmem
      · rwa [List.length_range] at hlt
    · -- one of the cuts makes the rows fewer, and no cut makes them more
      have hle : (part (cutRows cuts base) (n, i)).length ≤ (cutRows cuts base).length / n := length_part_le _ _
      have hpos := List.length_pos_of_ne_nil hne
      rw [hcut]
      by_cases hone' : ∃ cut ∈ cuts, cut.1 ≠ 1
      · have := hless hone'
        have := Nat.div_le_self (cutRows cuts base).length n
        omega
      · obtain ⟨cut, hmem, hcut1⟩ := hmore
        rw [List.mem_append, List.mem_singleton] at hmem
        rcases hmem with hmem | rfl
        · exact absurd ⟨cut, hmem, hcut1⟩ hone'
        · have hlt' := Nat.div_lt_self hpos (show 1 < n by omega)
          have hbound := length_cutRows_le cuts base
          omega
  | @resume draw draw' cuts ds ds' hds hresume ih =>
    rw [ih.resume_eq h] at hresume
    cases hread : readFilesAndTokenize lib settings draw' files with
    | error e =>
      rw [hread] at hresume
      cases hresume
    | ok rows =>
      rw [hread] at hresume
      cases hresume
      exact invariant_whole h hread

/-! ## The rows after resuming -/

/-- **The rows are kept**: after resuming they are those that the dataset would have had with the draw of the resumed
run, and the same as before if no draw is made. -/
structure ResumesSame (lib : Library ρ σ δ) (settings : Settings σ) (files : List Text) (cuts : List (ℕ × ℕ))
    (ds : RLHFDataset ρ σ) : Prop where
  resumes : ∀ draw, ∃ ds' rows, ds.getstate.resumeDatasetState lib draw = .ok ds' ∧
    readFilesAndTokenize lib settings draw files = .ok rows ∧ ds'.dataframe = some (cutRows cuts rows)
  same : (∀ draw draw',
      readFilesAndTokenize lib settings draw files = readFilesAndTokenize lib settings draw' files) →
    ∀ draw ds', ds.getstate.resumeDatasetState lib draw = .ok ds' → ds'.dataframe = ds.dataframe

/-- **The parts of a split** follow each other, and cover the rows but for what is left over. -/
def SplitsContiguously (lib : Library ρ σ δ) (ds : RLHFDataset ρ σ) : Prop :=
  ∀ rows, ds.dataframe = some rows → rows ≠ [] → ∀ n : ℕ, 1 ≤ n → ∀ draws : ℕ → δ, ∃ parts,
    ds.split lib draws n = .ok parts ∧ parts.length = n ∧
      (∀ i < n, ∃ one, parts[i]? = some one ∧
        one.dataframe = some (block (i * (rows.length / n)) (rows.length / n) rows)) ∧
      (parts.flatMap fun one => one.dataframe.getD []) = rows.take (rows.length / n * n)

theorem cutRows_eq_self {cuts : List (ℕ × ℕ)} (h : ∀ cut ∈ cuts, cut.1 = 1) (hlt : ∀ cut ∈ cuts, cut.2 < cut.1)
    (rows : List ρ) : cutRows cuts rows = rows := by
  induction cuts with
  | nil => rfl
  | cons cut cuts ih =>
    have hone := h cut List.mem_cons_self
    have hzero : cut.2 = 0 := by
      have := hlt cut List.mem_cons_self
      omega
    have hpart : part rows cut = rows := by
      rw [part, hone, hzero, Nat.div_one, Nat.zero_mul, block, List.drop_zero, List.take_length]
    have hrest := ih (fun cut' hcut' => h cut' (List.mem_cons_of_mem cut hcut'))
      fun cut' hcut' => hlt cut' (List.mem_cons_of_mem cut hcut')
    exact (congrArg (cutRows cuts) hpart).trans hrest

/-- **Resuming keeps the rows** just where no split into more parts has been made since they were read. -/
theorem Made.resumesSame_iff (h : Lawful lib) (hds : Made lib settings files draw cuts ds) :
    ResumesSame lib settings files cuts ds ↔ ∀ cut ∈ cuts, cut.1 = 1 := by
  have hi := hds.invariant h
  obtain ⟨base, hbase, hrows, hless⟩ := hi.rows
  constructor
  · intro hsame
    by_contra hmore
    push Not at hmore
    obtain ⟨ds', rows, hresume, hread, hds'⟩ := hsame.resumes draw
    rw [hi.resume_eq h, hbase] at hresume
    cases hresume
    rw [hbase] at hread
    cases hread
    have hshort := hless hmore
    rw [← Option.some.inj hds'] at hshort
    exact Nat.lt_irrefl _ hshort
  · intro hone
    have hself := @cutRows_eq_self ρ cuts hone hi.cuts_lt
    constructor
    · intro draw'
      obtain ⟨rows, hread⟩ := exists_read h hbase draw'
      refine ⟨whole lib settings files rows, rows, ?_, hread, ?_⟩
      · rw [hi.resume_eq h, hread]
        rfl
      · rw [hself]
        rfl
    · intro hdraws draw' ds' hresume
      rw [hi.resume_eq h, hdraws draw' draw, hbase] at hresume
      cases hresume
      rw [hrows, hself]
      rfl

theorem Made.splitsContiguously (h : Lawful lib) (hds : Made lib settings files draw cuts ds) :
    SplitsContiguously lib ds := by
  intro rows hrows hne n hn draws
  refine ⟨_, (hds.invariant h).split_eq h hrows hne hn draws, ?_, fun i hi => ?_, ?_⟩
  · rw [List.length_map, List.length_range]
  · rw [List.getElem?_map, List.getElem?_range hi]
    exact ⟨_, rfl, rfl⟩
  · rw [List.flatMap_map]
    exact (flatMap_block_take n (rows.length / n) rows).trans (congrArg rows.take (Nat.mul_comm _ _))

/-- **What a dataset keeps** when it is saved and resumed, and when it is split. -/
structure KeepsRows (lib : Library ρ σ δ) (settings : Settings σ) (files : List Text) (cuts : List (ℕ × ℕ))
    (ds : RLHFDataset ρ σ) : Prop where
  resumed : ResumesSame lib settings files cuts ds
  split : SplitsContiguously lib ds

/-- **A resumed dataset is the one that was saved** just where no split into more parts has been made since its rows
were read. -/
theorem keepsRows_iff (h : Lawful lib) (hds : Made lib settings files draw cuts ds) :
    KeepsRows lib settings files cuts ds ↔ ∀ cut ∈ cuts, cut.1 = 1 := by
  rw [← hds.resumesSame_iff h]
  exact ⟨fun hkeeps => hkeeps.resumed, fun hresumed => ⟨hresumed, hds.splitsContiguously h⟩⟩

/-! ## A dataset of two rows -/

def twoRowLibrary : Library ℕ Unit Unit where
  copyToLocal path := path
  loadDataset _ _ := some [10, 20]
  choice _ _ size := List.range size
  doc2len _ := some 1

theorem twoRowLibrary_lawful : Lawful twoRowLibrary where
  choice_lt _ _ _ hsize _ hi := (List.mem_range.1 hi).trans_le hsize
  read_copy _ := rfl

def allRows : Settings Unit := ⟨-1, false, none, true, 8⟩

def trainFiles : List Text := ["train.parquet".toList]

def partOfTwo (rows : List ℕ) : RLHFDataset ℕ Unit := ⟨trainFiles, some trainFiles, allRows, false, some rows⟩

theorem made_twoRows : Made twoRowLibrary allRows trainFiles () [] (partOfTwo [10, 20]) := .init (by rfl)

theorem twoRows_kept : KeepsRows twoRowLibrary allRows trainFiles [] (partOfTwo [10, 20]) :=
  (keepsRows_iff twoRowLibrary_lawful made_twoRows).2 fun _ hcut => by cases hcut

/-- The first half of the two rows is saved, and both are there after resuming. -/
theorem not_keepsRows : Made twoRowLibrary allRows trainFiles () [(2, 0)] (partOfTwo [10]) ∧
    ¬ KeepsRows twoRowLibrary allRows trainFiles [(2, 0)] (partOfTwo [10]) := by
  have hmade : Made twoRowLibrary allRows trainFiles () [(2, 0)] (partOfTwo [10]) :=
    @Made.split ℕ Unit Unit twoRowLibrary allRows trainFiles () [] _ (fun _ => ()) 2 0
      [partOfTwo [10], partOfTwo [20]] _ made_twoRows (by rfl) rfl
  refine ⟨hmade, fun hkeeps => ?_⟩
  have hone := (hmade.resumesSame_iff twoRowLibrary_lawful).1 hkeeps.resumed (2, 0) (List.mem_singleton.2 rfl)
  exact absurd hone (by decide)

end Opd.Verl.ResumedDataset
