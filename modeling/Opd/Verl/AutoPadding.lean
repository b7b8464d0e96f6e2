import Mathlib.Logic.Function.Basic
import Opd.Verl.Dispatch

/-!
# Auto-padding

`DP_COMPUTE_PROTO` pads the arguments of a call so that each worker gets as many rows. The
padding is written into the objects of the caller; `func_generator` takes the padded rows
out of a result, but not out of a future.

* `padding_eq`: what padding makes of a batch.
* `splitList_even`: without padding nothing is written.
* `len_of_splitList`: what was padded stays padded.
* `autoPadding_iff`: auto-padding is invisible exactly when there is nothing to pad.
-/

namespace Opd.Verl.Dispatch

open Lib

variable {τ ν μ τ' ν' μ' : Type}

/-- The `DataProto` objects. Arguments refer to them, and can refer to the same one. -/
abbrev Heap (τ ν μ : Type) := ℕ → DataProto τ ν μ

/-- The objects, and `data_proto_len` with `padding_size` once they are set. -/
structure PaddingState (τ ν μ : Type) where
  heap : Heap τ ν μ
  padding : Option (ℕ × ℕ)

def paddingFor (chunks : ℕ) (padding : Option (ℕ × ℕ)) (len : ℕ) : Except ProtoError (ℕ × ℕ) :=
  match padding with
  | none => .ok (len, if len % chunks > 0 then chunks - len % chunks else 0)
  | some (dataProtoLen, paddingSize) =>
    if dataProtoLen = len then .ok (dataProtoLen, paddingSize)
    else .error (.assertionError s!"expecting all arg share same length of {dataProtoLen}, but got {len}")

/-- `_padding_and_split_data`. -/
def paddingAndSplitData [DecidableEq μ] (settings : Settings μ) (chunks : ℕ) (s : PaddingState τ ν μ)
    (ref : ℕ) : Except ProtoError (List (DataProto τ ν μ) × PaddingState τ ν μ) :=
  let enabled := (s.heap ref).isPaddingEnabled settings.truthy settings.autoPadding
  if enabled then do
    let padding ← paddingFor chunks s.padding (s.heap ref).len
    let padded ← (s.heap ref).padding padding.2
    let out ← padded.chunk settings.td enabled chunks
    .ok (out, ⟨Function.update s.heap ref padded, some padding⟩)
  else do
    let out ← (s.heap ref).chunk settings.td enabled chunks
    .ok (out, s)

def splitList [DecidableEq μ] (settings : Settings μ) (chunks : ℕ) (s : PaddingState τ ν μ) :
    List ℕ → Except ProtoError (List (List (DataProto τ ν μ)) × PaddingState τ ν μ)
  | [] => .ok ([], s)
  | ref :: refs => do
    let (chunked, s) ← paddingAndSplitData settings chunks s ref
    let (rest, s) ← splitList settings chunks s refs
    .ok (chunked :: rest, s)

/-- `_split_args_kwargs_data_proto_with_auto_padding`. -/
def splitWithAutoPadding [DecidableEq μ] (settings : Settings μ) (chunks : ℕ) (heap : Heap τ ν μ)
    (call : Call ℕ) : Except ProtoError (Call (List (DataProto τ ν μ)) × PaddingState τ ν μ) := do
  let (args, s) ← splitList settings chunks ⟨heap, none⟩ call.args
  let (kwargs, s) ← splitList settings chunks s (call.kwargs.map Prod.snd)
  .ok (⟨args, (call.kwargs.map Prod.fst).zip kwargs⟩, s)

/-- What a call returns: a batch, or the futures of the results. -/
inductive Output (τ ν μ : Type)
  | data (out : DataProto τ ν μ)
  | future (futures : List (DataProto τ ν μ))

def Output.get [DecidableEq μ] : Output τ ν μ → Except ProtoError (DataProto τ ν μ)
  | .data out => .ok out
  | .future futures => DataProto.concat futures

/-- `collect_dp_compute_data_proto`, on results or on futures of them. -/
def collectDpComputeDataProto [DecidableEq μ] (worldSize : ℕ) (blocking : Bool)
    (output : List (DataProto τ ν μ)) : Except ProtoError (Output τ ν μ) :=
  if output.isEmpty then .error (.assertionError "expecting concatable output, but got element type empty")
  else if output.length = worldSize then
    if blocking then (DataProto.concat output).map .data else .ok (.future output)
  else .error (.assertionError "")

/-- The end of `func_generator`: the padded rows are taken out of a batch. -/
def removePadding (paddingCount : ℕ) : Output τ ν μ → Except ProtoError (Output τ ν μ)
  | .data out =>
    if 0 < paddingCount then (out.selectIdxs ((List.range out.len).take (out.len - paddingCount))).map .data
    else .ok (.data out)
  | .future futures => .ok (.future futures)

/-- `func_generator` for `DP_COMPUTE_PROTO`: the output and the objects of the caller. -/
def dpCall [DecidableEq μ] [DecidableEq μ'] (settings : Settings μ) (worldSize : ℕ) (blocking : Bool)
    (f : Call (DataProto τ ν μ) → DataProto τ' ν' μ') (heap : Heap τ ν μ) (call : Call ℕ) :
    Except ProtoError (Output τ' ν' μ' × Heap τ ν μ) := do
  let (split, s) ← splitWithAutoPadding settings worldSize heap call
  let calls ← executeAll worldSize split
  let output ← collectDpComputeDataProto worldSize blocking (calls.map f)
  let output ← removePadding ((s.padding.map Prod.snd).getD 0) output
  .ok (output, s.heap)

/-- **Auto-padding is invisible**: the result is that of the unpadded call, and the objects of
the caller have their rows. -/
def Invisible [DecidableEq μ] [DecidableEq μ'] (settings : Settings μ) (worldSize : ℕ) (blocking : Bool)
    (f : Call (DataProto τ ν μ) → DataProto τ' ν' μ') (heap : Heap τ ν μ) (call : Call ℕ) : Prop :=
  ∃ output heap', dpCall settings worldSize blocking f heap call = .ok (output, heap') ∧
    output.get = .ok (f (call.map heap)) ∧ ∀ ref ∈ call.values, heap' ref = heap ref

/-! ## What padding makes of a batch -/

/-- The rows that are appended to a column of `n` rows. -/
def padRows {α : Type} (n paddingSize : ℕ) (l : List α) : List α :=
  ([n - 1].filterMap fun i => l[i]?).flatMap (List.replicate paddingSize)

theorem length_padRows {α : Type} {n paddingSize : ℕ} {l : List α} (hn : 1 ≤ n) (h : l.length = n) :
    (l ++ padRows n paddingSize l).length = n + paddingSize := by
  have hlast : l[n - 1]? = some (l.get ⟨n - 1, by omega⟩) := List.getElem?_eq_getElem (by omega)
  unfold padRows
  rw [List.filterMap_cons, hlast, List.filterMap_nil, List.flatMap_singleton, List.length_append,
    List.length_replicate, h]

theorem selectIdxs_last {d : DataProto τ ν μ} {n : ℕ} (hn : 1 ≤ n) (h : d.HasRows n) :
    d.selectIdxs [n - 1] = .ok (d.mapColumns fun _ l => [n - 1].filterMap fun i => l[i]?) := by
  unfold DataProto.selectIdxs
  simp only
  rw [if_neg]
  rw [Bool.not_eq_true, List.any_eq_false]
  intro length hlength
  have hlen : length = n := by
    rcases List.mem_append.1 hlength with hbatch | harrays
    · obtain ⟨rows, hrows, rfl⟩ := List.mem_map.1 hbatch
      exact h.batch rows (Option.mem_toList.1 hrows)
    · obtain ⟨item, hitem, rfl⟩ := List.mem_map.1 harrays
      exact h.nonTensorBatch item hitem
  simp only [List.any_cons, List.any_nil, Bool.or_false, decide_eq_true_eq]
  omega

def padded (n paddingSize : ℕ) (d : DataProto τ ν μ) : DataProto τ ν μ :=
  d.mapColumns fun _ l => l ++ padRows n paddingSize l

theorem padded_hasRows {d : DataProto τ ν μ} {n paddingSize : ℕ} (hn : 1 ≤ n) (h : d.HasRows n) :
    (padded n paddingSize d).HasRows (n + paddingSize) where
  batch := by
    intro rows hrows
    obtain ⟨all, hall, rfl⟩ := Option.map_eq_some_iff.1 hrows
    exact length_padRows hn (h.batch all hall)
  nonTensorBatch := by
    intro item hitem
    obtain ⟨item', hmem, rfl⟩ := List.mem_map.1 hitem
    exact length_padRows hn (h.nonTensorBatch item' hmem)

theorem padded_len {d : DataProto τ ν μ} {n paddingSize : ℕ} (hn : 1 ≤ n) (h : d.HasRows n) (hlen : d.len = n) :
    (padded n paddingSize d).len = n + paddingSize := by
  have hcolumns : (padded n paddingSize d).hasColumns = d.hasColumns := by
    show ((Option.map _ d.batch).isSome || !(List.map _ d.nonTensorBatch.items).isEmpty) = _
    rw [Option.isSome_map, List.isEmpty_map]
    rfl
  have hsome : d.hasColumns = true := by
    rw [h.len_eq] at hlen
    by_contra hnone
    rw [if_neg hnone] at hlen
    omega
  rw [(padded_hasRows hn h).len_eq, hcolumns, if_pos hsome]

/-- **What padding makes of a batch**: the last row is repeated. -/
theorem padding_eq [DecidableEq μ] {d : DataProto τ ν μ} {n paddingSize : ℕ} (hn : 1 ≤ n) (h : d.HasRows n)
    (hlen : d.len = n) (hpos : 0 < paddingSize) : d.padding paddingSize = .ok (padded n paddingSize d) := by
  -- the batch and its padding are two functions of the columns
  let column (α : Type) (last : Bool) (l : List α) : List α := if last then padRows n paddingSize l else l
  have hparts : [d, (d.mapColumns fun _ l => [n - 1].filterMap fun i => l[i]?).repeatRows paddingSize] =
      [false, true].map fun last =>
        (⟨d.batch.map (column τ last), d.nonTensorBatch.map (column ν last), d.metaInfo⟩ : DataProto τ ν μ) := by
    rw [List.map_cons, List.map_singleton]
    congr 1
    · obtain ⟨batch, nonTensorBatch, metaInfo⟩ := d
      have hbatch : batch.map (column τ false) = batch := Option.map_id' ..
      have harrays : nonTensorBatch.map (column ν false) = nonTensorBatch :=
        Dict.ext_items (List.map_id' ..)
      rw [hbatch, harrays]
    · unfold DataProto.repeatRows DataProto.mapColumns
      simp only [Option.map_map, Dict.map_map]
      rfl
  have hconcat := DataProto.concat_map (List.cons_ne_nil false [true]) d.batch d.nonTensorBatch d.metaInfo
    (column τ) (column ν)
  have hall : ∀ (α : Type) (l : List α), ([false, true].flatMap fun last => column α last l) =
      l ++ padRows n paddingSize l := by
    intro α l
    simp [column]
  rw [← hparts] at hconcat
  simp only [hall] at hconcat
  have hnew := (@padded_hasRows τ ν μ d n paddingSize hn h).new_eq
  unfold DataProto.padding
  rw [if_neg (by omega), hlen, selectIdxs_last hn h]
  simp only [bind, Except.bind]
  rw [hconcat]
  exact congrArg (Except.map _) hnew

/-! ## Splitting -/

section Splitting

variable [DecidableEq μ] {settings : Settings μ} {chunks size n : ℕ}

/-- An object whose padding is enabled, with `n` rows. -/
structure Paddable (settings : Settings μ) (n : ℕ) (d : DataProto τ ν μ) : Prop where
  hasRows : d.HasRows n
  len_eq : d.len = n
  enabled : d.isPaddingEnabled settings.truthy settings.autoPadding = true

def blocks (chunks size : ℕ) (d : DataProto τ ν μ) : List (DataProto τ ν μ) :=
  (List.range chunks).map fun r => d.block (r * size) size

/-- Nothing is padded: the padding is not set, or there is none. -/
def Unpadded (n : ℕ) (padding : Option (ℕ × ℕ)) : Prop := padding = none ∨ padding = some (n, 0)

theorem paddingAndSplit_even {s : PaddingState τ ν μ} {ref : ℕ} (hpos : 0 < chunks) (hsize : 0 < size)
    (hpadding : Unpadded (chunks * size) s.padding) (h : Paddable settings (chunks * size) (s.heap ref)) :
    paddingAndSplitData settings chunks s ref =
      .ok (blocks chunks size (s.heap ref), ⟨s.heap, some (chunks * size, 0)⟩) := by
  have hfor : paddingFor chunks s.padding (s.heap ref).len = .ok (chunks * size, 0) := by
    unfold paddingFor
    rcases hpadding with hnone | hsome
    · rw [hnone, h.len_eq]
      simp [Nat.mul_mod_right]
    · rw [hsome, h.len_eq]
      simp
  have hchunk : (s.heap ref).chunk settings.td true chunks = .ok (blocks chunks size (s.heap ref)) :=
    DataProto.chunk_eq true hpos h.hasRows fun _ => DataProto.chunk_sizes hpos (.inl hsize)
  unfold paddingAndSplitData
  rw [h.enabled]
  simp only [if_true, hfor, DataProto.padding, bind, Except.bind]
  rw [hchunk, Function.update_eq_self]

/-- **Without padding nothing is written.** -/
theorem splitList_even {s : PaddingState τ ν μ} {refs : List ℕ} (hpos : 0 < chunks) (hsize : 0 < size)
    (hpadding : Unpadded (chunks * size) s.padding)
    (h : ∀ ref ∈ refs, Paddable settings (chunks * size) (s.heap ref)) :
    ∃ padding, Unpadded (chunks * size) padding ∧
      splitList settings chunks s refs =
        .ok (refs.map fun ref => blocks chunks size (s.heap ref), ⟨s.heap, padding⟩) := by
  induction refs generalizing s with
  | nil => exact ⟨s.padding, hpadding, rfl⟩
  | cons ref refs ih =>
    have hstep := paddingAndSplit_even hpos hsize hpadding (h ref List.mem_cons_self)
    obtain ⟨padding, hunpadded, hrest⟩ := @ih ⟨s.heap, some (chunks * size, 0)⟩ (.inr rfl)
      (fun ref href => h ref (List.mem_cons_of_mem _ href))
    refine ⟨padding, hunpadded, ?_⟩
    unfold splitList
    rw [hstep]
    simp only [bind, Except.bind, hrest]
    rfl

theorem splitWithAutoPadding_even {heap : Heap τ ν μ} {call : Call ℕ} (hpos : 0 < chunks) (hsize : 0 < size)
    (h : ∀ ref ∈ call.values, Paddable settings (chunks * size) (heap ref)) :
    ∃ padding, Unpadded (chunks * size) padding ∧
      splitWithAutoPadding settings chunks heap call =
        .ok (call.map fun ref => blocks chunks size (heap ref), ⟨heap, padding⟩) := by
  obtain ⟨padding, hpadding, hargs⟩ := @splitList_even τ ν μ _ settings chunks size ⟨heap, none⟩ call.args hpos hsize
    (.inl rfl) (fun ref href => h ref (List.mem_append_left _ href))
  obtain ⟨padding', hpadding', hkwargs⟩ := @splitList_even τ ν μ _ settings chunks size ⟨heap, padding⟩
    (call.kwargs.map Prod.snd) hpos hsize hpadding (fun ref href => h ref (List.mem_append_right _ href))
  refine ⟨padding', hpadding', ?_⟩
  unfold splitWithAutoPadding
  simp only [hargs, hkwargs, bind, Except.bind]
  rw [List.map_map, List.zip_map']
  rfl

/-- The padding is set, and what has another length than the first object is not padded any more. -/
theorem paddingAndSplit_keeps {s s' : PaddingState τ ν μ} {ref r paddingSize : ℕ} {out : List (DataProto τ ν μ)}
    (h : paddingAndSplitData settings chunks s ref = .ok (out, s')) (hpadding : s.padding = some (n, paddingSize))
    (hlen : (s.heap r).len ≠ n) : s'.padding = some (n, paddingSize) ∧ s'.heap r = s.heap r := by
  unfold paddingAndSplitData at h
  simp only at h
  split at h
  · obtain ⟨padding, hfor, h⟩ := bind_eq_ok.1 h
    obtain ⟨d, -, h⟩ := bind_eq_ok.1 h
    obtain ⟨pieces, -, h⟩ := bind_eq_ok.1 h
    cases h
    unfold paddingFor at hfor
    rw [hpadding] at hfor
    simp only at hfor
    split at hfor
    · rename_i heq
      cases hfor
      -- an object that is padded has the length of the first one
      have hne : r ≠ ref := by
        intro hr
        rw [hr] at hlen
        exact hlen heq.symm
      exact ⟨rfl, Function.update_of_ne hne _ _⟩
    · cases hfor
  · obtain ⟨pieces, -, h⟩ := bind_eq_ok.1 h
    cases h
    exact ⟨hpadding, rfl⟩

/-- **What was padded stays padded.** -/
theorem len_of_splitList {s s' : PaddingState τ ν μ} {refs : List ℕ} {r paddingSize : ℕ}
    {out : List (List (DataProto τ ν μ))} (h : splitList settings chunks s refs = .ok (out, s'))
    (hpadding : s.padding = some (n, paddingSize)) (hlen : (s.heap r).len ≠ n) : s'.heap r = s.heap r := by
  induction refs generalizing s out with
  | nil =>
    cases h
    rfl
  | cons ref refs ih =>
    unfold splitList at h
    obtain ⟨⟨chunked, s₁⟩, hstep, h⟩ := bind_eq_ok.1 h
    obtain ⟨⟨rest, s₂⟩, hrest, h⟩ := bind_eq_ok.1 h
    cases h
    obtain ⟨hpadding₁, hheap⟩ := paddingAndSplit_keeps hstep hpadding hlen
    rw [ih hrest hpadding₁ (by rw [hheap]; exact hlen), hheap]

theorem paddingAndSplit_first {s s' : PaddingState τ ν μ} {ref : ℕ} {out : List (DataProto τ ν μ)}
    (h : paddingAndSplitData settings chunks s ref = .ok (out, s')) (hnone : s.padding = none) (hn : 1 ≤ n)
    (hpos : 0 < chunks) (hdvd : ¬ chunks ∣ n) (hpaddable : Paddable settings n (s.heap ref)) :
    s'.padding = some (n, chunks - n % chunks) ∧ (s'.heap ref).len = n + (chunks - n % chunks) := by
  have hmod : 0 < n % chunks := Nat.pos_of_ne_zero fun hzero => hdvd (Nat.dvd_of_mod_eq_zero hzero)
  have hlt := Nat.mod_lt n hpos
  have hfor : paddingFor chunks none n = .ok (n, chunks - n % chunks) := by
    unfold paddingFor
    simp only
    rw [if_pos hmod]
  unfold paddingAndSplitData at h
  rw [hpaddable.enabled] at h
  obtain ⟨padding, hset, h⟩ := bind_eq_ok.1 h
  rw [hnone, hpaddable.len_eq, hfor] at hset
  cases hset
  obtain ⟨d, hpadding, h⟩ := bind_eq_ok.1 h
  obtain ⟨pieces, -, h⟩ := bind_eq_ok.1 h
  cases h
  rw [padding_eq hn hpaddable.hasRows hpaddable.len_eq (by omega)] at hpadding
  cases hpadding
  refine ⟨rfl, ?_⟩
  simp only [Function.update_self]
  exact padded_len hn hpaddable.hasRows hpaddable.len_eq

theorem splitList_append (settings : Settings μ) (chunks : ℕ) (s : PaddingState τ ν μ) (refs refs' : List ℕ) :
    splitList settings chunks s (refs ++ refs') = (do
      let (chunked, s) ← splitList settings chunks s refs
      let (rest, s) ← splitList settings chunks s refs'
      .ok (chunked ++ rest, s)) := by
  induction refs generalizing s with
  | nil =>
    rw [List.nil_append]
    show _ = (splitList settings chunks s refs').bind fun out => .ok (out.1, out.2)
    cases splitList settings chunks s refs' <;> rfl
  | cons ref refs ih =>
    rw [List.cons_append]
    simp only [splitList, ih, bind, Except.bind]
    cases paddingAndSplitData settings chunks s ref with
    | error error => rfl
    | ok step =>
      simp only
      cases splitList settings chunks step.2 refs with
      | error error => rfl
      | ok out =>
        simp only
        cases splitList settings chunks out.2 refs' <;> rfl

/-- **An object of the caller is left padded.** -/
theorem padded_of_split {heap : Heap τ ν μ} {call : Call ℕ} {split : Call (List (DataProto τ ν μ))}
    {s : PaddingState τ ν μ} (h : splitWithAutoPadding settings chunks heap call = .ok (split, s)) (hn : 1 ≤ n)
    (hpos : 0 < chunks) (hdvd : ¬ chunks ∣ n) (hne : call.values ≠ [])
    (hpaddable : ∀ ref ∈ call.values, Paddable settings n (heap ref)) :
    ∃ ref ∈ call.values, (s.heap ref).len = n + (chunks - n % chunks) := by
  have hlt := Nat.mod_lt n hpos
  -- positional arguments first, then the keyword arguments
  have hall : ∃ out, splitList settings chunks ⟨heap, none⟩ call.values = .ok (out, s) := by
    unfold splitWithAutoPadding at h
    obtain ⟨⟨args, s₁⟩, hargs, h⟩ := bind_eq_ok.1 h
    obtain ⟨⟨kwargs, s₂⟩, hkwargs, h⟩ := bind_eq_ok.1 h
    cases h
    refine ⟨args ++ kwargs, ?_⟩
    rw [Call.values, splitList_append, hargs]
    simp only [bind, Except.bind]
    rw [hkwargs]
  obtain ⟨out, hall⟩ := hall
  rcases hvalues : call.values with _ | ⟨ref, refs⟩
  · exact absurd hvalues hne
  · refine ⟨ref, List.mem_cons_self, ?_⟩
    rw [hvalues] at hall
    unfold splitList at hall
    obtain ⟨⟨chunked, s₁⟩, hstep, hall⟩ := bind_eq_ok.1 hall
    obtain ⟨⟨rest, s₂⟩, hrest, hall⟩ := bind_eq_ok.1 hall
    cases hall
    -- the first object is padded, and no later one undoes it
    obtain ⟨hpadding, hlen⟩ := paddingAndSplit_first hstep rfl hn hpos hdvd
      (hpaddable ref (hvalues ▸ List.mem_cons_self))
    rw [len_of_splitList hrest hpadding (by omega), hlen]

end Splitting

/-! ## The call -/

section DpCall

variable [DecidableEq μ] [DecidableEq μ'] {settings : Settings μ} {worldSize size n : ℕ} {heap : Heap τ ν μ}
  {call : Call ℕ}

theorem collectDp_eq (blocking : Bool) {output : List (DataProto τ' ν' μ')} {out : DataProto τ' ν' μ'}
    (hpos : 0 < worldSize) (hlen : output.length = worldSize) (hconcat : DataProto.concat output = .ok out) :
    ∃ o, collectDpComputeDataProto worldSize blocking output = .ok o ∧ o.get = .ok out ∧
      removePadding 0 o = .ok o := by
  have hne : output.isEmpty = false := by
    rw [List.isEmpty_eq_false_iff, ← List.length_pos_iff]
    omega
  unfold collectDpComputeDataProto
  rw [hne]
  simp only [hlen, if_true]
  cases blocking with
  | false => exact ⟨.future output, rfl, hconcat, rfl⟩
  | true => exact ⟨.data out, by simp [hconcat, Except.map], rfl, rfl⟩

theorem invisible_even (blocking : Bool) (f : RowFn τ ν μ τ' ν' μ') (hpos : 0 < worldSize) (hsize : 0 < size)
    (h : ∀ ref ∈ call.values, Paddable settings (worldSize * size) (heap ref)) :
    Invisible settings worldSize blocking f.apply heap call := by
  obtain ⟨padding, hpadding, hsplit⟩ := splitWithAutoPadding_even hpos hsize h
  have hrows : ∀ arg ∈ (call.map heap).values, arg.HasRows (worldSize * size) := by
    intro arg harg
    rw [Call.values_map] at harg
    obtain ⟨ref, href, rfl⟩ := List.mem_map.1 harg
    exact (h ref href).hasRows
  have hblocks : call.map (fun ref => blocks worldSize size (heap ref)) =
      (call.map heap).map fun arg => (List.range worldSize).map fun r => arg.block (r * size) size :=
    (Call.map_map _ _ _).symm
  have hconcat := concat_blocks f hpos hrows
  obtain ⟨output, hcollect, hget, hremove⟩ := collectDp_eq blocking hpos
    (by rw [List.length_map, List.length_range]) hconcat
  have hcount : (padding.map Prod.snd).getD 0 = 0 := by
    rcases hpadding with rfl | rfl <;> rfl
  refine ⟨output, heap, ?_, hget, fun _ _ => rfl⟩
  unfold dpCall
  rw [hsplit, hblocks]
  simp only [bind, Except.bind, execute_eq, List.map_map, Function.comp_def, hcollect, hcount, hremove]

end DpCall

/-- **Auto-padding is invisible exactly when there is nothing to pad**, for every function of
single rows, blocking or not, and with objects that are passed more than once. -/
theorem autoPadding_iff [DecidableEq μ] [DecidableEq μ'] (settings : Settings μ) (worldSize n : ℕ) (blocking : Bool)
    (f : RowFn τ ν μ τ' ν' μ') (heap : Heap τ ν μ) (call : Call ℕ) (hpos : 0 < worldSize) (hn : 1 ≤ n)
    (hne : call.values ≠ []) (h : ∀ ref ∈ call.values, Paddable settings n (heap ref)) :
    Invisible settings worldSize blocking f.apply heap call ↔ worldSize ∣ n := by
  constructor
  · rintro ⟨output, heap', hcall, -, hheap⟩
    by_contra hdvd
    obtain ⟨⟨split, s⟩, hsplit, hcall⟩ := bind_eq_ok.1 hcall
    obtain ⟨calls, -, hcall⟩ := bind_eq_ok.1 hcall
    obtain ⟨collected, -, hcall⟩ := bind_eq_ok.1 hcall
    obtain ⟨removed, -, hcall⟩ := bind_eq_ok.1 hcall
    cases hcall
    -- one of the objects has more rows than before
    obtain ⟨ref, href, hlen⟩ := padded_of_split hsplit hn hpos hdvd hne h
    rw [hheap ref href, (h ref href).len_eq] at hlen
    have hlt := Nat.mod_lt n hpos
    omega
  · rintro ⟨size, rfl⟩
    exact invisible_even blocking f hpos (Nat.pos_of_mul_pos_left hn) h

def paddingSettings : Settings Bool := ⟨upperRounding, id, true⟩

def threeRows : DataProto ℤ ℤ Bool := ⟨some [1, 2, 3], .empty, .empty⟩

theorem autoPadding_fourRows :
    Invisible paddingSettings 2 true addRows.apply (fun _ => fourRows) ⟨[0], [("other", 0)]⟩ ↔ 2 ∣ 4 :=
  autoPadding_iff paddingSettings 2 4 true addRows (fun _ => fourRows) ⟨[0], [("other", 0)]⟩ (by decide) (by decide)
    (List.cons_ne_nil _ _) (fun _ _ => ⟨fourRows_hasRows, rfl, rfl⟩)

/-- **Three rows on two workers**: the object of the caller has four rows afterwards. -/
theorem padded_argument :
    (dpCall paddingSettings 2 true addRows.apply (fun _ => threeRows) ⟨[0], []⟩).toOption.map
        (fun out => (out.1.get.toOption.map DataProto.batch, (out.2 0).batch)) =
      some (some (some [1, 2, 3]), some [1, 2, 3, 3]) ∧
    ¬ Invisible paddingSettings 2 true addRows.apply (fun _ => threeRows) ⟨[0], []⟩ := by
  refine ⟨by decide +kernel, ?_⟩
  rintro ⟨output, heap', hcall, -, hheap⟩
  have hrows : (dpCall paddingSettings 2 true addRows.apply (fun _ => threeRows) ⟨[0], []⟩).toOption.map
      (fun out => (out.2 0).batch) = some (some [1, 2, 3, 3]) := by
    decide +kernel
  rw [hcall] at hrows
  have hbatch := hheap 0 List.mem_cons_self
  simp only [Except.toOption, Option.map_some, hbatch] at hrows
  cases hrows

end Opd.Verl.Dispatch
