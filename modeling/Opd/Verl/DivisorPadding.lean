import Opd.Verl.DataProto

/-!
# Padding to a divisor

`pad_dataproto_to_divisor` appends slices of a batch to it until its length is a multiple of the divisor, and
`unpad_dataproto` cuts them off again. The appended slices have the `meta_info` of the batch, and the concatenation
merges it with itself: equal values stay, but the `metrics` of workers are collected in lists.

* `getElem?_padColumn`: the appended rows repeat the rows cyclically.
* `mergeMetaInfo_copies`, `mergeMetrics_copies_iff`: what merging a `meta_info` with itself leaves.
* `padUnpad_iff`: when the batch comes back.
-/

namespace Opd.Verl.DivisorPadding

open Lib

/-! ## Batches with metrics -/

inductive MetricValue (ρ : Type)
  | value (x : ρ)
  | list (l : List (MetricValue ρ))

/-- What one worker reports: a dictionary, or a value that is none. -/
inductive MetricsItem (ρ : Type)
  | dict (d : Dict String (MetricValue ρ))
  | other (x : ρ)

/-- The entry `metrics` of a `meta_info`. -/
inductive MetricsEntry (ρ : Type)
  | none
  | list (l : List (MetricsItem ρ))
  | item (i : MetricsItem ρ)

/-- A `DataProto` with the entry `metrics` of its `meta_info` apart. -/
structure Proto (τ ν μ ρ : Type) where
  data : DataProto τ ν μ
  metrics : Option (MetricsEntry ρ)

/-- What is raised; `==` of two values of `meta_info` may raise, too. -/
inductive PadError
  | proto (e : ProtoError)
  | attributeError (message : String)
  | comparison
  deriving DecidableEq

def raised {α : Type} : Except ProtoError α → Except PadError α
  | .ok a => .ok a
  | .error e => .error (.proto e)

variable {τ ν μ ρ : Type}

/-! ## Concatenation -/

/-- `list_of_dict_to_dict_of_list` -/
def listOfDictToDictOfList {α : Type} : List (Dict String α) → Except ProtoError (Dict String (List α))
  | [] => .ok .empty
  | first :: rest =>
    match (rest.flatMap Dict.keys).find? fun key => key ∉ first.keys with
    | some key =>
      .error (.assertionError s!"Key '{key}' is not present in the keys of the first dictionary in the list.")
    | none => .ok (first.mapWithKey fun key _ => (first :: rest).filterMap fun d => d.get? key)

/-- What an entry adds to `all_metrics`. -/
def metricsItems : Option (MetricsEntry ρ) → List (MetricsItem ρ)
  | none | some .none => []
  | some (.list l) => l
  | some (.item i) => [i]

def asDict : MetricsItem ρ → Except PadError (Dict String (MetricValue ρ))
  | .dict d => .ok d
  | .other _ => .error (.attributeError "object has no attribute 'keys'")

/-- The `metrics` of a concatenation. -/
def mergeMetrics (entries : List (Option (MetricsEntry ρ))) : Except PadError (Option (MetricsEntry ρ)) :=
  match entries.flatMap metricsItems with
  | [] => .ok none
  | items => do
    let dicts ← items.mapM asDict
    let merged ← raised (listOfDictToDictOfList dicts)
    return some (.item (.dict (merged.map .list)))

section

variable (eq : μ → μ → Except PadError Bool)

/-- One entry of a `meta_info` is merged. -/
def mergeEntry (merged : Dict String μ) (item : String × μ) : Except PadError (Dict String μ) :=
  match merged.get? item.1 with
  | none => .ok (merged.update item.1 fun _ => item.2)
  | some v => do
    if ← eq v item.2 then return merged
    else .error (.proto (.assertionError s!"Conflicting values for meta_info key '{item.1}'"))

def mergeMetaInfo (infos : List (Dict String μ)) : Except PadError (Dict String μ) :=
  (infos.flatMap Dict.items).foldlM (mergeEntry eq) .empty

/-- `concat` -/
def concat (data : List (Proto τ ν μ ρ)) : Except PadError (Proto τ ν μ ρ) := do
  let batch ← raised (DataProto.concatBatch (data.map fun d => d.data.batch))
  let nonTensorBatch ← raised (DataProto.concatArrays (data.map fun d => d.data.nonTensorBatch))
  let metaInfo ← mergeMetaInfo eq (data.map fun d => d.data.metaInfo)
  let metrics ← mergeMetrics (data.map fun d => d.metrics)
  let merged ← raised (DataProto.new batch nonTensorBatch metaInfo)
  return ⟨merged, metrics⟩

/-! ## Padding -/

/-- `l[:stop]` -/
def upTo {α : Type} (stop : ℤ) (l : List α) : List α :=
  if 0 ≤ stop then l.take stop.toNat else l.take (l.length - stop.natAbs)

/-- `data[:stop]` -/
def sliceTo (d : Proto τ ν μ ρ) (stop : ℤ) : Except PadError (Proto τ ν μ ρ) := do
  let data ← raised (DataProto.new (d.data.batch.map (upTo stop)) (d.data.nonTensorBatch.map (upTo stop)) d.data.metaInfo)
  return ⟨data, d.metrics⟩

/-- The `take_size`s of the loop, of a batch that is not empty. -/
def takeSizes (len remainingPad : ℕ) : List ℕ :=
  if 0 < remainingPad ∧ 0 < len then
    min remainingPad len :: takeSizes len (remainingPad - min remainingPad len)
  else []
termination_by remainingPad

/-- `pad_dataproto_to_divisor` -/
def padDataprotoToDivisor (data : Proto τ ν μ ρ) (sizeDivisor : ℕ) : Except PadError (Proto τ ν μ ρ × ℕ) :=
  if sizeDivisor = 0 then .error (.proto .zeroDivisionError)
  else if data.data.len % sizeDivisor ≠ 0 then do
    let padSize := sizeDivisor - data.data.len % sizeDivisor
    let paddingProtos ← (takeSizes data.data.len padSize).mapM fun takeSize : ℕ => sliceTo data takeSize
    let dataPadded ← concat eq (data :: paddingProtos)
    return (dataPadded, padSize)
  else .ok (data, 0)

/-- `unpad_dataproto` -/
def unpadDataproto (data : Proto τ ν μ ρ) (padSize : ℕ) : Except PadError (Proto τ ν μ ρ) :=
  if padSize ≠ 0 then sliceTo data (-padSize) else .ok data

/-- A round trip: the padded batch has the least multiple of the divisor as its length, its rows are those of the batch
in turn, and without the padding it is the batch. -/
structure RoundTrip (d : Proto τ ν μ ρ) (k : ℕ) (padded : Proto τ ν μ ρ) (padSize : ℕ) : Prop where
  pads : padDataprotoToDivisor eq d k = .ok (padded, padSize)
  divides : k ∣ padded.data.len
  least : d.data.len ≤ padded.data.len ∧ padded.data.len < d.data.len + k
  rows : ∀ i < padded.data.len, padded.data.row i = d.data.row (i % d.data.len)
  unpads : unpadDataproto padded padSize = .ok d

end

/-! ## The rows -/

/-- A column of `n` rows with its padding. -/
def padColumn {α : Type} (n padSize : ℕ) (l : List α) : List α :=
  (n :: takeSizes n padSize).flatMap fun size => l.take size

theorem takeSizes_of_pos {n r : ℕ} (hr : 0 < r) (hn : 0 < n) :
    takeSizes n r = min r n :: takeSizes n (r - min r n) := by
  rw [takeSizes, if_pos ⟨hr, hn⟩]

theorem takeSizes_zero (n : ℕ) : takeSizes n 0 = [] := by
  rw [takeSizes, if_neg (by omega)]

/-- **The slices repeat the rows**, one after the other. -/
theorem getElem?_takeSizes {α : Type} {n : ℕ} {l : List α} (hn : 0 < n) (hl : l.length = n) (r : ℕ) :
    ((takeSizes n r).flatMap fun size => l.take size).length = r ∧
      ∀ i < r, ((takeSizes n r).flatMap fun size => l.take size)[i]? = l[i % n]? := by
  induction r using Nat.strong_induction_on with
  | h r ih =>
    rcases Nat.eq_zero_or_pos r with rfl | hr
    · rw [takeSizes_zero]
      exact ⟨rfl, fun i hi => absurd hi (Nat.not_lt_zero i)⟩
    · rw [takeSizes_of_pos hr hn, List.flatMap_cons]
      by_cases hle : r ≤ n
      -- the last slice
      · have hlength : (l.take r).length = r := List.length_take_of_le (by omega)
        rw [min_eq_left hle, Nat.sub_self, takeSizes_zero, List.flatMap_nil, List.append_nil]
        refine ⟨hlength, fun i hi => ?_⟩
        rw [List.getElem?_take_of_lt hi, Nat.mod_eq_of_lt (by omega)]
      · have htake : l.take n = l := List.take_of_length_le (by omega)
        obtain ⟨hlength, hrest⟩ := ih (r - n) (by omega)
        rw [min_eq_right (by omega), htake]
        refine ⟨by rw [List.length_append, hlength, hl]; omega, fun i hi => ?_⟩
        by_cases hin : i < n
        · rw [List.getElem?_append_left (by omega), Nat.mod_eq_of_lt hin]
        · rw [List.getElem?_append_right (by omega), hl, hrest (i - n) (by omega),
            ← Nat.mod_eq_sub_mod (by omega)]

theorem padColumn_eq {α : Type} {n : ℕ} {l : List α} (hl : l.length = n) (padSize : ℕ) :
    padColumn n padSize l = l ++ (takeSizes n padSize).flatMap fun size => l.take size := by
  unfold padColumn
  rw [List.flatMap_cons, List.take_of_length_le (by omega)]

theorem length_padColumn {α : Type} {n : ℕ} {l : List α} (hn : 0 < n) (hl : l.length = n) (padSize : ℕ) :
    (padColumn n padSize l).length = n + padSize := by
  rw [padColumn_eq hl, List.length_append, (getElem?_takeSizes hn hl padSize).1, hl]

/-- **A padded column** has the rows in turn. -/
theorem getElem?_padColumn {α : Type} {n padSize i : ℕ} {l : List α} (hn : 0 < n) (hl : l.length = n)
    (hi : i < n + padSize) : (padColumn n padSize l)[i]? = l[i % n]? := by
  rw [padColumn_eq hl]
  by_cases hin : i < n
  · rw [List.getElem?_append_left (by omega), Nat.mod_eq_of_lt hin]
  · rw [List.getElem?_append_right (by omega), hl, (getElem?_takeSizes hn hl padSize).2 (i - n) (by omega),
      ← Nat.mod_eq_sub_mod (by omega)]

theorem upTo_padColumn {α : Type} {n padSize : ℕ} {l : List α} (hn : 0 < n) (hl : l.length = n) (hpad : 0 < padSize) :
    upTo (-padSize) (padColumn n padSize l) = l := by
  have hlength := length_padColumn hn hl padSize
  unfold upTo
  rw [if_neg (by omega), hlength, Int.natAbs_neg, Int.natAbs_natCast, Nat.add_sub_cancel, padColumn_eq hl,
    List.take_left' hl]

def paddedData (n padSize : ℕ) (d : DataProto τ ν μ) : DataProto τ ν μ := d.mapColumns fun _ => padColumn n padSize

variable {d : DataProto τ ν μ}

theorem paddedData_hasRows {n : ℕ} (hn : 0 < n) (h : d.HasRows n) (padSize : ℕ) :
    (paddedData n padSize d).HasRows (n + padSize) where
  batch := by
    intro rows hrows
    obtain ⟨all, hall, rfl⟩ := Option.map_eq_some_iff.1 hrows
    exact length_padColumn hn (h.batch all hall) padSize
  nonTensorBatch := by
    intro item hitem
    obtain ⟨item', hmem, rfl⟩ := List.mem_map.1 hitem
    exact length_padColumn hn (h.nonTensorBatch item' hmem) padSize

theorem paddedData_len {n : ℕ} (hn : 0 < n) (h : d.HasRows n) (hlen : d.len = n) (padSize : ℕ) :
    (paddedData n padSize d).len = n + padSize := by
  have hcolumns : (paddedData n padSize d).hasColumns = d.hasColumns := by
    show ((Option.map _ d.batch).isSome || !(List.map _ d.nonTensorBatch.items).isEmpty) = _
    rw [Option.isSome_map, List.isEmpty_map]
    rfl
  have hsome : d.hasColumns = true := by
    rw [h.len_eq] at hlen
    by_contra hnone
    rw [if_neg hnone] at hlen
    omega
  rw [(paddedData_hasRows hn h padSize).len_eq, hcolumns, if_pos hsome]

theorem paddedData_row {n padSize i : ℕ} (hn : 0 < n) (h : d.HasRows n) (hi : i < n + padSize) :
    (paddedData n padSize d).row i = d.row (i % n) := by
  unfold DataProto.row paddedData DataProto.mapColumns Dict.map Dict.mapWithKey
  rw [List.map_map]
  congr 1
  · cases hbatch : d.batch with
    | none => rfl
    | some rows => exact getElem?_padColumn hn (h.batch rows hbatch) hi
  · refine List.map_congr_left fun item hitem => ?_
    exact congrArg (Prod.mk item.1) (getElem?_padColumn hn (h.nonTensorBatch item hitem) hi)

/-- **Unpadding** gives the batch back. -/
theorem unpad_paddedData {n padSize : ℕ} (hn : 0 < n) (h : d.HasRows n) (hpad : 0 < padSize)
    (metrics : Option (MetricsEntry ρ)) :
    unpadDataproto ⟨paddedData n padSize d, metrics⟩ padSize = .ok ⟨d, metrics⟩ := by
  have hbatch : (paddedData n padSize d).batch.map (upTo (-padSize)) = d.batch := by
    unfold paddedData DataProto.mapColumns
    cases hbatch : d.batch with
    | none => rfl
    | some rows => exact congrArg some (upTo_padColumn hn (h.batch rows hbatch) hpad)
  have harrays : (paddedData n padSize d).nonTensorBatch.map (upTo (-padSize)) = d.nonTensorBatch := by
    refine Dict.ext_items ?_
    change ((d.nonTensorBatch.items.map _).map _) = _
    rw [List.map_map]
    refine (List.map_congr_left fun item hitem => ?_).trans (List.map_id _)
    exact Prod.ext rfl (upTo_padColumn hn (h.nonTensorBatch item hitem) hpad)
  unfold unpadDataproto sliceTo
  rw [if_pos (by omega), hbatch, harrays]
  change (raised (DataProto.new d.batch d.nonTensorBatch d.metaInfo) >>= _) = _
  rw [h.new_eq]
  rfl

/-! ## The `meta_info` -/

section

variable {eq : μ → μ → Except PadError Bool}

theorem mergeEntry_new (merged : Dict String μ) (item : String × μ) (h : item.1 ∉ merged.keys) :
    mergeEntry eq merged item = .ok (merged.update item.1 fun _ => item.2) := by
  unfold mergeEntry
  rw [Dict.get?_eq_none.2 h]

theorem mergeEntry_old {merged out : Dict String μ} {items : List (String × μ)}
    (h : ∀ item ∈ items, item ∈ merged.items) :
    items.foldlM (mergeEntry eq) merged = .ok out ↔ (∀ item ∈ items, eq item.2 item.2 = .ok true) ∧ out = merged := by
  induction items with
  | nil =>
    change Except.ok merged = Except.ok out ↔ _
    rw [Except.ok.injEq, eq_comm]
    simp
  | cons item items ih =>
    have hget := Dict.mem_items.1 (h item List.mem_cons_self)
    have hrest := ih fun item hitem => h item (List.mem_cons_of_mem _ hitem)
    rw [List.foldlM_cons, List.forall_mem_cons, and_assoc, ← hrest]
    unfold mergeEntry
    rw [hget]
    constructor
    · intro hout
      obtain ⟨next, hnext, hout⟩ := bind_eq_ok.1 hout
      obtain ⟨same, hsame, hnext⟩ := bind_eq_ok.1 hnext
      cases same with
      | false => cases hnext
      | true =>
        obtain rfl := Except.ok.inj hnext
        exact ⟨hsame, hout⟩
    · rintro ⟨hsame, hout⟩
      exact bind_eq_ok.2 ⟨merged, bind_eq_ok.2 ⟨true, hsame, rfl⟩, hout⟩

/-- **Merging a `meta_info` with itself** succeeds when its values equal themselves. -/
theorem mergeMetaInfo_copies {ι : Type} {i : ι} {is : List ι} (hne : is ≠ []) {metaInfo out : Dict String μ} :
    mergeMetaInfo eq ((i :: is).map fun _ => metaInfo) = .ok out ↔
      (∀ item ∈ metaInfo.items, eq item.2 item.2 = .ok true) ∧ out = metaInfo := by
  obtain ⟨first, hfirst, hitems⟩ :=
    @Dict.foldlM_new _ _ _ _ _ (@mergeEntry_new μ eq) .empty metaInfo.items metaInfo.nodup
  obtain rfl : first = metaInfo := Dict.ext_items hitems
  have hold : ∀ item ∈ (is.map fun _ => first).flatMap Dict.items, item ∈ first.items := by
    intro item hitem
    obtain ⟨d, hd, hitem⟩ := List.mem_flatMap.1 hitem
    obtain ⟨j, -, rfl⟩ := List.mem_map.1 hd
    exact hitem
  have hall : (∀ item ∈ (is.map fun _ => first).flatMap Dict.items, eq item.2 item.2 = .ok true) ↔
      ∀ item ∈ first.items, eq item.2 item.2 = .ok true := by
    refine ⟨fun h item hitem => h item ?_, fun h item hitem => h item (hold item hitem)⟩
    obtain ⟨j, js, rfl⟩ := List.exists_cons_of_ne_nil hne
    exact List.mem_flatMap.2 ⟨first, List.mem_cons_self, hitem⟩
  unfold mergeMetaInfo
  rw [List.map_cons, List.flatMap_cons, List.foldlM_append, hfirst, ← hall]
  exact mergeEntry_old hold

theorem listOfDict_copies {ι α : Type} {i : ι} {is : List ι} (d : Dict String α) :
    listOfDictToDictOfList ((i :: is).map fun _ => d) = .ok (d.map fun v => List.replicate (is.length + 1) v) := by
  have hkeys : ((is.map fun _ => d).flatMap Dict.keys).find? (fun key => key ∉ d.keys) = none := by
    rw [List.find?_eq_none]
    intro key hkey
    obtain ⟨d', hd', hkey⟩ := List.mem_flatMap.1 hkey
    obtain ⟨j, -, rfl⟩ := List.mem_map.1 hd'
    simpa using hkey
  rw [List.map_cons]
  unfold listOfDictToDictOfList
  simp only [hkeys]
  refine congrArg Except.ok (Dict.ext_items (List.map_congr_left fun item hitem => ?_))
  have hget : (fun d : Dict String α => d.get? item.1) d = some item.2 := Dict.mem_items.1 hitem
  have hcopies : (d :: is.map fun _ => d) = List.replicate (is.length + 1) d := by
    rw [List.map_const', List.replicate_succ]
  rw [hcopies]
  refine Prod.ext rfl ?_
  exact List.filterMap_replicate_of_some hget

theorem ne_list_replicate (v : MetricValue ρ) (n : ℕ) : MetricValue.list (List.replicate (n + 1) v) ≠ v := by
  intro h
  have hsize := congrArg sizeOf h
  rw [List.replicate_succ] at hsize
  simp at hsize
  omega

theorem mergeMetrics_dict {entries : List (Option (MetricsEntry ρ))} {out : Option (MetricsEntry ρ)}
    (h : mergeMetrics entries = .ok out) : out = none ∨ ∃ d, out = some (.item (.dict d)) := by
  unfold mergeMetrics at h
  split at h
  · exact .inl (Except.ok.inj h).symm
  · obtain ⟨dicts, -, h⟩ := bind_eq_ok.1 h
    obtain ⟨merged, -, h⟩ := bind_eq_ok.1 h
    exact .inr ⟨_, (Except.ok.inj h).symm⟩

theorem mergeMetrics_copies_dict {ι : Type} (i : ι) (is : List ι) (d : Dict String (MetricValue ρ)) :
    mergeMetrics ((i :: is).map fun _ => some (.item (.dict d))) =
      .ok (some (.item (.dict (d.map fun v => .list (List.replicate (is.length + 1) v))))) := by
  have hitems : ((i :: is).map fun _ => some (MetricsEntry.item (.dict d))).flatMap metricsItems =
      (i :: is).map fun _ => MetricsItem.dict d := by
    rw [List.flatMap_map]
    exact List.map_eq_flatMap.symm
  have hdicts : ((i :: is).map fun _ => MetricsItem.dict d).mapM asDict = .ok ((i :: is).map fun _ => d) :=
    mapM_map_eq fun _ _ => rfl
  have hmerged := @listOfDict_copies ι _ i is d
  unfold mergeMetrics
  rw [hitems]
  refine bind_eq_ok.2 ⟨_, hdicts, bind_eq_ok.2 ⟨_, congrArg raised hmerged, ?_⟩⟩
  rw [Dict.map_map]
  rfl

/-- **Merging metrics with themselves** leaves them when there are none, or an empty dictionary. -/
theorem mergeMetrics_copies_iff {ι : Type} (i : ι) (is : List ι) (metrics : Option (MetricsEntry ρ)) :
    mergeMetrics ((i :: is).map fun _ => metrics) = .ok metrics ↔
      metrics = none ∨ metrics = some (.item (.dict .empty)) := by
  constructor
  · intro h
    rcases mergeMetrics_dict h with hnone | ⟨d, rfl⟩
    · exact .inl hnone
    · rw [mergeMetrics_copies_dict] at h
      injection h with h
      injection h with h
      injection h with h
      injection h with h
      have hempty : d = .empty → some (MetricsEntry.item (.dict d)) = some (.item (.dict .empty)) := by
        rintro rfl
        rfl
      refine .inr (hempty (Dict.ext_items ?_))
      have hitems := congrArg Dict.items h
      rw [Dict.items_map] at hitems
      cases hd : d.items with
      | nil => rfl
      | cons item items =>
        rw [hd, List.map_cons, List.cons.injEq, Prod.ext_iff] at hitems
        exact absurd hitems.1.2 (ne_list_replicate item.2 is.length)
  · rintro (rfl | rfl)
    · have hitems : ((i :: is).map fun _ => (none : Option (MetricsEntry ρ))).flatMap metricsItems = [] := by
        rw [List.flatMap_eq_nil_iff]
        intro entry hentry
        obtain ⟨_, -, rfl⟩ := List.mem_map.1 hentry
        rfl
      unfold mergeMetrics
      rw [hitems]
    · rw [mergeMetrics_copies_dict]
      rfl

end

/-! ## The round trip -/

section

variable {eq : μ → μ → Except PadError Bool} {d : Proto τ ν μ ρ} {n : ℕ}

def part (d : Proto τ ν μ ρ) (size : ℕ) : Proto τ ν μ ρ :=
  ⟨⟨d.data.batch.map fun l => l.take size, d.data.nonTensorBatch.map fun l => l.take size, d.data.metaInfo⟩, d.metrics⟩

theorem part_self (h : d.data.HasRows n) : part d n = d := by
  obtain ⟨⟨batch, arrays, metaInfo⟩, metrics⟩ := d
  have hbatch : batch.map (fun l => l.take n) = batch := by
    cases hrows : batch with
    | none => rfl
    | some rows => exact congrArg some (List.take_of_length_le (h.batch rows hrows).le)
  have harrays : arrays.map (fun l => l.take n) = arrays := by
    refine Dict.ext_items ((List.map_congr_left fun item hitem => ?_).trans (List.map_id _))
    exact Prod.ext rfl (List.take_of_length_le (h.nonTensorBatch item hitem).le)
  unfold part
  simp only [hbatch, harrays]

theorem sliceTo_eq (h : d.data.HasRows n) {size : ℕ} (hle : size ≤ n) : sliceTo d (size : ℤ) = .ok (part d size) := by
  have hupTo : ∀ α : Type, (upTo (size : ℤ) : List α → List α) = fun l => l.take size := by
    intro α
    funext l
    unfold upTo
    rw [if_pos (Int.natCast_nonneg size), Int.toNat_natCast]
  have hrows : (part d size).data.HasRows size := by
    refine ⟨?_, ?_⟩
    · intro rows hrows
      obtain ⟨all, hall, rfl⟩ := Option.map_eq_some_iff.1 hrows
      rw [List.length_take, h.batch all hall]
      omega
    · intro item hitem
      obtain ⟨item', hmem, rfl⟩ := List.mem_map.1 hitem
      change (item'.2.take size).length = size
      rw [List.length_take, h.nonTensorBatch item' hmem]
      omega
  unfold sliceTo
  rw [hupTo, hupTo]
  change (raised (DataProto.new (part d size).data.batch (part d size).data.nonTensorBatch
    (part d size).data.metaInfo) >>= _) = _
  rw [hrows.new_eq]
  rfl

theorem takeSizes_le (len r : ℕ) : ∀ size ∈ takeSizes len r, size ≤ len := by
  induction r using Nat.strong_induction_on with
  | h r ih =>
    intro size hsize
    rw [takeSizes] at hsize
    split at hsize
    · rcases List.mem_cons.1 hsize with rfl | hsize
      · exact min_le_right _ _
      · exact ih _ (by omega) size hsize
    · cases hsize

/-- **What the concatenation gives** for a batch and slices of it. -/
theorem concat_parts (hn : 0 < n) (h : d.data.HasRows n) {padSize : ℕ} (hpad : 0 < padSize) {out : Proto τ ν μ ρ} :
    concat eq ((n :: takeSizes n padSize).map (part d)) = .ok out ↔
      (∀ item ∈ d.data.metaInfo.items, eq item.2 item.2 = .ok true) ∧
        out.data = paddedData n padSize d.data ∧
          mergeMetrics ((n :: takeSizes n padSize).map fun _ => d.metrics) = .ok out.metrics := by
  have hne : takeSizes n padSize ≠ [] := by
    rw [takeSizes_of_pos hpad hn]
    exact List.cons_ne_nil _ _
  have hbatch := DataProto.concatBatch_map (List.cons_ne_nil n (takeSizes n padSize)) d.data.batch
    fun size l => l.take size
  have harrays := DataProto.concatArrays_map (List.cons_ne_nil n (takeSizes n padSize)) d.data.nonTensorBatch
    fun size l => l.take size
  have hnew : DataProto.new (paddedData n padSize d.data).batch (paddedData n padSize d.data).nonTensorBatch
      (paddedData n padSize d.data).metaInfo = .ok (paddedData n padSize d.data) :=
    (paddedData_hasRows hn h padSize).new_eq
  have hmeta := fun info => @mergeMetaInfo_copies μ eq ℕ n _ hne d.data.metaInfo info
  unfold concat
  rw [List.map_map, List.map_map, List.map_map, List.map_map]
  constructor
  · intro hout
    obtain ⟨batch, hb, hout⟩ := bind_eq_ok.1 hout
    obtain ⟨arrays, ha, hout⟩ := bind_eq_ok.1 hout
    obtain ⟨info, hinfo, hout⟩ := bind_eq_ok.1 hout
    obtain ⟨metrics, hmetrics, hout⟩ := bind_eq_ok.1 hout
    obtain ⟨merged, hmerged, hout⟩ := bind_eq_ok.1 hout
    obtain rfl := Except.ok.inj hout
    obtain ⟨hsame, rfl⟩ := (hmeta info).1 hinfo
    obtain rfl := Except.ok.inj ((congrArg raised hbatch).symm.trans hb)
    obtain rfl := Except.ok.inj ((congrArg raised harrays).symm.trans ha)
    obtain rfl := Except.ok.inj ((congrArg raised hnew).symm.trans hmerged)
    exact ⟨hsame, rfl, hmetrics⟩
  · rintro ⟨hsame, hdata, hmetrics⟩
    obtain ⟨data, metrics⟩ := out
    obtain rfl : data = paddedData n padSize d.data := hdata
    exact bind_eq_ok.2 ⟨_, congrArg raised hbatch, bind_eq_ok.2 ⟨_, congrArg raised harrays,
      bind_eq_ok.2 ⟨_, (hmeta _).2 ⟨hsame, rfl⟩, bind_eq_ok.2 ⟨_, hmetrics,
        bind_eq_ok.2 ⟨_, congrArg raised hnew, rfl⟩⟩⟩⟩⟩

theorem pad_eq_ok_iff (h : d.data.HasRows n) (hlen : d.data.len = n) {k : ℕ} (hk : 0 < k)
    (hneeded : n % k ≠ 0) {out : Proto τ ν μ ρ × ℕ} :
    padDataprotoToDivisor eq d k = .ok out ↔
      out.2 = k - n % k ∧ concat eq ((n :: takeSizes n (k - n % k)).map (part d)) = .ok out.1 := by
  have hslices : (takeSizes n (k - n % k)).mapM (fun size : ℕ => sliceTo d (size : ℤ)) =
      .ok ((takeSizes n (k - n % k)).map (part d)) :=
    mapM_eq_map fun size hsize => sliceTo_eq h (takeSizes_le n _ size hsize)
  have hparts : (n :: takeSizes n (k - n % k)).map (part d) = d :: (takeSizes n (k - n % k)).map (part d) := by
    rw [List.map_cons, part_self h]
  unfold padDataprotoToDivisor
  rw [if_neg (by omega), hlen, if_pos hneeded, hparts]
  constructor
  · intro hout
    obtain ⟨protos, hprotos, hout⟩ := bind_eq_ok.1 hout
    obtain ⟨padded, hpadded, hout⟩ := bind_eq_ok.1 hout
    obtain rfl := Except.ok.inj hout
    obtain rfl := Except.ok.inj (hslices.symm.trans hprotos)
    exact ⟨rfl, hpadded⟩
  · rintro ⟨hsize, hpadded⟩
    obtain ⟨padded, padSize⟩ := out
    obtain rfl : padSize = k - n % k := hsize
    exact bind_eq_ok.2 ⟨_, hslices, bind_eq_ok.2 ⟨_, hpadded, rfl⟩⟩

/-- **Padding and unpadding** give the batch back exactly when there is nothing to pad, or the values of its
`meta_info` equal themselves and it has no metrics but an empty dictionary. -/
theorem padUnpad_iff (h : d.data.HasRows n) (hlen : d.data.len = n) (hn : 0 < n) {k : ℕ} (hk : 0 < k) :
    (∃ padded padSize, RoundTrip eq d k padded padSize) ↔
      k ∣ n ∨ ((∀ item ∈ d.data.metaInfo.items, eq item.2 item.2 = .ok true) ∧
        (d.metrics = none ∨ d.metrics = some (.item (.dict .empty)))) := by
  by_cases hdvd : k ∣ n
  · have hpad : padDataprotoToDivisor eq d k = .ok (d, 0) := by
      unfold padDataprotoToDivisor
      rw [if_neg (by omega), hlen, if_neg (by rw [ne_eq, not_not]; exact Nat.mod_eq_zero_of_dvd hdvd)]
    refine iff_of_true ⟨d, 0, hpad, hlen ▸ hdvd, ⟨Nat.le_refl _, by omega⟩, fun i hi => ?_, rfl⟩ (.inl hdvd)
    rw [Nat.mod_eq_of_lt hi]
  · have hneeded : n % k ≠ 0 := fun hzero => hdvd (Nat.dvd_of_mod_eq_zero hzero)
    have hmod := Nat.mod_lt n hk
    have hpos : 0 < k - n % k := by omega
    have hunpad := fun metrics => @unpad_paddedData τ ν μ ρ d.data n (k - n % k) hn h hpos metrics
    rw [or_iff_right hdvd]
    constructor
    · rintro ⟨⟨data, metrics⟩, padSize, hround⟩
      obtain ⟨hsize, hconcat⟩ := (pad_eq_ok_iff h hlen hk hneeded).1 hround.pads
      obtain ⟨hsame, hdata, hmetrics⟩ := (concat_parts hn h hpos).1 hconcat
      obtain rfl : padSize = k - n % k := hsize
      obtain rfl : data = paddedData n (k - n % k) d.data := hdata
      -- the unpadded batch has the merged metrics
      have hback := Except.ok.inj ((hunpad metrics).symm.trans hround.unpads)
      obtain rfl : metrics = d.metrics := congrArg Proto.metrics hback
      exact ⟨hsame, (mergeMetrics_copies_iff n _ d.metrics).1 hmetrics⟩
    · rintro ⟨hsame, hmetrics⟩
      have hconcat : concat eq ((n :: takeSizes n (k - n % k)).map (part d)) =
          .ok ⟨paddedData n (k - n % k) d.data, d.metrics⟩ :=
        (concat_parts hn h hpos).2 ⟨hsame, rfl, (mergeMetrics_copies_iff n _ d.metrics).2 hmetrics⟩
      have hpaddedLen := paddedData_len hn h hlen (k - n % k)
      refine ⟨⟨paddedData n (k - n % k) d.data, d.metrics⟩, k - n % k,
        (pad_eq_ok_iff h hlen hk hneeded).2 ⟨rfl, hconcat⟩, ?_, ?_, ?_, hunpad d.metrics⟩
      · rw [hpaddedLen]
        refine Nat.dvd_of_mod_eq_zero ?_
        have hdiv := Nat.div_add_mod n k
        rw [show n + (k - n % k) = k * (n / k + 1) by rw [Nat.mul_add, Nat.mul_one]; omega, Nat.mul_mod_right]
      · rw [hpaddedLen, hlen]
        omega
      · intro i hi
        rw [hpaddedLen] at hi
        rw [hlen]
        exact paddedData_row hn h hi

end

/-! ## Metrics of a worker -/

/-- `==` of two conditions. -/
def boolEq (a b : Bool) : Except PadError Bool := .ok (a = b)

def threeObs : DataProto ℕ ℕ Bool := ⟨some [1, 2, 3], .empty, Dict.empty.update "flag" fun _ => true⟩

def lossOf (v : MetricValue ℕ) : MetricsEntry ℕ := .item (.dict (Dict.empty.update "loss" fun _ => v))

theorem threeObs_hasRows : threeObs.HasRows 3 := by
  refine ⟨?_, ?_⟩
  · intro rows hrows
    obtain rfl := Option.some.inj hrows
    rfl
  · intro item hitem
    cases hitem

theorem threeObs_same : ∀ item ∈ threeObs.metaInfo.items, boolEq item.2 item.2 = .ok true := by
  intro item _
  exact congrArg Except.ok (decide_eq_true rfl)

theorem padUnpad_iff_threeObs : (∃ padded padSize,
    RoundTrip boolEq (⟨threeObs, none⟩ : Proto ℕ ℕ Bool ℕ) 2 padded padSize) ↔
      2 ∣ 3 ∨ ((∀ item ∈ threeObs.metaInfo.items, boolEq item.2 item.2 = .ok true) ∧
        ((none : Option (MetricsEntry ℕ)) = none ∨ (none : Option (MetricsEntry ℕ)) = some (.item (.dict .empty)))) :=
  @padUnpad_iff ℕ ℕ Bool ℕ boolEq ⟨threeObs, none⟩ 3 threeObs_hasRows rfl (Nat.succ_pos 2) 2 Nat.two_pos

/-- The loss of a worker is a list of losses after padding three rows to four and unpadding them. -/
theorem loss_doubled :
    (∃ padded : Proto ℕ ℕ Bool ℕ, padDataprotoToDivisor boolEq ⟨threeObs, some (lossOf (.value 5))⟩ 2 = .ok (padded, 1) ∧
      unpadDataproto padded 1 = .ok ⟨threeObs, some (lossOf (.list [.value 5, .value 5]))⟩) ∧
    ¬∃ padded padSize, RoundTrip boolEq (⟨threeObs, some (lossOf (.value 5))⟩ : Proto ℕ ℕ Bool ℕ) 2 padded padSize := by
  have hsizes : takeSizes 3 (2 - 3 % 2) = [1] := by
    rw [takeSizes_of_pos Nat.one_pos (Nat.succ_pos 2)]
    exact congrArg _ (takeSizes_zero 3)
  have hmetrics : mergeMetrics ((3 :: takeSizes 3 (2 - 3 % 2)).map fun _ => some (lossOf (.value 5))) =
      .ok (some (lossOf (.list [.value 5, .value 5]))) := by
    have hcopies := mergeMetrics_copies_dict 3 [1] (Dict.empty.update "loss" fun _ => MetricValue.value 5)
    rw [hsizes]
    exact hcopies
  have hunpad : ∀ metrics, unpadDataproto (⟨paddedData 3 1 threeObs, metrics⟩ : Proto ℕ ℕ Bool ℕ) 1 =
      .ok ⟨threeObs, metrics⟩ := fun metrics => unpad_paddedData (Nat.succ_pos 2) threeObs_hasRows Nat.one_pos metrics
  have hpad : padDataprotoToDivisor boolEq (⟨threeObs, some (lossOf (.value 5))⟩ : Proto ℕ ℕ Bool ℕ) 2 =
      .ok (⟨paddedData 3 1 threeObs, some (lossOf (.list [.value 5, .value 5]))⟩, 1) :=
    (@pad_eq_ok_iff ℕ ℕ Bool ℕ boolEq ⟨threeObs, some (lossOf (.value 5))⟩ 3 threeObs_hasRows rfl 2 Nat.two_pos
      (by decide) _).2 ⟨rfl, (concat_parts (Nat.succ_pos 2) threeObs_hasRows Nat.one_pos).2
        ⟨threeObs_same, rfl, hmetrics⟩⟩
  refine ⟨⟨_, hpad, hunpad _⟩, ?_⟩
  rintro ⟨padded, padSize, hround⟩
  have hsame := Except.ok.inj (hpad.symm.trans hround.pads)
  obtain rfl : _ = padded := congrArg Prod.fst hsame
  obtain rfl : 1 = padSize := congrArg Prod.snd hsame
  have hback := congrArg Proto.metrics (Except.ok.inj ((hunpad _).symm.trans hround.unpads))
  injection hback with hback
  injection hback with hback
  injection hback with hback
  have hitems := congrArg Dict.items hback
  simp [Dict.update, Dict.updateItems, Dict.empty] at hitems

end Opd.Verl.DivisorPadding
