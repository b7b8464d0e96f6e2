import Mathlib.Algebra.Ring.Int.Defs
import Mathlib.Tactic.Ring
import Opd.Lib.Tiling

/-!
# The layers of the pipeline stages

A transformer is split over pipeline ranks, each with one or more virtual stages. One function
computes how many layers a stage has and another one the number of its first layer, each with its own
divisions.

* `partitionsLayers_iff`: the stages partition the layers exactly for the configurations that are
  `Aligned`, and if one process computes the offsets of all stages, `AlignedFrom` its rank.
-/

namespace Opd.Verl.PipelineLayers

open Lib

inductive LayerError
  | assertionError (message : String)
  | zeroDivisionError
deriving DecidableEq

/-- The fields of a configuration that the split depends on, without a custom layout. -/
structure TransformerConfig where
  numLayers : ℕ
  pipelineModelParallelSize : ℕ
  virtualPipelineModelParallelSize : Option ℕ
  numLayersInFirstPipelineStage : Option ℕ
  numLayersInLastPipelineStage : Option ℕ
  accountForEmbeddingInPipelineSplit : Bool
  accountForLossInPipelineSplit : Bool
  pp_pos : 0 < pipelineModelParallelSize
  vpp_pos : ∀ vpSize ∈ virtualPipelineModelParallelSize, 0 < vpSize

/-- The parallel state of a process: its rank and what the functions of the library return there. -/
structure ParallelState where
  pipelineModelParallelRank : ℕ
  isPipelineFirstStage : Option ℕ → Bool
  isVpFirstStage : Option ℕ → Option ℕ → Bool
  isVpLastStage : Option ℕ → Option ℕ → Bool

namespace TransformerConfig

variable (config : TransformerConfig)

/-- The split is uneven if the layers of the first or of the last stage are given. -/
def uneven : Bool := config.numLayersInFirstPipelineStage.isSome || config.numLayersInLastPipelineStage.isSome

def middleNumLayers : ℤ :=
  config.numLayers - (config.numLayersInFirstPipelineStage.getD 0 : ℕ) -
    (config.numLayersInLastPipelineStage.getD 0 : ℕ)

def middlePipelineStages : ℤ :=
  config.pipelineModelParallelSize - (if config.numLayersInFirstPipelineStage.isSome then 1 else 0) -
    if config.numLayersInLastPipelineStage.isSome then 1 else 0

def middleRankLayers : ℤ :=
  if config.middlePipelineStages > 0 then config.middleNumLayers / config.middlePipelineStages else 0

/-- The layers with the embedding and the loss, if they are accounted for. -/
def splitLayers : ℤ :=
  config.numLayers + (if config.accountForEmbeddingInPipelineSplit then 1 else 0) +
    if config.accountForLossInPipelineSplit then 1 else 0

def chunks : ℕ := config.virtualPipelineModelParallelSize.getD 1

/-- `vp_stage` of a virtual stage, which is `None` without virtual stages. -/
def vpStage (v : ℕ) : Option ℕ := config.virtualPipelineModelParallelSize.map fun _ => v

end TransformerConfig

/-! ## The number of layers -/

def require (condition : Bool) (message : String) : Except LayerError Unit :=
  if condition then .ok () else .error (.assertionError message)

/-- The layers of a rank in an uneven split: what is given for the first and the last rank, and an equal
share of the rest for each of the others. -/
def TransformerConfig.rankLayers (config : TransformerConfig) (isFirstPpStage isLastPpStage : Bool) : ℤ :=
  let first := if isFirstPpStage then config.numLayersInFirstPipelineStage.elim config.middleRankLayers Nat.cast
    else config.middleRankLayers
  if isLastPpStage then config.numLayersInLastPipelineStage.elim first Nat.cast else first

def unevenLayers (config : TransformerConfig) (isFirstPpStage isLastPpStage : Bool) : Except LayerError ℤ := do
  require (!(config.accountForEmbeddingInPipelineSplit || config.accountForLossInPipelineSplit))
    "         Does not support standalone embedding stage and standalone loss stage with uneven pp"
  require (!(config.middlePipelineStages > 0) || config.middleNumLayers % config.middlePipelineStages == 0)
    "With uneven pipelineing the left over layers must be divisible by left over stages"
  .ok (config.rankLayers isFirstPpStage isLastPpStage)

/-- The layers of each rank in an even split, with the embedding and the loss. -/
def evenLayers (config : TransformerConfig) : Except LayerError ℤ := do
  require (config.splitLayers % config.pipelineModelParallelSize == 0)
    "num_layers should be divisible by pipeline_model_parallel_size"
  .ok (config.splitLayers / config.pipelineModelParallelSize)

def numLayersPerPipelineRank (config : TransformerConfig) (isFirstPpStage isLastPpStage : Bool) :
    Except LayerError ℤ :=
  if config.uneven then unevenLayers config isFirstPpStage isLastPpStage else evenLayers config

def virtualLayers (config : TransformerConfig) (numLayersPerPipelineRank : ℤ) : Except LayerError ℤ :=
  match config.virtualPipelineModelParallelSize with
  | some vpSize =>
    if config.pipelineModelParallelSize > 1 then do
      require (numLayersPerPipelineRank % vpSize == 0)
        s!"num_layers_per_pipeline_rank {numLayersPerPipelineRank}             should be divisible by vp_size {vpSize}"
      .ok (numLayersPerPipelineRank / vpSize)
    else .ok numLayersPerPipelineRank
  | none => .ok numLayersPerPipelineRank

/-- One layer less where the embedding, or the loss, takes its place. -/
def lessOne (takes : Bool) (message : String) (numLayersToBuild : ℤ) : Except LayerError ℤ := do
  if takes then
    require (numLayersToBuild - 1 ≥ 0) message
    .ok (numLayersToBuild - 1)
  else .ok numLayersToBuild

/-- **The number of layers of a stage.** -/
def getNumLayersToBuild (state : ParallelState) (config : TransformerConfig) (vpStage ppRank : Option ℕ) :
    Except LayerError ℤ := do
  let ppRank := ppRank.getD state.pipelineModelParallelRank
  let isFirstPpStage := ppRank == 0
  let isLastPpStage := ppRank + 1 == config.pipelineModelParallelSize
  let vpSize := config.virtualPipelineModelParallelSize
  let perRank ← numLayersPerPipelineRank config isFirstPpStage isLastPpStage
  let perStage ← virtualLayers config perRank
  let perStage ← lessOne
    (config.accountForEmbeddingInPipelineSplit && (state.isVpFirstStage vpStage vpSize && isFirstPpStage))
    "Not enough layers in the first virtual pipeline stage" perStage
  lessOne (config.accountForLossInPipelineSplit && (state.isVpLastStage vpStage vpSize && isLastPpStage))
    "Not enough layers in the last virtual pipeline stage" perStage

/-! ## The offset -/

def requireVpStage (vpStage : Option ℕ) : Except LayerError ℕ :=
  match vpStage with
  | some vpStage => .ok vpStage
  | none => .error (.assertionError "vp_stage must be provided if virtual pipeline model parallel size is set")

/-- `a // b`, of a divisor that is not negative -/
def floorDiv (a b : ℤ) : Except LayerError ℤ := if b = 0 then .error .zeroDivisionError else .ok (a / b)

/-- The layers of the first or of the last rank in each of its virtual stages. -/
def chunkLayers (layers : Option ℕ) (vpSize : ℕ) : ℤ := layers.elim 0 fun layers => (layers / vpSize : ℕ)

def unevenOffset (pipelineRank : ℕ) (vpStage : Option ℕ) (config : TransformerConfig) : Except LayerError ℤ :=
  match config.virtualPipelineModelParallelSize with
  | some vpSize => do
    let vpStage ← requireVpStage vpStage
    let inFirst := chunkLayers config.numLayersInFirstPipelineStage vpSize
    let inLast := chunkLayers config.numLayersInLastPipelineStage vpSize
    let inMiddle := config.middleNumLayers / vpSize
    let totalVirtualChunks := inFirst + inMiddle + inLast
    if pipelineRank = 0 then .ok (vpStage * totalVirtualChunks)
    else do
      -- rank 0 is taken as the first stage also where the layers of the first stage are not given
      let perStage ← floorDiv inMiddle config.middlePipelineStages
      .ok (vpStage * totalVirtualChunks + inFirst + (pipelineRank - 1) * perStage)
  | none =>
    let middlePipelineRank : ℤ :=
      if config.numLayersInFirstPipelineStage.isNone then pipelineRank else pipelineRank - 1
    if pipelineRank = 0 then .ok 0
    else .ok (middlePipelineRank * config.middleRankLayers + (config.numLayersInFirstPipelineStage.getD 0 : ℕ))

def splitOffset (pipelineRank : ℕ) (vpStage : Option ℕ) (config : TransformerConfig) : Except LayerError ℤ :=
  let perRank := config.splitLayers / config.pipelineModelParallelSize
  match config.virtualPipelineModelParallelSize with
  | some vpSize => do
    let vpStage ← requireVpStage vpStage
    .ok (vpStage * (config.splitLayers / vpSize) + pipelineRank * (perRank / vpSize))
  | none => .ok (pipelineRank * perRank)

def evenOffset (state : ParallelState) (pipelineRank : ℕ) (vpStage : Option ℕ) (config : TransformerConfig) :
    Except LayerError ℤ := do
  let offset ← splitOffset pipelineRank vpStage config
  -- the process that asks is the first stage, not the stage that it asks for
  .ok (if config.accountForEmbeddingInPipelineSplit && !state.isPipelineFirstStage vpStage then offset - 1 else offset)

/-- **The number of the first layer of a stage.** -/
def getTransformerLayerOffset (state : ParallelState) (pipelineRank : ℕ) (vpStage : Option ℕ)
    (config : TransformerConfig) : Except LayerError ℤ :=
  if config.pipelineModelParallelSize > 1 then
    if config.uneven then unevenOffset pipelineRank vpStage config else evenOffset state pipelineRank vpStage config
  else .ok 0

/-! ## What the counts are -/

open TransformerConfig

variable {config : TransformerConfig} {state : ParallelState} {α : Type}

theorem require_bind_eq_ok {condition : Bool} {message : String} {f : Unit → Except LayerError α} {a : α} :
    (require condition message >>= f) = .ok a ↔ condition = true ∧ f () = .ok a := by
  cases condition
  · constructor
    · intro h
      cases h
    · rintro ⟨h, -⟩
      cases h
  · exact (and_iff_right rfl).symm

theorem bind_eq_ok {x : Except LayerError α} {f : α → Except LayerError ℤ} {n : ℤ} :
    (x >>= f) = .ok n ↔ ∃ a, x = .ok a ∧ f a = .ok n := by
  cases x with
  | error e =>
    constructor
    · intro h
      cases h
    · rintro ⟨a, ha, -⟩
      cases ha
  | ok a =>
    constructor
    · exact fun h => ⟨a, rfl, h⟩
    · rintro ⟨b, hb, h⟩
      cases hb
      exact h

theorem unevenLayers_eq_ok {isFirst isLast : Bool} {n : ℤ} (h : unevenLayers config isFirst isLast = .ok n) :
    config.accountForEmbeddingInPipelineSplit = false ∧ config.accountForLossInPipelineSplit = false ∧
      (0 < config.middlePipelineStages → config.middleNumLayers % config.middlePipelineStages = 0) ∧
      n = config.rankLayers isFirst isLast := by
  obtain ⟨hembedding, h⟩ := require_bind_eq_ok.1 h
  obtain ⟨hdivides, h⟩ := require_bind_eq_ok.1 h
  rw [Bool.not_eq_true', Bool.or_eq_false_iff] at hembedding
  refine ⟨hembedding.1, hembedding.2, fun hpos => ?_, (Except.ok.inj h).symm⟩
  simpa [hpos] using hdivides

theorem evenLayers_eq_ok {n : ℤ} (h : evenLayers config = .ok n) :
    config.splitLayers % config.pipelineModelParallelSize = 0 ∧
      n = config.splitLayers / config.pipelineModelParallelSize := by
  obtain ⟨hdivides, h⟩ := require_bind_eq_ok.1 h
  exact ⟨beq_iff_eq.1 hdivides, (Except.ok.inj h).symm⟩

theorem chunks_pos (config : TransformerConfig) : 0 < config.chunks := by
  rw [chunks]
  rcases hvpp : config.virtualPipelineModelParallelSize with _ | vpSize
  · exact Nat.one_pos
  · exact config.vpp_pos vpSize hvpp

theorem virtualLayers_eq_ok {n k : ℤ} (hpp : 1 < config.pipelineModelParallelSize)
    (h : virtualLayers config n = .ok k) : n = config.chunks * k := by
  rw [virtualLayers] at h
  rcases hvpp : config.virtualPipelineModelParallelSize with _ | vpSize
  · rw [hvpp] at h
    simp only [chunks, hvpp, Option.getD_none, Nat.cast_one, Int.one_mul]
    exact Except.ok.inj h
  · simp only [hvpp, gt_iff_lt, hpp, if_true] at h
    obtain ⟨hdivides, h⟩ := require_bind_eq_ok.1 h
    simp only [chunks, hvpp, Option.getD_some]
    rw [← Except.ok.inj h, Int.mul_ediv_cancel' (Int.dvd_of_emod_eq_zero (beq_iff_eq.1 hdivides))]

theorem virtualLayers_one {n : ℤ} (hpp : config.pipelineModelParallelSize = 1) :
    virtualLayers config n = .ok n := by
  rw [virtualLayers]
  cases config.virtualPipelineModelParallelSize with
  | none => rfl
  | some vpSize => simp only [hpp, gt_iff_lt, Nat.lt_irrefl, if_false]

theorem lessOne_eq_ok {takes : Bool} {message : String} {n k : ℤ} (h : lessOne takes message n = .ok k) :
    (0 ≤ n → 0 ≤ k) ∧ k = n - if takes = true then 1 else 0 := by
  cases takes
  · cases h
    exact ⟨id, (Int.sub_zero n).symm⟩
  · obtain ⟨hpos, h⟩ := require_bind_eq_ok.1 h
    cases h
    exact ⟨fun _ => of_decide_eq_true hpos, rfl⟩

/-- What the parallel state of a rank is documented to be: the rank, and which virtual stage is the first
one of all, the first one of its rank and the last one of its rank. -/
structure ParallelState.Documented (state : ParallelState) (config : TransformerConfig) (rank : ℕ) : Prop where
  rank_eq : state.pipelineModelParallelRank = rank
  pipelineFirst : ∀ v < config.chunks,
    state.isPipelineFirstStage (config.vpStage v) = decide (rank = 0 ∧ v = 0)
  vpFirst : ∀ v < config.chunks,
    state.isVpFirstStage (config.vpStage v) config.virtualPipelineModelParallelSize = decide (v = 0)
  vpLast : ∀ v < config.chunks,
    state.isVpLastStage (config.vpStage v) config.virtualPipelineModelParallelSize = decide (v + 1 = config.chunks)

section Counts

variable {rank p v : ℕ} {count : ℤ}

theorem getNumLayersToBuild_eq_ok (hdoc : state.Documented config rank) (hv : v < config.chunks)
    (h : getNumLayersToBuild state config (config.vpStage v) (some p) = .ok count) :
    ∃ perRank perStage,
      numLayersPerPipelineRank config (p == 0) (p + 1 == config.pipelineModelParallelSize) = .ok perRank ∧
      virtualLayers config perRank = .ok perStage ∧ (0 ≤ perStage → 0 ≤ count) ∧
      count = perStage -
        (if config.accountForEmbeddingInPipelineSplit = true ∧ v = 0 ∧ p = 0 then 1 else 0) -
        (if config.accountForLossInPipelineSplit = true ∧ v + 1 = config.chunks ∧
          p + 1 = config.pipelineModelParallelSize then 1 else 0) := by
  rw [getNumLayersToBuild] at h
  obtain ⟨perRank, hrank, h⟩ := bind_eq_ok.1 h
  obtain ⟨perStage, hstage, h⟩ := bind_eq_ok.1 h
  obtain ⟨less, hless, h⟩ := bind_eq_ok.1 h
  obtain ⟨hlessNonneg, hlessEq⟩ := lessOne_eq_ok hless
  obtain ⟨hnonneg, heq⟩ := lessOne_eq_ok h
  refine ⟨perRank, perStage, hrank, hstage, fun hpos => hnonneg (hlessNonneg hpos), ?_⟩
  rw [heq, hlessEq]
  simp only [hdoc.vpFirst v hv, hdoc.vpLast v hv, Option.getD_some, Bool.and_eq_true, decide_eq_true_eq, beq_iff_eq]

/-- The layers of each virtual stage in an even split, with the embedding and the loss. -/
def TransformerConfig.perStage (config : TransformerConfig) : ℤ :=
  config.splitLayers / config.pipelineModelParallelSize / config.chunks

/-- **The counts of an even split** over more than one rank. -/
theorem even_count (hdoc : state.Documented config rank) (hpp : 1 < config.pipelineModelParallelSize)
    (huneven : config.uneven = false) (hv : v < config.chunks)
    (h : getNumLayersToBuild state config (config.vpStage v) (some p) = .ok count) :
    config.splitLayers = config.pipelineModelParallelSize * (config.chunks * config.perStage) ∧ 0 ≤ count ∧
      count = config.perStage -
        (if config.accountForEmbeddingInPipelineSplit = true ∧ v = 0 ∧ p = 0 then 1 else 0) -
        (if config.accountForLossInPipelineSplit = true ∧ v + 1 = config.chunks ∧
          p + 1 = config.pipelineModelParallelSize then 1 else 0) := by
  obtain ⟨perRank, perStage, hrank, hstage, hnonneg, hcount⟩ := getNumLayersToBuild_eq_ok hdoc hv h
  rw [numLayersPerPipelineRank, huneven, if_neg Bool.false_ne_true] at hrank
  obtain ⟨hdivides, hperRank⟩ := evenLayers_eq_ok hrank
  have hchunks := virtualLayers_eq_ok hpp hstage
  have hchunksPos : (config.chunks : ℤ) ≠ 0 := Int.natCast_ne_zero.2 (chunks_pos config).ne'
  have hperStage : perStage = config.perStage := by
    rw [TransformerConfig.perStage, ← hperRank, hchunks, Int.mul_ediv_cancel_left _ hchunksPos]
  subst hperStage
  have hsplit : config.splitLayers = config.pipelineModelParallelSize * (config.chunks * config.perStage) := by
    rw [← hchunks, hperRank, Int.mul_ediv_cancel' (Int.dvd_of_emod_eq_zero hdivides)]
  refine ⟨hsplit, hnonneg ?_, hcount⟩
  rw [TransformerConfig.perStage, splitLayers]
  refine Int.ediv_nonneg (Int.ediv_nonneg ?_ (Int.natCast_nonneg _)) (Int.natCast_nonneg _)
  split_ifs <;> omega

/-- **The counts of an uneven split** over more than one rank. -/
theorem uneven_count (hdoc : state.Documented config rank) (hpp : 1 < config.pipelineModelParallelSize)
    (huneven : config.uneven = true) (hv : v < config.chunks)
    (h : getNumLayersToBuild state config (config.vpStage v) (some p) = .ok count) :
    (0 < config.middlePipelineStages → config.middleNumLayers % config.middlePipelineStages = 0) ∧
      config.rankLayers (p == 0) (p + 1 == config.pipelineModelParallelSize) = config.chunks * count := by
  obtain ⟨perRank, perStage, hrank, hstage, -, hcount⟩ := getNumLayersToBuild_eq_ok hdoc hv h
  rw [numLayersPerPipelineRank, huneven, if_pos rfl] at hrank
  obtain ⟨hembedding, hloss, hdivides, hperRank⟩ := unevenLayers_eq_ok hrank
  have hchunks := virtualLayers_eq_ok hpp hstage
  simp only [hembedding, hloss, Bool.false_eq_true, false_and, if_false, Int.sub_zero] at hcount
  refine ⟨hdivides, ?_⟩
  rw [hcount, ← hchunks, hperRank]

theorem one_count (hdoc : state.Documented config rank) (hpp : config.pipelineModelParallelSize = 1)
    (hv : v < config.chunks)
    (h : getNumLayersToBuild state config (config.vpStage v) (some 0) = .ok count) :
    (config.uneven = true → config.accountForEmbeddingInPipelineSplit = false ∧
      config.accountForLossInPipelineSplit = false ∧ count = config.rankLayers true true) ∧
    (config.uneven = false → count = config.splitLayers -
      (if config.accountForEmbeddingInPipelineSplit = true ∧ v = 0 then 1 else 0) -
      (if config.accountForLossInPipelineSplit = true ∧ v + 1 = config.chunks then 1 else 0)) := by
  obtain ⟨perRank, perStage, hrank, hstage, -, hcount⟩ := getNumLayersToBuild_eq_ok hdoc hv h
  rw [virtualLayers_one hpp, Except.ok.injEq] at hstage
  subst hstage
  constructor
  · intro huneven
    rw [numLayersPerPipelineRank, huneven, if_pos rfl, hpp] at hrank
    obtain ⟨hembedding, hloss, -, hperRank⟩ := unevenLayers_eq_ok hrank
    simp only [hembedding, hloss, Bool.false_eq_true, false_and, if_false, Int.sub_zero] at hcount
    exact ⟨hembedding, hloss, hcount.trans hperRank⟩
  · intro huneven
    rw [numLayersPerPipelineRank, huneven, if_neg Bool.false_ne_true] at hrank
    obtain ⟨-, hperRank⟩ := evenLayers_eq_ok hrank
    rw [hpp, Nat.cast_one, Int.ediv_one] at hperRank
    simpa only [hperRank, hpp, and_true] using hcount

end Counts

/-! ## The stages -/

def Builds (config : TransformerConfig) (asked : ℕ → ParallelState) (counts : ℕ → ℕ → ℤ) : Prop :=
  ∀ p < config.pipelineModelParallelSize, ∀ v < config.chunks,
    getNumLayersToBuild (asked p) config (config.vpStage v) (some p) = .ok (counts p v)

/-- **The stages partition the layers**, in the order of the virtual stages and then of the ranks, where
the interval of the stages of each rank is computed by a process. -/
def PartitionsLayers (config : TransformerConfig) (asked : ℕ → ParallelState) : Prop :=
  ∃ offsets counts : ℕ → ℕ → ℤ, Builds config asked counts ∧
    (∀ p < config.pipelineModelParallelSize, ∀ v < config.chunks,
      getTransformerLayerOffset (asked p) p (config.vpStage v) config = .ok (offsets p v)) ∧
    TilesGrid config.pipelineModelParallelSize config.chunks config.numLayers offsets counts

variable {asked : ℕ → ParallelState} {ranks : ℕ → ℕ} {offsets counts : ℕ → ℕ → ℤ}

theorem partitionsLayers_iff_tiles (hbuilds : Builds config asked counts)
    (hoffsets : ∀ p < config.pipelineModelParallelSize, ∀ v < config.chunks,
      getTransformerLayerOffset (asked p) p (config.vpStage v) config = .ok (offsets p v)) :
    PartitionsLayers config asked ↔
      TilesGrid config.pipelineModelParallelSize config.chunks config.numLayers offsets counts := by
  constructor
  · rintro ⟨offsets', counts', hbuilds', hoffsets', htiles⟩
    refine htiles.congr fun p hp v hv => ⟨?_, ?_⟩
    · exact Except.ok.inj ((hoffsets' p hp v hv).symm.trans (hoffsets p hp v hv))
    · exact Except.ok.inj ((hbuilds' p hp v hv).symm.trans (hbuilds p hp v hv))
  · exact fun htiles => ⟨offsets, counts, hbuilds, hoffsets, htiles⟩

theorem embedding_of_uneven (hasked : ∀ p < config.pipelineModelParallelSize, (asked p).Documented config (ranks p))
    (hbuilds : Builds config asked counts) (huneven : config.uneven = true) :
    config.accountForEmbeddingInPipelineSplit = false := by
  have hzero := chunks_pos config
  obtain ⟨perRank, perStage, hrank, -⟩ := getNumLayersToBuild_eq_ok (hasked 0 config.pp_pos) hzero
    (hbuilds 0 config.pp_pos 0 hzero)
  rw [numLayersPerPipelineRank, huneven, if_pos rfl] at hrank
  exact (unevenLayers_eq_ok hrank).1

theorem requireVpStage_vpStage {vpSize : ℕ} (hvpp : config.virtualPipelineModelParallelSize = some vpSize) (v : ℕ) :
    requireVpStage (config.vpStage v) = .ok v := by
  rw [vpStage, hvpp]
  rfl

/-! ## An even split -/

theorem splitOffset_eq {p v : ℕ} (hv : v < config.chunks)
    (hsplit : config.splitLayers = config.pipelineModelParallelSize * (config.chunks * config.perStage)) :
    splitOffset p (config.vpStage v) config =
      .ok ((v * config.pipelineModelParallelSize + p) * config.perStage) := by
  have hpp : (config.pipelineModelParallelSize : ℤ) ≠ 0 := Int.natCast_ne_zero.2 config.pp_pos.ne'
  have hchunks : (config.chunks : ℤ) ≠ 0 := Int.natCast_ne_zero.2 (chunks_pos config).ne'
  have hperRank : config.splitLayers / config.pipelineModelParallelSize = config.chunks * config.perStage := by
    rw [hsplit, Int.mul_ediv_cancel_left _ hpp]
  rw [splitOffset]
  rcases hvpp : config.virtualPipelineModelParallelSize with _ | vpSize
  · have hone : config.chunks = 1 := by rw [chunks, hvpp, Option.getD_none]
    obtain rfl : v = 0 := by omega
    simp only [hperRank, hone, Nat.cast_one, Int.one_mul, Nat.cast_zero, Int.zero_mul, Int.zero_add]
  · have hsome : config.chunks = vpSize := by rw [chunks, hvpp, Option.getD_some]
    have hvirtual : config.splitLayers / config.chunks = config.pipelineModelParallelSize * config.perStage := by
      rw [hsplit, Int.mul_left_comm, Int.mul_ediv_cancel_left _ hchunks]
    simp only [requireVpStage_vpStage hvpp, hperRank, ← hsome, hvirtual, Int.mul_ediv_cancel_left _ hchunks]
    refine congrArg Except.ok ?_
    rw [Int.add_mul, Int.mul_assoc]

/-- The offset of a stage, and one less if the embedding has been counted and the process that asks is
not in the first stage. -/
theorem evenOffset_eq {state : ParallelState} {rank p v : ℕ} (hdoc : state.Documented config rank)
    (hv : v < config.chunks)
    (hsplit : config.splitLayers = config.pipelineModelParallelSize * (config.chunks * config.perStage)) :
    evenOffset state p (config.vpStage v) config =
      .ok ((v * config.pipelineModelParallelSize + p) * config.perStage -
        if config.accountForEmbeddingInPipelineSplit = true ∧ ¬(rank = 0 ∧ v = 0) then 1 else 0) := by
  rw [evenOffset, splitOffset_eq hv hsplit, hdoc.pipelineFirst v hv]
  refine congrArg Except.ok ?_
  simp only [Bool.and_eq_true, Bool.not_eq_true', decide_eq_false_iff_not]
  split_ifs
  · rfl
  · exact (Int.sub_zero _).symm

/-- The offsets that the stages would have, with the embedding taken off all but the first one. -/
def TransformerConfig.evenReference (config : TransformerConfig) (p v : ℕ) : ℤ :=
  (v * config.pipelineModelParallelSize + p) * config.perStage -
    if config.accountForEmbeddingInPipelineSplit = true ∧ ¬(p = 0 ∧ v = 0) then 1 else 0

section Even

variable (hasked : ∀ p < config.pipelineModelParallelSize, (asked p).Documented config (ranks p))
  (hbuilds : Builds config asked counts) (hpp : 1 < config.pipelineModelParallelSize) (huneven : config.uneven = false)
include hasked hbuilds hpp huneven

theorem evenReference_add_count {p v : ℕ} (hp : p < config.pipelineModelParallelSize) (hv : v < config.chunks) :
    config.evenReference p v + counts p v =
      (v * config.pipelineModelParallelSize + p) * config.perStage + config.perStage -
        (if config.accountForEmbeddingInPipelineSplit = true then 1 else 0) -
        (if config.accountForLossInPipelineSplit = true ∧ v + 1 = config.chunks ∧
          p + 1 = config.pipelineModelParallelSize then 1 else 0) := by
  rw [(even_count (hasked p hp) hpp huneven hv (hbuilds p hp v hv)).2.2, evenReference]
  rcases config.accountForEmbeddingInPipelineSplit with _ | _
  · simp only [Bool.false_eq_true, false_and, if_false]
    omega
  · by_cases hfirst : p = 0 ∧ v = 0
    · simp only [hfirst, and_self, not_true_eq_false, and_false, if_false, if_true]
      omega
    · simp only [hfirst, mt And.symm hfirst, not_false_eq_true, and_true, and_false, if_false, if_true]
      omega

theorem evenReference_telescopes :
    TelescopesGrid config.pipelineModelParallelSize config.chunks config.numLayers config.evenReference counts := by
  refine ⟨?_, fun p v hp hv => ?_, fun p v hp hv => ?_, fun p v hp hv => ?_⟩
  · simp only [evenReference, Nat.cast_zero, Int.zero_mul, Int.add_zero, and_self, not_true_eq_false,
      and_false, if_false, Int.sub_zero]
  · rw [evenReference_add_count hasked hbuilds hpp huneven (by omega) hv, evenReference]
    have hlast : p + 1 ≠ config.pipelineModelParallelSize := by omega
    simp only [hlast, Nat.succ_ne_zero, false_and, and_false, if_false, not_false_eq_true, and_true, Int.sub_zero]
    push_cast
    ring
  · rw [evenReference_add_count hasked hbuilds hpp huneven (by omega) (by omega), evenReference]
    have hlast : v + 1 ≠ config.chunks := by omega
    simp only [hlast, Nat.succ_ne_zero, false_and, and_false, if_false, not_false_eq_true, and_true, Int.sub_zero]
    rw [← hp]
    push_cast
    ring
  · have hsplit := (even_count (hasked p (by omega)) hpp huneven (by omega) (hbuilds p (by omega) v (by omega))).1
    have hend : (v * config.pipelineModelParallelSize + p) * config.perStage + config.perStage =
        config.splitLayers := by
      rw [hsplit, ← hp, ← hv]
      push_cast
      ring
    rw [evenReference_add_count hasked hbuilds hpp huneven (by omega) (by omega), hend, splitLayers]
    simp only [hp, hv, and_true, and_self]
    omega

/-- **An even split partitions the layers** if no process takes a stage for the first one, or the first
one for another, save for a stage that has no layer. -/
theorem even_iff :
    PartitionsLayers config asked ↔
      (config.accountForEmbeddingInPipelineSplit = true →
        ∀ p < config.pipelineModelParallelSize, 0 < counts p 0 → (ranks p = 0 ↔ p = 0)) := by
  have hnonneg : ∀ p < config.pipelineModelParallelSize, ∀ v < config.chunks, 0 ≤ counts p v := fun p hp v hv =>
    (even_count (hasked p hp) hpp huneven hv (hbuilds p hp v hv)).2.1
  have hsplit := (even_count (hasked 0 config.pp_pos) hpp huneven (chunks_pos config)
    (hbuilds 0 config.pp_pos 0 (chunks_pos config))).1
  have hoffsets : ∀ p < config.pipelineModelParallelSize, ∀ v < config.chunks,
      getTransformerLayerOffset (asked p) p (config.vpStage v) config =
        .ok ((v * config.pipelineModelParallelSize + p) * config.perStage -
          if config.accountForEmbeddingInPipelineSplit = true ∧ ¬(ranks p = 0 ∧ v = 0) then 1 else 0) := by
    intro p hp v hv
    rw [getTransformerLayerOffset, if_pos hpp, huneven, if_neg Bool.false_ne_true]
    exact evenOffset_eq (hasked p hp) hv hsplit
  rw [partitionsLayers_iff_tiles hbuilds hoffsets, (evenReference_telescopes hasked hbuilds hpp huneven).tilesGrid_iff
    config.pp_pos (chunks_pos config) (Int.natCast_nonneg _), and_iff_right hnonneg]
  constructor
  · intro h hembedding p hp hpos
    have hsame := h p hp 0 (chunks_pos config) hpos
    simp only [evenReference, hembedding, and_true, true_and] at hsame
    split_ifs at hsame with hrank hfirst hfirst <;> omega
  · intro h p hp v hv hpos
    rw [evenReference]
    by_cases hembedding : config.accountForEmbeddingInPipelineSplit = true
    · by_cases hzero : v = 0
      · subst hzero
        simp only [and_true, h hembedding p hp hpos]
      · simp only [hzero, and_false]
    · rw [if_neg fun h => hembedding h.1, if_neg fun h => hembedding h.1]

end Even

/-! ## An uneven split -/

namespace TransformerConfig

variable (config : TransformerConfig)

/-- The layers of each virtual stage of the first rank, if they are given. -/
def firstChunk : ℤ := chunkLayers config.numLayersInFirstPipelineStage config.chunks

/-- The layers of each virtual stage of the last rank, if they are given. -/
def lastChunk : ℤ := chunkLayers config.numLayersInLastPipelineStage config.chunks

def middleChunk : ℤ := config.middleRankLayers / config.chunks

def totalChunk : ℤ := config.firstChunk + config.middlePipelineStages * config.middleChunk + config.lastChunk

def unevenCount (p : ℕ) : ℤ :=
  if p + 1 = config.pipelineModelParallelSize then
    config.numLayersInLastPipelineStage.elim config.middleChunk fun _ => config.lastChunk
  else if p = 0 then config.numLayersInFirstPipelineStage.elim config.middleChunk fun _ => config.firstChunk
  else config.middleChunk

def unevenReference (p v : ℕ) : ℤ :=
  v * config.totalChunk +
    if p = 0 then 0
    else (if config.numLayersInFirstPipelineStage.isNone then (p : ℤ) else p - 1) * config.middleChunk +
      config.firstChunk

end TransformerConfig

theorem unevenReference_telescopes (hpp : 1 < config.pipelineModelParallelSize)
    (hcounts : ∀ p < config.pipelineModelParallelSize, ∀ v < config.chunks, counts p v = config.unevenCount p) :
    TelescopesGrid config.pipelineModelParallelSize config.chunks (config.chunks * config.totalChunk)
      config.unevenReference counts := by
  have hend : ∀ p, p + 1 = config.pipelineModelParallelSize → ∀ v < config.chunks,
      config.unevenReference p v + counts p v = (v + 1) * config.totalChunk := by
    intro p hp v hv
    rw [hcounts p (by omega) v hv, unevenReference, unevenCount, if_pos hp,
      if_neg (by omega : p ≠ 0), Int.add_mul, Int.one_mul, Int.add_assoc, Int.add_right_inj, totalChunk,
      middlePipelineStages, ← hp, firstChunk, lastChunk]
    rcases config.numLayersInFirstPipelineStage with _ | first <;>
      rcases config.numLayersInLastPipelineStage with _ | last <;>
      simp only [Option.isNone_none, Option.isNone_some, Option.isSome_none, Option.isSome_some, Option.elim,
        Bool.false_eq_true, if_true, if_false, chunkLayers] <;>
      push_cast <;> ring
  refine ⟨?_, fun p v hp hv => ?_, fun p v hp hv => ?_, fun p v hp hv => ?_⟩
  · simp only [unevenReference, Nat.cast_zero, Int.zero_mul, if_true, Int.add_zero]
  · rw [hcounts p (by omega) v hv, unevenReference, unevenReference,
      unevenCount, if_neg (by omega : p + 1 ≠ config.pipelineModelParallelSize),
      if_neg (Nat.succ_ne_zero p), firstChunk]
    by_cases hfirst : p = 0
    · subst hfirst
      rcases config.numLayersInFirstPipelineStage with _ | first <;>
        simp only [Option.isNone_none, Option.isNone_some, Option.elim, Bool.false_eq_true, if_true, if_false,
          chunkLayers] <;>
        push_cast <;> ring
    · simp only [if_neg hfirst]
      rcases config.numLayersInFirstPipelineStage with _ | first <;>
        simp only [Option.isNone_none, Option.isNone_some, Bool.false_eq_true, if_true, if_false] <;>
        push_cast <;> ring
  · rw [hend p hp v (by omega)]
    simp only [unevenReference, if_true, Int.add_zero, Nat.cast_add, Nat.cast_one]
  · rw [hend p hp v (by omega), ← hv]
    push_cast
    rfl

section Uneven

variable (hasked : ∀ p < config.pipelineModelParallelSize, (asked p).Documented config (ranks p))
  (hbuilds : Builds config asked counts) (hpp : 1 < config.pipelineModelParallelSize) (huneven : config.uneven = true)

include hpp in
theorem unevenCount_eq_div (p : ℕ) :
    config.unevenCount p = config.rankLayers (p == 0) (p + 1 == config.pipelineModelParallelSize) / config.chunks := by
  rw [unevenCount, rankLayers, middleChunk,
    firstChunk, lastChunk]
  by_cases hlast : p + 1 = config.pipelineModelParallelSize
  · rw [if_pos hlast, if_pos (beq_iff_eq.2 hlast), if_neg (by rw [beq_iff_eq]; omega : ¬(p == 0) = true)]
    cases config.numLayersInLastPipelineStage with
    | none => rfl
    | some last => exact Int.natCast_ediv last config.chunks
  · rw [if_neg hlast, if_neg fun h => hlast (beq_iff_eq.1 h)]
    by_cases hfirst : p = 0
    · rw [if_pos hfirst, if_pos (beq_iff_eq.2 hfirst)]
      cases config.numLayersInFirstPipelineStage with
      | none => rfl
      | some first => exact Int.natCast_ediv first config.chunks
    · rw [if_neg hfirst, if_neg fun h => hfirst (beq_iff_eq.1 h)]

include hpp in
theorem exists_middle (hstages : 0 < config.middlePipelineStages) : ∃ p < config.pipelineModelParallelSize,
    config.rankLayers (p == 0) (p + 1 == config.pipelineModelParallelSize) = config.middleRankLayers := by
  rw [middlePipelineStages] at hstages
  simp only [rankLayers, beq_iff_eq]
  rcases hfirst : config.numLayersInFirstPipelineStage with _ | first
  · exact ⟨0, config.pp_pos, by rw [if_neg (by omega), if_pos rfl, Option.elim]⟩
  · refine ⟨1, hpp, ?_⟩
    rcases hlast : config.numLayersInLastPipelineStage with _ | last
    · simp only [Option.elim, if_neg Nat.one_ne_zero, ite_self]
    · rw [hfirst, hlast, Option.isSome_some, Option.isSome_some, if_pos rfl] at hstages
      rw [if_neg (by omega), if_neg Nat.one_ne_zero]

include hasked hbuilds hpp huneven in
theorem uneven_chunks :
    (∀ p < config.pipelineModelParallelSize, ∀ v < config.chunks, counts p v = config.unevenCount p) ∧
      config.chunks * config.middleChunk = config.middleRankLayers ∧
      config.chunks * config.firstChunk = (config.numLayersInFirstPipelineStage.getD 0 : ℕ) ∧
      config.chunks * config.lastChunk = (config.numLayersInLastPipelineStage.getD 0 : ℕ) := by
  have hchunks : (config.chunks : ℤ) ≠ 0 := Int.natCast_ne_zero.2 (chunks_pos config).ne'
  have hcount : ∀ p < config.pipelineModelParallelSize, ∀ v < config.chunks, counts p v = config.unevenCount p := by
    intro p hp v hv
    rw [unevenCount_eq_div hpp, (uneven_count (hasked p hp) hpp huneven hv (hbuilds p hp v hv)).2,
      Int.mul_ediv_cancel_left _ hchunks]
  have hmul : ∀ p < config.pipelineModelParallelSize,
      config.chunks * config.unevenCount p =
        config.rankLayers (p == 0) (p + 1 == config.pipelineModelParallelSize) := by
    intro p hp
    have hzero := chunks_pos config
    rw [(uneven_count (hasked p hp) hpp huneven hzero (hbuilds p hp 0 hzero)).2, hcount p hp 0 hzero]
  refine ⟨hcount, ?_, ?_, ?_⟩
  · by_cases hstages : 0 < config.middlePipelineStages
    · obtain ⟨p, hp, hmiddle⟩ := exists_middle hpp hstages
      rw [middleChunk, ← hmiddle, ← unevenCount_eq_div hpp, hmul p hp]
    · rw [middleChunk, middleRankLayers, if_neg hstages, Int.zero_ediv, Int.mul_zero]
  · have hmulFirst := hmul 0 config.pp_pos
    rw [unevenCount, rankLayers, if_neg (by omega), if_pos rfl,
      if_neg (by rw [beq_iff_eq]; omega), if_pos (beq_self_eq_true 0)] at hmulFirst
    rcases hfirst : config.numLayersInFirstPipelineStage with _ | first
    · rw [firstChunk, hfirst]
      exact Int.mul_zero _
    · rw [hfirst] at hmulFirst
      exact hmulFirst
  · obtain ⟨p, hp⟩ : ∃ p, p + 1 = config.pipelineModelParallelSize := ⟨_, Nat.sub_add_cancel config.pp_pos⟩
    have hmulLast := hmul p (by omega)
    rw [unevenCount, rankLayers, if_pos hp, if_pos (beq_iff_eq.2 hp)] at hmulLast
    rcases hlast : config.numLayersInLastPipelineStage with _ | last
    · rw [lastChunk, hlast]
      exact Int.mul_zero _
    · rw [hlast] at hmulLast
      exact hmulLast

include hasked hbuilds hpp huneven in
theorem chunks_mul_totalChunk :
    (0 < config.middlePipelineStages →
      config.middlePipelineStages * config.middleRankLayers = config.middleNumLayers) ∧
    config.chunks * config.totalChunk = (config.numLayersInFirstPipelineStage.getD 0 : ℕ) +
      config.middlePipelineStages * config.middleRankLayers + (config.numLayersInLastPipelineStage.getD 0 : ℕ) := by
  obtain ⟨-, hmiddle, hfirst, hlast⟩ := uneven_chunks hasked hbuilds hpp huneven
  have hzero := chunks_pos config
  have hdivides := (uneven_count (hasked 0 config.pp_pos) hpp huneven hzero (hbuilds 0 config.pp_pos 0 hzero)).1
  constructor
  · intro hstages
    rw [middleRankLayers, if_pos hstages,
      Int.mul_ediv_cancel' (Int.dvd_of_emod_eq_zero (hdivides hstages))]
  · rw [totalChunk, ← hmiddle, ← hfirst, ← hlast]
    ring

include huneven in
theorem middlePipelineStages_nonneg (hpp : 1 < config.pipelineModelParallelSize) :
    0 ≤ config.middlePipelineStages ∧
      (config.numLayersInFirstPipelineStage = none →
        config.middlePipelineStages = config.pipelineModelParallelSize - 1 ∧
          config.numLayersInLastPipelineStage.isSome = true) := by
  rw [uneven] at huneven
  rw [middlePipelineStages]
  rcases hfirst : config.numLayersInFirstPipelineStage with _ | first <;>
    rcases hlast : config.numLayersInLastPipelineStage with _ | last
  · rw [hfirst, hlast] at huneven
    cases huneven
  · simp only [Option.isSome_none, Option.isSome_some, Bool.false_eq_true, if_true, if_false, Int.sub_zero, and_true,
      true_implies]
    omega
  · simp only [Option.isSome_none, Option.isSome_some, Bool.false_eq_true, if_true, if_false, reduceCtorEq,
      false_implies, and_true]
    omega
  · simp only [Option.isSome_some, if_true, reduceCtorEq, false_implies, and_true]
    omega

include hasked hbuilds hpp huneven in
/-- The offsets that the stages would have tile the layers if the rest has layers, or no layers and no rank. -/
theorem unevenReference_tiles_iff :
    TilesGrid config.pipelineModelParallelSize config.chunks config.numLayers config.unevenReference counts ↔
      0 ≤ config.middleNumLayers ∧ (config.middlePipelineStages = 0 → config.middleNumLayers = 0) := by
  obtain ⟨hcounts, hmiddle, hfirst, hlast⟩ := uneven_chunks hasked hbuilds hpp huneven
  obtain ⟨hstagesMul, htotal⟩ := chunks_mul_totalChunk hasked hbuilds hpp huneven
  have hchunks : (0 : ℤ) < config.chunks := Int.natCast_pos.2 (chunks_pos config)
  have htelescopes := unevenReference_telescopes hpp hcounts
  have hnonneg : 0 ≤ config.middleChunk →
      ∀ p < config.pipelineModelParallelSize, ∀ v < config.chunks, 0 ≤ counts p v := by
    intro hpos p hp v hv
    have hfirstPos : 0 ≤ config.firstChunk := Int.nonneg_of_mul_nonneg_right (hfirst ▸ Int.natCast_nonneg _) hchunks
    have hlastPos : 0 ≤ config.lastChunk := Int.nonneg_of_mul_nonneg_right (hlast ▸ Int.natCast_nonneg _) hchunks
    rw [hcounts p hp v hv, unevenCount]
    cases config.numLayersInFirstPipelineStage <;> cases config.numLayersInLastPipelineStage <;>
      simp only [Option.elim] <;> split_ifs <;> assumption
  by_cases hstages : 0 < config.middlePipelineStages
  · have hall : (config.chunks : ℤ) * config.totalChunk = config.numLayers := by
      rw [htotal, hstagesMul hstages, middleNumLayers]
      omega
    rw [hall] at htelescopes
    rw [htelescopes.tilesGrid_iff config.pp_pos (chunks_pos config) (Int.natCast_nonneg _),
      and_iff_left fun _ _ _ _ _ => rfl]
    have hrest : config.middlePipelineStages * (config.chunks * config.middleChunk) = config.middleNumLayers := by
      rw [hmiddle, hstagesMul hstages]
    constructor
    · intro hcount
      obtain ⟨p, hp, hrank⟩ := exists_middle hpp hstages
      have hpos := hcount p hp 0 (chunks_pos config)
      rw [hcounts p hp 0 (chunks_pos config), unevenCount_eq_div hpp, hrank] at hpos
      refine ⟨?_, fun hzero => by omega⟩
      rw [← hrest]
      exact Int.mul_nonneg hstages.le (Int.mul_nonneg hchunks.le hpos)
    · rintro ⟨hpos, -⟩
      rw [← hrest] at hpos
      exact hnonneg (Int.nonneg_of_mul_nonneg_right (Int.nonneg_of_mul_nonneg_right hpos hstages) hchunks)
  · have hzero : config.middlePipelineStages = 0 := by
      have := (middlePipelineStages_nonneg huneven hpp).1
      omega
    have hnone : config.middleChunk = 0 := by
      rw [middleChunk, middleRankLayers, if_neg hstages, Int.zero_ediv]
    rw [hzero, Int.zero_mul, Int.add_zero] at htotal
    have htotalPos : (0 : ℤ) ≤ config.chunks * config.totalChunk := by omega
    have htiles := (htelescopes.tilesGrid_iff config.pp_pos (chunks_pos config) htotalPos).2
      ⟨hnonneg hnone.ge, fun _ _ _ _ _ => rfl⟩
    constructor
    · intro h
      have hsame := h.total_eq htiles (Int.natCast_nonneg _) htotalPos
      rw [middleNumLayers]
      omega
    · rintro ⟨-, hmiddleZero⟩
      have hsame : (config.chunks : ℤ) * config.totalChunk = config.numLayers := by
        have := hmiddleZero hzero
        rw [middleNumLayers] at this
        omega
      rwa [hsame] at htiles

theorem unevenOffset_none (hvpp : config.virtualPipelineModelParallelSize = none) {p v : ℕ} (hv : v < config.chunks) :
    unevenOffset p (config.vpStage v) config = .ok (config.unevenReference p v) := by
  have hone : config.chunks = 1 := by rw [chunks, hvpp, Option.getD_none]
  obtain rfl : v = 0 := by omega
  simp only [unevenOffset, hvpp, unevenReference, middleChunk,
    firstChunk, hone, Nat.cast_one, Int.ediv_one, Nat.cast_zero, Int.zero_mul, Int.zero_add]
  by_cases hp : p = 0
  · rw [if_pos hp, if_pos hp]
  · rw [if_neg hp, if_neg hp]
    cases config.numLayersInFirstPipelineStage with
    | none => rfl
    | some first =>
      rw [chunkLayers, Option.elim, Nat.div_one]
      rfl

theorem unevenOffset_some {vpSize : ℕ} (hvpp : config.virtualPipelineModelParallelSize = some vpSize)
    (hstages : 0 < config.middlePipelineStages)
    (hmiddle : config.middleNumLayers = config.chunks * (config.middlePipelineStages * config.middleChunk))
    {p v : ℕ} :
    unevenOffset p (config.vpStage v) config =
      .ok (v * config.totalChunk + if p = 0 then 0 else (p - 1) * config.middleChunk + config.firstChunk) := by
  have hchunks : (config.chunks : ℤ) ≠ 0 := Int.natCast_ne_zero.2 (chunks_pos config).ne'
  have hsome : config.chunks = vpSize := by rw [chunks, hvpp, Option.getD_some]
  have hinMiddle : config.middleNumLayers / config.chunks = config.middlePipelineStages * config.middleChunk := by
    rw [hmiddle, Int.mul_ediv_cancel_left _ hchunks]
  have hperStage : floorDiv (config.middlePipelineStages * config.middleChunk) config.middlePipelineStages =
      .ok config.middleChunk := by
    rw [floorDiv, if_neg hstages.ne', Int.mul_ediv_cancel_left _ hstages.ne']
  simp only [unevenOffset, hvpp, requireVpStage_vpStage hvpp, ← hsome, hinMiddle, hperStage]
  refine (apply_ite Except.ok _ _ _).symm.trans (congrArg Except.ok ?_)
  rw [totalChunk, firstChunk, lastChunk]
  split_ifs
  · exact (Int.add_zero _).symm
  · omega

theorem unevenOffset_zero {vpSize : ℕ} (hvpp : config.virtualPipelineModelParallelSize = some vpSize)
    (hstages : config.middlePipelineStages = 0) {p v : ℕ} (hp : p ≠ 0) :
    unevenOffset p (config.vpStage v) config = .error .zeroDivisionError := by
  have hdivision : ∀ inMiddle, floorDiv inMiddle config.middlePipelineStages = .error .zeroDivisionError := by
    intro inMiddle
    rw [floorDiv, if_pos hstages]
  simp only [unevenOffset, hvpp, requireVpStage_vpStage hvpp, hdivision]
  exact if_neg hp

include huneven hpp in
theorem uneven_offset (p v : ℕ) : getTransformerLayerOffset (asked p) p (config.vpStage v) config =
    unevenOffset p (config.vpStage v) config := by
  rw [getTransformerLayerOffset, if_pos hpp, if_pos huneven]

include hasked hbuilds hpp huneven in
theorem uneven_total (hstages : 0 < config.middlePipelineStages) :
    config.middleNumLayers = config.chunks * (config.middlePipelineStages * config.middleChunk) ∧
      (config.chunks : ℤ) * config.totalChunk = config.numLayers := by
  obtain ⟨-, hmiddle, -, -⟩ := uneven_chunks hasked hbuilds hpp huneven
  obtain ⟨hstagesMul, htotal⟩ := chunks_mul_totalChunk hasked hbuilds hpp huneven
  constructor
  · rw [← hstagesMul hstages, ← hmiddle, Int.mul_left_comm]
  · rw [htotal, hstagesMul hstages, middleNumLayers]
    omega

include hasked hbuilds hpp huneven in
/-- The split where the layers of the first rank are not given: rank 1 has the offset of rank 0. -/
theorem unevenOffset_some_iff {vpSize : ℕ} (hvpp : config.virtualPipelineModelParallelSize = some vpSize)
    (hfirst : config.numLayersInFirstPipelineStage = none) :
    PartitionsLayers config asked ↔ config.middleNumLayers = 0 ∨
      config.pipelineModelParallelSize = 2 ∧ config.numLayersInLastPipelineStage = some 0 := by
  obtain ⟨hcounts, -, -, hlast⟩ := uneven_chunks hasked hbuilds hpp huneven
  obtain ⟨hstages, hsome⟩ := (middlePipelineStages_nonneg huneven hpp).2 hfirst
  have hstagesPos : 0 < config.middlePipelineStages := by omega
  obtain ⟨hmiddle, htotal⟩ := uneven_total hasked hbuilds hpp huneven hstagesPos
  have hchunks : (0 : ℤ) < config.chunks := Int.natCast_pos.2 (chunks_pos config)
  have hfirstChunk : config.firstChunk = 0 := by rw [firstChunk, hfirst, chunkLayers, Option.elim]
  have hoffset : ∀ p v : ℕ, (v * config.totalChunk + (if p = 0 then 0 else (p - 1) * config.middleChunk +
      config.firstChunk) = config.unevenReference p v ↔ p = 0 ∨ config.middleChunk = 0) := by
    intro p v
    rw [unevenReference, Int.add_right_inj, hfirstChunk, hfirst, Option.isNone_none, if_pos rfl,
      Int.sub_mul, Int.one_mul]
    split_ifs <;> omega
  have hcount : ∀ p, config.unevenCount p = if p + 1 = config.pipelineModelParallelSize then config.lastChunk
      else config.middleChunk := by
    intro p
    rw [unevenCount, hfirst]
    obtain ⟨last, hlastSome⟩ := Option.isSome_iff_exists.1 hsome
    rw [hlastSome, Option.elim, Option.elim, ite_self]
  have hlastPos : 0 ≤ config.lastChunk := Int.nonneg_of_mul_nonneg_right (hlast ▸ Int.natCast_nonneg _) hchunks
  have htelescopes := unevenReference_telescopes hpp hcounts
  rw [htotal] at htelescopes
  rw [partitionsLayers_iff_tiles hbuilds fun p hp v hv => (uneven_offset hpp huneven p v).trans
    (unevenOffset_some hvpp hstagesPos hmiddle), htelescopes.tilesGrid_iff config.pp_pos (chunks_pos config)
    (Int.natCast_nonneg _)]
  simp only [hoffset]
  constructor
  · rintro ⟨hnonneg, hsame⟩
    have hfirstCount := hnonneg 0 config.pp_pos 0 (chunks_pos config)
    rw [hcounts 0 config.pp_pos 0 (chunks_pos config), hcount, if_neg (by omega)] at hfirstCount
    by_cases hzero : config.middleChunk = 0
    · exact .inl (by rw [hmiddle, hzero, Int.mul_zero, Int.mul_zero])
    · have hnext : ¬0 < counts 1 0 := by
        intro hpos
        have := hsame 1 hpp 0 (chunks_pos config) hpos
        omega
      rw [hcounts 1 hpp 0 (chunks_pos config), hcount] at hnext
      by_cases htwo : 1 + 1 = config.pipelineModelParallelSize
      · rw [if_pos htwo] at hnext
        obtain ⟨last, hlastSome⟩ := Option.isSome_iff_exists.1 hsome
        have hlastZero : config.lastChunk = 0 := by omega
        rw [hlastZero, Int.mul_zero, hlastSome, Option.getD_some] at hlast
        obtain rfl : last = 0 := by omega
        exact .inr ⟨htwo.symm, hlastSome⟩
      · rw [if_neg htwo] at hnext
        omega
  · rintro (hzero | ⟨htwo, hlastZero⟩)
    · rw [hmiddle] at hzero
      rcases Int.mul_eq_zero.1 hzero with hzero | hzero
      · omega
      · have hmiddleZero : config.middleChunk = 0 := (Int.mul_eq_zero.1 hzero).resolve_left hstagesPos.ne'
        refine ⟨fun p hp v hv => ?_, fun p hp v hv _ => .inr hmiddleZero⟩
        rw [hcounts p hp v hv, hcount, hmiddleZero]
        split_ifs <;> omega
    · have hrest : 0 ≤ config.middleNumLayers := by
        rw [middleNumLayers, hfirst, hlastZero, Option.getD_none, Option.getD_some]
        omega
      rw [hmiddle] at hrest
      have hmiddlePos := Int.nonneg_of_mul_nonneg_right (Int.nonneg_of_mul_nonneg_right hrest hchunks) hstagesPos
      have hlastChunk : config.lastChunk = 0 := by
        rw [lastChunk, hlastZero, chunkLayers, Option.elim, Nat.zero_div, Nat.cast_zero]
      refine ⟨fun p hp v hv => ?_, fun p hp v hv hpos => .inl ?_⟩
      · rw [hcounts p hp v hv, hcount]
        split_ifs <;> omega
      · rw [hcounts p hp v hv, hcount] at hpos
        split_ifs at hpos <;> omega

include hasked hbuilds hpp huneven in
/-- **An uneven split partitions the layers** if the rest is not negative and all given, and with virtual
stages, if there is a rank of the rest, and rank 0 is given, or else has nothing to be confused. -/
theorem uneven_iff :
    PartitionsLayers config asked ↔
      (0 ≤ config.middleNumLayers ∧ (config.middlePipelineStages = 0 → config.middleNumLayers = 0)) ∧
      (config.virtualPipelineModelParallelSize.isSome = true → config.middlePipelineStages ≠ 0 ∧
        (config.numLayersInFirstPipelineStage = none → config.middleNumLayers = 0 ∨
          config.pipelineModelParallelSize = 2 ∧ config.numLayersInLastPipelineStage = some 0)) := by
  have htiles := unevenReference_tiles_iff hasked hbuilds hpp huneven
  rcases hvpp : config.virtualPipelineModelParallelSize with _ | vpSize
  · simp only [Option.isSome_none, Bool.false_eq_true, false_implies, and_true]
    rw [← htiles]
    exact partitionsLayers_iff_tiles hbuilds fun p hp v hv =>
      (uneven_offset hpp huneven p v).trans (unevenOffset_none hvpp hv)
  · simp only [Option.isSome_some, true_implies]
    by_cases hzero : config.middlePipelineStages = 0
    · refine iff_of_false ?_ fun h => h.2.1 hzero
      rintro ⟨offsets, counts, -, hoffsets, -⟩
      have hok := hoffsets 1 hpp 0 (chunks_pos config)
      rw [uneven_offset hpp huneven, unevenOffset_zero hvpp hzero Nat.one_ne_zero] at hok
      cases hok
    · have hstages : 0 < config.middlePipelineStages := by
        have := (middlePipelineStages_nonneg huneven hpp).1
        omega
      rcases hfirst : config.numLayersInFirstPipelineStage with _ | first
      · rw [unevenOffset_some_iff hasked hbuilds hpp huneven hvpp hfirst]
        simp only [true_implies]
        constructor
        · intro h
          refine ⟨⟨?_, fun hnone => absurd hnone hzero⟩, hzero, h⟩
          rcases h with hrest | ⟨-, hlast⟩
          · exact hrest.ge
          · rw [middleNumLayers, hfirst, hlast, Option.getD_none, Option.getD_some]
            omega
        · exact fun h => h.2.2
      · simp only [reduceCtorEq, false_implies, and_true]
        rw [and_iff_left hzero, ← htiles]
        refine partitionsLayers_iff_tiles hbuilds fun p hp v hv => (uneven_offset hpp huneven p v).trans ?_
        rw [unevenOffset_some hvpp hstages (uneven_total hasked hbuilds hpp huneven hstages).1,
          unevenReference, hfirst, Option.isNone_some, if_neg Bool.false_ne_true]

end Uneven

/-! ## One rank -/

theorem rankLayers_one (huneven : config.uneven = true) :
    config.rankLayers true true =
      ((config.numLayersInLastPipelineStage.or config.numLayersInFirstPipelineStage).getD 0 : ℕ) := by
  rw [uneven] at huneven
  rw [rankLayers, if_pos rfl, if_pos rfl]
  rcases hfirst : config.numLayersInFirstPipelineStage with _ | first <;>
    rcases hlast : config.numLayersInLastPipelineStage with _ | last
  · rw [hfirst, hlast] at huneven
    cases huneven
  all_goals rfl

theorem one_iff (hasked : ∀ p < config.pipelineModelParallelSize, (asked p).Documented config (ranks p))
    (hbuilds : Builds config asked counts) (hpp : config.pipelineModelParallelSize = 1) :
    PartitionsLayers config asked ↔
      (config.uneven = true → (config.numLayersInLastPipelineStage.or config.numLayersInFirstPipelineStage).getD 0 =
        config.numLayers) ∧
      (config.chunks = 1 ∨ config.numLayers = 0 ∧ config.accountForEmbeddingInPipelineSplit = false ∧
        config.accountForLossInPipelineSplit = false) := by
  have hcounts : ∀ v < config.chunks, _ := fun v hv =>
    one_count (hasked 0 config.pp_pos) hpp hv (hbuilds 0 config.pp_pos v hv)
  have hoffsets : ∀ p < config.pipelineModelParallelSize, ∀ v < config.chunks,
      getTransformerLayerOffset (asked p) p (config.vpStage v) config = .ok 0 := by
    intro p hp v hv
    rw [getTransformerLayerOffset, if_neg (by omega)]
  rw [partitionsLayers_iff_tiles hbuilds hoffsets, hpp]
  rw [tilesGrid_zero_iff (Int.natCast_nonneg _)]
  have hpos := chunks_pos config
  by_cases huneven : config.uneven = true
  · have hcount : ∀ v < config.chunks, counts 0 v =
        ((config.numLayersInLastPipelineStage.or config.numLayersInFirstPipelineStage).getD 0 : ℕ) := by
      intro v hv
      rw [((hcounts v hv).1 huneven).2.2, rankLayers_one huneven]
    obtain ⟨hembedding, hloss, -⟩ := (hcounts 0 hpos).1 huneven
    rw [imp_iff_right huneven, hembedding, hloss, and_self, and_iff_left rfl]
    generalize (config.numLayersInLastPipelineStage.or config.numLayersInFirstPipelineStage).getD 0 = given at hcount ⊢
    constructor
    · rintro ⟨hall, hone⟩
      by_cases hgiven : 0 < given
      · obtain ⟨hsame, honly⟩ := hone 0 hpos (by rw [hcount 0 hpos]; omega)
        rw [hcount 0 hpos] at hsame
        refine ⟨by omega, .inl ?_⟩
        by_contra hne
        have := honly 1 (by omega) (by rw [hcount 1 (by omega)]; omega)
        omega
      · have hzero : config.numLayers = 0 := by
          rcases hall with hzero | ⟨v, hv, heq⟩
          · omega
          · rw [hcount v hv] at heq
            omega
        exact ⟨by omega, .inr hzero⟩
    · rintro ⟨hsame, hone⟩
      refine ⟨.inr ⟨0, hpos, by rw [hcount 0 hpos, hsame]⟩, fun v hv hvpos => ?_⟩
      rw [hcount v hv] at hvpos ⊢
      refine ⟨by omega, fun w hw _ => ?_⟩
      omega
  · rw [Bool.not_eq_true] at huneven
    have hcount := fun v hv => (hcounts v hv).2 huneven
    simp only [huneven, Bool.false_eq_true, false_implies, true_and]
    simp only [splitLayers] at hcount
    constructor
    · rintro ⟨-, hone⟩
      by_contra hne
      rw [not_or] at hne
      have hfirst := hcount 0 hpos
      have hsecond := hcount 1 (by omega)
      have hfirstSame := fun h => (hone 0 hpos h).1
      have hsecondSame := fun h => (hone 1 (by omega) h).1
      have honly := fun h h' => (hone 0 hpos h).2 1 (by omega) h'
      rcases hembedding : config.accountForEmbeddingInPipelineSplit with _ | _ <;>
        rcases hloss : config.accountForLossInPipelineSplit with _ | _ <;>
        simp only [hembedding, hloss, Bool.false_eq_true, false_and, true_and, if_true, if_false, and_self, and_true,
          and_false, not_false_eq_true, reduceCtorEq, Nat.one_ne_zero, Nat.zero_add] at hne hfirst hsecond <;>
        (try split_ifs at hfirst hsecond) <;> omega
    · rintro (hone | ⟨hzero, hembedding, hloss⟩)
      · have hfirst : counts 0 0 = config.numLayers := by
          rw [hcount 0 hpos, hone]
          simp only [and_true, Nat.zero_add]
          omega
        refine ⟨.inr ⟨0, hpos, hfirst⟩, fun v hv _ => ?_⟩
        obtain rfl : v = 0 := by omega
        exact ⟨hfirst, fun w hw _ => by omega⟩
      · have hall : ∀ v < config.chunks, counts 0 v = 0 := by
          intro v hv
          simp only [hcount v hv, hzero, hembedding, hloss, Bool.false_eq_true, false_and, if_false, Nat.cast_zero,
            Int.add_zero, Int.sub_zero]
        refine ⟨.inl (by rw [hzero, Nat.cast_zero]), fun v hv hvpos => ?_⟩
        rw [hall v hv] at hvpos
        exact absurd hvpos (Int.lt_irrefl 0)

/-! ## When the stages partition the layers -/

/-- **The configurations whose stages partition the layers**, each stage asked for on its own rank. -/
structure TransformerConfig.Aligned (config : TransformerConfig) : Prop where
  given : config.pipelineModelParallelSize = 1 → config.uneven = true →
    (config.numLayersInLastPipelineStage.or config.numLayersInFirstPipelineStage).getD 0 = config.numLayers
  oneChunk : config.pipelineModelParallelSize = 1 → config.chunks = 1 ∨
    config.numLayers = 0 ∧ config.accountForEmbeddingInPipelineSplit = false ∧
      config.accountForLossInPipelineSplit = false
  rest : 1 < config.pipelineModelParallelSize → config.uneven = true →
    0 ≤ config.middleNumLayers ∧ (config.middlePipelineStages = 0 → config.middleNumLayers = 0)
  stages : 1 < config.pipelineModelParallelSize → config.uneven = true →
    config.virtualPipelineModelParallelSize.isSome = true → config.middlePipelineStages ≠ 0
  firstStage : 1 < config.pipelineModelParallelSize → config.uneven = true →
    config.virtualPipelineModelParallelSize.isSome = true → config.numLayersInFirstPipelineStage = none →
    config.middleNumLayers = 0 ∨
      config.pipelineModelParallelSize = 2 ∧ config.numLayersInLastPipelineStage = some 0

/-- What is needed besides if the process of one rank asks for all stages: the embedding is not counted, or
the first stage, for which it is not taken off then, has nothing else. -/
def TransformerConfig.AlignedFrom (config : TransformerConfig) (rank : ℕ) : Prop :=
  1 < config.pipelineModelParallelSize → config.accountForEmbeddingInPipelineSplit = true →
    config.numLayers = 0 ∨
      rank ≠ 0 ∧ config.splitLayers = config.pipelineModelParallelSize * config.chunks

theorem partitionsLayers_iff_of_ranks
    (hasked : ∀ p < config.pipelineModelParallelSize, (asked p).Documented config (ranks p))
    (hbuilds : Builds config asked counts) :
    PartitionsLayers config asked ↔ config.Aligned ∧
      (1 < config.pipelineModelParallelSize → config.accountForEmbeddingInPipelineSplit = true →
        ∀ p < config.pipelineModelParallelSize, 0 < counts p 0 → (ranks p = 0 ↔ p = 0)) := by
  by_cases hpp : config.pipelineModelParallelSize = 1
  · have hnot : ¬1 < config.pipelineModelParallelSize := by omega
    rw [one_iff hasked hbuilds hpp]
    constructor
    · rintro ⟨hgiven, hone⟩
      exact ⟨⟨fun _ => hgiven, fun _ => hone, fun h => absurd h hnot, fun h => absurd h hnot, fun h => absurd h hnot⟩,
        fun h => absurd h hnot⟩
    · rintro ⟨haligned, -⟩
      exact ⟨haligned.given hpp, haligned.oneChunk hpp⟩
  · have hpos := config.pp_pos
    have hmore : 1 < config.pipelineModelParallelSize := by omega
    by_cases huneven : config.uneven = true
    · rw [uneven_iff hasked hbuilds hmore huneven, embedding_of_uneven hasked hbuilds huneven]
      constructor
      · rintro ⟨hrest, hvirtual⟩
        exact ⟨⟨fun h => absurd h hpp, fun h => absurd h hpp, fun _ _ => hrest, fun _ _ h => (hvirtual h).1,
          fun _ _ h => (hvirtual h).2⟩, fun _ h => absurd h Bool.false_ne_true⟩
      · rintro ⟨haligned, -⟩
        exact ⟨haligned.rest hmore huneven, fun h =>
          ⟨haligned.stages hmore huneven h, haligned.firstStage hmore huneven h⟩⟩
    · have hnot : ¬config.uneven = true := huneven
      rw [Bool.not_eq_true] at huneven
      rw [even_iff hasked hbuilds hmore huneven]
      constructor
      · intro h
        exact ⟨⟨fun h => absurd h hpp, fun h => absurd h hpp, fun _ h => absurd h hnot, fun _ h => absurd h hnot,
          fun _ h => absurd h hnot⟩, fun _ => h⟩
      · exact fun h => h.2 hmore

variable {process : ℕ → ParallelState}

theorem Builds.of_rank (hbuilds : Builds config process counts)
    (hprocess : ∀ p < config.pipelineModelParallelSize, (process p).Documented config p) {r : ℕ}
    (hr : r < config.pipelineModelParallelSize) : Builds config (fun _ => process r) counts := by
  intro p hp v hv
  rw [← hbuilds p hp v hv, getNumLayersToBuild, getNumLayersToBuild]
  simp only [(hprocess p hp).vpFirst v hv, (hprocess r hr).vpFirst v hv, (hprocess p hp).vpLast v hv,
    (hprocess r hr).vpLast v hv, Option.getD_some]

theorem embedding_count (hbuilds : Builds config process counts)
    (hprocess : ∀ p < config.pipelineModelParallelSize, (process p).Documented config p)
    (hpp : 1 < config.pipelineModelParallelSize) (hembedding : config.accountForEmbeddingInPipelineSplit = true) :
    config.splitLayers = config.pipelineModelParallelSize * (config.chunks * config.perStage) ∧
      1 ≤ config.perStage ∧ counts 0 0 = config.perStage - 1 ∧
      ∀ p < config.pipelineModelParallelSize, p ≠ 0 → counts p 0 = config.perStage -
        if config.accountForLossInPipelineSplit = true ∧ 1 = config.chunks ∧
          p + 1 = config.pipelineModelParallelSize then 1 else 0 := by
  have hzero := chunks_pos config
  have huneven : config.uneven = false := by
    by_contra h
    rw [Bool.not_eq_false] at h
    rw [embedding_of_uneven hprocess hbuilds h] at hembedding
    cases hembedding
  have hcount := fun p hp => even_count (hprocess p hp) hpp huneven hzero (hbuilds p hp 0 hzero)
  obtain ⟨hsplit, hnonneg, hfirst⟩ := hcount 0 config.pp_pos
  have hlast : 0 + 1 ≠ config.pipelineModelParallelSize := by omega
  simp only [hembedding, hlast, and_self, and_false, if_true, if_false, Int.sub_zero] at hfirst
  refine ⟨hsplit, by omega, hfirst, fun p hp hne => ?_⟩
  rw [(hcount p hp).2.2, if_neg fun h => hne h.2.2, Int.sub_zero]

theorem alignedFrom_iff (hbuilds : Builds config process counts)
    (hprocess : ∀ p < config.pipelineModelParallelSize, (process p).Documented config p) {r : ℕ} :
    config.AlignedFrom r ↔
      (1 < config.pipelineModelParallelSize → config.accountForEmbeddingInPipelineSplit = true →
        ∀ p < config.pipelineModelParallelSize, 0 < counts p 0 → (r = 0 ↔ p = 0)) := by
  refine forall_congr' fun hpp => forall_congr' fun hembedding => ?_
  obtain ⟨hsplit, hone, hfirst, hothers⟩ := embedding_count hbuilds hprocess hpp hembedding
  have hchunks := chunks_pos config
  have hstages : (0 : ℤ) < config.pipelineModelParallelSize * config.chunks :=
    Int.mul_pos (Int.natCast_pos.2 config.pp_pos) (Int.natCast_pos.2 hchunks)
  have hperStage : config.splitLayers = config.pipelineModelParallelSize * config.chunks ↔ config.perStage = 1 := by
    rw [hsplit, ← Int.mul_assoc]
    constructor
    · intro h
      exact Int.eq_of_mul_eq_mul_left hstages.ne' (h.trans (Int.mul_one _).symm)
    · intro h
      rw [h, Int.mul_one]
  rw [hperStage]
  constructor
  · rintro (hzero | ⟨hr, hperStage⟩) p hp hpos
    · -- the only two layers are the embedding and the loss, one for each rank
      have hchunk : (config.chunks : ℤ) * 1 ≤ config.chunks * config.perStage :=
        Int.mul_le_mul_of_nonneg_left hone (Int.natCast_nonneg _)
      have hstage : 2 * (config.chunks * config.perStage) ≤ config.splitLayers := by
        rw [hsplit]
        exact Int.mul_le_mul_of_nonneg_right (by omega) (by omega)
      have hrank : (config.pipelineModelParallelSize : ℤ) * 1 ≤ config.splitLayers := by
        rw [hsplit]
        exact Int.mul_le_mul_of_nonneg_left (by omega) (Int.natCast_nonneg _)
      have hsum := TransformerConfig.splitLayers.eq_1 config
      rw [hembedding, if_pos rfl, hzero] at hsum
      have hloss : config.accountForLossInPipelineSplit = true := by
        by_contra hnot
        rw [if_neg hnot] at hsum
        omega
      rw [if_pos hloss] at hsum
      have hq : (config.chunks : ℤ) * config.perStage = 1 := by omega
      have hchunksOne : config.chunks = 1 := by omega
      rw [hchunksOne, Nat.cast_one, Int.one_mul] at hq
      by_cases hp0 : p = 0
      · subst hp0
        omega
      · rw [hothers p hp hp0, if_pos ⟨hloss, hchunksOne.symm, by omega⟩] at hpos
        omega
    · have hne : p ≠ 0 := by
        rintro rfl
        omega
      exact iff_of_false hr hne
  · intro h
    by_cases hr : r = 0
    · have hnext : ¬0 < counts 1 0 := by
        intro hpos
        have := h 1 hpp hpos
        omega
      rw [hothers 1 hpp Nat.one_ne_zero] at hnext
      split_ifs at hnext with hlast
      · obtain ⟨hloss, hchunksOne, htwo⟩ := hlast
        have hperStageOne : config.perStage = 1 := by omega
        rw [← hchunksOne, ← htwo, hperStageOne, splitLayers, hembedding, hloss] at hsplit
        simp only [if_true] at hsplit
        exact .inl (by omega)
      · omega
    · have hnone : ¬0 < counts 0 0 := fun hpos => hr ((h 0 config.pp_pos hpos).2 rfl)
      exact .inr ⟨hr, by omega⟩

/-- **When the stages partition the layers**: each stage asked for on its own rank, and all of them asked
for on one rank. -/
theorem partitionsLayers_iff (config : TransformerConfig) (process : ℕ → ParallelState) (counts : ℕ → ℕ → ℤ)
    (hprocess : ∀ p < config.pipelineModelParallelSize, (process p).Documented config p)
    (hbuilds : Builds config process counts) :
    (PartitionsLayers config process ↔ config.Aligned) ∧
      ∀ r < config.pipelineModelParallelSize,
        (PartitionsLayers config (fun _ => process r) ↔ config.Aligned ∧ config.AlignedFrom r) := by
  constructor
  · rw [partitionsLayers_iff_of_ranks hprocess hbuilds]
    exact and_iff_left fun _ _ p _ _ => Iff.rfl
  · intro r hr
    rw [partitionsLayers_iff_of_ranks (fun _ _ => hprocess r hr) (hbuilds.of_rank hprocess hr),
      alignedFrom_iff hbuilds hprocess]

def parallelState (config : TransformerConfig) (rank : ℕ) : ParallelState where
  pipelineModelParallelRank := rank
  isPipelineFirstStage vpStage :=
    rank == 0 && (config.virtualPipelineModelParallelSize.isNone || vpStage == some 0)
  isVpFirstStage vpStage vpSize := decide (vpSize.getD 1 ≤ 1) || vpStage == some 0
  isVpLastStage vpStage vpSize := decide (vpSize.getD 1 ≤ 1) || vpStage.map Nat.succ == vpSize

theorem parallelState_documented (config : TransformerConfig) (rank : ℕ) :
    (parallelState config rank).Documented config rank := by
  rcases hvpp : config.virtualPipelineModelParallelSize with _ | vpSize
  · have hone : config.chunks = 1 := by rw [chunks, hvpp, Option.getD_none]
    refine ⟨rfl, fun v hv => ?_, fun v hv => ?_, fun v hv => ?_⟩ <;>
      rw [hone] at hv <;>
      obtain rfl : v = 0 := by omega
    · simp only [parallelState, hvpp, Option.isNone_none, Bool.true_or, Bool.and_true, and_true]
      rfl
    · rw [hvpp]
      rfl
    · rw [hvpp, hone]
      rfl
  · have hsome : config.chunks = vpSize := by rw [chunks, hvpp, Option.getD_some]
    refine ⟨rfl, fun v hv => ?_, fun v hv => ?_, fun v hv => ?_⟩ <;>
      rw [hsome] at hv <;>
      rw [Bool.eq_iff_iff] <;>
      simp only [parallelState, vpStage, hvpp, hsome, Option.isNone_some, Option.getD_some,
        Option.map_some, Bool.false_or, Bool.or_eq_true, Bool.and_eq_true, beq_iff_eq, decide_eq_true_eq,
        Option.some.injEq] <;>
      omega

theorem two_pos_of_mem : ∀ vpSize ∈ some 2, 0 < vpSize := by
  intro vpSize h
  cases h
  exact Nat.two_pos

/-- Six layers, the embedding and the loss in two virtual stages of two ranks. -/
def sixLayers : TransformerConfig where
  numLayers := 6
  pipelineModelParallelSize := 2
  virtualPipelineModelParallelSize := some 2
  numLayersInFirstPipelineStage := none
  numLayersInLastPipelineStage := none
  accountForEmbeddingInPipelineSplit := true
  accountForLossInPipelineSplit := true
  pp_pos := Nat.two_pos
  vpp_pos := two_pos_of_mem

theorem sixLayers_builds : Builds sixLayers (parallelState sixLayers) fun p v => if p = v then 1 else 2 := by
  show ∀ p < 2, ∀ v < 2, getNumLayersToBuild (parallelState sixLayers p) sixLayers (some v) (some p) =
    .ok (if p = v then 1 else 2)
  decide

theorem sixLayers_partition : PartitionsLayers sixLayers (parallelState sixLayers) := by
  refine (partitionsLayers_iff sixLayers (parallelState sixLayers) (fun p v => if p = v then 1 else 2)
    (fun p _ => parallelState_documented sixLayers p) sixLayers_builds).1.2 ?_
  exact ⟨by decide, by decide, by decide, by decide, by decide⟩

/-- Eight layers in two virtual stages of two ranks, four of them given for the last rank. -/
def lastGiven : TransformerConfig where
  numLayers := 8
  pipelineModelParallelSize := 2
  virtualPipelineModelParallelSize := some 2
  numLayersInFirstPipelineStage := none
  numLayersInLastPipelineStage := some 4
  accountForEmbeddingInPipelineSplit := false
  accountForLossInPipelineSplit := false
  pp_pos := Nat.two_pos
  vpp_pos := two_pos_of_mem

theorem lastGiven_builds : Builds lastGiven (parallelState lastGiven) fun _ _ => 2 := by
  show ∀ p < 2, ∀ v < 2, getNumLayersToBuild (parallelState lastGiven p) lastGiven (some v) (some p) = .ok 2
  decide

theorem not_partitionsLayers : ¬∀ (config : TransformerConfig) (process : ℕ → ParallelState) (counts : ℕ → ℕ → ℤ),
    (∀ p < config.pipelineModelParallelSize, (process p).Documented config p) → Builds config process counts →
    PartitionsLayers config process ∨
      ∃ r < config.pipelineModelParallelSize, PartitionsLayers config fun _ => process r := by
  intro h
  have hoffset : ∀ state : ParallelState, ∀ p < 2, getTransformerLayerOffset state p (some 0) lastGiven = .ok 0 := by
    intro state p hp
    obtain rfl | rfl : p = 0 ∨ p = 1 := by omega
    · rfl
    · rfl
  have hcount : ∀ r < 2, ∀ p < 2,
      getNumLayersToBuild (parallelState lastGiven r) lastGiven (some 0) (some p) = .ok 2 := by decide
  have hnot : ∀ asked : ℕ → ParallelState, (∀ p < 2, ∃ r < 2, asked p = parallelState lastGiven r) →
      ¬PartitionsLayers lastGiven asked := by
    rintro asked hasked ⟨offsets, counts, hbuilds, hoffsets, htiles⟩
    have hstart : ∀ p < 2, InInterval (offsets p 0) (counts p 0) 0 := by
      intro p hp
      obtain ⟨r, hr, hstate⟩ := hasked p hp
      have hbuild := hbuilds p hp 0 Nat.two_pos
      rw [hstate] at hbuild
      rw [← Except.ok.inj ((hoffset _ p hp).symm.trans (hoffsets p hp 0 Nat.two_pos)),
        ← Except.ok.inj ((hcount r hr p hp).symm.trans hbuild)]
      exact ⟨by decide, by decide⟩
    exact Int.lt_irrefl 0 (htiles.ordered 0 Nat.two_pos 0 Nat.two_pos 1 Nat.one_lt_two 0 Nat.two_pos
      (.inr ⟨rfl, Nat.one_pos⟩) 0 0 (hstart 0 Nat.two_pos) (hstart 1 Nat.one_lt_two))
  rcases h lastGiven (parallelState lastGiven) (fun _ _ => 2) (fun p _ => parallelState_documented lastGiven p)
    lastGiven_builds with hown | ⟨r, hr, hone⟩
  · exact hnot _ (fun p hp => ⟨p, hp, rfl⟩) hown
  · exact hnot _ (fun _ _ => ⟨r, hr, rfl⟩) hone

end Opd.Verl.PipelineLayers
