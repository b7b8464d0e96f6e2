import Opd.Verl.Ulysses
import Opd.Verl.VeomniReplay

/-!
# Recording and replaying in the VeOmni engine

Every process of a Ulysses group has a slice of each micro-batch, and a controller that records what its routers choose.
The recorded slices are gathered without the padding. For a replay the given indices and a mask of the tokens are sliced
by the same rule.

* `recordLoop`, `collectRecorded`: the recording part of `forward_backward_batch`.
* `pushReplayState`, `replayLoop`: the replaying part.
* `recordExact_iff`: the indices of the first forwards are collected.
* `replayExact_iff`: the given indices are replayed at the tokens behind the prompt exactly when the response mask has no
  zeros there.
-/

namespace Opd.Verl.VeomniReplay

open Lib Ulysses

/-! ## The processes -/

/-- The mode contexts of the engine set its group as the Ulysses group of each process. -/
def modeContext (size : ℕ) (group : Option Ulysses.Group) : World := ⟨size, fun _ => group⟩

/-- The processes that work on a micro-batch: the group, or one process without a group. -/
def processes (group : Option Ulysses.Group) (p : ℕ) : List ℕ :=
  match group with
  | none => [p]
  | some g => g.members

/-- `prepare_model_inputs`: the input ids of the process, and `pad_size`. -/
def prepareModelInputs (size : ℕ) (group : Option Ulysses.Group) (p : ℕ) (inputIds : List ℤ) : Option (List ℤ × ℕ) :=
  match group with
  | none => some (inputIds, 0)
  | some g => (ulyssesPadAndSliceInputs (modeContext size group) inputIds none g.worldSize false 0 p).map fun out =>
    (out.inputIds, out.padSize)

section Model

variable {μ : Type} [DecidableEq μ]

/-! ## Recording -/

/-- The loop over the micro-batches while recording: the input ids of each and the calls of its routers. -/
def recordLoop (size : ℕ) (group : Option Ulysses.Group) (p : ℕ) (s : Controller μ) (padSizePerMb : List ℕ) :
    List (List ℤ × List (μ × Indices)) → Option (Controller μ × List ℕ)
  | [] => some (s, padSizePerMb)
  | mb :: rest =>
    (prepareModelInputs size group p mb.1).bind fun inputs =>
      (s.fire mb.2).bind fun next =>
        -- the counter is not advanced behind the last micro-batch
        if rest = [] then some (next.1, padSizePerMb ++ [inputs.2])
        else next.1.advanceRecordMicrobatch.bind fun s =>
          recordLoop size group p s (padSizePerMb ++ [inputs.2]) rest

/-- `torch.stack(per_layer, dim=1)` -/
def stackLayers : List Indices → Option (List (List Row))
  | [] => none
  | first :: layers =>
    if ∀ layer ∈ layers, layer.length = first.length then
      some ((List.range first.length).map fun i => (first :: layers).map fun layer => (layer[i]?).getD [])
    else none

def Controller.stacked (s : Controller μ) (mb : ℕ) : Option (List (List Row)) :=
  stackLayers (s.recorded.map fun slot => (slot[mb]?).getD [])

/-- `_all_gather_recorded` -/
def allGatherRecorded (group : Option Ulysses.Group) (p : ℕ) (locals : ℕ → Option (List (List Row))) :
    Option (List (List Row)) :=
  match group with
  | none => locals p
  | some g =>
    if g.worldSize = 1 then locals p
    else if ∀ q ∈ g.members, (locals q).isSome then allGatherTensor g fun q => (locals q).getD []
    else none

/-- `collect_recorded` on a process, with the controllers of all processes. -/
def collectRecorded (group : Option Ulysses.Group) (p : ℕ) (states : ℕ → Controller μ) (padSizePerMb : List ℕ)
    (numMicroBatches : ℕ) : Option (List (List (List Row))) :=
  if (states p).action ≠ .record then none
  else if (states p).recorded = [] then none
  else if padSizePerMb.length ≠ numMicroBatches then none
  else if ∃ slot ∈ (states p).recorded, slot.length ≠ numMicroBatches then none
  else (List.range numMicroBatches).mapM fun mb =>
    (allGatherRecorded group p fun q => (states q).stacked mb).map fun gathered =>
      let pad := (padSizePerMb[mb]?).getD 0
      if 0 < pad then slice gathered 0 (-pad) else gathered

/-! ## Replaying -/

/-- `router_replay.mode` -/
inductive Mode
  | r2
  | r3
deriving DecidableEq

/-- A sample of a replay: its tokens, the length of the prompt, the response mask, which has ones at response tokens only,
and the given indices of each token and layer. -/
structure Sample (layers topk : ℕ) where
  inputIds : List ℤ
  promptLen : ℕ
  responseMask : List Bool
  routedExperts : List (List Row)
  promptLen_le : promptLen ≤ inputIds.length
  mask_le : ∀ j, responseMask[j]? = some true → promptLen + j < inputIds.length
  length_routed : routedExperts.length = inputIds.length
  length_rows : ∀ rows ∈ routedExperts, rows.length = layers
  length_row : ∀ rows ∈ routedExperts, ∀ row ∈ rows, row.length = topk

variable {layers topk : ℕ}

/-- `torch.repeat_interleave` -/
def repeatInterleave {α : Type} (values : List α) (counts : List ℕ) : List α :=
  (values.zip counts).flatMap fun vc => List.replicate vc.2 vc.1

/-- `routed.values()` -/
def flatRouted (mb : List (Sample layers topk)) : List (List Row) := mb.flatMap Sample.routedExperts

/-- `mask_flat`: for each sample zeros for `prompt_lens`, then ones for `response_lens`. -/
def maskFlat (mb : List (Sample layers topk)) : Option (List Bool) :=
  let totalLens := mb.map fun s => s.inputIds.length
  let responseLens := mb.map fun s => s.responseMask.count true
  if ∃ lens ∈ totalLens.zip responseLens, lens.1 < lens.2 then none
  else
    let promptLens := List.zipWith (· - ·) totalLens responseLens
    let values := (List.replicate mb.length [false, true]).flatten
    let counts := (List.zipWith (fun p r => [p, r]) promptLens responseLens).flatten
    let mask := repeatInterleave values counts
    if mask.length ≠ (flatRouted mb).length then none else some mask

/-- The slice of a process in the layout of the input ids, when the group has more than one process. -/
def sliceForReplay {α : Type} (size : ℕ) (group : Option Ulysses.Group) (p : ℕ) (zero : α) (x : List α) : List α :=
  match group with
  | none => x
  | some g => if 1 < g.worldSize then sliceInputTensor (modeContext size group) zero true (some g) p x else x

/-- `slice_microbatch_replay_targets` -/
def sliceMicrobatchReplayTargets (size : ℕ) (group : Option Ulysses.Group) (p layers topk : ℕ) (flat : List (List Row)) :
    List Indices :=
  let idx := sliceForReplay size group p (List.replicate layers (List.replicate topk 0)) flat
  (List.range layers).map fun l => idx.map fun rows => (rows[l]?).getD []

/-- `slice_microbatch_replay_mask` -/
def sliceMicrobatchReplayMask (size : ℕ) (group : Option Ulysses.Group) (p : ℕ) (mask : List Bool) : List Bool :=
  sliceForReplay size group p false mask

/-- `_maybe_push_router_replay_state` while replaying. -/
def pushReplayState (size : ℕ) (mode : Mode) (group : Option Ulysses.Group) (p : ℕ) (s : Controller μ)
    (mb : List (Sample layers topk)) : Option (Controller μ) :=
  let perLayer := sliceMicrobatchReplayTargets size group p layers topk (flatRouted mb)
  match mode with
  | .r2 => s.setMicrobatchTargets perLayer none
  | .r3 => (maskFlat mb).bind fun mask =>
    s.setMicrobatchTargets perLayer (some (sliceMicrobatchReplayMask size group p mask))

/-- The loop over the micro-batches while replaying, with what the calls of each return. -/
def replayLoop (size : ℕ) (mode : Mode) (group : Option Ulysses.Group) (p : ℕ) (s : Controller μ) :
    List (List (Sample layers topk) × List (μ × Indices)) → Option (List (List Indices))
  | [] => some []
  | mb :: rest =>
    (pushReplayState size mode group p s mb.1).bind fun s =>
      (s.fire mb.2).bind fun next =>
        (replayLoop size mode group p next.1 rest).map fun outs => next.2 :: outs

end Model

/-! ## The part of a process -/

section Parts

variable {size : ℕ} {group : Option Ulysses.Group} {p₀ p : ℕ} {α : Type}

/-- Where the part of a process starts in a sequence of `n` tokens. -/
def partStart (group : Option Ulysses.Group) (p n : ℕ) : ℕ :=
  match group with
  | none => 0
  | some g => g.members.idxOf p * g.parts n

def partSize (group : Option Ulysses.Group) (n : ℕ) : ℕ :=
  match group with
  | none => n
  | some g => g.parts n

def padSizeOf (group : Option Ulysses.Group) (n : ℕ) : ℕ :=
  match group with
  | none => 0
  | some g => g.padSize n

def owner (group : Option Ulysses.Group) (p n t : ℕ) : ℕ :=
  match group with
  | none => p
  | some g => (g.members[t / g.parts n]?).getD p

theorem parts_one {g : Ulysses.Group} (h : g.worldSize = 1) (n : ℕ) : g.padSize n = 0 ∧ g.parts n = n := by
  have hmul := g.parts_mul n
  have hpad : g.padSize n = 0 := by
    rw [g.padSize_eq, h, Nat.mod_one, if_pos rfl]
  rw [hpad, h, Nat.one_mul, Nat.add_zero] at hmul
  exact ⟨hpad, hmul.symm⟩

theorem idxOf_one {g : Ulysses.Group} (h : g.worldSize = 1) (hp : p ∈ g.members) : g.members = [p] := by
  obtain ⟨q, hq⟩ := List.length_eq_one_iff.1 h
  rw [hq] at hp
  rw [hq, List.mem_singleton.1 hp]

theorem prepareModelInputs_eq (size : ℕ) (hp : p ∈ processes group p₀) (inputIds : List ℤ) :
    ∃ ids, prepareModelInputs size group p inputIds = some (ids, padSizeOf group inputIds.length) ∧
      ids.length = partSize group inputIds.length := by
  cases group with
  | none => exact ⟨inputIds, rfl, rfl⟩
  | some g =>
    have hpad := @ulyssesPad_eq _ inputIds none g (0 : ℤ) fun _ h => absurd h (Option.not_mem_none _)
    have hset : (modeContext size (some g)).setting p = some g := rfl
    refine ⟨sliceInputTensor (modeContext size (some g)) 0 false none p (g.pad 0 inputIds), ?_, ?_⟩
    · unfold prepareModelInputs ulyssesPadAndSliceInputs
      simp only [hpad, Option.map_some]
      rfl
    · rw [sliceInputTensor_setting hset hp 0 (g.length_pad 0 inputIds)]
      refine length_block ?_
      have hle := Nat.mul_le_mul_right (g.parts inputIds.length) (Nat.succ_le_of_lt (Ulysses.Group.idxOf_lt hp))
      rw [Nat.succ_mul] at hle
      rw [g.length_pad]
      exact hle

/-- **The slice of a process** is its part. -/
theorem sliceForReplay_eq (size : ℕ) (hp : p ∈ processes group p₀) (zero : α) (x : List α) :
    (sliceForReplay size group p zero x).length = partSize group x.length ∧
      ∀ i, i < partSize group x.length → partStart group p x.length + i < x.length →
        (sliceForReplay size group p zero x)[i]? = x[partStart group p x.length + i]? := by
  cases group with
  | none =>
    refine ⟨rfl, fun i _ _ => ?_⟩
    rw [show partStart none p x.length + i = i from Nat.zero_add i]
    rfl
  | some g =>
    by_cases hone : 1 < g.worldSize
    · have hgroup : (modeContext size (some g)).group (some g) p = some g := rfl
      have hrank : (modeContext size (some g)).sequenceParallelRank none p = g.members.idxOf p := by
        exact Ulysses.Group.rank_of_mem hp
      have hrange : 0 ≤ (modeContext size (some g)).sequenceParallelRank none p ∧
          (modeContext size (some g)).sequenceParallelRank none p < g.worldSize := by
        have hidx := Ulysses.Group.idxOf_lt hp
        omega
      have hslice : sliceForReplay size (some g) p zero x =
          block (g.members.idxOf p * g.parts x.length) (g.parts x.length) (g.pad zero x) := by
        unfold sliceForReplay
        simp only
        rw [if_pos hone, sliceInputTensor_eq hgroup, if_pos hrange, hrank, Int.toNat_natCast]
      have hlength := length_slice hgroup zero x hrange
      constructor
      · unfold sliceForReplay
        simp only
        rw [if_pos hone]
        exact hlength
      · intro i hi hlt
        replace hi : i < g.parts x.length := hi
        rw [hslice, getElem?_block hi, Ulysses.Group.pad]
        exact List.getElem?_append_left hlt
    · have hsize : g.worldSize = 1 := by
        have hpos := g.worldSize_pos
        omega
      have hslice : sliceForReplay size (some g) p zero x = x := if_neg hone
      have hstart : partStart (some g) p x.length = 0 := by
        unfold partStart
        simp only
        rw [idxOf_one hsize hp, List.idxOf_cons_self, Nat.zero_mul]
      rw [hslice, hstart]
      refine ⟨(parts_one hsize x.length).2.symm, fun i _ _ => ?_⟩
      rw [Nat.zero_add]

theorem owner_spec (group : Option Ulysses.Group) (p₀ : ℕ) {n t : ℕ} (ht : t < n) :
    owner group p₀ n t ∈ processes group p₀ ∧ t % partSize group n < partSize group n ∧
      partStart group (owner group p₀ n t) n + t % partSize group n = t := by
  cases group with
  | none =>
    have hmod : t % n = t := Nat.mod_eq_of_lt ht
    refine ⟨List.mem_singleton_self _, Nat.mod_lt _ (by show 0 < n; omega), ?_⟩
    show 0 + t % n = t
    rw [hmod, Nat.zero_add]
  | some g =>
    have hpos : 0 < g.parts n := g.parts_pos (by omega)
    have hdiv : t / g.parts n < g.members.length := by
      refine (Nat.div_lt_iff_lt_mul hpos).2 ?_
      have hmul := g.parts_mul n
      have hworld : g.worldSize = g.members.length := rfl
      rw [← hworld]
      omega
    have howner : owner (some g) p₀ n t = g.members[t / g.parts n] := by
      unfold owner
      simp only
      rw [List.getElem?_eq_getElem hdiv]
      rfl
    refine ⟨?_, Nat.mod_lt _ hpos, ?_⟩
    · rw [howner]
      exact List.getElem_mem hdiv
    · rw [howner]
      show g.members.idxOf g.members[t / g.parts n] * g.parts n + t % g.parts n = t
      rw [g.nodup.idxOf_getElem _ hdiv, Nat.mul_comm]
      exact Nat.div_add_mod t (g.parts n)

end Parts

/-! ## What is recorded -/

section Record

variable {μ : Type} [DecidableEq μ] {modules : List μ} {size : ℕ} {group : Option Ulysses.Group} {p₀ p topk : ℕ}

/-- The calls of a micro-batch on a process: `topk` experts for each token that the process has. -/
def Fits (size : ℕ) (group : Option Ulysses.Group) (p topk : ℕ) (inputIds : List ℤ) (c : MicroBatchCalls modules) : Prop :=
  ∀ inputs, prepareModelInputs size group p inputIds = some inputs →
    (∀ top ∈ c.first, top.length = inputs.1.length ∧ ∀ row ∈ top, row.length = topk) ∧
      ∀ call ∈ c.again, call.2.length = inputs.1.length ∧ ∀ row ∈ call.2, row.length = topk

/-- The layers of each token as its process has chosen them in the first forward of a micro-batch. -/
def chosen (group : Option Ulysses.Group) (p n layers : ℕ) (first : ℕ → List Indices) : List (List Row) :=
  (List.range n).map fun t => (List.range layers).map fun l =>
    ((((first (owner group p n t))[l]?).getD [])[t % partSize group n]?).getD []

def firstOf (calls : List (MicroBatchCalls modules)) (mb : ℕ) : List Indices :=
  (calls[mb]?).elim [] MicroBatchCalls.first

/-- **The recording is exact**: whatever the routers choose and however often they are called again, each process collects
the choices of the first forwards, without the padding. -/
def RecordExact (size : ℕ) (group : Option Ulysses.Group) (p₀ topk : ℕ) (modules : List μ) (s₀ : ℕ → Controller μ)
    (mbs : List (List ℤ)) : Prop :=
  ∀ calls : ℕ → List (MicroBatchCalls modules),
    (∀ p ∈ processes group p₀, List.Forall₂ (Fits size group p topk) mbs (calls p)) →
    ∃ (states : ℕ → Controller μ) (padSizePerMb : List ℕ),
      (∀ p ∈ processes group p₀, recordLoop size group p (s₀ p).beginRecord []
        (mbs.zip ((calls p).map MicroBatchCalls.calls)) = some (states p, padSizePerMb)) ∧
      ∀ p ∈ processes group p₀, collectRecorded group p states padSizePerMb mbs.length =
        some ((List.range mbs.length).map fun k =>
          chosen group p ((mbs[k]?).elim 0 List.length) modules.length fun q => firstOf (calls q) k)

theorem recordLoop_from (hnodup : modules.Nodup) (hp : p ∈ processes group p₀) {s : Controller μ}
    {hist : List (List Indices)} {pads : List ℕ} (h : Recording modules hist [] s) {mbs : List (List ℤ)}
    {calls : List (MicroBatchCalls modules)} (hlength : mbs.length = calls.length) (hne : mbs ≠ []) :
    ∃ s', recordLoop size group p s pads (mbs.zip (calls.map MicroBatchCalls.calls)) =
        some (s', pads ++ mbs.map fun ids => padSizeOf group ids.length) ∧ s'.action = .record ∧
      s'.recorded = (List.range modules.length).map fun l =>
        (hist ++ calls.map MicroBatchCalls.first).map fun tops => (tops[l]?).getD [] := by
  induction mbs generalizing s hist pads calls with
  | nil => exact absurd rfl hne
  | cons ids mbs ih =>
    cases calls with
    | nil => cases hlength
    | cons c calls =>
      obtain ⟨inputs, hinputs, -⟩ := prepareModelInputs_eq size hp ids
      obtain ⟨s', outs, hfire, hrecording⟩ := record_microBatch hnodup h c
      rw [List.map_cons, List.zip_cons_cons, recordLoop]
      simp only [hinputs, Option.bind_some, hfire]
      cases mbs with
      | nil =>
        obtain rfl : calls = [] := by
          cases calls with
          | nil => rfl
          | cons c calls => cases hlength
        refine ⟨s', rfl, hrecording.action, ?_⟩
        have hfound : found modules hist c.first = modules.length := by
          unfold found
          split
          · exact c.length_first
          · rfl
        rw [hrecording.recorded, hfound]
        refine List.map_congr_left fun l hl => ?_
        have hlt : l < c.first.length := by
          rw [c.length_first]
          exact List.mem_range.1 hl
        unfold slotOf
        rw [List.getElem?_eq_getElem hlt, List.map_append, List.map_singleton, List.map_singleton,
          List.getElem?_eq_getElem hlt]
        rfl
      | cons ids' mbs =>
        cases calls with
        | nil => cases hlength
        | cons c' calls =>
          obtain ⟨s'', hadvance, hnext⟩ := record_advance hrecording c.length_first
          obtain ⟨s₃, hrest, haction, hrecorded⟩ := @ih s'' (hist ++ [c.first])
            (pads ++ [padSizeOf group ids.length]) hnext (c' :: calls) (Nat.succ.inj hlength) (List.cons_ne_nil _ _)
          refine ⟨s₃, ?_, haction, ?_⟩
          · rw [if_neg (by rw [List.map_cons, List.zip_cons_cons]; exact List.cons_ne_nil _ _), hadvance,
              Option.bind_some, hrest, List.append_assoc]
            rfl
          · rw [hrecorded, List.append_assoc]
            rfl

theorem stackLayers_eq {perLayer : List Indices} {n : ℕ} (hne : perLayer ≠ []) (h : ∀ layer ∈ perLayer, layer.length = n) :
    stackLayers perLayer = some ((List.range n).map fun i => perLayer.map fun layer => (layer[i]?).getD []) := by
  cases perLayer with
  | nil => exact absurd rfl hne
  | cons first layers =>
    have hfirst := h first List.mem_cons_self
    rw [stackLayers, if_pos fun layer hlayer => (h layer (List.mem_cons_of_mem _ hlayer)).trans hfirst.symm, hfirst]

omit [DecidableEq μ] in
theorem stacked_eq (hmodules : modules ≠ []) {s : Controller μ} {calls : List (MicroBatchCalls modules)}
    (hrecorded : s.recorded = (List.range modules.length).map fun l =>
      (calls.map MicroBatchCalls.first).map fun tops => (tops[l]?).getD []) {k n : ℕ} {c : MicroBatchCalls modules}
    (hc : calls[k]? = some c) (htops : ∀ top ∈ c.first, top.length = n) :
    s.stacked k = some ((List.range n).map fun i => c.first.map fun top => (top[i]?).getD []) := by
  have hlayers : s.recorded.map (fun slot => (slot[k]?).getD []) = c.first := by
    rw [hrecorded, List.map_map]
    refine List.ext_getElem? fun l => ?_
    rw [List.getElem?_map]
    by_cases hl : l < modules.length
    · have hlt : l < c.first.length := by rw [c.length_first]; exact hl
      rw [List.getElem?_range hl, Option.map_some, Function.comp_apply, List.getElem?_map, List.getElem?_map, hc,
        Option.map_some, Option.map_some, Option.getD_some, List.getElem?_eq_getElem hlt]
      rfl
    · rw [List.getElem?_eq_none (by rw [List.length_range]; omega),
        List.getElem?_eq_none (by rw [c.length_first]; omega)]
      rfl
  have hne : c.first ≠ [] := by
    intro hnil
    have hlength := c.length_first
    rw [hnil] at hlength
    exact hmodules (List.eq_nil_of_length_eq_zero hlength.symm)
  unfold Controller.stacked
  rw [hlayers]
  exact stackLayers_eq hne htops

theorem flatMap_members_take {g : Ulysses.Group} {n layers : ℕ} {locals : ℕ → List (List Row)} {first : ℕ → List Indices}
    (hlocals : ∀ q ∈ g.members, locals q = (List.range (g.parts n)).map fun i =>
      (List.range layers).map fun l => ((((first q)[l]?).getD [])[i]?).getD []) (p : ℕ) :
    (g.members.flatMap locals).take n = chosen (some g) p n layers first := by
  have hsize : ∀ q ∈ g.members, (locals q).length = g.parts n := fun q hq => by
    rw [hlocals q hq, List.length_map, List.length_range]
  refine List.ext_getElem? fun t => ?_
  unfold chosen
  by_cases ht : t < n
  · obtain ⟨-, hmod, hstart⟩ := owner_spec (some g) p ht
    replace hmod : t % g.parts n < g.parts n := hmod
    have hdiv : t / g.parts n < g.members.length := by
      refine (Nat.div_lt_iff_lt_mul (by omega)).2 ?_
      have hmul := g.parts_mul n
      have hworld : g.worldSize = g.members.length := rfl
      rw [← hworld]
      omega
    rw [List.getElem?_take_of_lt ht, List.getElem?_map, List.getElem?_range ht, Option.map_some]
    have hsplit : t / g.parts n * g.parts n + t % g.parts n = t := by
      rw [Nat.mul_comm]
      exact Nat.div_add_mod t (g.parts n)
    have hentry := getElem?_flatMap_of_length (i := t / g.parts n) hsize hmod
    rw [hsplit, List.getElem?_eq_getElem hdiv, Option.bind_some, hlocals _ (List.getElem_mem hdiv),
      List.getElem?_map, List.getElem?_range hmod, Option.map_some] at hentry
    rw [hentry]
    have howner : owner (some g) p n t = g.members[t / g.parts n] := by
      unfold owner
      simp only
      rw [List.getElem?_eq_getElem hdiv]
      rfl
    rw [howner]
    rfl
  · rw [List.getElem?_eq_none (by rw [List.length_take]; omega),
      List.getElem?_eq_none (by rw [List.length_map, List.length_range]; omega)]

end Record

section Collect

variable {μ : Type} [DecidableEq μ] {modules : List μ} {size : ℕ} {group : Option Ulysses.Group} {p₀ p topk : ℕ}

omit [DecidableEq μ] in
theorem gathered_eq_chosen (hp : p ∈ processes group p₀) {n : ℕ} {locals : ℕ → Option (List (List Row))}
    {first : ℕ → List Indices} (hfirst : ∀ q ∈ processes group p₀, (first q).length = modules.length)
    (hlocals : ∀ q ∈ processes group p₀, locals q = some ((List.range (partSize group n)).map fun i =>
      (first q).map fun top => (top[i]?).getD [])) :
    (allGatherRecorded group p locals).map (fun gathered =>
      if 0 < padSizeOf group n then slice gathered 0 (-(padSizeOf group n : ℤ)) else gathered) =
      some (chosen group p n modules.length first) := by
  have hrows : ∀ q ∈ processes group p₀, ∀ i : ℕ, ((first q).map fun top => (top[i]?).getD []) =
      (List.range modules.length).map fun l => ((((first q)[l]?).getD [])[i]?).getD [] := by
    intro q hq i
    refine List.ext_getElem? fun l => ?_
    rw [List.getElem?_map, List.getElem?_map]
    by_cases hl : l < modules.length
    · have hlt : l < (first q).length := by
        rw [hfirst q hq]
        exact hl
      rw [List.getElem?_range hl, Option.map_some, List.getElem?_eq_getElem hlt, Option.map_some]
      rfl
    · rw [List.getElem?_eq_none (by rw [hfirst q hq]; omega), List.getElem?_eq_none (by rw [List.length_range]; omega)]
      rfl
  cases group with
  | none =>
    obtain rfl : p = p₀ := List.mem_singleton.1 hp
    unfold allGatherRecorded
    simp only
    have hpad : ¬ 0 < padSizeOf none n := Nat.lt_irrefl 0
    rw [hlocals p hp, Option.map_some, if_neg hpad]
    unfold chosen
    refine congrArg some (List.map_congr_left fun t ht => ?_)
    have hmod : t % partSize none n = t := Nat.mod_eq_of_lt (List.mem_range.1 ht)
    rw [hmod, hrows p hp t]
    rfl
  | some g =>
    have hsome : ∀ q ∈ g.members, (locals q).getD [] = (List.range (g.parts n)).map fun i =>
        (List.range modules.length).map fun l => ((((first q)[l]?).getD [])[i]?).getD [] := by
      intro q hq
      rw [hlocals q hq, Option.getD_some]
      exact List.map_congr_left fun i _ => hrows q hq i
    have hsizes : ∀ q ∈ g.members, ((locals q).getD []).length = g.parts n := by
      intro q hq
      rw [hsome q hq, List.length_map, List.length_range]
    have hgather : allGatherRecorded (some g) p locals = some (g.members.flatMap fun q => (locals q).getD []) := by
      unfold allGatherRecorded
      simp only
      by_cases hone : g.worldSize = 1
      · rw [if_pos hone, idxOf_one hone hp, List.flatMap_singleton, hlocals p hp]
        rfl
      · rw [if_neg hone, if_pos fun q hq => by rw [hlocals q hq]; rfl]
        exact if_pos fun q hq q' hq' => (hsizes q hq).trans (hsizes q' hq').symm
    have hlength : (g.members.flatMap fun q => (locals q).getD []).length = n + g.padSize n := by
      rw [List.length_flatMap, List.map_congr_left hsizes, List.map_const', List.sum_replicate_nat, g.parts_mul]
      rfl
    rw [hgather, Option.map_some, ← flatMap_members_take hsome p]
    refine congrArg some ?_
    rw [← unpad_eq hlength]
    show (if 0 < g.padSize n then _ else _) = _
    by_cases hzero : g.padSize n = 0
    · rw [if_neg (by omega), if_pos hzero]
    · rw [if_pos (by omega), if_neg hzero]
      rfl

/-- **The first forwards are collected.** -/
theorem recordExact_of (hnodup : modules.Nodup) (hmodules : modules ≠ []) {mbs : List (List ℤ)} (hne : mbs ≠ [])
    (s₀ : ℕ → Controller μ) : RecordExact size group p₀ topk modules s₀ mbs := by
  intro calls hcalls
  have hloop : ∀ p ∈ processes group p₀, ∃ s', recordLoop size group p (s₀ p).beginRecord []
      (mbs.zip ((calls p).map MicroBatchCalls.calls)) = some (s', mbs.map fun ids => padSizeOf group ids.length) ∧
      s'.action = .record ∧ s'.recorded = (List.range modules.length).map fun l =>
        ((calls p).map MicroBatchCalls.first).map fun tops => (tops[l]?).getD [] := by
    intro p hp
    exact recordLoop_from hnodup hp (recording_begin modules (s₀ p)) (hcalls p hp).length_eq hne
  have hnonempty : Nonempty (Controller μ) := ⟨s₀ p₀⟩
  choose! states hstates using hloop
  refine ⟨states, mbs.map fun ids => padSizeOf group ids.length, fun p hp => (hstates p hp).1, fun p hp => ?_⟩
  obtain ⟨-, haction, hrecorded⟩ := hstates p hp
  have hslots : (states p).recorded ≠ [] := by
    rw [hrecorded]
    intro hnil
    have hlength := congrArg List.length hnil
    rw [List.length_map, List.length_range] at hlength
    exact hmodules (List.eq_nil_of_length_eq_zero hlength)
  unfold collectRecorded
  rw [if_neg (not_not_intro haction), if_neg hslots, if_neg (not_not_intro (List.length_map _)), if_neg ?_]
  · refine mapM_eq_some_iff.2 ?_
    rw [List.forall₂_map_right_iff]
    refine List.forall₂_same.2 fun k hk => ?_
    have hlt := List.mem_range.1 hk
    rw [List.getElem?_map, List.getElem?_eq_getElem hlt, Option.map_some, Option.getD_some]
    refine gathered_eq_chosen hp (fun q hq => ?_) fun q hq => ?_
    · have hq' : k < (calls q).length := by
        rw [← (hcalls q hq).length_eq]
        exact hlt
      unfold firstOf
      rw [List.getElem?_eq_getElem hq']
      exact (calls q)[k].length_first
    · have hq' : k < (calls q).length := by
        rw [← (hcalls q hq).length_eq]
        exact hlt
      obtain ⟨ids, hids, hsize⟩ := prepareModelInputs_eq size hq mbs[k]
      have hfits := (List.forall₂_iff_get.1 (hcalls q hq)).2 k hlt hq'
      have htops : ∀ top ∈ (calls q)[k].first, top.length = partSize group mbs[k].length := by
        intro top htop
        rw [((hfits _ hids).1 top htop).1]
        exact hsize
      rw [stacked_eq hmodules (hstates q hq).2.2 (List.getElem?_eq_getElem hq') htops]
      unfold firstOf
      rw [List.getElem?_eq_getElem hq']
      rfl
  · rintro ⟨slot, hslot, hlength⟩
    rw [hrecorded] at hslot
    obtain ⟨l, -, rfl⟩ := List.mem_map.1 hslot
    rw [List.length_map, List.length_map, ← (hcalls p hp).length_eq] at hlength
    exact hlength rfl

end Collect

/-! ## The masks -/

section Masks

variable {layers topk : ℕ}

/-- The mask of a sample: zeros for all tokens but as many of the last ones as the response mask has ones. -/
def Sample.replayMask (s : Sample layers topk) : List Bool :=
  List.replicate (s.inputIds.length - s.responseMask.count true) false ++
    List.replicate (s.responseMask.count true) true

/-- Which tokens of a sample are to be replayed: those behind the prompt, and in mode R2 all of them. -/
def Sample.due (mode : Mode) (s : Sample layers topk) : List Bool :=
  List.replicate s.promptLen (decide (mode = .r2)) ++ List.replicate (s.inputIds.length - s.promptLen) true

def Sample.replayed (mode : Mode) (s : Sample layers topk) : List Bool :=
  match mode with
  | .r2 => List.replicate s.inputIds.length true
  | .r3 => s.replayMask

theorem count_true_le {m : List Bool} {n : ℕ} (h : ∀ j : ℕ, m[j]? = some true → j < n) : m.count true ≤ n := by
  have hrest : (m.drop n).count true = 0 := by
    rw [List.count_eq_zero]
    intro hmem
    obtain ⟨j, hj⟩ := List.mem_iff_getElem?.1 hmem
    rw [List.getElem?_drop] at hj
    have := h _ hj
    omega
  rw [← List.take_append_drop n m, List.count_append, hrest, Nat.add_zero]
  refine List.count_le_length.trans ?_
  rw [List.length_take]
  exact Nat.min_le_left _ _

theorem Sample.count_le (s : Sample layers topk) :
    s.promptLen + s.responseMask.count true ≤ s.inputIds.length := by
  have hle : s.responseMask.count true ≤ s.inputIds.length - s.promptLen := count_true_le fun j hj => by
    have := s.mask_le j hj
    omega
  have := s.promptLen_le
  omega

theorem Sample.length_replayMask (s : Sample layers topk) : s.replayMask.length = s.inputIds.length := by
  have := s.count_le
  rw [replayMask, List.length_append, List.length_replicate, List.length_replicate]
  omega

theorem Sample.length_due (mode : Mode) (s : Sample layers topk) : (s.due mode).length = s.inputIds.length := by
  have := s.promptLen_le
  rw [due, List.length_append, List.length_replicate, List.length_replicate]
  omega

theorem Sample.length_replayed (mode : Mode) (s : Sample layers topk) :
    (s.replayed mode).length = s.inputIds.length := by
  cases mode with
  | r2 => exact List.length_replicate
  | r3 => exact s.length_replayMask

theorem repeatInterleave_flatten (mb : List (Sample layers topk)) :
    repeatInterleave (List.replicate mb.length [false, true]).flatten (List.zipWith (fun p r => [p, r])
      (List.zipWith (· - ·) (mb.map fun s => s.inputIds.length) (mb.map fun s => s.responseMask.count true))
      (mb.map fun s => s.responseMask.count true)).flatten = mb.flatMap Sample.replayMask := by
  induction mb with
  | nil => rfl
  | cons s mb ih =>
    unfold repeatInterleave at ih ⊢
    rw [List.length_cons, List.replicate_succ, List.flatten_cons, List.map_cons, List.map_cons, List.zipWith_cons_cons,
      List.zipWith_cons_cons, List.flatten_cons, List.zip_append (by rfl), List.flatMap_append, ih, List.flatMap_cons]
    refine congrArg (· ++ mb.flatMap Sample.replayMask) ?_
    exact congrArg (List.replicate _ false ++ ·) (List.append_nil _)

theorem length_flatMap_of {α : Type} {f : Sample layers topk → List α} (h : ∀ s, (f s).length = s.inputIds.length)
    (mb : List (Sample layers topk)) : (mb.flatMap f).length = (mb.flatMap Sample.inputIds).length := by
  rw [List.length_flatMap, List.length_flatMap]
  exact congrArg List.sum (List.map_congr_left fun s _ => h s)

/-- **The mask of a micro-batch.** -/
theorem maskFlat_eq (mb : List (Sample layers topk)) : maskFlat mb = some (mb.flatMap Sample.replayMask) := by
  have hnone : ¬ ∃ lens ∈ (mb.map fun s => s.inputIds.length).zip (mb.map fun s => s.responseMask.count true),
      lens.1 < lens.2 := by
    rintro ⟨lens, hlens, hlt⟩
    rw [List.zip_map', List.mem_map] at hlens
    obtain ⟨s, -, rfl⟩ := hlens
    have := s.count_le
    simp only at hlt
    omega
  have hlength : (mb.flatMap Sample.replayMask).length = (flatRouted mb).length := by
    rw [length_flatMap_of Sample.length_replayMask]
    exact (length_flatMap_of Sample.length_routed mb).symm
  unfold maskFlat
  simp only
  rw [if_neg hnone, repeatInterleave_flatten, if_neg (not_not_intro hlength)]

theorem exists_sample {mb : List (Sample layers topk)} {t : ℕ}
    (ht : t < (mb.flatMap Sample.inputIds).length) :
    ∃ s ∈ mb, ∃ j < s.inputIds.length, ∀ (β : Type) (f : Sample layers topk → List β),
      (∀ s, (f s).length = s.inputIds.length) → (mb.flatMap f)[t]? = (f s)[j]? := by
  induction mb generalizing t with
  | nil => exact absurd ht (Nat.not_lt_zero t)
  | cons s mb ih =>
    rw [List.flatMap_cons, List.length_append] at ht
    by_cases hlt : t < s.inputIds.length
    · refine ⟨s, List.mem_cons_self, t, hlt, fun β f hf => ?_⟩
      rw [List.flatMap_cons, List.getElem?_append_left (by rw [hf]; exact hlt)]
    · obtain ⟨s', hs', j, hj, hentry⟩ := ih (t := t - s.inputIds.length) (by omega)
      refine ⟨s', List.mem_cons_of_mem _ hs', j, hj, fun β f hf => ?_⟩
      rw [List.flatMap_cons, List.getElem?_append_right (by rw [hf]; omega), hf]
      exact hentry β f hf

theorem exists_token {mb : List (Sample layers topk)} {s : Sample layers topk} (hs : s ∈ mb) {j : ℕ}
    (hj : j < s.inputIds.length) : ∃ t < (mb.flatMap Sample.inputIds).length,
      ∀ (β : Type) (f : Sample layers topk → List β), (∀ s, (f s).length = s.inputIds.length) →
        (mb.flatMap f)[t]? = (f s)[j]? := by
  induction mb with
  | nil => cases hs
  | cons s' mb ih =>
    rw [List.flatMap_cons, List.length_append]
    rcases List.mem_cons.1 hs with rfl | hs
    · refine ⟨j, by omega, fun β f hf => ?_⟩
      rw [List.flatMap_cons, List.getElem?_append_left (by rw [hf]; exact hj)]
    · obtain ⟨t, ht, hentry⟩ := ih hs
      refine ⟨s'.inputIds.length + t, by omega, fun β f hf => ?_⟩
      rw [List.flatMap_cons, List.getElem?_append_right (by rw [hf]; omega), hf, Nat.add_sub_cancel_left]
      exact hentry β f hf

end Masks

/-! ## What is replayed -/

section Replay

variable {μ : Type} {modules : List μ} {size : ℕ} {group : Option Ulysses.Group} {p₀ p topk : ℕ} {mode : Mode}

/-- What the router of a layer is to return for the tokens of a process: the given indices where a token is flagged, its
own indices elsewhere and for rows with an expert twice. -/
def AsGiven (group : Option Ulysses.Group) (p : ℕ) (flags : List Bool) (flat : List (List Row)) (l : ℕ)
    (native out : Indices) : Prop :=
  ∀ (i : ℕ) (flag : Bool) (rows : List Row) (given row : Row), i < partSize group flat.length →
    flags[partStart group p flat.length + i]? = some flag → flat[partStart group p flat.length + i]? = some rows →
      rows[l]? = some given → native[i]? = some row → out[i]? = some (replayRow flag given row)

def CallsAsGiven (group : Option Ulysses.Group) (p : ℕ) (flags : Sample modules.length topk → List Bool)
    (mb : List (Sample modules.length topk)) (calls : List (μ × Indices)) (returned : List Indices) : Prop :=
  List.Forall₂ (fun call out => ∀ l : ℕ, modules[l]? = some call.1 →
    AsGiven group p (mb.flatMap flags) (flatRouted mb) l call.2 out) calls returned

variable [DecidableEq μ]

/-- **The replay is exact** for flags of the tokens: whatever the routers would choose and however often they are called,
no call raises, and every call returns the given indices at the flagged tokens. -/
def ReplayExact (size : ℕ) (mode : Mode) (group : Option Ulysses.Group) (p₀ : ℕ) (s₀ : ℕ → Controller μ)
    (flags : Sample modules.length topk → List Bool) (mbs : List (List (Sample modules.length topk))) : Prop :=
  ∀ p ∈ processes group p₀, ∀ calls : List (MicroBatchCalls modules),
    List.Forall₂ (fun mb c => Fits size group p topk (mb.flatMap Sample.inputIds) c) mbs calls →
    ∃ outs, replayLoop size mode group p (s₀ p).beginReplay (mbs.zip (calls.map MicroBatchCalls.calls)) = some outs ∧
      List.Forall₂ (fun mb returned => CallsAsGiven group p flags mb.1 mb.2.calls returned) (mbs.zip calls) outs

omit [DecidableEq μ] in
theorem Fits.call {ids : List ℤ} {c : MicroBatchCalls modules} (hp : p ∈ processes group p₀)
    (h : Fits size group p topk ids c) {call : μ × Indices} (hcall : call ∈ c.calls) :
    call.1 ∈ modules ∧ call.2.length = partSize group ids.length := by
  obtain ⟨inputs, hinputs, hsize⟩ := prepareModelInputs_eq size hp ids
  obtain ⟨hfirst, hagain⟩ := h _ hinputs
  rcases List.mem_append.1 hcall with hcall | hcall
  · have hzip := List.of_mem_zip hcall
    exact ⟨hzip.1, (hfirst _ hzip.2).1.trans hsize⟩
  · exact ⟨c.mem_again call hcall, (hagain call hcall).1.trans hsize⟩

omit [DecidableEq μ] in
theorem length_flatRouted {layers : ℕ} (mb : List (Sample layers topk)) :
    (flatRouted mb).length = (mb.flatMap Sample.inputIds).length := length_flatMap_of Sample.length_routed mb

omit [DecidableEq μ] in
theorem pushReplayState_eq (size : ℕ) (mode : Mode) (hp : p ∈ processes group p₀) {s : Controller μ} {d : ℕ}
    {targets : List Indices}
    {replayMask : Option (List Bool)} (h : Replaying modules d targets replayMask s)
    (mb : List (Sample modules.length topk)) :
    ∃ s' replayMask', pushReplayState size mode group p s mb = some s' ∧
      Replaying modules d (sliceMicrobatchReplayTargets size group p modules.length topk (flatRouted mb)) replayMask' s' ∧
      (∀ mask ∈ replayMask', mask.length = partSize group (flatRouted mb).length) ∧
      ∀ (i : ℕ) (flag : Bool), i < partSize group (flatRouted mb).length →
        (mb.flatMap (Sample.replayed mode))[partStart group p (flatRouted mb).length + i]? = some flag →
          (∀ mask ∈ replayMask', mask[i]? = some flag) ∧ (replayMask' = none → flag = true) := by
  cases mode with
  | r2 =>
    obtain ⟨s', hset, hreplaying⟩ := replaying_set h
    refine ⟨s', none, hset, hreplaying, fun mask hmask => absurd hmask (Option.not_mem_none mask),
      fun i flag _ hflag => ⟨fun mask hmask => absurd hmask (Option.not_mem_none mask), fun _ => ?_⟩⟩
    -- every token is flagged
    have hmem := List.mem_of_getElem? hflag
    obtain ⟨s, -, hs⟩ := List.mem_flatMap.1 hmem
    exact (List.mem_replicate.1 hs).2
  | r3 =>
    obtain ⟨s', hset, hreplaying⟩ := @replaying_set μ modules s d targets replayMask
      (sliceMicrobatchReplayTargets size group p modules.length topk (flatRouted mb))
      (some (sliceMicrobatchReplayMask size group p (mb.flatMap Sample.replayMask))) h
    have hlength : (mb.flatMap Sample.replayMask).length = (flatRouted mb).length := by
      rw [length_flatMap_of Sample.length_replayMask, length_flatRouted]
    obtain ⟨hslice, hentry⟩ := sliceForReplay_eq size hp false (mb.flatMap Sample.replayMask)
    rw [hlength] at hslice hentry
    refine ⟨s', some (sliceMicrobatchReplayMask size group p (mb.flatMap Sample.replayMask)), ?_, hreplaying,
      fun mask hmask => ?_, fun i flag hi hflag => ⟨fun mask hmask => ?_, fun hnone => by cases hnone⟩⟩
    · unfold pushReplayState
      simp only
      rw [maskFlat_eq, Option.bind_some]
      exact hset
    · obtain rfl := Option.some.inj hmask
      exact hslice
    · obtain rfl := Option.some.inj hmask
      have hlt := (List.getElem?_eq_some_iff.1 hflag).1
      have hreplayed : (mb.flatMap (Sample.replayed Mode.r3)).length = (flatRouted mb).length := hlength
      rw [hreplayed] at hlt
      exact (hentry i hi hlt).trans hflag

/-- **A micro-batch of a replay.** -/
theorem replay_step (size : ℕ) (mode : Mode) (hnodup : modules.Nodup) (hp : p ∈ processes group p₀) {s : Controller μ} {d : ℕ}
    (hd : d ≤ modules.length) {targets : List Indices} {replayMask : Option (List Bool)}
    (h : Replaying modules d targets replayMask s) {mb : List (Sample modules.length topk)} {c : MicroBatchCalls modules}
    (hfits : Fits size group p topk (mb.flatMap Sample.inputIds) c) :
    ∃ s' s'' outs targets' replayMask', pushReplayState size mode group p s mb = some s' ∧
      s'.fire c.calls = some (s'', outs) ∧ Replaying modules modules.length targets' replayMask' s'' ∧
      CallsAsGiven group p (Sample.replayed mode) mb c.calls outs := by
  obtain ⟨s', replayMask', hpush, hreplaying, hmask, hflags⟩ :=
    pushReplayState_eq size mode hp h mb
  obtain ⟨hslice, hentry⟩ := sliceForReplay_eq size hp
    (List.replicate modules.length (List.replicate topk 0)) (flatRouted mb)
  have htarget : ∀ l < modules.length,
      (sliceMicrobatchReplayTargets size group p modules.length topk (flatRouted mb))[l]? =
        some ((sliceForReplay size group p (List.replicate modules.length (List.replicate topk 0)) (flatRouted mb)).map
          fun rows => (rows[l]?).getD []) := by
    intro l hl
    unfold sliceMicrobatchReplayTargets
    rw [List.getElem?_map, List.getElem?_range hl]
    rfl
  have hsubstitute : ∀ call ∈ c.calls, ∀ l : ℕ, modules[l]? = some call.1 → ∃ target out,
      (sliceMicrobatchReplayTargets size group p modules.length topk (flatRouted mb))[l]? = some target ∧
      substitute replayMask' target call.2 = some out ∧
        AsGiven group p (mb.flatMap (Sample.replayed mode)) (flatRouted mb) l call.2 out := by
    intro call hcall l hl
    have hlength := (hfits.call hp hcall).2
    rw [← length_flatRouted] at hlength
    have hrowsLength : ((sliceForReplay size group p (List.replicate modules.length (List.replicate topk 0))
        (flatRouted mb)).map fun rows => (rows[l]?).getD []).length = call.2.length := by
      rw [List.length_map, hslice, hlength]
    obtain ⟨out, hout, -, hrows⟩ := substitute_rows hrowsLength fun mask hm => (hmask mask hm).trans hlength.symm
    refine ⟨_, out, htarget l (List.getElem?_eq_some_iff.1 hl).1, hout, ?_⟩
    intro i flag rows given row hi hflag hgivenRows hgiven hrow
    have hlt := (List.getElem?_eq_some_iff.1 hgivenRows).1
    obtain ⟨hmaskFlag, hnone⟩ := hflags i flag hi hflag
    refine hrows i given row ?_ hrow flag hmaskFlag hnone
    rw [List.getElem?_map, hentry i hi hlt, hgivenRows, Option.map_some, hgiven]
    rfl
  obtain ⟨s'', outs, hfire, hreturned, hend⟩ := replay_microBatch hnodup hreplaying hd c fun call hcall => by
    obtain ⟨l, hl⟩ := List.mem_iff_getElem?.1 (hfits.call hp hcall).1
    obtain ⟨target, out, htarget, hout, -⟩ := hsubstitute call hcall l hl
    exact ⟨out, l, target, hl, htarget, hout⟩
  refine ⟨s', s'', outs, _, _, hpush, hfire, hend, ?_⟩
  unfold CallsAsGiven
  rw [List.forall₂_iff_get] at hreturned ⊢
  refine ⟨hreturned.1, fun i hi hi' l hl => ?_⟩
  obtain ⟨l', target, hl', htarget', hout⟩ := hreturned.2 i hi hi'
  -- the layer of a module is unique
  obtain rfl : l = l' := by
    have hlt := (List.getElem?_eq_some_iff.1 hl).1
    exact (List.getElem?_inj hlt hnodup).1 (hl.trans hl'.symm)
  obtain ⟨target', out, htarget'', hout', has⟩ := hsubstitute _ (List.get_mem _ _) l hl
  rw [htarget'] at htarget''
  obtain rfl := Option.some.inj htarget''
  rw [hout] at hout'
  obtain rfl := Option.some.inj hout'
  exact has

/-- **A replay** returns the given indices at the tokens of the mask. -/
theorem replayExact_replayed (size : ℕ) (mode : Mode) (group : Option Ulysses.Group) (p₀ : ℕ)
    (hnodup : modules.Nodup) (s₀ : ℕ → Controller μ)
    (mbs : List (List (Sample modules.length topk))) :
    ReplayExact size mode group p₀ s₀ (Sample.replayed mode) mbs := by
  intro p hp calls hcalls
  have hloop : ∀ (s : Controller μ) (d : ℕ) (targets : List Indices) (replayMask : Option (List Bool)),
      d ≤ modules.length → Replaying modules d targets replayMask s → ∃ outs,
        replayLoop size mode group p s (mbs.zip (calls.map MicroBatchCalls.calls)) = some outs ∧
        List.Forall₂ (fun mb returned => CallsAsGiven group p (Sample.replayed mode) mb.1 mb.2.calls returned)
          (mbs.zip calls) outs := by
    induction hcalls with
    | nil => exact fun s d targets replayMask _ _ => ⟨[], rfl, .nil⟩
    | cons hfits _ ih =>
      intro s d targets replayMask hd h
      obtain ⟨s', s'', outs, targets', replayMask', hpush, hfire, hreplaying, hreturned⟩ :=
        replay_step size mode hnodup hp hd h hfits
      obtain ⟨rest, hrest, hforall⟩ := ih s'' modules.length targets' replayMask' (Nat.le_refl _) hreplaying
      refine ⟨outs :: rest, ?_, .cons hreturned hforall⟩
      rw [List.map_cons, List.zip_cons_cons, replayLoop]
      simp only [hpush, Option.bind_some, hfire, hrest, Option.map_some]
  exact hloop _ 0 [] none (Nat.zero_le _) (replaying_begin modules (s₀ p))

end Replay

/-! ## When the replay is exact -/

section Claim

variable {μ : Type} {modules : List μ} {size : ℕ} {group : Option Ulysses.Group} {p₀ p topk layers : ℕ} {mode : Mode}

theorem getElem?_due (s : Sample layers topk) {j : ℕ} (hj : j < s.inputIds.length) :
    (s.due mode)[j]? = some (decide (mode = .r2) || decide (s.promptLen ≤ j)) := by
  have hle := s.promptLen_le
  unfold Sample.due
  by_cases hprompt : s.promptLen ≤ j
  · rw [List.getElem?_append_right (by rw [List.length_replicate]; exact hprompt), List.length_replicate,
      List.getElem?_replicate_of_lt (by omega), decide_eq_true hprompt, Bool.or_true]
  · rw [List.getElem?_append_left (by rw [List.length_replicate]; omega), List.getElem?_replicate_of_lt (by omega),
      decide_eq_false hprompt, Bool.or_false]

theorem getElem?_replayed (s : Sample layers topk) {j : ℕ} (hj : j < s.inputIds.length) :
    (s.replayed mode)[j]? =
      some (decide (mode = .r2) || decide (s.inputIds.length - s.responseMask.count true ≤ j)) := by
  have hle := s.count_le
  cases mode with
  | r2 => exact List.getElem?_replicate_of_lt hj
  | r3 =>
    show s.replayMask[j]? = _
    unfold Sample.replayMask
    by_cases hlast : s.inputIds.length - s.responseMask.count true ≤ j
    · rw [List.getElem?_append_right (by rw [List.length_replicate]; exact hlast), List.length_replicate,
        List.getElem?_replicate_of_lt (by omega), decide_eq_true hlast, Bool.or_true]
    · rw [List.getElem?_append_left (by rw [List.length_replicate]; omega), List.getElem?_replicate_of_lt (by omega),
        decide_eq_false hlast]
      rfl

/-- The tokens behind the prompt of a sample that the mask leaves out have only rows with an expert twice. With a one for
every token behind the prompt there are none. -/
def Sample.Covered (mode : Mode) (s : Sample layers topk) : Prop :=
  mode = .r2 ∨ ∀ (j : ℕ) (rows : List Row), s.promptLen ≤ j →
    j < s.inputIds.length - s.responseMask.count true → s.routedExperts[j]? = some rows → ∀ row ∈ rows, ¬ row.Nodup

theorem replayRow_of_covered {s : Sample layers topk} (h : s.Covered mode) {j : ℕ} {due replayed : Bool}
    (hdue : (s.due mode)[j]? = some due) (hreplayed : (s.replayed mode)[j]? = some replayed) {rows : List Row}
    (hrows : s.routedExperts[j]? = some rows) {given : Row} (hgiven : given ∈ rows) (native : Row) :
    replayRow replayed given native = replayRow due given native := by
  have hj : j < s.inputIds.length := by
    rw [← s.length_routed]
    exact (List.getElem?_eq_some_iff.1 hrows).1
  rw [getElem?_due s hj] at hdue
  rw [getElem?_replayed s hj] at hreplayed
  obtain rfl := Option.some.inj hdue
  obtain rfl := Option.some.inj hreplayed
  have hle := s.count_le
  rcases h with rfl | hcovered
  · rfl
  · by_cases hprompt : s.promptLen ≤ j
    · by_cases hlast : s.inputIds.length - s.responseMask.count true ≤ j
      · rw [decide_eq_true hprompt, decide_eq_true hlast]
      · have hdup := (hasDuplicate_iff given).2 (hcovered j rows hprompt (by omega) hrows given hgiven)
        unfold replayRow
        rw [hdup, Bool.not_true, Bool.and_false, Bool.and_false]
    · rw [decide_eq_false hprompt, decide_eq_false (show ¬ s.inputIds.length - s.responseMask.count true ≤ j by omega)]

theorem AsGiven.congr {mb : List (Sample layers topk)} (h : ∀ s ∈ mb, s.Covered mode) {l : ℕ} {native out : Indices}
    (hgiven : AsGiven group p (mb.flatMap (Sample.replayed mode)) (flatRouted mb) l native out) :
    AsGiven group p (mb.flatMap (Sample.due mode)) (flatRouted mb) l native out := by
  intro i flag rows given row hi hflag hrows hgivenRow hrow
  have hlt := (List.getElem?_eq_some_iff.1 hrows).1
  rw [length_flatRouted] at hlt
  obtain ⟨s, hs, j, hj, hentry⟩ := exists_sample hlt
  rw [← length_flatRouted] at hentry
  have hreplayed := hentry Bool (Sample.replayed mode) (Sample.length_replayed mode)
  rw [getElem?_replayed s hj] at hreplayed
  rw [hentry Bool (Sample.due mode) (Sample.length_due mode)] at hflag
  have hrouted := hrows
  unfold flatRouted at hrouted
  rw [show (mb.flatMap Sample.routedExperts).length = (flatRouted mb).length from rfl,
    hentry (List Row) Sample.routedExperts Sample.length_routed] at hrouted
  rw [hgiven i _ rows given row hi hreplayed hrows hgivenRow hrow]
  exact congrArg some (replayRow_of_covered (h s hs) hflag (getElem?_replayed s hj) hrouted
    (List.mem_of_getElem? hgivenRow) row)

/-- Calls of one forward in which every router would take the same row for every token. -/
def constantCalls (modules : List μ) (rows : ℕ) (row : Row) : MicroBatchCalls modules where
  first := List.replicate modules.length (List.replicate rows row)
  again := []
  length_first := List.length_replicate
  mem_again := fun _ h => absurd h List.not_mem_nil

theorem fits_constantCalls (hp : p ∈ processes group p₀) (ids : List ℤ) {row : Row} (hrow : row.length = topk) :
    Fits size group p topk ids (constantCalls modules (partSize group ids.length) row) := by
  obtain ⟨inputs, hinputs, hsize⟩ := prepareModelInputs_eq size hp ids
  intro inputs' hinputs'
  rw [hinputs] at hinputs'
  obtain rfl := Option.some.inj hinputs'
  refine ⟨fun top htop => ?_, fun call hcall => absurd hcall List.not_mem_nil⟩
  rw [(List.mem_replicate.1 htop).2]
  refine ⟨List.length_replicate.trans hsize.symm, fun r hr => ?_⟩
  rw [(List.mem_replicate.1 hr).2]
  exact hrow

theorem constantCalls_returned {flags : Sample modules.length topk → List Bool} {mb : List (Sample modules.length topk)}
    {outs : List Indices} {n : ℕ} {row : Row} (h : CallsAsGiven group p flags mb (constantCalls modules n row).calls outs)
    (hn : partSize group (flatRouted mb).length = n) {l i : ℕ} (hl : l < modules.length) (hi : i < n) :
    ∃ out, outs[l]? = some out ∧
      ∀ (flag : Bool) (rows : List Row) (given : Row),
        (mb.flatMap flags)[partStart group p (flatRouted mb).length + i]? = some flag →
        (flatRouted mb)[partStart group p (flatRouted mb).length + i]? = some rows → rows[l]? = some given →
          out[i]? = some (replayRow flag given row) := by
  have hcall : (constantCalls modules n row).calls[l]? = some (modules[l], List.replicate n row) := by
    unfold MicroBatchCalls.calls constantCalls
    rw [List.append_nil]
    exact List.getElem?_zip_eq_some.2 ⟨List.getElem?_eq_getElem hl, List.getElem?_replicate_of_lt hl⟩
  obtain ⟨out, hout, hgiven⟩ := getElem?_of_forall₂ h hcall
  refine ⟨out, hout, fun flag rows given hflag hrows hrow => ?_⟩
  exact hgiven l (List.getElem?_eq_getElem hl) i flag rows given row (by rw [hn]; exact hi) hflag hrows hrow
    (List.getElem?_replicate_of_lt hi)

variable [DecidableEq μ]

/-- **A response mask with zeros at response tokens**: their given indices are not replayed. -/
theorem covered_of_replayExact (hnodup : modules.Nodup) (htopk : 0 < topk) {s₀ : ℕ → Controller μ}
    {mbs : List (List (Sample modules.length topk))}
    (h : ReplayExact size mode group p₀ s₀ (Sample.due mode) mbs) : ∀ mb ∈ mbs, ∀ s ∈ mb, s.Covered mode := by
  intro mb hmb s hs
  by_contra hcovered
  unfold Sample.Covered at hcovered
  push Not at hcovered
  obtain ⟨hmode, j, rows, hprompt, hlast, hrows, given, hgiven, hdistinct⟩ := hcovered
  have hj : j < s.inputIds.length := by omega
  obtain ⟨k, hk⟩ := List.mem_iff_getElem?.1 hmb
  obtain ⟨l, hl⟩ := List.mem_iff_getElem?.1 hgiven
  have hmem := List.mem_of_getElem? hrows
  have hlt : l < modules.length := by
    rw [← s.length_rows rows hmem]
    exact (List.getElem?_eq_some_iff.1 hl).1
  have hgivenLength := s.length_row rows hmem given hgiven
  -- the process that has the token
  obtain ⟨t, ht, hentry⟩ := exists_token hs hj
  rw [← length_flatRouted] at ht
  obtain ⟨howner, hi, hstart⟩ := owner_spec group p₀ ht
  generalize owner group p₀ (flatRouted mb).length t = q at howner hstart
  -- every router would take other experts
  have hfits : List.Forall₂ (fun mb c => Fits size group q topk (mb.flatMap Sample.inputIds) c) mbs
      (mbs.map fun mb => constantCalls modules (partSize group (mb.flatMap Sample.inputIds).length)
        (given.map (· + 1))) := by
    rw [List.forall₂_map_right_iff]
    refine List.forall₂_same.2 fun mb _ => fits_constantCalls howner _ ?_
    rw [List.length_map]
    exact hgivenLength
  obtain ⟨outs, houts, hdue⟩ := h q howner _ hfits
  obtain ⟨outs', houts', hreplayed⟩ :=
    replayExact_replayed size mode group p₀ hnodup s₀ mbs q howner _ hfits
  obtain rfl := Option.some.inj (houts.symm.trans houts')
  have hcall : (mbs.zip (mbs.map fun mb => constantCalls modules
      (partSize group (mb.flatMap Sample.inputIds).length) (given.map (· + 1))))[k]? =
      some (mb, constantCalls modules (partSize group (mb.flatMap Sample.inputIds).length) (given.map (· + 1))) := by
    refine List.getElem?_zip_eq_some.2 ⟨hk, ?_⟩
    rw [List.getElem?_map, hk]
    rfl
  obtain ⟨returned, hreturned, hdue⟩ := getElem?_of_forall₂ hdue hcall
  obtain ⟨returned', hreturned', hreplayed⟩ := getElem?_of_forall₂ hreplayed hcall
  obtain rfl := Option.some.inj (hreturned.symm.trans hreturned')
  dsimp only at hdue hreplayed
  have hparts : partSize group (flatRouted mb).length = partSize group (mb.flatMap Sample.inputIds).length := by
    rw [length_flatRouted]
  rw [hparts] at hi hstart
  obtain ⟨out, hout, hdue⟩ := constantCalls_returned hdue hparts hlt hi
  obtain ⟨out', hout', hreplayed⟩ := constantCalls_returned hreplayed hparts hlt hi
  obtain rfl := Option.some.inj (hout.symm.trans hout')
  rw [hstart] at hdue hreplayed
  have hrouted : (flatRouted mb)[t]? = some rows := (hentry _ Sample.routedExperts Sample.length_routed).trans hrows
  have hdueFlag : (mb.flatMap (Sample.due mode))[t]? = some true := by
    rw [hentry _ _ (Sample.length_due mode), getElem?_due s hj, decide_eq_true hprompt, Bool.or_true]
  have hreplayedFlag : (mb.flatMap (Sample.replayed mode))[t]? = some false := by
    rw [hentry _ _ (Sample.length_replayed mode), getElem?_replayed s hj, decide_eq_false hmode,
      decide_eq_false (show ¬ s.inputIds.length - s.responseMask.count true ≤ j by omega)]
    rfl
  have hrow : replayRow true given (given.map (· + 1)) = replayRow false given (given.map (· + 1)) :=
    Option.some.inj ((hdue true rows given hdueFlag hrouted hl).symm.trans
      (hreplayed false rows given hreplayedFlag hrouted hl))
  have hnoDup : hasDuplicate given = false := by
    rw [Bool.eq_false_iff]
    intro hdup
    exact (hasDuplicate_iff given).1 hdup hdistinct
  unfold replayRow at hrow
  rw [hnoDup] at hrow
  have hzero : 0 < given.length := by omega
  have hhead := congrArg (fun r : Row => r[0]?) (show given = given.map (· + 1) from hrow)
  simp only [List.getElem?_map, List.getElem?_eq_getElem hzero, Option.map_some, Option.some.injEq] at hhead
  omega

omit [DecidableEq μ] in
theorem fits_replicate (hp : p ∈ processes group p₀) (mbs : List (List ℤ)) :
    List.Forall₂ (Fits size group p topk) mbs (mbs.map fun ids =>
      constantCalls modules (partSize group ids.length) (List.replicate topk 0)) := by
  rw [List.forall₂_map_right_iff]
  exact List.forall₂_same.2 fun ids _ => fits_constantCalls hp ids List.length_replicate

/-- Without a router or a micro-batch nothing is recorded, and the collection raises. -/
theorem nonempty_of_recordExact (hnodup : modules.Nodup) {s₀ : ℕ → Controller μ} {mbs : List (List ℤ)}
    (h : RecordExact size group p₀ topk modules s₀ mbs) : mbs ≠ [] ∧ modules ≠ [] := by
  obtain ⟨p, hp⟩ : ∃ p, p ∈ processes group p₀ := ⟨_, (owner_spec group p₀ Nat.one_pos).1⟩
  obtain ⟨states, pads, hloop, hcollect⟩ := h _ fun p hp => fits_replicate hp mbs
  have hrecorded : (states p).recorded ≠ [] := by
    intro hnil
    have hnone := hcollect p hp
    unfold collectRecorded at hnone
    by_cases haction : (states p).action ≠ .record
    · rw [if_pos haction] at hnone
      cases hnone
    · rw [if_neg haction, if_pos hnil] at hnone
      cases hnone
  have hrun := hloop p hp
  by_cases hne : mbs = []
  · refine absurd ?_ hrecorded
    subst hne
    obtain ⟨hstate, -⟩ := Prod.mk.inj (Option.some.inj hrun)
    rw [← hstate]
    rfl
  · refine ⟨hne, fun hmodules => hrecorded ?_⟩
    obtain ⟨s', hrun', -, hslots⟩ := @recordLoop_from _ _ modules size group p₀ p hnodup hp _ [] []
      (recording_begin modules (s₀ p)) mbs _ (List.length_map _).symm hne
    obtain ⟨hstate, -⟩ := Prod.mk.inj (Option.some.inj (hrun.symm.trans hrun'))
    rw [hstate, hslots, hmodules]
    rfl

/-- **A recording is exact** when there is something to record. -/
theorem recordExact_iff (hnodup : modules.Nodup) (s₀ : ℕ → Controller μ) (mbs : List (List ℤ)) :
    RecordExact size group p₀ topk modules s₀ mbs ↔ mbs ≠ [] ∧ modules ≠ [] := by
  constructor
  · intro h
    exact nonempty_of_recordExact hnodup h
  · rintro ⟨hne, hmodules⟩
    exact recordExact_of hnodup hmodules hne s₀

/-- **A replay is exact** when the response masks cover the responses. -/
theorem replayExact_iff (hnodup : modules.Nodup) (htopk : 0 < topk) (s₀ : ℕ → Controller μ)
    (mbs : List (List (Sample modules.length topk))) :
    ReplayExact size mode group p₀ s₀ (Sample.due mode) mbs ↔ ∀ mb ∈ mbs, ∀ s ∈ mb, s.Covered mode := by
  constructor
  · intro h
    exact covered_of_replayExact hnodup htopk h
  · intro hcovered p hp calls hcalls
    obtain ⟨outs, houts, hreturned⟩ := replayExact_replayed size mode group p₀ hnodup s₀ mbs p hp calls hcalls
    -- every micro-batch has covered samples
    have hmem : ∀ mbc ∈ mbs.zip calls, ∀ s ∈ mbc.1, s.Covered mode := fun mbc hmbc =>
      hcovered mbc.1 (List.of_mem_zip hmbc).1
    refine ⟨outs, houts, (List.forall₂_and_left _ _).2 ⟨hmem, hreturned⟩ |>.imp ?_⟩
    rintro mbc returned ⟨hmbc, hreturned⟩
    exact List.Forall₂.imp (fun call out hgiven l hl => (hgiven l hl).congr hmbc) hreturned

/-! ## Both together -/

/-- **When recording and replaying are exact.** -/
theorem routerReplay_exact_iff (hnodup : modules.Nodup) (htopk : 0 < topk) (size : ℕ) (group : Option Ulysses.Group) (p₀ : ℕ)
    (mode : Mode) (s₀ : ℕ → Controller μ) (recorded : List (List ℤ))
    (replayed : List (List (Sample modules.length topk))) :
    RecordExact size group p₀ topk modules s₀ recorded ∧ ReplayExact size mode group p₀ s₀ (Sample.due mode) replayed ↔
      (recorded ≠ [] ∧ modules ≠ []) ∧ ∀ mb ∈ replayed, ∀ s ∈ mb, s.Covered mode := by
  rw [recordExact_iff hnodup, replayExact_iff hnodup htopk]

end Claim

section Examples

/-- A prompt of one token and a response of three, with a token of a tool in the middle. -/
def toolSample (mask : List Bool) (h : mask.length = 3) : Sample ([7] : List ℕ).length 2 where
  inputIds := [11, 12, 13, 14]
  promptLen := 1
  responseMask := mask
  routedExperts := [[[0, 1]], [[2, 3]], [[4, 5]], [[6, 7]]]
  promptLen_le := by decide
  mask_le := fun j hj => by
    have hlt := (List.getElem?_eq_some_iff.1 hj).1
    rw [h] at hlt
    show 1 + j < 4
    omega
  length_routed := rfl
  length_rows := by decide
  length_row := by decide

theorem routerReplay_exact_two : RecordExact 2 (some ⟨[0, 1], by decide, by decide⟩) 0 2 [7]
      (fun _ => ⟨.disabled, .empty, [], [], none, 0⟩) [[11, 12, 13]] ∧
    ReplayExact 2 .r3 (some ⟨[0, 1], by decide, by decide⟩) 0 (fun _ => ⟨.disabled, .empty, [], [], none, 0⟩)
      (Sample.due .r3) [[toolSample [true, true, true] rfl]] := by
  refine (routerReplay_exact_iff (List.nodup_singleton 7) Nat.two_pos _ _ _ _ _ _ _).2
    ⟨⟨List.cons_ne_nil _ _, List.cons_ne_nil _ _⟩, ?_⟩
  intro mb hmb s hs
  obtain rfl := List.mem_singleton.1 hmb
  obtain rfl := List.mem_singleton.1 hs
  refine Or.inr fun j rows hprompt hj => ?_
  exact absurd (show j < 1 from hj) (not_lt.2 hprompt)

/-- **A zero at the token of a tool**: the first token of the response is not replayed. -/
theorem not_exact_toolSample : ¬ (RecordExact 1 none 0 2 [7] (fun _ => ⟨.disabled, .empty, [], [], none, 0⟩) [[11]] ∧
    ReplayExact 1 .r3 none 0 (fun _ => ⟨.disabled, .empty, [], [], none, 0⟩) (Sample.due .r3)
      [[toolSample [true, false, true] rfl]]) := by
  rintro ⟨-, hreplay⟩
  have hcovered := covered_of_replayExact (List.nodup_singleton 7) Nat.two_pos hreplay _
    (List.mem_singleton_self _) _ (List.mem_singleton_self _)
  rcases hcovered with hmode | hrows
  · cases hmode
  · exact hrows 1 [[2, 3]] (by decide) (by decide) rfl [2, 3] (List.mem_singleton_self _) (by decide)

end Examples

end Opd.Verl.VeomniReplay
