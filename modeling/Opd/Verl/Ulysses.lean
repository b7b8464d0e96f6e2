import Opd.Lib.Jagged

/-!
# Ulysses sequence parallelism

The positions of a packed sequence are padded and sliced over the ranks of a process group, and
the results are gathered. In the attention an all-to-all gathers the positions and scatters the
heads, and a second one goes back.

* `slice_transparent_iff`: `slice_input_tensor` asks the global setting for the rank, so it is
  right for an explicit group exactly when the ranks agree.
* `pad_transparent`: padding and slicing with the global setting is right.
* `heads_roundTrip`: each rank sees all positions of its own heads, and gets its shard back.
-/

namespace Opd.Verl.Ulysses

open Lib

variable {α β : Type}

/-! ## Groups -/

structure Group where
  members : List ℕ
  nodup : members.Nodup
  nonempty : members ≠ []

/-- `dist.get_world_size` -/
def Group.worldSize (g : Group) : ℕ := g.members.length

/-- `dist.get_rank`: `-1` for a process that is not in the group. -/
def Group.rank (g : Group) (p : ℕ) : ℤ := if p ∈ g.members then g.members.idxOf p else -1

/-- The default group, and what each process has set as its Ulysses group. -/
structure World where
  size : ℕ
  setting : ℕ → Option Group

/-- The group of a call: the argument, or the setting of the process. -/
def World.group (w : World) (group : Option Group) (p : ℕ) : Option Group := group.or (w.setting p)

/-- `get_ulysses_sequence_parallel_rank` -/
def World.sequenceParallelRank (w : World) (group : Option Group) (p : ℕ) : ℤ :=
  match w.group group p with
  | some g => g.rank p
  | none => 0

/-- `dist.get_world_size`, of the default group when there is no group. -/
def World.worldSize (w : World) (group : Option Group) : ℕ :=
  match group with
  | some g => g.worldSize
  | none => w.size

/-! ## Slices and gathers

A tensor is the list of its positions along the dimension that is sliced or gathered. -/

/-- `slice_input_tensor` on a process. The rank is not that of the group. -/
def sliceInputTensor (w : World) (zero : α) (padding : Bool) (group : Option Group) (p : ℕ) (x : List α) : List α :=
  let spWorldSize := w.worldSize (w.group group p)
  let spRank := w.sequenceParallelRank none p
  let x := if padding = true ∧ x.length % spWorldSize ≠ 0 then
    x ++ List.replicate (spWorldSize - x.length % spWorldSize) zero else x
  let parts : ℕ := x.length / spWorldSize
  slice x (spRank * parts) ((spRank + 1) * parts)

/-- `all_gather_tensor`: the tensors of all members, which must have one size. -/
def allGatherTensor (g : Group) (locals : ℕ → List β) : Option (List β) :=
  if ∀ p ∈ g.members, ∀ q ∈ g.members, (locals p).length = (locals q).length then some (g.members.flatMap locals)
  else none

/-- `gather_outputs_and_unpad` on a process; `padding` is `none` without an `unpad_dim`. -/
def gatherOutputsAndUnpad (w : World) (group : Option Group) (padding : Option ℕ) (p : ℕ) (locals : ℕ → List β) :
    Option (List β) :=
  match w.group group p with
  | none => some (locals p)
  | some g => (allGatherTensor g locals).map fun x =>
    match padding with
    | none => x
    | some paddingSize => if paddingSize = 0 then x else slice x 0 (-paddingSize)

/-- What `ulysses_pad` returns. -/
structure Padded (α : Type) where
  inputIds : List α
  positionIds : Option (List ℤ)
  padSize : ℕ

/-- `ulysses_pad`: `none` for the failed assertion. -/
def ulyssesPad (inputIds : List α) (positionIds : Option (List ℤ)) (spSize : ℕ) (padValue : α) : Option (Padded α) :=
  if ∃ positions ∈ positionIds, inputIds.length ≠ positions.length then none
  else if spSize ≤ 1 then some ⟨inputIds, positionIds, 0⟩
  else
    let padSize := (spSize - inputIds.length % spSize) % spSize
    if 0 < padSize then
      some ⟨inputIds ++ List.replicate padSize padValue,
        positionIds.map (· ++ (List.range padSize).map fun (i : ℕ) => (i : ℤ)), padSize⟩
    else some ⟨inputIds, positionIds, padSize⟩

/-- `ulysses_pad_and_slice_inputs` on a process. -/
def ulyssesPadAndSliceInputs (w : World) (inputIds : List α) (positionIds : Option (List ℤ)) (spSize : ℕ)
    (skipPositionIds : Bool) (padValue : α) (p : ℕ) : Option (Padded α) :=
  (ulyssesPad inputIds positionIds spSize padValue).map fun out =>
    { out with
      inputIds := sliceInputTensor w padValue false none p out.inputIds
      positionIds := if skipPositionIds then out.positionIds
        else out.positionIds.map (sliceInputTensor w 0 false none p) }

/-! ## Heads

The shard of a rank is the list of its positions, and a position the list of its heads. -/

inductive Dim
  | seq
  | head

/-- `torch.tensor_split` -/
def tensorSplit (n : ℕ) (l : List α) : List (List α) := splitSizes (arraySplitSizes l.length n) l

/-- `torch.tensor_split` along a dimension. -/
def split (n : ℕ) : Dim → List (List α) → List (List (List α))
  | .seq, x => tensorSplit n x
  | .head, x => (List.range n).map fun j => x.map fun heads => ((tensorSplit n heads)[j]?).getD []

/-- `torch.cat` along a dimension. -/
def cat : Dim → List (List (List α)) → List (List α)
  | .seq, xs => xs.flatten
  | .head, [] => []
  | .head, x :: xs => xs.foldl (List.zipWith (· ++ ·)) x

def shape (x : List (List α)) : List ℕ := x.map List.length

/-- `all_to_all_tensor` on a process: the chunk of its rank from every member. The chunks must have
the shape of the first one of its own. -/
def allToAllTensor (g : Group) (scatterDim gatherDim : Dim) (locals : ℕ → List (List α)) (p : ℕ) :
    Option (List (List α)) :=
  let input (q : ℕ) := split g.worldSize scatterDim (locals q)
  let output := g.members.map fun q => ((input q)[g.members.idxOf p]?).getD []
  if ∀ x ∈ output, shape x = shape (((input p)[0]?).getD []) then some (cat gatherDim output) else none

/-- `gather_seq_scatter_heads` on a process. -/
def gatherSeqScatterHeads (w : World) (unpaddedDimSize : ℕ) (group : Option Group) (locals : ℕ → List (List α)) (p : ℕ) :
    Option (List (List α)) :=
  match w.group group p with
  | none => some (locals p)
  | some g => (allToAllTensor g .head .seq locals p).map fun x =>
    if unpaddedDimSize ≠ 0 ∧ unpaddedDimSize % g.worldSize ≠ 0 then
      slice x 0 (-((x.length : ℤ) - unpaddedDimSize))
    else x

/-- `_pad_tensor` along the positions. -/
def padPositions (zero : α) (x : List (List α)) (paddingSize : ℕ) : List (List α) :=
  x ++ List.replicate paddingSize (List.replicate ((x.head?.map List.length).getD 0) zero)

/-- `gather_heads_scatter_seq` on a process. -/
def gatherHeadsScatterSeq (w : World) (zero : α) (group : Option Group) (locals : ℕ → List (List α)) (p : ℕ) :
    Option (List (List α)) :=
  match w.group group p with
  | none => some (locals p)
  | some g => allToAllTensor g .seq .head (fun q =>
      let x := locals q
      if x.length % g.worldSize ≠ 0 then padPositions zero x (g.worldSize - x.length % g.worldSize) else x) p

/-! ## Slicing and gathering -/

section Slices

variable {w : World} {g : Group} {group : Option Group} {zero : α} {p : ℕ} {n : ℕ} {x : List α}

theorem Group.worldSize_pos (g : Group) : 0 < g.worldSize := List.length_pos_of_ne_nil g.nonempty

def Group.padSize (g : Group) (n : ℕ) : ℕ := (g.worldSize - n % g.worldSize) % g.worldSize

def Group.parts (g : Group) (n : ℕ) : ℕ := (n + g.padSize n) / g.worldSize

theorem Group.padSize_eq (g : Group) (n : ℕ) :
    g.padSize n = if n % g.worldSize = 0 then 0 else g.worldSize - n % g.worldSize := by
  have hpos := g.worldSize_pos
  have hmod := Nat.mod_lt n hpos
  unfold padSize
  split
  · rename_i hzero
    rw [hzero, Nat.sub_zero, Nat.mod_self]
  · exact Nat.mod_eq_of_lt (by omega)

theorem Group.parts_mul (g : Group) (n : ℕ) : n + g.padSize n = g.worldSize * g.parts n := by
  refine (Nat.mul_div_cancel' (Nat.dvd_of_mod_eq_zero ?_)).symm
  rw [g.padSize_eq]
  split
  · rename_i hzero
    rw [Nat.add_zero, hzero]
  · have hmod := Nat.mod_lt n g.worldSize_pos
    have hdiv := Nat.div_add_mod n g.worldSize
    rw [show n + (g.worldSize - n % g.worldSize) = g.worldSize * (n / g.worldSize + 1) by rw [Nat.mul_add]; omega,
      Nat.mul_mod_right]

theorem Group.parts_pos (g : Group) (hn : 0 < n) : 0 < g.parts n := by
  have hmul := g.parts_mul n
  refine Nat.pos_of_ne_zero fun hzero => ?_
  rw [hzero, Nat.mul_zero] at hmul
  omega

def Group.pad (g : Group) (zero : α) (x : List α) : List α := x ++ List.replicate (g.padSize x.length) zero

theorem Group.length_pad (g : Group) (zero : α) (x : List α) :
    (g.pad zero x).length = g.worldSize * g.parts x.length := by
  rw [pad, List.length_append, List.length_replicate, g.parts_mul]

theorem neg_one_le_rank (w : World) (p : ℕ) : -1 ≤ w.sequenceParallelRank none p := by
  unfold World.sequenceParallelRank
  split
  · unfold Group.rank
    split <;> omega
  · omega

/-- **The slice of a process** is the part that the global setting names. -/
theorem sliceInputTensor_eq (hg : w.group group p = some g) (zero : α) (x : List α) :
    sliceInputTensor w zero true group p x =
      if 0 ≤ w.sequenceParallelRank none p ∧ w.sequenceParallelRank none p < g.worldSize then
        block ((w.sequenceParallelRank none p).toNat * g.parts x.length) (g.parts x.length) (g.pad zero x)
      else [] := by
  have hpad : (if x.length % g.worldSize ≠ 0 then
      x ++ List.replicate (g.worldSize - x.length % g.worldSize) zero else x) = g.pad zero x := by
    rw [Group.pad, g.padSize_eq]
    by_cases hzero : x.length % g.worldSize = 0
    · simp [hzero]
    · simp [hzero]
  have hparts : (g.pad zero x).length / g.worldSize = g.parts x.length := by
    rw [g.length_pad, Nat.mul_div_cancel_left _ g.worldSize_pos]
  unfold sliceInputTensor
  simp only [hg, World.worldSize, true_and, hpad, hparts]
  exact slice_part (g.length_pad zero x) (neg_one_le_rank w p)

/-- What all processes of the group get, when `f` is applied to the slices. -/
def gathered (w : World) (g : Group) (group : Option Group) (zero : α) (f : α → β) (x : List α) (p : ℕ) :
    Option (List β) :=
  gatherOutputsAndUnpad w group (some (g.padSize x.length)) p fun q => (sliceInputTensor w zero true group q x).map f

/-- **Slicing is transparent** for sequences of `n` positions. -/
def SliceTransparent (w : World) (g : Group) (group : Option Group) (zero : α) (n : ℕ) : Prop :=
  ∀ (β : Type) (f : α → β) (x : List α), x.length = n → ∀ p ∈ g.members,
    gathered w g group zero f x p = some (x.map f)

/-- Each process of the group slices its own part, or there are no positions in it, and then some
part of the group. -/
def OwnParts (w : World) (g : Group) (n : ℕ) : Prop :=
  n = 0 ∨ ∀ q ∈ g.members, w.sequenceParallelRank none q = g.rank q ∨
    (n ≤ g.members.idxOf q * g.parts n ∧ 0 ≤ w.sequenceParallelRank none q ∧
      w.sequenceParallelRank none q < g.worldSize)

theorem Group.rank_of_mem (hp : p ∈ g.members) : g.rank p = g.members.idxOf p := if_pos hp

theorem Group.idxOf_lt (hp : p ∈ g.members) : g.members.idxOf p < g.worldSize := List.idxOf_lt_length_of_mem hp

theorem unpad_eq {l : List β} {padding : ℕ} (h : l.length = n + padding) :
    (if padding = 0 then l else slice l 0 (-padding)) = l.take n := by
  split
  · rw [List.take_of_length_le (by omega)]
  · unfold slice
    simp only [Int.lt_irrefl, if_false, Int.toNat_zero, List.drop_zero, Nat.sub_zero]
    rw [if_pos (by omega), show (-(padding : ℤ) + l.length).toNat = n by omega]

/-- **A gather of pieces** of one size, unpadded. -/
theorem gatherOutputsAndUnpad_eq {locals : ℕ → List β} (hg : w.group group p = some g)
    (hlocals : ∀ q ∈ g.members, (locals q).length = g.parts n) :
    gatherOutputsAndUnpad w group (some (g.padSize n)) p locals = some ((g.members.flatMap locals).take n) := by
  have hgather : allGatherTensor g locals = some (g.members.flatMap locals) :=
    if_pos fun q hq q' hq' => (hlocals q hq).trans (hlocals q' hq').symm
  have hlength : (g.members.flatMap locals).length = n + g.padSize n := by
    rw [List.length_flatMap, List.map_congr_left hlocals, List.map_const', List.sum_replicate_nat, g.parts_mul]
    rfl
  unfold gatherOutputsAndUnpad
  simp only [hg, hgather, Option.map_some]
  rw [unpad_eq hlength]

theorem length_slice (hg : w.group group p = some g) (zero : α) (x : List α)
    (h : 0 ≤ w.sequenceParallelRank none p ∧ w.sequenceParallelRank none p < g.worldSize) :
    (sliceInputTensor w zero true group p x).length = g.parts x.length := by
  rw [sliceInputTensor_eq hg, if_pos h]
  refine length_block ?_
  have hle := Nat.mul_le_mul_right (g.parts x.length)
    (by omega : (w.sequenceParallelRank none p).toNat + 1 ≤ g.worldSize)
  rw [Nat.succ_mul] at hle
  rw [g.length_pad]
  exact hle

/-- **The entry of a gathered sequence** comes from the part that the global setting names. -/
theorem getElem?_gathered (hg : ∀ q ∈ g.members, w.group group q = some g) (zero : α) (f : α → β) (x : List α)
    (hrange : ∀ q ∈ g.members, 0 ≤ w.sequenceParallelRank none q ∧ w.sequenceParallelRank none q < g.worldSize)
    {q : ℕ} (hq : q ∈ g.members) {t : ℕ} (ht : t < g.parts x.length) :
    (g.members.flatMap fun q => (sliceInputTensor w zero true group q x).map f)[
        g.members.idxOf q * g.parts x.length + t]? =
      (g.pad zero x)[(w.sequenceParallelRank none q).toNat * g.parts x.length + t]?.map f := by
  rw [getElem?_flatMap_of_length (fun q hq => ?_) ht,
    List.getElem?_eq_getElem (List.idxOf_lt_length_of_mem hq), List.getElem_idxOf, Option.bind_some,
    List.getElem?_map, sliceInputTensor_eq (hg q hq), if_pos (hrange q hq), getElem?_block ht]
  rw [List.length_map, length_slice (hg q hq) zero x (hrange q hq)]

theorem gathered_eq (hg : ∀ q ∈ g.members, w.group group q = some g) (f : α → β) (x : List α)
    (hrange : ∀ q ∈ g.members, 0 ≤ w.sequenceParallelRank none q ∧ w.sequenceParallelRank none q < g.worldSize)
    (hp : p ∈ g.members) :
    gathered w g group zero f x p = some
      ((g.members.flatMap fun q => (sliceInputTensor w zero true group q x).map f).take x.length) := by
  refine gatherOutputsAndUnpad_eq (hg p hp) fun q hq => ?_
  rw [List.length_map, length_slice (hg q hq) zero x (hrange q hq)]

theorem rank_of_transparent (hg : ∀ q ∈ g.members, w.group group q = some g) (hn : 0 < n)
    (h : SliceTransparent w g group zero n) :
    ∀ q ∈ g.members, 0 ≤ w.sequenceParallelRank none q ∧ w.sequenceParallelRank none q < g.worldSize := by
  intro q hq
  by_contra hout
  have hrun := h α id (List.replicate n zero) List.length_replicate q hq
  unfold gathered gatherOutputsAndUnpad at hrun
  simp only [hg q hq, Option.map_eq_some_iff] at hrun
  obtain ⟨out, hout', hunpad⟩ := hrun
  unfold allGatherTensor at hout'
  split at hout'
  · rename_i hsame
    -- the slices of all processes are as long as the empty one
    have hempty : (g.members.flatMap fun q =>
        (sliceInputTensor w zero true group q (List.replicate n zero)).map id) = [] := by
      refine List.flatMap_eq_nil_iff.2 fun q' hq' => List.eq_nil_of_length_eq_zero ((hsame q' hq' q hq).trans ?_)
      simp only [sliceInputTensor_eq (hg q hq), if_neg hout, List.map_nil, List.length_nil]
    rw [hempty] at hout'
    obtain rfl := Option.some.inj hout'
    have hnil : (List.replicate n zero).map id = [] := by
      rw [← hunpad]
      split
      · rfl
      · exact slice_nil _ _
    have := congrArg List.length hnil
    rw [List.length_map, List.length_replicate, List.length_nil] at this
    omega
  · cases hout'

/-- **Slicing for a group is transparent exactly when** the global ranks agree with those of the
group, wherever there are positions. -/
theorem slice_iff [Nontrivial α] (hg : ∀ q ∈ g.members, w.group group q = some g) (zero : α) (n : ℕ) :
    SliceTransparent w g group zero n ↔ OwnParts w g n := by
  constructor
  · intro h
    refine or_iff_not_imp_left.2 fun hzero q hq => ?_
    have hn := Nat.pos_of_ne_zero hzero
    have hparts := g.parts_pos hn
    have hrange := rank_of_transparent hg hn h
    rw [Group.rank_of_mem hq]
    by_contra hnot
    rw [not_or, not_and] at hnot
    obtain ⟨hne, hfar⟩ := hnot
    have hin : g.members.idxOf q * g.parts n < n := by
      by_contra hfar'
      exact hfar (by omega) (hrange q hq)
    -- the first position of the process differs from all others
    obtain ⟨a, ha⟩ := exists_ne zero
    have hlength : ((List.replicate n zero).set (g.members.idxOf q * g.parts n) a).length = n := by simp
    have hrun := h α id _ hlength q hq
    rw [gathered_eq hg id _ hrange hq, hlength, Option.some.injEq, List.map_id] at hrun
    have hentry := congrArg (fun l => l[g.members.idxOf q * g.parts n]?) hrun
    have hget := getElem?_gathered hg zero id ((List.replicate n zero).set (g.members.idxOf q * g.parts n) a)
      hrange hq (t := 0) (by rw [hlength]; exact hparts)
    rw [hlength, Nat.add_zero, Nat.add_zero] at hget
    simp only [List.getElem?_take_of_lt hin, hget] at hentry
    have hother : (w.sequenceParallelRank none q).toNat * g.parts n ≠ g.members.idxOf q * g.parts n := by
      intro heq
      have := Nat.eq_of_mul_eq_mul_right hparts heq
      have hpos := (hrange q hq).1
      omega
    have hbound : (w.sequenceParallelRank none q).toNat * g.parts n < n + g.padSize n := by
      rw [g.parts_mul]
      refine Nat.mul_lt_mul_of_pos_right ?_ hparts
      have := hrange q hq
      omega
    rw [Group.pad, hlength, List.getElem?_set_self (by simpa using hin)] at hentry
    by_cases hinside : (w.sequenceParallelRank none q).toNat * g.parts n < n
    · rw [List.getElem?_append_left (by simpa using hinside), List.getElem?_set_ne (Ne.symm hother),
        List.getElem?_replicate, if_pos hinside] at hentry
      exact ha (Option.some.inj hentry).symm
    · rw [List.getElem?_append_right (by simpa using hinside), hlength, List.getElem?_replicate,
        if_pos (by omega)] at hentry
      exact ha (Option.some.inj hentry).symm
  · rintro hown β f x rfl p hp
    rcases hown with hzero | hranks
    · obtain rfl := List.eq_nil_of_length_eq_zero hzero
      have hpad : g.padSize 0 = 0 := by rw [g.padSize_eq, if_pos (Nat.zero_mod _)]
      have hparts : g.parts 0 = 0 := by rw [Group.parts, hpad, Nat.add_zero, Nat.zero_div]
      refine gatherOutputsAndUnpad_eq (hg p hp) fun q hq => ?_
      rw [List.length_map, sliceInputTensor_eq (hg q hq), List.length_nil, hparts]
      split
      · rw [block, List.take_zero]
        rfl
      · rfl
    · have hrange : ∀ q ∈ g.members, 0 ≤ w.sequenceParallelRank none q ∧
          w.sequenceParallelRank none q < g.worldSize := by
        intro q hq
        rcases hranks q hq with hrank | hfar
        · rw [hrank, Group.rank_of_mem hq]
          have := Group.idxOf_lt hq
          omega
        · exact hfar.2
      rw [gathered_eq hg f x hrange hp, Option.some.injEq]
      refine List.ext_getElem? fun k => ?_
      by_cases hk : k < x.length
      · have hparts := g.parts_pos (lt_of_le_of_lt (Nat.zero_le k) hk)
        have hi : k / g.parts x.length < g.worldSize := by
          have hmul := g.parts_mul x.length
          rw [Nat.div_lt_iff_lt_mul hparts]
          omega
        have hdiv := Nat.div_add_mod k (g.parts x.length)
        rw [Nat.mul_comm] at hdiv
        have hmem : g.members[k / g.parts x.length] ∈ g.members := List.getElem_mem hi
        have hidx : g.members.idxOf g.members[k / g.parts x.length] = k / g.parts x.length := g.nodup.idxOf_getElem _ _
        have hget := getElem?_gathered hg zero f x hrange hmem (Nat.mod_lt k hparts)
        rw [hidx, hdiv] at hget
        rw [List.getElem?_take_of_lt hk, hget, List.getElem?_map]
        have hsame : (w.sequenceParallelRank none g.members[k / g.parts x.length]).toNat = k / g.parts x.length := by
          rcases hranks _ hmem with hrank | ⟨hfar, -⟩
          · rw [hrank, Group.rank_of_mem hmem, hidx, Int.toNat_natCast]
          · rw [hidx] at hfar
            omega
        rw [hsame, hdiv, Group.pad, List.getElem?_append_left hk]
      · rw [List.getElem?_eq_none (by rw [List.length_take]; omega), List.getElem?_eq_none (by rw [List.length_map]; omega)]

end Slices

/-! ## Padding and slicing with the global setting -/

/-- `f` applied to the positions of a rank. -/
def applyPositions (f : α → Option ℤ → β) (inputIds : List α) : Option (List ℤ) → List β
  | none => inputIds.map fun id => f id none
  | some positionIds => List.zipWith (fun id position => f id (some position)) inputIds positionIds

/-- **`ulysses_pad_and_slice_inputs` is transparent**. -/
def PadTransparent (w : World) (g : Group) (group : Option Group) (padValue : α) : Prop :=
  ∀ (β : Type) (f : α → Option ℤ → β) (inputIds : List α) (positionIds : Option (List ℤ)),
    (∀ positions ∈ positionIds, inputIds.length = positions.length) → ∃ out : ℕ → Padded α,
      (∀ q ∈ g.members,
        ulyssesPadAndSliceInputs w inputIds positionIds g.worldSize false padValue q = some (out q)) ∧
      ∀ p ∈ g.members, gatherOutputsAndUnpad w group (some (out p).padSize) p
        (fun q => applyPositions f (out q).inputIds (out q).positionIds) = some (applyPositions f inputIds positionIds)

section Pad

variable {w : World} {g : Group} {group : Option Group} {p : ℕ}

def padPositionIds (padSize : ℕ) (positions : List ℤ) : List ℤ :=
  positions ++ (List.range padSize).map fun (i : ℕ) => (i : ℤ)

theorem ulyssesPad_eq {inputIds : List α} {positionIds : Option (List ℤ)} (g : Group) (padValue : α)
    (h : ∀ positions ∈ positionIds, inputIds.length = positions.length) :
    ulyssesPad inputIds positionIds g.worldSize padValue = some ⟨g.pad padValue inputIds,
      positionIds.map (padPositionIds (g.padSize inputIds.length)), g.padSize inputIds.length⟩ := by
  have hnone : g.padSize inputIds.length = 0 →
      some (⟨inputIds, positionIds, 0⟩ : Padded α) = some ⟨g.pad padValue inputIds,
        positionIds.map (padPositionIds (g.padSize inputIds.length)), g.padSize inputIds.length⟩ := by
    intro hzero
    rw [Group.pad, hzero, List.replicate_zero, List.append_nil]
    cases positionIds with
    | none => rfl
    | some positions =>
      rw [Option.map_some, padPositionIds, List.range_zero, List.map_nil, List.append_nil]
  unfold ulyssesPad
  rw [if_neg fun ⟨positions, hmem, hne⟩ => hne (h positions hmem)]
  split
  · rename_i hone
    refine hnone ?_
    have hpos := g.worldSize_pos
    rw [Group.padSize, show g.worldSize = 1 by omega, Nat.mod_one]
  · change (if 0 < g.padSize inputIds.length then _ else _) = _
    split
    · rfl
    · rename_i hzero
      change some (⟨inputIds, positionIds, g.padSize inputIds.length⟩ : Padded α) = _
      have hpad : g.padSize inputIds.length = 0 := by omega
      rw [← hnone hpad, hpad]

theorem sliceInputTensor_setting (hset : w.setting p = some g) (hp : p ∈ g.members) (zero : α) {x : List α} {parts : ℕ}
    (hx : x.length = g.worldSize * parts) :
    sliceInputTensor w zero false none p x = block (g.members.idxOf p * parts) parts x := by
  have hgroup : w.group none p = some g := hset
  have hparts : x.length / g.worldSize = parts := by rw [hx, Nat.mul_div_cancel_left _ g.worldSize_pos]
  have hrank : w.sequenceParallelRank none p = g.members.idxOf p := by
    unfold World.sequenceParallelRank
    rw [hgroup]
    exact Group.rank_of_mem hp
  have hidx := Group.idxOf_lt hp
  unfold sliceInputTensor
  simp only [hgroup, World.worldSize, Bool.false_eq_true, false_and, if_false, hparts, hrank]
  rw [slice_part hx (by omega), if_pos (by omega), Int.toNat_natCast]

theorem applyPositions_block (f : α → Option ℤ → β) (start size : ℕ) (inputIds : List α)
    (positionIds : Option (List ℤ)) :
    applyPositions f (block start size inputIds) (positionIds.map (block start size)) =
      block start size (applyPositions f inputIds positionIds) := by
  cases positionIds with
  | none => exact (block_map _ _ _ _).symm
  | some positions =>
    simp only [Option.map_some, applyPositions, block, List.drop_zipWith, List.take_zipWith]

theorem length_applyPositions (f : α → Option ℤ → β) {inputIds : List α} {positionIds : Option (List ℤ)}
    (h : ∀ positions ∈ positionIds, inputIds.length = positions.length) :
    (applyPositions f inputIds positionIds).length = inputIds.length := by
  cases positionIds with
  | none => exact List.length_map _
  | some positions =>
    rw [applyPositions, List.length_zipWith, ← h positions rfl, Nat.min_self]

theorem take_applyPositions (f : α → Option ℤ → β) (g : Group) (padValue : α) {inputIds : List α}
    {positionIds : Option (List ℤ)} (h : ∀ positions ∈ positionIds, inputIds.length = positions.length) :
    (applyPositions f (g.pad padValue inputIds)
        (positionIds.map (padPositionIds (g.padSize inputIds.length)))).take inputIds.length =
      applyPositions f inputIds positionIds := by
  cases positionIds with
  | none =>
    simp only [Option.map_none, applyPositions, Group.pad, List.map_append]
    exact List.take_left' (List.length_map _)
  | some positions =>
    simp only [Option.map_some, applyPositions, Group.pad, padPositionIds]
    rw [List.zipWith_append (h positions rfl)]
    refine List.take_left' ?_
    rw [List.length_zipWith, ← h positions rfl, Nat.min_self]

theorem pad_transparent (hset : ∀ q ∈ g.members, w.setting q = some g)
    (hg : ∀ q ∈ g.members, w.group group q = some g) (padValue : α) : PadTransparent w g group padValue := by
  intro β f inputIds positionIds h
  have hpadded : ∀ positions ∈ positionIds.map (padPositionIds (g.padSize inputIds.length)),
      (g.pad padValue inputIds).length = positions.length := by
    intro positions hmem
    obtain ⟨old, hold, rfl⟩ := Option.map_eq_some_iff.1 hmem
    rw [Group.pad, padPositionIds, List.length_append, List.length_append, List.length_replicate, List.length_map,
      List.length_range, h old hold]
  have hlength := g.length_pad padValue inputIds
  refine ⟨fun q => ⟨block (g.members.idxOf q * g.parts inputIds.length) (g.parts inputIds.length)
    (g.pad padValue inputIds), (positionIds.map (padPositionIds (g.padSize inputIds.length))).map
      (block (g.members.idxOf q * g.parts inputIds.length) (g.parts inputIds.length)), g.padSize inputIds.length⟩,
    fun q hq => ?_, fun p hp => ?_⟩
  · unfold ulyssesPadAndSliceInputs
    rw [ulyssesPad_eq g padValue h, Option.map_some, sliceInputTensor_setting (hset q hq) hq padValue hlength]
    simp only [Bool.false_eq_true, if_false, Option.some.injEq, Padded.mk.injEq, true_and, and_true]
    refine Option.map_congr fun positions hmem => ?_
    exact sliceInputTensor_setting (hset q hq) hq 0 ((hpadded positions hmem).symm.trans hlength)
  · simp only [applyPositions_block]
    have hall : _ = g.members.length * _ := (length_applyPositions f hpadded).trans hlength
    rw [gatherOutputsAndUnpad_eq (hg p hp) fun q hq => ?_, flatMap_idxOf g.nodup fun i =>
        block (i * g.parts inputIds.length) (g.parts inputIds.length) _, flatMap_block hall,
      take_applyPositions f g padValue h]
    have hle := Nat.mul_le_mul_right (g.parts inputIds.length) (Nat.succ_le_of_lt (Group.idxOf_lt hq))
    rw [Nat.succ_mul] at hle
    refine length_block ?_
    rw [hall]
    exact hle

end Pad

/-! ## Gathering positions and scattering heads -/

/-- **Every rank sees its own heads, and gets its shard back.** The shards have `length` positions
with `heads` heads for each rank. -/
def HeadsTransparent (w : World) (g : Group) (group : Option Group) (zero : α) : Prop :=
  ∀ (length heads : ℕ) (locals : ℕ → List (List α)),
    (∀ q ∈ g.members, (locals q).length = length ∧ ∀ row ∈ locals q, row.length = g.worldSize * heads) →
      ∃ between : ℕ → List (List α),
        (∀ q ∈ g.members, gatherSeqScatterHeads w 0 group locals q = some (between q) ∧
          between q = (g.members.flatMap locals).map (block (g.members.idxOf q * heads) heads)) ∧
        ∀ p ∈ g.members, gatherHeadsScatterSeq w zero group between p = some (locals p)

section Heads

variable {w : World} {g : Group} {group : Option Group} {p n size : ℕ}

theorem tensorSplit_eq {l : List α} (hn : 0 < n) (h : l.length = n * size) :
    tensorSplit n l = (List.range n).map fun i => block (i * size) size l := splitSizes_arraySplitSizes hn h l

theorem getElem?_split_head {x : List (List α)} (hn : 0 < n) (h : ∀ row ∈ x, row.length = n * size) {i : ℕ} (hi : i < n) :
    ((split n .head x)[i]?).getD [] = x.map (block (i * size) size) := by
  rw [split, List.getElem?_map, List.getElem?_range hi, Option.map_some, Option.getD_some]
  refine List.map_congr_left fun row hrow => ?_
  rw [tensorSplit_eq hn (h row hrow), List.getElem?_map, List.getElem?_range hi, Option.map_some, Option.getD_some]

theorem getElem?_split_seq {x : List (List α)} (hn : 0 < n) (h : x.length = n * size) {i : ℕ} (hi : i < n) :
    ((split n .seq x)[i]?).getD [] = block (i * size) size x := by
  rw [split, tensorSplit_eq hn h, List.getElem?_map, List.getElem?_range hi, Option.map_some, Option.getD_some]

theorem cat_head {ι : Type} {is : List ι} (hne : is ≠ []) (x : List (List α)) (f : ι → List α → List α) :
    cat .head (is.map fun i => x.map (f i)) = x.map fun row => is.flatMap fun i => f i row := by
  have hfold : ∀ (is : List ι) (first : List α → List α),
      (is.map fun i => x.map (f i)).foldl (List.zipWith (· ++ ·)) (x.map first) =
        x.map fun row => first row ++ is.flatMap fun i => f i row := by
    intro is
    induction is with
    | nil => simp
    | cons i is ih =>
      intro first
      rw [List.map_cons, List.foldl_cons, List.zipWith_map, List.zipWith_self, ih]
      simp only [List.flatMap_cons, List.append_assoc]
  cases is with
  | nil => exact absurd rfl hne
  | cons i is =>
    rw [List.map_cons, cat, hfold]
    simp only [List.flatMap_cons]

theorem shape_map_block {x : List (List α)} {start : ℕ} (h : ∀ row ∈ x, start + size ≤ row.length) :
    shape (x.map (block start size)) = List.replicate x.length size := by
  unfold shape
  rw [List.map_map, List.eq_replicate_iff, List.length_map]
  refine ⟨rfl, fun k hk => ?_⟩
  obtain ⟨row, hrow, rfl⟩ := List.mem_map.1 hk
  exact length_block (h row hrow)

theorem Group.part_le (hp : p ∈ g.members) (size : ℕ) : g.members.idxOf p * size + size ≤ g.worldSize * size := by
  rw [← Nat.succ_mul]
  exact Nat.mul_le_mul_right _ (Group.idxOf_lt hp)

/-- **Gathering positions, scattering heads**. -/
theorem allToAllTensor_heads {length heads : ℕ} {locals : ℕ → List (List α)} (hp : p ∈ g.members)
    (h : ∀ q ∈ g.members, (locals q).length = length ∧ ∀ row ∈ locals q, row.length = g.worldSize * heads) :
    allToAllTensor g .head .seq locals p =
      some ((g.members.flatMap locals).map (block (g.members.idxOf p * heads) heads)) := by
  have hpos := g.worldSize_pos
  have hchunk : ∀ q ∈ g.members, ∀ i < g.worldSize,
      ((split g.worldSize .head (locals q))[i]?).getD [] = (locals q).map (block (i * heads) heads) :=
    fun q hq i hi => getElem?_split_head hpos (h q hq).2 hi
  have houtput : g.members.map (fun q => ((split g.worldSize .head (locals q))[g.members.idxOf p]?).getD []) =
      g.members.map fun q => (locals q).map (block (g.members.idxOf p * heads) heads) :=
    List.map_congr_left fun q hq => hchunk q hq _ (Group.idxOf_lt hp)
  unfold allToAllTensor
  simp only [houtput, hchunk p hp 0 hpos]
  rw [if_pos]
  · rw [cat, List.map_flatMap, List.flatMap_def]
  · intro x hx
    obtain ⟨q, hq, rfl⟩ := List.mem_map.1 hx
    rw [shape_map_block fun row hrow => ?_, shape_map_block fun row hrow => ?_, (h q hq).1, (h p hp).1]
    · rw [(h p hp).2 row hrow, Nat.zero_mul, Nat.zero_add]
      exact Nat.le_mul_of_pos_left _ hpos
    · rw [(h q hq).2 row hrow]
      exact Group.part_le hp heads

/-- **Gathering heads, scattering positions**. -/
theorem allToAllTensor_seq {length heads : ℕ} {rows : List (List α)} (hp : p ∈ g.members)
    (hlength : rows.length = g.worldSize * length) (hheads : ∀ row ∈ rows, row.length = g.worldSize * heads) :
    allToAllTensor g .seq .head (fun q => rows.map (block (g.members.idxOf q * heads) heads)) p =
      some (block (g.members.idxOf p * length) length rows) := by
  have hpos := g.worldSize_pos
  have hchunk : ∀ q ∈ g.members, ∀ i < g.worldSize,
      ((split g.worldSize .seq (rows.map (block (g.members.idxOf q * heads) heads)))[i]?).getD [] =
        (block (i * length) length rows).map (block (g.members.idxOf q * heads) heads) := by
    intro q _ i hi
    rw [getElem?_split_seq hpos ((List.length_map _).trans hlength) hi, block_map]
  have hmem : ∀ i, ∀ row ∈ block (i * length) length rows, row.length = g.worldSize * heads :=
    fun i row hrow => hheads row (List.mem_of_mem_drop (List.mem_of_mem_take hrow))
  have houtput : g.members.map (fun q =>
      ((split g.worldSize .seq (rows.map (block (g.members.idxOf q * heads) heads)))[g.members.idxOf p]?).getD []) =
        g.members.map fun q =>
          (block (g.members.idxOf p * length) length rows).map (block (g.members.idxOf q * heads) heads) :=
    List.map_congr_left fun q hq => hchunk q hq _ (Group.idxOf_lt hp)
  unfold allToAllTensor
  simp only [houtput, hchunk p hp 0 hpos]
  rw [if_pos]
  · rw [cat_head g.nonempty, Option.some.injEq]
    refine (List.map_congr_left fun row hrow => ?_).trans (List.map_id _)
    have hrow' : row.length = g.members.length * heads := hmem _ row hrow
    rw [flatMap_idxOf g.nodup fun i => block (i * heads) heads row, flatMap_block hrow', id]
  · intro x hx
    obtain ⟨q, hq, rfl⟩ := List.mem_map.1 hx
    have hblock : ∀ r ∈ g.members, (block (g.members.idxOf r * length) length rows).length = length := by
      intro r hr
      refine length_block ?_
      rw [hlength]
      exact Group.part_le hr length
    have hfirst : (block (0 * length) length rows).length = length := by
      refine length_block ?_
      rw [hlength, Nat.zero_mul, Nat.zero_add]
      exact Nat.le_mul_of_pos_left _ hpos
    rw [shape_map_block fun row hrow => ?_, shape_map_block fun row hrow => ?_, hblock p hp, hfirst]
    · rw [hmem 0 row hrow]
      exact Group.part_le hp heads
    · rw [hmem _ row hrow]
      exact Group.part_le hq heads

theorem heads_roundTrip (hg : ∀ q ∈ g.members, w.group group q = some g) (zero : α) :
    HeadsTransparent w g group zero := by
  intro length heads locals h
  have hrows : (g.members.flatMap locals).length = g.worldSize * length := by
    rw [List.length_flatMap, List.map_congr_left fun q hq => (h q hq).1, List.map_const', List.sum_replicate_nat]
    rfl
  have hheads : ∀ row ∈ g.members.flatMap locals, row.length = g.worldSize * heads := by
    intro row hrow
    obtain ⟨q, hq, hmem⟩ := List.mem_flatMap.1 hrow
    exact (h q hq).2 row hmem
  refine ⟨fun q => (g.members.flatMap locals).map (block (g.members.idxOf q * heads) heads), fun q hq => ⟨?_, rfl⟩,
    fun p hp => ?_⟩
  · unfold gatherSeqScatterHeads
    simp only [hg q hq, allToAllTensor_heads hq h, Option.map_some, ne_eq, not_true_eq_false, false_and, if_false]
  · have hmod : (g.members.flatMap locals).length % g.worldSize = 0 := by rw [hrows, Nat.mul_mod_right]
    unfold gatherHeadsScatterSeq
    simp only [hg p hp, List.length_map, hmod, ne_eq, not_true_eq_false, if_false]
    rw [allToAllTensor_seq hp hrows hheads, block_flatMap fun q hq => (h q hq).1]
    rw [List.getElem?_eq_getElem (List.idxOf_lt_length_of_mem hp), List.getElem_idxOf]

end Heads

/-! ## Main theorem -/

/-- **Sequence parallelism for a group**, explicit or from the setting. Slicing with it is
transparent exactly when the global setting gives every process its rank in the group, wherever
there are positions; padding and slicing with the setting, and the all-to-all, always are. -/
theorem transparent_iff [Nontrivial α] {w : World} {g : Group} {group : Option Group}
    (hg : ∀ q ∈ g.members, w.group group q = some g) (zero : α) :
    (∀ n, SliceTransparent w g group zero n ↔ OwnParts w g n) ∧
      ((∀ q ∈ g.members, w.setting q = some g) → PadTransparent w g group zero) ∧
      HeadsTransparent w g group zero :=
  ⟨fun n => slice_iff hg zero n, fun hset => pad_transparent hset hg zero, heads_roundTrip hg zero⟩

/-! ## Two processes -/

def pair : Group where
  members := [0, 1]
  nodup := by decide
  nonempty := by decide

def configured : World := ⟨2, fun _ => some pair⟩

def unconfigured : World := ⟨2, fun _ => none⟩

theorem transparent_configured : SliceTransparent configured pair none 0 5 ∧
    PadTransparent configured pair (some pair) 0 ∧ HeadsTransparent configured pair none 0 := by
  have hsetting : ∀ q ∈ pair.members, configured.group none q = some pair := fun _ _ => rfl
  have hexplicit : ∀ q ∈ pair.members, configured.group (some pair) q = some pair := fun _ _ => rfl
  refine ⟨((transparent_iff hsetting (0 : ℕ)).1 5).2 (Or.inr fun q hq => Or.inl rfl), ?_,
    (transparent_iff hsetting (0 : ℕ)).2.2⟩
  exact (transparent_iff hexplicit (0 : ℕ)).2.1 fun _ _ => rfl

theorem slice_unconfigured : gathered unconfigured pair (some pair) 0 id [10, 11, 12, 13] 0 = some [10, 11, 10, 11] ∧
    ¬ SliceTransparent unconfigured pair (some pair) 0 4 := by
  have hrun : gathered unconfigured pair (some pair) 0 id [10, 11, 12, 13] 0 = some [10, 11, 10, 11] := by decide
  refine ⟨hrun, fun h => ?_⟩
  have hall := h ℕ id [10, 11, 12, 13] rfl 0 (by decide)
  rw [hrun] at hall
  exact absurd hall (by decide)

end Opd.Verl.Ulysses
