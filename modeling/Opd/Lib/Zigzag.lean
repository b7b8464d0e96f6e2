import Opd.Lib.Blocks

/-!
# Sequences split over ranks from both ends

A sequence of `2 * ranks` chunks is split over the ranks from both ends: a rank has one chunk of
the front and one of the back. The chunks of all ranks are put together by assignments to slices.

* `assign_middle`: an assignment to a slice.
* `mem_of_assign`: what is in a buffer after an assignment.
* `exists_zigzag`: each position is in a slot of a rank.
* `mergeEnds_eq`: the chunks that are put together from both ends.
* `take_ends`: if the ranks hold the entries of a row in their slots, this is the row.
-/

namespace Opd.Lib

variable {α β : Type*}

/-! ## Assignments to slices -/

/-- `buffer[start:stop] = values`: values of the length of the slice, or one value for all of it. -/
def assign (buffer : List α) (start stop : ℕ) (values : List α) : Option (List α) :=
  let size := (block start (stop - start) buffer).length
  if values.length = size then some (buffer.take start ++ (values ++ buffer.drop (start + size)))
  else match values with
    | [value] => some (buffer.take start ++ (List.replicate size value ++ buffer.drop (start + size)))
    | _ => none

section Assign

variable {before slot after values : List α} {start stop : ℕ}

theorem slice_parts (hstart : before.length = start) (hstop : start + slot.length = stop) :
    block start (stop - start) (before ++ (slot ++ after)) = slot ∧
      (before ++ (slot ++ after)).take start = before ∧
      (before ++ (slot ++ after)).drop (start + slot.length) = after := by
  subst hstart
  refine ⟨?_, List.take_left, ?_⟩
  · rw [block, List.drop_left, show stop - before.length = slot.length by omega, List.take_left]
  · rw [← List.append_assoc, ← List.length_append, List.drop_left]

/-- **An assignment** of as many values as the slice has. -/
theorem assign_middle (hstart : before.length = start) (hstop : start + slot.length = stop)
    (hvalues : values.length = slot.length) :
    assign (before ++ (slot ++ after)) start stop values = some (before ++ (values ++ after)) := by
  obtain ⟨hslot, hbefore, hafter⟩ := @slice_parts _ _ _ after _ _ hstart hstop
  unfold assign
  simp only [hslot, hbefore, hafter]
  rw [if_pos hvalues]

theorem assign_value (hstart : before.length = start) (hstop : start + slot.length = stop) (value : α) :
    assign (before ++ (slot ++ after)) start stop [value] =
      some (before ++ (List.replicate slot.length value ++ after)) := by
  obtain ⟨hslot, hbefore, hafter⟩ := @slice_parts _ _ _ after _ _ hstart hstop
  unfold assign
  simp only [hslot, hbefore, hafter]
  split
  · rename_i hone
    rw [← hone]
    rfl
  · rfl

theorem assign_eq_none (hstart : before.length = start) (hstop : start + slot.length = stop)
    (hvalues : values.length ≠ slot.length) (hone : values.length ≠ 1) :
    assign (before ++ (slot ++ after)) start stop values = none := by
  obtain ⟨hslot, -, -⟩ := @slice_parts _ _ _ after _ _ hstart hstop
  unfold assign
  simp only [hslot]
  rw [if_neg hvalues]
  split
  · exact absurd rfl hone
  · rfl

/-- **Values that fit**: as many as the slice has, or one. The values are at the front of the slice. -/
theorem assign_some (hstart : before.length = start) (hstop : start + slot.length = stop)
    (hvalues : values.length = slot.length ∨ values.length = 1) :
    ∃ filled, filled.length = slot.length ∧ (∀ k < slot.length, k < values.length → filled[k]? = values[k]?) ∧
      assign (before ++ (slot ++ after)) start stop values = some (before ++ (filled ++ after)) := by
  by_cases hall : values.length = slot.length
  · exact ⟨values, hall, fun _ _ _ => rfl, assign_middle hstart hstop hall⟩
  · obtain ⟨value, rfl⟩ := List.length_eq_one_iff.1 (hvalues.resolve_left hall)
    refine ⟨List.replicate slot.length value, List.length_replicate, fun k hk hone => ?_,
      assign_value hstart hstop value⟩
    rw [List.length_singleton, Nat.lt_one_iff] at hone
    subst hone
    rw [List.getElem?_replicate, if_pos hk]
    rfl

theorem assign_front {n : ℕ} {value : α} (hstart : before.length = start) (hvalues : values.length ≤ n) :
    assign (before ++ (List.replicate n value ++ after)) start (start + values.length) values =
      some (before ++ (values ++ List.replicate (n - values.length) value ++ after)) := by
  have hsplit : List.replicate n value =
      List.replicate values.length value ++ List.replicate (n - values.length) value := by
    rw [List.replicate_append_replicate, Nat.add_sub_cancel' hvalues]
  rw [hsplit, List.append_assoc, assign_middle hstart (by rw [List.length_replicate]) List.length_replicate.symm,
    List.append_assoc]

end Assign

section Assigned

variable {buffer out values : List α} {start stop : ℕ}

theorem assign_cases (h : assign buffer start stop values = some out) :
    ∃ middle : List α, middle.length = (block start (stop - start) buffer).length ∧ (∀ a ∈ middle, a ∈ values) ∧
      out = buffer.take start ++ (middle ++ buffer.drop (start + (block start (stop - start) buffer).length)) := by
  unfold assign at h
  simp only at h
  by_cases hall : values.length = (block start (stop - start) buffer).length
  · rw [if_pos hall] at h
    exact ⟨values, hall, fun _ ha => ha, (Option.some.inj h).symm⟩
  · rw [if_neg hall] at h
    split at h
    · rename_i value
      refine ⟨List.replicate _ value, List.length_replicate, ?_, (Option.some.inj h).symm⟩
      intro a ha
      exact List.mem_singleton.2 (List.eq_of_mem_replicate ha)
    · cases h

theorem length_assign (h : assign buffer start stop values = some out) : out.length = buffer.length := by
  obtain ⟨middle, hmiddle, -, rfl⟩ := assign_cases h
  have hblock : (block start (stop - start) buffer).length ≤ buffer.length - start := by
    rw [block, List.length_take, List.length_drop]
    exact Nat.min_le_right _ _
  rw [List.length_append, List.length_append, List.length_take, List.length_drop, hmiddle]
  omega

theorem mem_of_assign (h : assign buffer start stop values = some out) {a : α} (ha : a ∈ out) : a ∈ buffer ∨ a ∈ values := by
  obtain ⟨middle, -, hmiddle, rfl⟩ := assign_cases h
  rw [List.mem_append, List.mem_append] at ha
  rcases ha with hfront | hvalue | hback
  · exact .inl (List.mem_of_mem_take hfront)
  · exact .inr (hmiddle a hvalue)
  · exact .inl (List.mem_of_mem_drop hback)

end Assigned

/-! ## Slots -/

/-- The position of a slot of a rank: the slots of the first half are in the chunk `rank`, those of
the second half in the same chunk from the end. -/
def zigzag (ranks half rank slot : ℕ) : ℕ :=
  if slot < half then rank * half + slot else (2 * ranks - 1 - rank) * half + (slot - half)

/-- **Each position is in a slot** of a rank. -/
theorem exists_zigzag {ranks half g : ℕ} (hg : g < 2 * ranks * half) :
    ∃ rank < ranks, ∃ slot < 2 * half, zigzag ranks half rank slot = g := by
  have hhalf : 0 < half := Nat.pos_of_ne_zero fun h => by rw [h, Nat.mul_zero] at hg; omega
  have hchunk : g / half < 2 * ranks := Nat.div_lt_of_lt_mul (by rw [Nat.mul_comm]; exact hg)
  have hmod := Nat.mod_lt g hhalf
  have hdiv := Nat.div_add_mod g half
  rw [Nat.mul_comm] at hdiv
  by_cases hfront : g / half < ranks
  · refine ⟨g / half, hfront, g % half, by omega, ?_⟩
    rw [zigzag, if_pos hmod, hdiv]
  · refine ⟨2 * ranks - 1 - g / half, by omega, half + g % half, by omega, ?_⟩
    rw [zigzag, if_neg (by omega), Nat.add_sub_cancel_left,
      show 2 * ranks - 1 - (2 * ranks - 1 - g / half) = g / half by omega, hdiv]

/-- A part that has the entries of a row in its slots: `position` says where a slot is in the row. -/
structure Holds (position : ℕ → ℕ) (size : ℕ) (row part : List α) : Prop where
  length_eq : part.length = size
  entry : ∀ slot < size, position slot < row.length → part[slot]? = row[position slot]?

namespace Holds

variable {position : ℕ → ℕ} {size : ℕ} {row part : List α}

theorem map (h : Holds position size row part) (f : α → β) : Holds position size (row.map f) (part.map f) where
  length_eq := by rw [List.length_map, h.length_eq]
  entry := by
    intro slot hslot hlt
    rw [List.length_map] at hlt
    rw [List.getElem?_map, List.getElem?_map, h.entry slot hslot hlt]

theorem zip {row' part' : List β} (h : Holds position size row part) (h' : Holds position size row' part')
    (hlength : row.length = row'.length) : Holds position size (row.zip row') (part.zip part') where
  length_eq := by rw [List.length_zip, h.length_eq, h'.length_eq, Nat.min_self]
  entry := by
    intro slot hslot hlt
    rw [List.length_zip, ← hlength, Nat.min_self] at hlt
    rw [List.zip_eq_zipWith, List.zip_eq_zipWith, List.getElem?_zipWith, List.getElem?_zipWith, h.entry slot hslot hlt,
      h'.entry slot hslot (hlength ▸ hlt)]

theorem take_eq (h : Holds id size row part) (hrow : row.length ≤ size) : part.take row.length = row := by
  refine List.ext_getElem? fun i => ?_
  by_cases hi : i < row.length
  · rw [List.getElem?_take_of_lt hi]
    exact h.entry i (by omega) hi
  · rw [List.getElem?_eq_none (by rw [List.length_take]; omega), List.getElem?_eq_none (by omega)]

theorem of_chunks {ranks half rank : ℕ} {first second : List α} (hfirst : first.length = half)
    (hsecond : second.length = half)
    (hfront : ∀ k < half, rank * half + k < row.length → first[k]? = row[rank * half + k]?)
    (hback : ∀ k < half, (2 * ranks - 1 - rank) * half + k < row.length →
      second[k]? = row[(2 * ranks - 1 - rank) * half + k]?) :
    Holds (zigzag ranks half rank) (2 * half) row (first ++ second) where
  length_eq := by rw [List.length_append, hfirst, hsecond, Nat.two_mul]
  entry := by
    intro slot hslot hlt
    unfold zigzag at hlt ⊢
    by_cases hhalf : slot < half
    · rw [if_pos hhalf] at hlt ⊢
      rw [List.getElem?_append_left (by omega)]
      exact hfront slot hhalf hlt
    · rw [if_neg hhalf] at hlt ⊢
      rw [List.getElem?_append_right (by omega), hfirst]
      exact hback (slot - half) (by omega) hlt

end Holds

/-! ## Putting the chunks together -/

/-- For each rank in turn, its first chunk goes to the front of the buffer, behind those of the
ranks before it, and its second chunk to the back. -/
def mergeEnds (size half : ℕ) (front back : ℕ → List α) : ℕ → List α → Option (List α)
  | 0, buffer => some buffer
  | j + 1, buffer => do
    let buffer ← mergeEnds size half front back j buffer
    let buffer ← assign buffer (j * half) ((j + 1) * half) (front j)
    assign buffer (size - (j + 1) * half) (size - j * half) (back j)

def ends (ranks : ℕ) (front back : ℕ → List α) : List α :=
  (List.range ranks).flatMap front ++ (List.range ranks).reverse.flatMap back

section Merge

variable {ranks half : ℕ} {front back : ℕ → List α} {buffer : List α}

theorem mergeEnds_step (hfront : ∀ j < ranks, (front j).length = half) (hback : ∀ j < ranks, (back j).length = half)
    (hbuffer : buffer.length = 2 * ranks * half) {j : ℕ} (hj : j ≤ ranks) :
    ∃ middle : List α, middle.length = 2 * (ranks - j) * half ∧
      mergeEnds (2 * ranks * half) half front back j buffer =
        some ((List.range j).flatMap front ++ (middle ++ (List.range j).reverse.flatMap back)) := by
  induction j with
  | zero =>
    refine ⟨buffer, hbuffer, ?_⟩
    rw [mergeEnds]
    simp
  | succ j ih =>
    obtain ⟨middle, hmiddle, hrun⟩ := ih (by omega)
    -- the next chunks are the ends of what is left
    obtain ⟨rest, hrest⟩ : ∃ rest, 2 * (ranks - j) * half = half + (rest + half) ∧ rest = 2 * (ranks - (j + 1)) * half := by
      refine ⟨_, ?_, rfl⟩
      rw [show ranks - j = ranks - (j + 1) + 1 by omega, Nat.mul_add, Nat.add_mul]
      omega
    have hsplit : middle = middle.take half ++ (block half rest middle ++ middle.drop (half + rest)) := by
      rw [block, ← List.drop_drop, List.take_append_drop, List.take_append_drop]
    have hfirst : (middle.take half).length = half := by rw [List.length_take]; omega
    have hkeep : (block half rest middle).length = rest := length_block (by omega)
    have hlast : (middle.drop (half + rest)).length = half := by rw [List.length_drop]; omega
    have hdone : ((List.range j).flatMap front).length = j * half := by
      rw [List.length_flatMap, List.map_congr_left fun i hi => hfront i (by rw [List.mem_range] at hi; omega),
        List.map_const', List.length_range, List.sum_replicate_nat]
    have hstop : (j + 1) * half = j * half + half := Nat.succ_mul j half
    have hsize : 2 * ranks * half = j * half + half + rest + half + j * half := by
      have hranks : 2 * ranks * half = 2 * (ranks - j) * half + 2 * j * half := by
        rw [← Nat.add_mul]
        congr 1
        omega
      have htwo : 2 * j * half = j * half + j * half := by rw [Nat.mul_assoc, Nat.two_mul]
      omega
    refine ⟨block half rest middle, by rw [hkeep, hrest.2], ?_⟩
    have hput : assign ((List.range j).flatMap front ++ (middle ++ (List.range j).reverse.flatMap back))
        (j * half) ((j + 1) * half) (front j) =
        some ((List.range j).flatMap front ++ (front j ++ (block half rest middle ++
          (middle.drop (half + rest) ++ (List.range j).reverse.flatMap back)))) := by
      conv_lhs => rw [hsplit]
      rw [List.append_assoc, List.append_assoc]
      exact assign_middle hdone (by rw [hfirst, hstop]) (by rw [hfirst, hfront j (by omega)])
    have hend : assign ((List.range j).flatMap front ++ (front j ++ (block half rest middle ++
          (middle.drop (half + rest) ++ (List.range j).reverse.flatMap back))))
        (2 * ranks * half - (j + 1) * half) (2 * ranks * half - j * half) (back j) =
        some ((List.range (j + 1)).flatMap front ++ (block half rest middle ++
          (List.range (j + 1)).reverse.flatMap back)) := by
      rw [← List.append_assoc, ← List.append_assoc]
      rw [assign_middle (by rw [List.length_append, List.length_append, hdone, hfront j (by omega), hkeep]; omega)
        (by rw [hlast]; omega) (by rw [hlast, hback j (by omega)])]
      rw [List.range_succ, List.flatMap_append, List.flatMap_singleton, List.reverse_append, List.reverse_singleton,
        List.singleton_append, List.flatMap_cons]
      simp only [List.append_assoc]
    rw [mergeEnds, hrun, Option.bind_eq_bind, Option.bind_some, hput, Option.bind_some, hend]

/-- **The chunks that are put together**, whatever was in the buffer. -/
theorem mergeEnds_eq (hfront : ∀ j < ranks, (front j).length = half) (hback : ∀ j < ranks, (back j).length = half)
    (hbuffer : buffer.length = 2 * ranks * half) :
    mergeEnds (2 * ranks * half) half front back ranks buffer = some (ends ranks front back) := by
  obtain ⟨middle, hmiddle, hrun⟩ := mergeEnds_step hfront hback hbuffer (Nat.le_refl ranks)
  rw [Nat.sub_self, Nat.mul_zero, Nat.zero_mul, List.length_eq_zero_iff] at hmiddle
  rw [hrun, hmiddle, List.nil_append, ends]

theorem length_ends (hfront : ∀ j < ranks, (front j).length = half) (hback : ∀ j < ranks, (back j).length = half) :
    (ends ranks front back).length = 2 * ranks * half := by
  have hfronts : (List.range ranks).map (fun j => (front j).length) = (List.range ranks).map fun _ => half :=
    List.map_congr_left fun j hj => hfront j (List.mem_range.1 hj)
  have hbacks : (List.range ranks).reverse.map (fun j => (back j).length) = (List.range ranks).reverse.map fun _ => half :=
    List.map_congr_left fun j hj => hback j (List.mem_range.1 (List.mem_reverse.1 hj))
  rw [ends, List.length_append, List.length_flatMap, List.length_flatMap, hfronts, hbacks, List.map_const',
    List.map_const', List.length_reverse, List.length_range, List.sum_replicate_nat, Nat.mul_assoc, Nat.two_mul]

theorem getElem?_ends (hfront : ∀ j < ranks, (front j).length = half) (hback : ∀ j < ranks, (back j).length = half)
    {rank slot : ℕ} (hrank : rank < ranks) (hslot : slot < 2 * half) :
    (ends ranks front back)[zigzag ranks half rank slot]? = (front rank ++ back rank)[slot]? := by
  have hfronts : ∀ j ∈ List.range ranks, (front j).length = half := fun j hj => hfront j (List.mem_range.1 hj)
  have hbacks : ∀ j ∈ (List.range ranks).reverse, (back j).length = half :=
    fun j hj => hback j (List.mem_range.1 (List.mem_reverse.1 hj))
  have hlength : ((List.range ranks).flatMap front).length = ranks * half := by
    rw [List.length_flatMap, List.map_congr_left hfronts, List.map_const', List.length_range, List.sum_replicate_nat]
  unfold ends zigzag
  split
  · rename_i hfirst
    have hlt : rank * half + slot < ranks * half := by
      have hle := Nat.mul_le_mul_right half (Nat.succ_le_of_lt hrank)
      rw [Nat.succ_mul] at hle
      omega
    rw [List.getElem?_append_left (by omega), List.getElem?_append_left (by rw [hfront rank hrank]; exact hfirst),
      getElem?_flatMap_of_length hfronts hfirst, List.getElem?_range hrank, Option.bind_some]
  · rename_i hsecond
    have hchunks : (2 * ranks - 1 - rank) * half = ranks * half + (ranks - 1 - rank) * half := by
      rw [← Nat.add_mul]
      congr 1
      omega
    have hreverse : (List.range ranks).reverse[ranks - 1 - rank]? = some rank := by
      rw [List.getElem?_reverse (by rw [List.length_range]; omega), List.length_range,
        List.getElem?_range (by omega), show ranks - 1 - (ranks - 1 - rank) = rank by omega]
    rw [hchunks, List.getElem?_append_right (by omega), hlength,
      List.getElem?_append_right (by rw [hfront rank hrank]; omega), hfront rank hrank,
      show ranks * half + (ranks - 1 - rank) * half + (slot - half) - ranks * half =
        (ranks - 1 - rank) * half + (slot - half) by omega,
      getElem?_flatMap_of_length hbacks (by omega), hreverse, Option.bind_some]

/-- **The chunks of ranks that hold a row** give the row. -/
theorem take_ends {row : List α} (hfront : ∀ j < ranks, (front j).length = half)
    (hback : ∀ j < ranks, (back j).length = half) (hrow : row.length ≤ 2 * ranks * half)
    (h : ∀ rank < ranks, Holds (zigzag ranks half rank) (2 * half) row (front rank ++ back rank)) :
    (ends ranks front back).take row.length = row := by
  refine List.ext_getElem? fun g => ?_
  by_cases hg : g < row.length
  · obtain ⟨rank, hrank, slot, hslot, rfl⟩ := exists_zigzag (Nat.lt_of_lt_of_le hg hrow)
    rw [List.getElem?_take_of_lt hg, getElem?_ends hfront hback hrank hslot, (h rank hrank).entry slot hslot hg]
  · rw [List.getElem?_eq_none (by rw [List.length_take]; omega), List.getElem?_eq_none (by omega)]

/-- **The parts of ranks that hold a row**, put together from their halves: the row comes first. -/
theorem mergeEnds_halves {row : List α} {part : ℕ → List α}
    (h : ∀ j < ranks, Holds (zigzag ranks half j) (2 * half) row (part j)) (hrow : row.length ≤ 2 * ranks * half)
    (hbuffer : buffer.length = 2 * ranks * half) :
    ∃ out, mergeEnds (2 * ranks * half) half (fun j => (part j).take half) (fun j => (part j).drop half) ranks buffer =
      some out ∧ out.length = 2 * ranks * half ∧ out.take row.length = row := by
  have hfront : ∀ j < ranks, ((part j).take half).length = half := by
    intro j hj
    rw [List.length_take, (h j hj).length_eq]
    omega
  have hback : ∀ j < ranks, ((part j).drop half).length = half := by
    intro j hj
    rw [List.length_drop, (h j hj).length_eq]
    omega
  refine ⟨_, mergeEnds_eq hfront hback hbuffer, length_ends hfront hback, take_ends hfront hback hrow fun j hj => ?_⟩
  rw [List.take_append_drop]
  exact h j hj

end Merge

end Opd.Lib
