import Opd.Lib.Zigzag

/-!
# Buffers filled chunk by chunk

A loop goes over the starts of the chunks of a buffer and writes in each pass what belongs there. The last chunk
may be shorter.

* `foldlM_chunks`: what is in the buffer behind the loop.
* `assign_chunk`: the assignment to the slice of a chunk.
-/

namespace Opd.Lib

variable {γ : Type}

theorem ceil_of_lt {n start c : ℕ} (hpos : 0 < c) (hstart : start < n) :
    (n - start + c - 1) / c = (n - (start + c) + c - 1) / c + 1 := by
  rcases Nat.lt_or_ge n (start + c) with hlast | hmore
  · have hone : (n - start + c - 1) / c = 1 := by
      rw [Nat.div_eq_iff hpos]
      omega
    have hnone : (c - 1) / c = 0 := Nat.div_eq_of_lt (by omega)
    rw [hone, show n - (start + c) = 0 by omega, Nat.zero_add, hnone]
  · rw [← Nat.add_div_right _ hpos]
    congr 1
    omega

theorem take_append_block (start c : ℕ) (l : List γ) : l.take start ++ block start c l = l.take (start + c) := by
  rw [block, ← List.take_add]

theorem block_min (start c : ℕ) (l : List γ) :
    block start (min (start + c) l.length - start) l = block start c l := by
  unfold block
  rw [List.take_eq_take_iff, List.length_drop]
  omega

/-- **The loop over the chunks** leaves all entries in the buffer, if a pass writes those of its chunk. -/
theorem foldlM_chunks {m : Type → Type} [Monad m] [LawfulMonad m] {c : ℕ} (hpos : 0 < c) {all init : List γ}
    (hinit : init.length = all.length) {body : List γ → ℕ → m (List γ)}
    (hbody : ∀ out start, out.length = all.length → start < all.length →
      body out start = pure (out.take start ++ (block start c all ++ out.drop (start + c)))) :
    (List.range' 0 ((all.length + c - 1) / c) c).foldlM body init = pure all := by
  -- the chunks before a start are written
  have hloop : ∀ count start, (all.length - start + c - 1) / c = count →
      (List.range' start count c).foldlM body (all.take start ++ init.drop start) = pure all := by
    intro count
    induction count with
    | zero =>
      intro start hcount
      have hend : all.length ≤ start := by
        rw [Nat.div_eq_zero_iff] at hcount
        omega
      rw [List.range'_zero, List.foldlM_nil, List.take_of_length_le hend, List.drop_eq_nil_of_le (by omega),
        List.append_nil]
    | succ count ih =>
      intro start hcount
      have hstart : start < all.length := by
        by_contra hge
        rw [show all.length - start = 0 by omega, Nat.zero_add, Nat.div_eq_of_lt (by omega)] at hcount
        omega
      have htake : (all.take start).length = start := by
        rw [List.length_take]
        omega
      have hlength : (all.take start ++ init.drop start).length = all.length := by
        rw [List.length_append, htake, List.length_drop]
        omega
      have hdone : (all.take start ++ init.drop start).take start = all.take start := by
        rw [List.take_append_of_le_length (by omega), List.take_take, Nat.min_self]
      have hrest : (all.take start ++ init.drop start).drop (start + c) = init.drop (start + c) := by
        rw [List.drop_append, htake, List.drop_eq_nil_of_le (by omega), List.nil_append, List.drop_drop]
        congr 1
        omega
      have hpass := hbody _ start hlength hstart
      rw [hdone, hrest, ← List.append_assoc, take_append_block] at hpass
      rw [List.range'_succ, List.foldlM_cons, hpass, pure_bind]
      refine ih (start + c) ?_
      rw [ceil_of_lt hpos hstart] at hcount
      omega
  exact hloop _ 0 rfl

/-- **The assignment of a chunk** to its slice of a buffer. -/
theorem assign_chunk {c start : ℕ} {out all : List γ} (hlength : out.length = all.length)
    (hstart : start < all.length) :
    assign out start (min (start + c) all.length) (block start c all) =
      some (out.take start ++ (block start c all ++ out.drop (start + c))) := by
  have hblock : ∀ l : List γ, (block start c l).length = min c (l.length - start) := by
    intro l
    rw [block, List.length_take, List.length_drop]
  have hparts : out = out.take start ++ (block start c out ++ out.drop (start + c)) := by
    rw [← List.append_assoc, take_append_block, List.take_append_drop]
  rw [hparts, assign_middle, ← hparts]
  · rw [List.length_take]
    omega
  · rw [hblock]
    omega
  · rw [hblock, hblock, hlength]

end Opd.Lib
