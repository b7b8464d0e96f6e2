import Mathlib.Algebra.Ring.Int.Defs
import Opd.Clight.PromptSpan
import Opd.Lib.Groups

/-!
# Alignment of the teacher's entries with the response

`score` places the last entries of an output at the response positions, whatever the
dedup kept. A response token gets the entry of its own occurrence in the prompt when
as many entries as response tokens come after it.

* `rowHolds_of_rowAligned`: on a row that is `RowAligned` every response token gets its
  own entry, whatever the engine returns.
* `rowAligned_of_rowHolds`: on any other row some engine shows the misplacement.
* `score_aligned_iff`: the same for a batch.
-/

namespace Opd.Clight

open Lib TeacherConfig

variable {A : Type*} {L : Type} (c : TeacherConfig) (media : MediaArgs A)

abbrev mmTokens (t : ℕ) : Bool := isMm media.imageTokenId media.videoTokenId t

/-- The prompt of row `i`. -/
def promptOfRow (i : ℕ) (seq : List ℕ) (am : List Bool) : TeacherPrompt A :=
  c.buildPrompt media i (spanTokens seq am)

variable {c media}

/-- The cell holds an entry that the engine produced for the occurrence of the token at
`t + 1` in the prompt of row `i`. -/
def FromOccurrence (E : Engine A L c.topk (mmTokens media)) (i : ℕ) (seq : List ℕ) (am : List Bool)
    (t : ℕ) (cell : Cell L) : Prop :=
  ∃ (x : ℕ) (group : List (LogprobsDict L)) (d : LogprobsDict L),
    (keptPositions c media seq am)[x]? = some (t + 1) ∧
    (E.positions i (promptOfRow c media i seq am))[x]? = some group ∧ d ∈ group ∧ Holds c.topk d cell

/-- Placing the output of row `i` succeeds, and every response position gets an entry
of its own token. -/
def RowHolds (E : Engine A L c.topk (mmTokens media)) (i : ℕ) (full : List (Cell L)) (seq : List ℕ)
    (am resp : List Bool) : Prop :=
  ∃ out, c.placeRow full (c.rowSpan media i seq.length seq am (some (0, resp)))
      (outputOf (E.positions i (promptOfRow c media i seq am)).flatten) = .ok out ∧
    ∀ t, resp[t]? = some true → ∃ cell, out[t]? = some cell ∧ FromOccurrence E i seq am t cell

variable (c media) in
/-- **When a row is aligned.** It has an active position, and every response token is in
the prompt, not first, and followed there by response tokens only, none of which is an
image or video token. -/
structure RowAligned (seq : List ℕ) (am resp : List Bool) : Prop where
  active : true ∈ am
  response : ∀ t, resp[t]? = some true →
    (∃ a ≤ t, am[a]? = some true) ∧ InSpan am (t + 1) ∧ ¬ Dropped (collapsed c media) seq (t + 1) ∧
      ∀ u, t < u → InSpan am (u + 1) → ¬ Dropped (collapsed c media) seq (u + 1) →
        resp[u]? = some true ∧ (seq[u + 1]?).any (mmTokens media) = false

/-! ## Groups of positions -/

theorem forall₂_positions (E : Engine A L c.topk (mmTokens media)) (i : ℕ) (seq : List ℕ) (am : List Bool) :
    List.Forall₂ (fun e group => group ≠ [] ∧ (mmTokens media e.2 = false → group.length = 1))
      (c.keptTokens media (spanTokens seq am)) (E.positions i (promptOfRow c media i seq am)) := by
  have hids : (promptOfRow c media i seq am).promptTokenIds =
      (c.keptTokens media (spanTokens seq am)).map Prod.snd := rfl
  have hlen := E.length_positions i (promptOfRow c media i seq am)
  rw [hids, List.length_map] at hlen
  rw [List.forall₂_iff_get]
  refine ⟨hlen.symm, fun x h1 h2 => ⟨E.ne_nil i _ _ (List.getElem_mem h2), fun hmm => ?_⟩⟩
  refine E.single i (promptOfRow c media i seq am) x _ _ ?_ (List.getElem?_eq_getElem h2) hmm
  rw [hids, List.getElem?_map, List.getElem?_eq_getElem h1]
  rfl

/-! ## Aligned rows -/

section

variable {seq : List ℕ} {am resp : List Bool}

variable (c media am) in
theorem responseShiftIndices_eq (i : ℕ) (hresp : resp.length = seq.length - 1) :
    (c.rowSpan media i seq.length seq am (some (0, resp))).responseShiftIndices = some (nonzero resp) := by
  have hlt : ∀ t ∈ nonzero resp, t < seq.length - 1 := by
    intro t ht
    obtain ⟨h, -⟩ := List.getElem?_eq_some_iff.1 (mem_nonzero.1 ht)
    omega
  have hid : (nonzero resp).map (0 + ·) = nonzero resp := by simp
  simp only [TeacherConfig.rowSpan, Option.map_some, hid, Option.some.injEq]
  rw [List.filter_eq_self]
  exact fun t ht => by simpa using hlt t ht

theorem mem_keptPositions_of_response (hlen : seq.length = am.length) (ha : RowAligned c media seq am resp)
    {t : ℕ} (ht : resp[t]? = some true) : t + 1 ∈ keptPositions c media seq am := by
  obtain ⟨-, hspan, hdrop, -⟩ := ha.response t ht
  exact (mem_keptPositions c media hlen ha.active (t + 1)).2 ⟨hspan, Or.inr hdrop⟩

/-- After a response position, a kept position is a response position and no image or
video token. -/
theorem response_of_kept (hlen : seq.length = am.length) (ha : RowAligned c media seq am resp)
    {t v : ℕ} (ht : resp[t]? = some true) (hv : v ∈ keptPositions c media seq am) (hlt : t + 1 < v) :
    ∃ u, v = u + 1 ∧ t < u ∧ resp[u]? = some true ∧ (seq[v]?).any (mmTokens media) = false := by
  obtain ⟨⟨a, hat, hact⟩, -, -, hlater⟩ := ha.response t ht
  obtain ⟨hspan, hcase⟩ := (mem_keptPositions c media hlen ha.active v).1 hv
  obtain ⟨-, -, hiff⟩ := activeSpan_spec ha.active
  have hstart : (activeSpan am).1 ≤ a := ((hiff a).1 ⟨⟨a, Nat.le_refl _, hact⟩, a, Nat.le_refl _, hact⟩).1
  have hdrop : ¬ Dropped (collapsed c media) seq v := by
    rcases hcase with h | h
    · omega
    · exact h
  have hu : v - 1 + 1 = v := by omega
  obtain ⟨hr, hmm⟩ := hlater (v - 1) (by omega) (by rw [hu]; exact hspan) (by rw [hu]; exact hdrop)
  rw [hu] at hmm
  exact ⟨v - 1, hu.symm, by omega, hr, hmm⟩

theorem length_later (hlen : seq.length = am.length) (ha : RowAligned c media seq am resp) {t : ℕ}
    {P Q VA VB : List ℕ} (ht : resp[t]? = some true) (hR : nonzero resp = P ++ t :: Q)
    (hV : keptPositions c media seq am = VA ++ (t + 1) :: VB) : Q.length = VB.length := by
  obtain ⟨-, hQ⟩ := split_of_sorted (sorted_nonzero resp) hR
  obtain ⟨-, hVB⟩ := split_of_sorted (sorted_keptPositions c media seq am) hV
  have hRn := nodup_nonzero resp
  have hVn := (sorted_keptPositions c media seq am).imp (S := (· ≠ ·)) fun h => Nat.ne_of_lt h
  rw [hR, List.nodup_append, List.nodup_cons] at hRn
  rw [hV, List.pairwise_append, List.pairwise_cons] at hVn
  have hsub : Q.map (· + 1) ⊆ VB := by
    intro v hv
    obtain ⟨u, hu, rfl⟩ := List.mem_map.1 hv
    obtain ⟨hur, hlt⟩ := (hQ u).1 hu
    exact (hVB _).2 ⟨mem_keptPositions_of_response hlen ha (mem_nonzero.1 hur), by omega⟩
  have hsup : VB ⊆ Q.map (· + 1) := by
    intro v hv
    obtain ⟨hvk, hlt⟩ := (hVB v).1 hv
    obtain ⟨u, rfl, htu, hur, -⟩ := response_of_kept hlen ha ht hvk hlt
    exact List.mem_map.2 ⟨u, (hQ u).2 ⟨mem_nonzero.2 hur, htu⟩, rfl⟩
  have hnodup : (Q.map (· + 1)).Nodup := hRn.2.1.2.map fun a b h => Nat.succ.inj h
  have := (subset_iff_length_eq hnodup hVn.2.1.2 hsub).1 hsup
  rwa [List.length_map] at this

theorem split_at_kept (E : Engine A L c.topk (mmTokens media)) (i : ℕ) {v : ℕ}
    (hv : v ∈ keptPositions c media seq am) :
    ∃ KA e KB GA group GB, c.keptTokens media (spanTokens seq am) = KA ++ e :: KB ∧
      (activeSpan am).1 + e.1 = v ∧
      keptPositions c media seq am =
        KA.map (fun e => (activeSpan am).1 + e.1) ++ v :: KB.map (fun e => (activeSpan am).1 + e.1) ∧
      E.positions i (promptOfRow c media i seq am) = GA ++ group :: GB ∧ GA.length = KA.length ∧
      group ≠ [] ∧
      List.Forall₂ (fun e group => group ≠ [] ∧ (mmTokens media e.2 = false → group.length = 1)) KB GB := by
  obtain ⟨e, he, rfl⟩ := List.mem_map.1 hv
  obtain ⟨x, hx⟩ := List.getElem?_of_mem he
  obtain ⟨KA, KB, GA, group, GB, hK, hG, hKA, hGA, hgroup, hrest⟩ :=
    split_groups (forall₂_positions E i seq am) hx
  refine ⟨KA, e, KB, GA, group, GB, hK, rfl, ?_, hG, by omega, hgroup.1, hrest⟩
  unfold keptPositions
  rw [hK, List.map_append, List.map_cons]

variable (c media) in
theorem start_mem_keptPositions (hlen : seq.length = am.length) (hact : true ∈ am) :
    (activeSpan am).1 ∈ keptPositions c media seq am := by
  obtain ⟨hlt, -, hiff⟩ := activeSpan_spec hact
  exact (mem_keptPositions c media hlen hact _).2 ⟨(hiff _).2 ⟨Nat.le_refl _, hlt⟩, Or.inl rfl⟩

/-- The prompt holds more positions than there are response positions: its first active
token comes before the first response token. -/
theorem length_response_lt (hlen : seq.length = am.length) (ha : RowAligned c media seq am resp) :
    (nonzero resp).length < (keptPositions c media seq am).length := by
  have hstart := start_mem_keptPositions c media hlen ha.active
  cases hR : nonzero resp with
  | nil => exact List.length_pos_of_mem hstart
  | cons t Q =>
    have ht : resp[t]? = some true := by
      rw [← mem_nonzero, hR]
      exact List.mem_cons_self ..
    obtain ⟨VA, VB, hV⟩ := List.append_of_mem (mem_keptPositions_of_response hlen ha ht)
    have hQ := length_later hlen ha ht (P := []) hR hV
    obtain ⟨hVA, -⟩ := split_of_sorted (sorted_keptPositions c media seq am) hV
    obtain ⟨⟨a, hat, hact⟩, -⟩ := ha.response t ht
    obtain ⟨-, -, hiff⟩ := activeSpan_spec ha.active
    have hsa := ((hiff a).1 ⟨⟨a, Nat.le_refl _, hact⟩, a, Nat.le_refl _, hact⟩).1
    have hpos := List.length_pos_of_mem ((hVA _).2 ⟨hstart, by omega⟩)
    rw [hV, List.length_append, List.length_cons, List.length_cons, hQ]
    omega

/-- The engine's entries for a row: at least one for every token of the prompt, all of
them complete. -/
theorem entries_of_row (E : Engine A L c.topk (mmTokens media)) (i : ℕ) (hlen : seq.length = am.length)
    (hact : true ∈ am) :
    ∃ d ds, (E.positions i (promptOfRow c media i seq am)).flatten = d :: ds ∧
      (keptPositions c media seq am).length ≤ ds.length + 1 ∧ ∀ d' ∈ ds, Complete c.topk d' := by
  have hflat : (keptPositions c media seq am).length ≤
      (E.positions i (promptOfRow c media i seq am)).flatten.length := by
    have := length_flatten_le (fun _ _ h => h.1) (forall₂_positions E i seq am)
    unfold keptPositions
    rwa [List.length_map]
  have hpos := List.length_pos_of_mem (start_mem_keptPositions c media hlen hact)
  obtain ⟨d, ds, hds⟩ := List.exists_cons_of_length_pos (Nat.lt_of_lt_of_le hpos hflat)
  refine ⟨d, ds, hds, by rwa [hds, List.length_cons] at hflat, fun d' hd' => ?_⟩
  have hmem : d' ∈ (E.positions i (promptOfRow c media i seq am)).flatten := by
    rw [hds]
    exact List.mem_cons_of_mem _ hd'
  obtain ⟨group, hgroup, hin⟩ := List.mem_flatten.1 hmem
  exact E.complete i _ group hgroup d' hin

/-- The entry with as many entries after it as response positions is of the occurrence
of the token. -/
theorem fromOccurrence_of_tail (hlen : seq.length = am.length) (ha : RowAligned c media seq am resp)
    (E : Engine A L c.topk (mmTokens media)) (i : ℕ) {t : ℕ} {P Q : List ℕ} {X Y : List (LogprobsDict L)}
    {e : LogprobsDict L} {cell : Cell L} (ht : resp[t]? = some true) (hR : nonzero resp = P ++ t :: Q)
    (hflat : (E.positions i (promptOfRow c media i seq am)).flatten = X ++ e :: Y)
    (hY : Y.length = Q.length) (hholds : Holds c.topk e cell) : FromOccurrence E i seq am t cell := by
  obtain ⟨KA, k, KB, GA, group, GB, hK, hk, hVK, hG, hGA, hne, hrest⟩ :=
    split_at_kept E i (mem_keptPositions_of_response hlen ha ht)
  have hQ := length_later hlen ha ht hR hVK
  obtain ⟨-, hVB⟩ := split_of_sorted (sorted_keptPositions c media seq am) hVK
  -- no group after the token has more than one position
  have hsingle : GB.flatten.length = KB.length := by
    refine length_flatten_of_single (fun b hb g hg => hg.2 ?_) hrest
    have hbV : (activeSpan am).1 + b.1 ∈ KB.map fun e => (activeSpan am).1 + e.1 :=
      List.mem_map.2 ⟨b, hb, rfl⟩
    obtain ⟨hbk, hblt⟩ := (hVB _).1 hbV
    obtain ⟨-, -, -, -, hmm⟩ := response_of_kept hlen ha ht hbk hblt
    rw [keptTokens_getElem c media hlen ha.active b (by rw [hK]; simp [hb])] at hmm
    simpa using hmm
  refine ⟨KA.length, group, e, ?_, ?_, ?_, hholds⟩
  · rw [hVK, List.getElem?_append_right (by simp)]
    simp
  · rw [hG, List.getElem?_append_right (by omega), hGA, Nat.sub_self, List.getElem?_cons_zero]
  · refine mem_of_same_tail (X := X) (Z := GA.flatten) (W := GB.flatten) (Y := Y) ?_ ?_ hne
    · rw [← hflat, hG, List.flatten_append, List.flatten_cons, List.append_assoc]
    · rw [hY, hQ, List.length_map, hsingle]

/-- **Aligned rows**: whatever the engine returns, every response token gets its own
entry. -/
theorem rowHolds_of_rowAligned (hlen : seq.length = am.length) (hresp : resp.length = seq.length - 1)
    (ha : RowAligned c media seq am resp) {full : List (Cell L)} (hfull : full.length = resp.length)
    (E : Engine A L c.topk (mmTokens media)) (i : ℕ) : RowHolds E i full seq am resp := by
  have hspan := responseShiftIndices_eq c media am i hresp
  obtain ⟨d, ds, hds, hkept, hcomplete⟩ := entries_of_row E i hlen ha.active
  obtain ⟨cells, hcells, -⟩ := extractRows_ok hcomplete 0
  have henough : (nonzero resp).length ≤ ds.length := by
    have := length_response_lt hlen ha
    omega
  by_cases hnone : (nonzero resp).length = 0
  -- no response token: the row stays as it is
  · refine ⟨full, ?_, fun t ht => ?_⟩
    · rw [hds]
      exact (placeRow_eq hspan hcells).1 hnone
    · have := mem_nonzero.2 ht
      rw [List.length_eq_zero_iff.1 hnone] at this
      exact absurd this List.not_mem_nil
  · have hok : c.placeRow full _ (outputOf (d :: ds)) =
        .ok (indexPut full (nonzero resp) (takeLast (nonzero resp).length cells)) :=
      (placeRow_eq hspan hcells).2.2 hnone henough
    refine ⟨indexPut full (nonzero resp) (takeLast (nonzero resp).length cells), ?_, fun t ht => ?_⟩
    · rw [hds]
      exact hok
    -- the position `t` of the response, and the entry of the tail that lands there
    · obtain ⟨P, Q, hR, -, -⟩ := nonzero_split ht
      have htl : t < full.length := by
        obtain ⟨h, -⟩ := List.getElem?_eq_some_iff.1 ht
        omega
      obtain ⟨out, hout, cell, X, e, Y, hcell, hsplit, hY, hholds⟩ :=
        placeRow_at (d := d) (by rw [hspan, hR]) (hR ▸ nodup_nonzero resp) (hR ▸ henough) htl
          hcomplete
      rw [hok, Except.ok.injEq] at hout
      refine ⟨cell, by rw [hout]; exact hcell, ?_⟩
      exact fromOccurrence_of_tail hlen ha E i ht hR (X := d :: X) (by rw [hds, hsplit]; rfl) hY hholds

end

/-! ## An engine that tells all positions apart -/

section

variable [Zero L]

/-- A complete dictionary that names its position `n`. -/
def entryOf (topk n : ℕ) : LogprobsDict L :=
  (List.range topk).map fun r => (n * topk + r, ⟨some r.succPNat, 0⟩)

theorem mem_entryOf {topk n : ℕ} {item : ℕ × TokenLogprob L} (h : item ∈ (entryOf topk n : LogprobsDict L))
    {r : ℕ} (hr : item.2.rank = some r.succPNat) : item = (n * topk + r, ⟨some r.succPNat, 0⟩) := by
  obtain ⟨r', -, rfl⟩ := List.mem_map.1 h
  obtain rfl : r' = r := by
    have := congrArg PNat.natPred (Option.some.inj hr)
    rwa [Nat.natPred_succPNat, Nat.natPred_succPNat] at this
  rfl

theorem complete_entryOf (topk n : ℕ) : Complete topk (entryOf topk n : LogprobsDict L) where
  exists_item := fun r hr => ⟨_, List.mem_map.2 ⟨r, List.mem_range.2 hr, rfl⟩, rfl⟩
  unique := fun r _ a ha b hb hra hrb => by rw [mem_entryOf ha hra, mem_entryOf hb hrb]

theorem entryOf_unique {topk m n : ℕ} (hk : 0 < topk) {cell : Cell L}
    (hm : Holds topk (entryOf topk m) cell) (hn : Holds topk (entryOf topk n) cell) : m = n := by
  have h : ∀ j, Holds topk (entryOf topk j : LogprobsDict L) cell → cell[0]? = some (j * topk, 0) := by
    intro j hj
    obtain ⟨item, hitem, hrank⟩ := (complete_entryOf (L := L) topk j).exists_item 0 hk
    rw [hj.2 0 hk item hitem hrank, mem_entryOf hitem hrank, Nat.add_zero]
  have h1 := h m hm
  rw [h n hn, Option.some.injEq, Prod.mk.injEq] at h1
  exact (Nat.eq_of_mul_eq_mul_right hk h1.1).symm

/-- How many positions a token has: `w` for image and video tokens. -/
def widthOf (mm : ℕ → Bool) (w t : ℕ) : ℕ := if mm t then w else 1

/-- The engine that gives `w` positions to every image and video token, and every
position its own number. -/
def numberingEngine (topk : ℕ) (mm : ℕ → Bool) (w : ℕ) (hw : 0 < w) : Engine A L topk mm where
  positions := fun _ p => (labelGroups 0 (p.promptTokenIds.map (widthOf mm w))).map (·.map (entryOf topk))
  length_positions := fun _ p => by rw [List.length_map, length_labelGroups, List.length_map]
  ne_nil := by
    intro _ p group hgroup
    obtain ⟨labels, hlabels, rfl⟩ := List.mem_map.1 hgroup
    obtain ⟨x, hx⟩ := List.getElem?_of_mem hlabels
    obtain ⟨v, hv, hlen⟩ := mem_labelGroups hx
    rw [List.getElem?_map, Option.map_eq_some_iff] at hv
    obtain ⟨t, -, rfl⟩ := hv
    have hpos : 0 < widthOf mm w t := by
      unfold widthOf
      split <;> omega
    refine List.ne_nil_of_length_pos ?_
    rw [List.length_map]
    omega
  single := by
    intro _ p x t group ht hgroup hmm
    rw [List.getElem?_map, Option.map_eq_some_iff] at hgroup
    obtain ⟨labels, hlabels, rfl⟩ := hgroup
    obtain ⟨v, hv, hlen⟩ := mem_labelGroups hlabels
    rw [List.getElem?_map, ht, Option.map_some, Option.some.injEq] at hv
    rw [List.length_map, hlen, ← hv]
    simp [widthOf, hmm]
  complete := by
    intro _ p group hgroup d hd
    obtain ⟨labels, -, rfl⟩ := List.mem_map.1 hgroup
    obtain ⟨n, -, rfl⟩ := List.mem_map.1 hd
    exact complete_entryOf topk n

def keptWidths (mm : ℕ → Bool) (w : ℕ) (K : List (ℕ × ℕ)) : List ℕ := K.map fun e => widthOf mm w e.2

theorem numbering_positions (i w : ℕ) (hw : 0 < w) (seq : List ℕ) (am : List Bool) :
    (numberingEngine c.topk (mmTokens media) w hw : Engine A L c.topk (mmTokens media)).positions i
        (promptOfRow c media i seq am) =
      (labelGroups 0 (keptWidths (mmTokens media) w (c.keptTokens media (spanTokens seq am)))).map
        (·.map (entryOf c.topk)) := by
  have hids : (promptOfRow c media i seq am).promptTokenIds =
      (c.keptTokens media (spanTokens seq am)).map Prod.snd := rfl
  unfold numberingEngine
  dsimp only
  rw [hids, List.map_map]
  rfl

variable (c media) in
theorem flatten_numbering (i w : ℕ) (hw : 0 < w) (seq : List ℕ) (am : List Bool) :
    ((numberingEngine c.topk (mmTokens media) w hw : Engine A L c.topk (mmTokens media)).positions i
        (promptOfRow c media i seq am)).flatten =
      (List.range (keptWidths (mmTokens media) w (c.keptTokens media (spanTokens seq am))).sum).map
        (entryOf c.topk) := by
  rw [numbering_positions, ← List.map_flatten, flatten_labelGroups, List.range_eq_range']

theorem numbering_group {i w : ℕ} {hw : 0 < w} {seq : List ℕ} {am : List Bool} {KA KB : List (ℕ × ℕ)}
    {k : ℕ × ℕ} (hK : c.keptTokens media (spanTokens seq am) = KA ++ k :: KB) :
    ((numberingEngine c.topk (mmTokens media) w hw : Engine A L c.topk (mmTokens media)).positions i
        (promptOfRow c media i seq am))[KA.length]? =
      some ((List.range' (keptWidths (mmTokens media) w KA).sum (widthOf (mmTokens media) w k.2)).map
        (entryOf c.topk)) := by
  have hlen : (keptWidths (mmTokens media) w KA).length = KA.length := List.length_map _
  have hsplit : keptWidths (mmTokens media) w (KA ++ k :: KB) =
      keptWidths (mmTokens media) w KA ++ widthOf (mmTokens media) w k.2 ::
        keptWidths (mmTokens media) w KB := by
    unfold keptWidths
    rw [List.map_append, List.map_cons]
  rw [numbering_positions, hK, hsplit, List.getElem?_map, ← hlen, labelGroups_getElem, Nat.zero_add]
  rfl

end

/-! ## Rows that are not aligned -/

section

variable {seq : List ℕ} {am resp : List Bool} {full : List (Cell L)}
  {E : Engine A L c.topk (mmTokens media)} {i : ℕ}

theorem active_of_rowHolds (h : RowHolds E i full seq am resp) : true ∈ am := by
  by_contra hno
  obtain ⟨out, hout, -⟩ := h
  have hids : (promptOfRow c media i seq am).promptTokenIds = [] := by
    unfold promptOfRow TeacherConfig.buildPrompt
    rw [spanTokens_of_inactive hno, keptTokens_eq]
    rfl
  have hlen := E.length_positions i (promptOfRow c media i seq am)
  rw [hids, List.length_nil, List.length_eq_zero_iff] at hlen
  rw [hlen] at hout
  exact placeRow_nil _ _ hout

theorem kept_of_rowHolds (h : RowHolds E i full seq am resp) {t : ℕ} (ht : resp[t]? = some true) :
    t + 1 ∈ keptPositions c media seq am := by
  obtain ⟨out, -, hcells⟩ := h
  obtain ⟨cell, -, x, -, -, hx, -⟩ := hcells t ht
  exact List.mem_of_getElem? hx

theorem length_le_of_rowHolds (hresp : resp.length = seq.length - 1) (h : RowHolds E i full seq am resp)
    {d : LogprobsDict L} {ds : List (LogprobsDict L)}
    (hds : (E.positions i (promptOfRow c media i seq am)).flatten = d :: ds)
    (hcomplete : ∀ d' ∈ ds, Complete c.topk d') : (nonzero resp).length ≤ ds.length := by
  obtain ⟨out, hout, -⟩ := h
  obtain ⟨cells, hcells, -⟩ := extractRows_ok hcomplete 0
  have hspan := responseShiftIndices_eq c media am i hresp
  by_contra hlt
  rw [hds] at hout
  exact (placeRow_eq hspan hcells).2.1 (by omega) (by omega) out hout

end

section

variable [Zero L] {seq : List ℕ} {am resp : List Bool} {full : List (Cell L)} {i w : ℕ} {hw : 0 < w}

theorem index_of_kept {x v : ℕ} {KA KB : List (ℕ × ℕ)} {k : ℕ × ℕ}
    (hK : c.keptTokens media (spanTokens seq am) = KA ++ k :: KB) (hk : (activeSpan am).1 + k.1 = v)
    (hx : (keptPositions c media seq am)[x]? = some v) : x = KA.length := by
  have hnodup := (sorted_keptPositions c media seq am).imp (S := (· ≠ ·)) fun h => Nat.ne_of_lt h
  have hKA : (keptPositions c media seq am)[KA.length]? = some v := by
    unfold keptPositions
    rw [hK, List.map_append, List.map_cons, List.getElem?_append_right (by simp), hk]
    simp
  obtain ⟨hxl, -⟩ := List.getElem?_eq_some_iff.1 hx
  exact (List.getElem?_inj hxl hnodup).1 (hx.trans hKA.symm)

/-- **What the numbering engine shows**: a response token's own group has the entry
with as many entries after it as response positions follow. -/
theorem numbering_bounds (hlen : seq.length = am.length) (hresp : resp.length = seq.length - 1)
    (hfull : full.length = resp.length)
    (h : RowHolds (numberingEngine c.topk (mmTokens media) w hw) i full seq am resp) {t : ℕ}
    {P Q : List ℕ} (hR : nonzero resp = P ++ t :: Q) {KA KB : List (ℕ × ℕ)} {k : ℕ × ℕ}
    (hK : c.keptTokens media (spanTokens seq am) = KA ++ k :: KB) (hk : (activeSpan am).1 + k.1 = t + 1) :
    (keptWidths (mmTokens media) w KB).sum ≤ Q.length ∧
      Q.length < (keptWidths (mmTokens media) w KB).sum + widthOf (mmTokens media) w k.2 := by
  have hact := active_of_rowHolds h
  obtain ⟨d, ds, hds, -, hcomplete⟩ :=
    entries_of_row (L := L) (numberingEngine c.topk (mmTokens media) w hw) i hlen hact
  have hspan := responseShiftIndices_eq c media am i hresp
  have henough := length_le_of_rowHolds hresp h hds hcomplete
  have ht : resp[t]? = some true := by
    rw [← mem_nonzero, hR]
    simp
  have htl : t < full.length := by
    obtain ⟨hlt, -⟩ := List.getElem?_eq_some_iff.1 ht
    omega
  obtain ⟨out, hout, hcells⟩ := h
  obtain ⟨cell, hcell, x, group, d1, hx, hgroup, hd1, hholds1⟩ := hcells t ht
  obtain ⟨out', hout', cell', X, e, Y, hcell', hsplit, hY, hholds⟩ :=
    placeRow_at (d := d) (by rw [hspan, hR]) (hR ▸ nodup_nonzero resp) (hR ▸ henough) htl hcomplete
  rw [hds, hout', Except.ok.injEq] at hout
  rw [← hout, hcell', Option.some.injEq] at hcell
  -- the number of the entry in the cell, counted from the end
  have hflat := flatten_numbering c media (L := L) i w hw seq am
  rw [hK] at hflat
  have hsum : (keptWidths (mmTokens media) w (KA ++ k :: KB)).sum = (keptWidths (mmTokens media) w KA).sum +
      (widthOf (mmTokens media) w k.2 + (keptWidths (mmTokens media) w KB).sum) := by
    unfold keptWidths
    rw [List.map_append, List.map_cons, List.sum_append, List.sum_cons]
  have hXlen : (d :: X).length + 1 + Y.length = (keptWidths (mmTokens media) w (KA ++ k :: KB)).sum := by
    have := congrArg List.length hflat
    rw [hds, hsplit, List.length_map, List.length_range] at this
    rw [← this]
    simp only [List.length_cons, List.length_append]
    omega
  have he : e = entryOf c.topk (d :: X).length := by
    have hget : (d :: ds)[(d :: X).length]? = some e := by
      rw [hsplit, ← List.cons_append, List.getElem?_append_right (Nat.le_refl _), Nat.sub_self,
        List.getElem?_cons_zero]
    rw [← hds, hflat, List.getElem?_map, List.getElem?_range (by omega), Option.map_some,
      Option.some.injEq] at hget
    exact hget.symm
  -- it is in the group of the token
  rw [index_of_kept hK hk hx, numbering_group hK, Option.some.injEq] at hgroup
  rw [← hgroup] at hd1
  obtain ⟨n, hn, rfl⟩ := List.mem_map.1 hd1
  rw [hcell, he] at hholds
  rw [entryOf_unique c.topk_pos hholds1 hholds, List.mem_range'_1] at hn
  omega

theorem sum_keptWidths_one (mm : ℕ → Bool) (K : List (ℕ × ℕ)) : (keptWidths mm 1 K).sum = K.length := by
  induction K with
  | nil => rfl
  | cons e K ih =>
    have h1 : widthOf mm 1 e.2 = 1 := by simp [widthOf]
    unfold keptWidths at ih ⊢
    rw [List.map_cons, List.sum_cons, ih, h1, List.length_cons, Nat.add_comm]

theorem sum_keptWidths_two (mm : ℕ → Bool) (K : List (ℕ × ℕ)) :
    (keptWidths mm 2 K).sum = K.length + K.countP fun e => mm e.2 := by
  induction K with
  | nil => rfl
  | cons e K ih =>
    unfold keptWidths at ih ⊢
    rw [List.map_cons, List.sum_cons, ih, List.length_cons, List.countP_cons]
    unfold widthOf
    cases mm e.2 <;> simp <;> omega

/-- **Rows that are not aligned** are misplaced for an engine that gives one position, or
two positions, to every image and video token. -/
theorem rowAligned_of_rowHolds (hlen : seq.length = am.length) (hresp : resp.length = seq.length - 1)
    (hfull : full.length = resp.length)
    (h1 : RowHolds (numberingEngine c.topk (mmTokens media) 1 Nat.one_pos) i full seq am resp)
    (h2 : RowHolds (numberingEngine c.topk (mmTokens media) 2 Nat.two_pos) i full seq am resp) :
    RowAligned c media seq am resp := by
  have hact := active_of_rowHolds h1
  have hmemK := mem_keptPositions c media hlen hact
  have hstart := start_mem_keptPositions c media hlen hact
  obtain ⟨-, -, hiff⟩ := activeSpan_spec hact
  refine ⟨hact, fun t ht => ?_⟩
  have htV := kept_of_rowHolds h1 ht
  obtain ⟨P, Q, hR, -, hQ⟩ := nonzero_split ht
  obtain ⟨KA, k, KB, -, -, -, hK, hk, hV, -⟩ :=
    split_at_kept (numberingEngine (L := L) c.topk (mmTokens media) 1 Nat.one_pos) i htV
  obtain ⟨hVA, hVB⟩ := split_of_sorted (sorted_keptPositions c media seq am) hV
  -- as many kept positions as response positions follow, and none of them is wide
  obtain ⟨hle1, hlt1⟩ := numbering_bounds hlen hresp hfull h1 hR hK hk
  obtain ⟨hle2, -⟩ := numbering_bounds hlen hresp hfull h2 hR hK hk
  have hw1 : widthOf (mmTokens media) 1 k.2 = 1 := by simp [widthOf]
  rw [sum_keptWidths_one] at hle1 hlt1
  rw [sum_keptWidths_two] at hle2
  have hcount : Q.length = KB.length := by omega
  have hnone : KB.countP (fun e => mmTokens media e.2) = 0 := by omega
  -- the first position of the prompt is no response token
  have hfirst : (activeSpan am).1 ≠ t + 1 := by
    intro heq
    obtain ⟨d, ds, hds, -, hcomplete⟩ :=
      entries_of_row (L := L) (numberingEngine c.topk (mmTokens media) 1 Nat.one_pos) i hlen hact
    have henough := length_le_of_rowHolds hresp h1 hds hcomplete
    have hflat := congrArg List.length (flatten_numbering c media (L := L) i 1 Nat.one_pos seq am)
    rw [hds, List.length_map, List.length_range, sum_keptWidths_one, hK] at hflat
    have hKA : KA = [] := by
      by_contra hne
      obtain ⟨e, KA', rfl⟩ := List.exists_cons_of_ne_nil hne
      have hmem := (hVA ((activeSpan am).1 + e.1)).1 (by simp)
      omega
    rw [hR, List.length_append, List.length_cons] at henough
    rw [hKA, List.nil_append, List.length_cons, List.length_cons] at hflat
    omega
  obtain ⟨hspan, hdrop⟩ := (hmemK (t + 1)).1 htV
  obtain ⟨a, ha, haact⟩ := ((hmemK _).1 hstart).1.1
  refine ⟨⟨a, ?_, haact⟩, hspan, hdrop.resolve_left (Ne.symm hfirst), fun u htu hu hud => ?_⟩
  · have := (hiff _).1 hspan
    omega
  · have huV : u + 1 ∈ keptPositions c media seq am := (hmemK _).2 ⟨hu, Or.inr hud⟩
    have huB := (hVB (u + 1)).2 ⟨huV, by omega⟩
    constructor
    · have hRn := nodup_nonzero resp
      have hVn := (sorted_keptPositions c media seq am).imp (S := (· ≠ ·)) fun h => Nat.ne_of_lt h
      rw [hR, List.nodup_append, List.nodup_cons] at hRn
      rw [hV, List.pairwise_append, List.pairwise_cons] at hVn
      have hsub : Q.map (· + 1) ⊆ KB.map fun e => (activeSpan am).1 + e.1 := by
        intro v hv
        obtain ⟨q, hq, rfl⟩ := List.mem_map.1 hv
        obtain ⟨hqr, hqt⟩ := (hQ q).1 hq
        exact (hVB _).2 ⟨kept_of_rowHolds h1 hqr, by omega⟩
      have hnodup : (Q.map (· + 1)).Nodup := hRn.2.1.2.map fun a b h => Nat.succ.inj h
      have hsup := (subset_iff_length_eq hnodup hVn.2.1.2 hsub).2 (by
        rw [List.length_map, List.length_map, hcount])
      obtain ⟨q, hq, hqu⟩ := List.mem_map.1 (hsup huB)
      rw [← Nat.succ.inj hqu]
      exact ((hQ q).1 hq).1
    · obtain ⟨e, he, heu⟩ := List.mem_map.1 huB
      have htok := keptTokens_getElem c media hlen hact e (by rw [hK]; simp [he])
      have hmm := List.countP_eq_zero.1 hnone e he
      rw [heu] at htok
      rw [htok]
      simpa using hmm

end

/-! ## A batch -/

/-- The arguments `compute_loss` gives to `score`. -/
def RolloutBatch.scoreArgs (b : RolloutBatch) (media : MediaArgs A) : ScoreArgs A where
  toMediaArgs := media
  sequences := b.sequences
  attentionMask := b.attentionMask
  padTokenId := b.tok.padTokenId
  responseMask := some b.responseMask

section

variable [Zero L]

/-- **The alignment of a batch.** Without a response token `compute_loss` returns before
scoring; otherwise `score` returns tensors whose cell at every response position is an
entry that the engine produced for the token at that position's label. -/
def Aligned (b : RolloutBatch) (E : Engine A L c.topk (mmTokens media)) : Prop :=
  b.responseTokens = 0 ∨ ∃ out, (c.withEngine E).score (b.scoreArgs media) = .ok out ∧
    ∀ (i : ℕ) (r : RolloutRow b.promptWidth b.completionWidth), b.rows[i]? = some r →
      ∀ t, (r.responseMask b.tok)[t]? = some true →
        ∃ cell, (out[i]?).bind (·[t]?) = some cell ∧
          FromOccurrence E i r.sequence (r.attentionMask b.tok) t cell

variable (c media) in
/-- The span and the prompt of row `i`. -/
def batchRow (b : RolloutBatch) (i : ℕ) (r : RolloutRow b.promptWidth b.completionWidth) :
    RowSpan × TeacherPrompt A :=
  (c.rowSpan media i r.sequence.length r.sequence (r.attentionMask b.tok) (some (0, r.responseMask b.tok)),
    promptOfRow c media i r.sequence (r.attentionMask b.tok))

/-- What `score` does with row `i`. -/
def placeBatchRow (E : Engine A L c.topk (mmTokens media)) (b : RolloutBatch) (i : ℕ)
    (r : RolloutRow b.promptWidth b.completionWidth) : Except String (List (Cell L)) :=
  c.placeRow (c.blankRow b.tok.padTokenId (b.promptWidth + b.completionWidth - 1)) (batchRow c media b i r).1
    (outputOf (E.positions i (batchRow c media b i r).2).flatten)

theorem rowsOf_scoreArgs (b : RolloutBatch) :
    c.rowsOf (b.scoreArgs media) 0 = b.rows.mapIdx (batchRow c media b) := by
  refine List.ext_getElem? fun i => ?_
  simp only [TeacherConfig.rowsOf, RolloutBatch.scoreArgs, RolloutBatch.sequences, List.getElem?_mapIdx,
    List.getElem?_map, Option.map_map]
  cases hr : b.rows[i]? with
  | none => rfl
  | some r =>
    have ham : b.attentionMask.rows[i]? = some (r.attentionMask b.tok) := by
      simp [RolloutBatch.attentionMask, hr]
    have hrm : b.responseMask.rows[i]? = some (r.responseMask b.tok) := by
      simp [RolloutBatch.responseMask, hr]
    simp only [Option.map_some, Function.comp_apply, TeacherConfig.rowOf, ham, hrm, Option.getD_some,
      batchRow, r.length_sequence]
    rfl

theorem responseShiftStart_scoreArgs {b : RolloutBatch} (hw : 1 < b.promptWidth + b.completionWidth) :
    responseShiftStart (b.scoreArgs media).sequences (b.scoreArgs media).responseMask = .ok 0 := by
  have h1 : ¬ ((b.promptWidth + b.completionWidth : ℕ) : ℤ) -
      ((b.promptWidth + b.completionWidth - 1 : ℕ) : ℤ) - 1 < 0 := by omega
  have h2 : (((b.promptWidth + b.completionWidth : ℕ) : ℤ) -
      ((b.promptWidth + b.completionWidth - 1 : ℕ) : ℤ) - 1).toNat = 0 := by omega
  simp only [responseShiftStart, RolloutBatch.scoreArgs, RolloutBatch.sequences,
    RolloutBatch.responseMask, List.length_map, ne_eq, not_true_eq_false, if_false, h1, h2]

/-- **`score` row by row.** -/
theorem score_ok_iff {b : RolloutBatch} {E : Engine A L c.topk (mmTokens media)}
    (hw : 1 < b.promptWidth + b.completionWidth) (out : List (List (Cell L))) :
    (c.withEngine E).score (b.scoreArgs media) = .ok out ↔
      b.rows.length = out.length ∧
        ∀ (i : ℕ) (r : RolloutRow b.promptWidth b.completionWidth) (row : List (Cell L)),
          b.rows[i]? = some r → out[i]? = some row → placeBatchRow E b i r = .ok row := by
  have hlen : ((c.withEngine E).generate
      (((c.withEngine E).rowsOf (b.scoreArgs media) 0).map Prod.snd)).length =
      ((c.withEngine E).rowsOf (b.scoreArgs media) 0).length := by
    simp [TeacherConfig.withEngine, Engine.generate]
  -- the rows that are submitted, each with the output of the engine on it
  have hzip : ((c.withEngine E).rowsOf (b.scoreArgs media) 0).zip
      ((c.withEngine E).generate (((c.withEngine E).rowsOf (b.scoreArgs media) 0).map Prod.snd)) =
      b.rows.mapIdx fun i r =>
        (batchRow c media b i r, outputOf (E.positions i (batchRow c media b i r).2).flatten) := by
    have hrows : (c.withEngine E).rowsOf (b.scoreArgs media) 0 = b.rows.mapIdx (batchRow c media b) :=
      rowsOf_scoreArgs b
    rw [hrows]
    refine List.ext_getElem (by simp [TeacherConfig.withEngine, Engine.generate]) fun i h1 h2 => ?_
    simp [TeacherConfig.withEngine, Engine.generate]
  rw [score_eq hw (responseShiftStart_scoreArgs hw) hlen, mapM_eq_ok_iff, hzip, List.forall₂_iff_get]
  constructor
  · rintro ⟨hl, hall⟩
    rw [List.length_mapIdx] at hl
    refine ⟨hl, fun i r row hr hrow => ?_⟩
    obtain ⟨hi, rfl⟩ := List.getElem?_eq_some_iff.1 hr
    obtain ⟨hio, rfl⟩ := List.getElem?_eq_some_iff.1 hrow
    have := hall i (by rw [List.length_mapIdx]; exact hi) hio
    simp only [List.get_eq_getElem, List.getElem_mapIdx] at this
    exact this
  · rintro ⟨hl, hall⟩
    refine ⟨by rw [List.length_mapIdx, hl], fun i h1 h2 => ?_⟩
    rw [List.length_mapIdx] at h1
    simp only [List.get_eq_getElem, List.getElem_mapIdx]
    exact hall i b.rows[i] out[i] (List.getElem?_eq_getElem h1) (List.getElem?_eq_getElem h2)

theorem length_blankRow (b : RolloutBatch) (r : RolloutRow b.promptWidth b.completionWidth) :
    (c.blankRow b.tok.padTokenId (b.promptWidth + b.completionWidth - 1) : List (Cell L)).length =
      (r.responseMask b.tok).length := by
  rw [r.length_responseMask]
  exact List.length_replicate

/-- **The alignment of a batch, row by row.** -/
theorem aligned_iff {b : RolloutBatch} {E : Engine A L c.topk (mmTokens media)} (h0 : b.responseTokens ≠ 0) :
    Aligned b E ↔ ∀ (i : ℕ) (r : RolloutRow b.promptWidth b.completionWidth), b.rows[i]? = some r →
      RowHolds E i (c.blankRow b.tok.padTokenId (b.promptWidth + b.completionWidth - 1)) r.sequence
        (r.attentionMask b.tok) (r.responseMask b.tok) := by
  -- a response token takes a position, so the rows are not too narrow for `score`
  have hw : 1 < b.promptWidth + b.completionWidth := by
    by_contra hle
    apply h0
    have hzero : ∀ row ∈ b.responseMask.rows, row.countP id = 0 := by
      intro row hrow
      have hwidth : row.length = b.promptWidth + b.completionWidth - 1 := b.responseMask.rect row hrow
      rw [List.length_eq_zero_iff.1 (show row.length = 0 by omega)]
      rfl
    unfold RolloutBatch.responseTokens
    rw [List.map_congr_left hzero]
    simp
  unfold Aligned
  rw [or_iff_right h0]
  constructor
  · rintro ⟨out, hout, hcells⟩ i r hr
    obtain ⟨hl, hall⟩ := (score_ok_iff hw out).1 hout
    obtain ⟨hi, -⟩ := List.getElem?_eq_some_iff.1 hr
    have hrow : out[i]? = some (out.get ⟨i, by omega⟩) := List.getElem?_eq_getElem (by omega)
    refine ⟨_, hall i r _ hr hrow, fun t ht => ?_⟩
    have := hcells i r hr t ht
    rwa [hrow] at this
  · intro h
    -- the rows that hold, one for each row of the batch
    have hex : ∀ i : ℕ, ∃ row : List (Cell L), ∀ r, b.rows[i]? = some r → placeBatchRow E b i r = .ok row ∧
        ∀ t, (r.responseMask b.tok)[t]? = some true → ∃ cell, row[t]? = some cell ∧
          FromOccurrence E i r.sequence (r.attentionMask b.tok) t cell := by
      intro i
      cases hr : b.rows[i]? with
      | none => exact ⟨[], fun r h => by cases h⟩
      | some r =>
        obtain ⟨row, hrow, hcells⟩ := h i r hr
        exact ⟨row, fun r' hr' => by
          obtain rfl := Option.some.inj hr'
          exact ⟨hrow, hcells⟩⟩
    choose row hrow using hex
    refine ⟨(List.range b.rows.length).map row, (score_ok_iff hw _).2 ⟨by simp, ?_⟩, ?_⟩
    · intro i r row' hr hrow'
      obtain ⟨hi, -⟩ := List.getElem?_eq_some_iff.1 hr
      rw [List.getElem?_map, List.getElem?_range hi, Option.map_some, Option.some.injEq] at hrow'
      rw [← hrow']
      exact (hrow i r hr).1
    · intro i r hr t ht
      obtain ⟨hi, -⟩ := List.getElem?_eq_some_iff.1 hr
      rw [List.getElem?_map, List.getElem?_range hi]
      exact (hrow i r hr).2 t ht

variable (c media) in
/-- **Alignment of a batch.** The entries of the response positions are right for every
engine exactly when the batch has no response token, or every row is `RowAligned`. -/
theorem score_aligned_iff (L : Type) [Zero L] (b : RolloutBatch) :
    (∀ E : Engine A L c.topk (mmTokens media), Aligned b E) ↔
      b.responseTokens = 0 ∨ ∀ r ∈ b.rows, RowAligned c media r.sequence (r.attentionMask b.tok)
        (r.responseMask b.tok) := by
  by_cases h0 : b.responseTokens = 0
  · exact ⟨fun _ => Or.inl h0, fun _ E => Or.inl h0⟩
  · rw [or_iff_right h0]
    have hlen : ∀ r : RolloutRow b.promptWidth b.completionWidth,
        r.sequence.length = (r.attentionMask b.tok).length ∧
          (r.responseMask b.tok).length = r.sequence.length - 1 := fun r =>
      ⟨by rw [r.length_sequence, r.length_attentionMask], by rw [r.length_responseMask, r.length_sequence]⟩
    constructor
    · intro h r hr
      obtain ⟨i, hi⟩ := List.getElem?_of_mem hr
      exact rowAligned_of_rowHolds (hlen r).1 (hlen r).2 (length_blankRow (L := L) b r)
        ((aligned_iff h0).1 (h _) i r hi) ((aligned_iff h0).1 (h _) i r hi)
    · intro h E
      refine (aligned_iff h0).2 fun i r hr => ?_
      exact rowHolds_of_rowAligned (hlen r).1 (hlen r).2 (h r (List.mem_of_getElem? hr))
        (length_blankRow b r) E i

def padHoleBatch : RolloutBatch where
  tok := { padTokenId := 0, eosTokenId := some 2 }
  promptWidth := 1
  completionWidth := 4
  rows := [{ prompt := ⟨[3], [true], rfl⟩, length_prompt := rfl, completion := [4, 0, 5, 2],
             length_completion := rfl }]

def noMedia : MediaArgs Unit where
  imagesPerSample := none
  imageTokenId := none
  videoTokenId := none
  mmProcessorKwargsPerSample := none
  multiModalDataPerSample := none

/-- **A pad token before the first EOS** takes an entry away from the response tokens
before it. -/
theorem padHole_misaligned :
    ¬ ∀ (c : TeacherConfig) (media : MediaArgs Unit) (b : RolloutBatch)
      (E : Engine Unit ℤ c.topk (mmTokens media)), Aligned b E := by
  intro h
  let c : TeacherConfig := ⟨1, Nat.one_pos, true⟩
  have h0 : padHoleBatch.responseTokens ≠ 0 := by decide
  let r : RolloutRow 1 4 := ⟨⟨[3], [true], rfl⟩, rfl, [4, 0, 5, 2], rfl⟩
  have hrow : padHoleBatch.rows[0]? = some r := rfl
  have ha : RowAligned c noMedia r.sequence (r.attentionMask padHoleBatch.tok)
      (r.responseMask padHoleBatch.tok) :=
    rowAligned_of_rowHolds rfl rfl rfl ((aligned_iff h0).1 (h c noMedia _ _) 0 r hrow)
      ((aligned_iff h0).1 (h c noMedia _ _) 0 r hrow)
  -- position 0 predicts token 4; the pad token after it is in the prompt
  obtain ⟨-, -, -, hlater⟩ := ha.response 0 (by decide)
  have hspan : InSpan (r.attentionMask padHoleBatch.tok) 2 := ⟨⟨0, by decide, by decide⟩, 3, by decide, by decide⟩
  have hkept : ¬ Dropped (collapsed c noMedia) r.sequence 2 := by
    rintro ⟨-, hmm, -⟩
    simp [r, RolloutRow.sequence, collapsed, noMedia, isMm] at hmm
  obtain ⟨hfalse, -⟩ := hlater 1 (by omega) hspan hkept
  revert hfalse
  decide

end

end Opd.Clight
