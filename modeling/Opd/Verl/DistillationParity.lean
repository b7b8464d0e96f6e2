import Opd.Verl.DistillationGradient

/-!
# The two distillation losses on a batch

The processes of FSDP share the positions of the flat batch, the ranks of Megatron the slots of the packed rows. On
both sides the outputs of a token are a function of its logits and of the teacher's entries.

* `Fsdp.returns`, `Megatron.returns`: what is returned at the tokens of a batch.
* `outputs_eq_iff`: the outputs of a token are the same exactly when the clamp leaves all its log-probs.
* `agree_iff`: the losses agree, with their gradients, exactly when the rows fit and no log-prob is at the clamp or
  below it.
-/

namespace Opd.Verl.DistillationLosses

open Lib ThdPacking

/-! ## Tokens -/

/-- A token of a batch: the student's logits, and the teacher's likeliest tokens. -/
structure Token (K : Type) (vocab k : ℕ) where
  logits : List K
  logProbs : List K
  ids : List ℕ
  length_logits : logits.length = vocab
  nodup_logits : logits.Nodup
  length_logProbs : logProbs.length = k
  length_ids : ids.length = k
  nodup_ids : ids.Nodup
  ids_lt : ∀ id ∈ ids, id < vocab

section Token

variable {K : Type} {vocab k : ℕ}

def Token.entries (tok : Token K vocab k) : List (ℕ × K) := tok.ids.zip tok.logProbs

theorem Token.length_entries (tok : Token K vocab k) : tok.entries.length = k := by
  rw [entries, List.length_zip, tok.length_ids, tok.length_logProbs, Nat.min_self]

theorem Token.entry_lt (tok : Token K vocab k) : ∀ entry ∈ tok.entries, entry.1 < vocab := fun entry h =>
  tok.ids_lt entry.1 (List.of_mem_zip h).1

variable [Field K] [LinearOrder K]

def likeliest (k : ℕ) (x : List K) : List ℕ := ((topk k x).getD []).map Prod.snd

omit [Field K] in
theorem mem_likeliest {x : List K} (hx : x.Nodup) (hk : k ≤ x.length) (id : ℕ) : id ∈ likeliest k x ↔ IsTop k x id := by
  obtain ⟨out, hout⟩ := exists_topk hk
  unfold likeliest
  rw [hout, Option.getD_some]
  constructor
  · intro hid
    obtain ⟨p, hp, rfl⟩ := List.mem_map.1 hid
    exact ⟨p.1, (mem_topk hx hout).1 hp⟩
  · rintro ⟨a, hget⟩
    exact List.mem_map.2 ⟨(a, id), (mem_topk hx hout).2 hget, rfl⟩

theorem positionOutputs_congr (E : ExpLog K) (clamp massClamp : Option K) (x : List K) (entries : List (ℕ × K))
    {ids ids' : List ℕ} (h : ∀ id, id ∈ ids ↔ id ∈ ids') :
    positionOutputs E clamp massClamp x entries ids = positionOutputs E clamp massClamp x entries ids' := by
  have hmask : ∀ teacherIds, overlapMask teacherIds ids = overlapMask teacherIds ids' := fun teacherIds =>
    List.map_congr_left fun id _ => decide_eq_decide.2 (h id)
  unfold positionOutputs
  rw [hmask]

/-- The outputs of a token, with the log-probs of the masses clamped on their own. -/
def tokenOutputs (E : ExpLog K) (clamp massClamp : Option K) (tok : Token K vocab k) : Outputs K :=
  positionOutputs E clamp massClamp tok.logits tok.entries (likeliest k tok.logits)

def Unclamped (E : ExpLog K) (clamp : Option K) (tok : Token K vocab k) : Prop :=
  ∀ bound ∈ clamp, ∀ entry ∈ tok.entries, bound ≤ entry.2 ∧ bound ≤ sourceAt E tok.logits entry

variable {E : ExpLog K} [IsStrictOrderedRing K]

theorem sum_clamped_eq_iff (hE : E.Lawful) {β : Type} (l : List β) (f : β → K) (bound : K) :
    (l.map fun b => E.exp (clampMin (some bound) (f b))).sum = (l.map fun b => E.exp (f b)).sum ↔
      ∀ b ∈ l, bound ≤ f b := by
  constructor
  · intro hsum
    by_contra hnot
    push Not at hnot
    obtain ⟨b, hb, hlt⟩ := hnot
    have hless : (l.map fun b => E.exp (f b)).sum < (l.map fun b => E.exp (clampMin (some bound) (f b))).sum := by
      refine List.sum_lt_sum _ _ (fun b _ => hE.exp_strictMono.monotone (le_max_left _ _)) ⟨b, hb, ?_⟩
      exact hE.exp_strictMono (lt_max_of_lt_right hlt)
    exact hless.ne' hsum
  · intro hle
    refine congrArg List.sum (List.map_congr_left fun b hb => ?_)
    exact congrArg E.exp (max_eq_left (hle b hb))

/-- **The outputs of a token are the same exactly when** the clamp leaves its log-probs. -/
theorem outputs_eq_iff (hE : E.Lawful) (clamp : Option K) (tok : Token K vocab k) :
    tokenOutputs E clamp clamp tok = tokenOutputs E clamp none tok ↔ Unclamped E clamp tok := by
  cases clamp with
  | none => exact ⟨fun _ bound h => absurd h (Option.not_mem_none bound), fun _ => rfl⟩
  | some bound =>
    have hstudent := sum_clamped_eq_iff hE tok.entries (sourceAt E tok.logits) bound
    have hteacher := sum_clamped_eq_iff hE tok.entries Prod.snd bound
    constructor
    · intro heq
      have hmass := congrArg Outputs.studentMass heq
      have hteacherMass := congrArg Outputs.teacherMass heq
      rintro _ ⟨⟩ entry hentry
      exact ⟨hteacher.1 hteacherMass entry hentry, hstudent.1 hmass entry hentry⟩
    · intro h
      have hmass := hstudent.2 fun entry hentry => (h bound rfl entry hentry).2
      have hteacherMass := hteacher.2 fun entry hentry => (h bound rfl entry hentry).1
      unfold tokenOutputs positionOutputs
      rw [hmass, hteacherMass]
      rfl

end Token

/-! ## The processes of FSDP -/

namespace Fsdp

section Share

variable {α β : Type} {w : Ulysses.World} {p : ℕ}

/-- The first position of a process, and the number of its positions, of a sequence. -/
def share (w : Ulysses.World) (p n : ℕ) : ℕ × ℕ :=
  match w.setting p with
  | some g => (g.members.idxOf p * g.parts n, g.parts n)
  | none => (0, n)

def Shares (w : Ulysses.World) (p : ℕ) (x part : List α) : Prop :=
  Holds (fun t => (share w p x.length).1 + t) (share w p x.length).2 x part

def InGroup (w : Ulysses.World) (p : ℕ) : Prop := ∀ g ∈ w.setting p, p ∈ g.members

theorem share_single {g : Ulysses.Group} (hg : w.setting p = some g) (hp : p ∈ g.members) (hone : g.worldSize ≤ 1) (n : ℕ) :
    share w p n = (0, n) := by
  have hlt := Ulysses.Group.idxOf_lt hp
  have hsize : g.worldSize = 1 := by have := g.worldSize_pos; omega
  have hparts : g.parts n = n := by
    rw [Ulysses.Group.parts, g.padSize_eq, hsize, Nat.mod_one, if_pos rfl, Nat.add_zero, Nat.div_one]
  unfold share
  simp only [hg]
  rw [show g.members.idxOf p = 0 by omega, hparts, Nat.zero_mul]

theorem shares_self {x : List α} (h : share w p x.length = (0, x.length)) : Shares w p x x where
  length_eq := by rw [h]
  entry := by
    intro slot _ _
    rw [h]
    exact congrArg (x[·]?) (Nat.zero_add slot).symm

theorem splitTeacher_shares (hp : InGroup w p) (zero : α) (x : List α) :
    Shares w p x (splitTeacher w p zero x) ∧ ∀ a ∈ splitTeacher w p zero x, a = zero ∨ a ∈ x := by
  have hgroup : w.group none p = w.setting p := Option.none_or
  unfold splitTeacher ulyssesSize
  rw [hgroup]
  cases hg : w.setting p with
  | none =>
    dsimp only
    rw [if_neg (Nat.lt_irrefl 1)]
    refine ⟨shares_self ?_, fun a ha => .inr ha⟩
    unfold share
    rw [hg]
  | some g =>
    have hmem := hp g hg
    simp only
    by_cases hone : 1 < g.worldSize
    · have hrank : w.sequenceParallelRank none p = g.members.idxOf p := by
        unfold Ulysses.World.sequenceParallelRank
        rw [hgroup, hg]
        exact Ulysses.Group.rank_of_mem hmem
      have hlt := Ulysses.Group.idxOf_lt hmem
      rw [if_pos hone, Ulysses.sliceInputTensor_eq (hgroup.trans hg), hrank, if_pos (by omega), Int.toNat_natCast]
      have hle : g.members.idxOf p * g.parts x.length + g.parts x.length ≤ (g.pad zero x).length := by
        rw [g.length_pad, ← Nat.succ_mul]
        exact Nat.mul_le_mul_right _ hlt
      have hshare : share w p x.length = (g.members.idxOf p * g.parts x.length, g.parts x.length) := by
        unfold share
        rw [hg]
      refine ⟨⟨?_, ?_⟩, fun a ha => ?_⟩
      · rw [hshare]
        exact length_block hle
      · intro slot hslot hin
        rw [hshare] at hslot hin ⊢
        rw [getElem?_block hslot]
        exact List.getElem?_append_left hin
      · rcases List.mem_append.1 (List.mem_of_mem_drop (List.mem_of_mem_take ha)) with hx | hpad
        · exact .inr hx
        · exact .inl (List.eq_of_mem_replicate hpad)
    · rw [if_neg hone]
      exact ⟨shares_self (share_single hg hmem (by omega) _), fun a ha => .inr ha⟩

end Share

variable {K : Type} [Field K] [LinearOrder K] {vocab k : ℕ}

/-- The outputs of all tokens: with any chunks or none, each process has those of its share. -/
def Returns (E : ExpLog K) (clamp : Option K) (rows : List (List (Token K vocab k))) (outputs : Token K vocab k → Outputs K) :
    Prop :=
  ∀ (config : LossConfig K) (uninit : ℕ → List K) (w : Ulysses.World) (p : ℕ) (logits : List (List K)),
    config.logProbMinClamp = clamp → 0 < config.chunkedTopkChunkSize → InGroup w p →
    Shares w p (rows.flatten.map Token.logits) logits → (∀ x ∈ logits, x.length = vocab) →
    ∃ out, computeForwardKlTopk E config uninit w p k logits (rows.map (List.map Token.logProbs))
        (rows.map (List.map Token.ids)) = some out ∧
      Shares w p (rows.flatten.map outputs) out

/-- **What FSDP returns**: the masses are not clamped. -/
theorem returns [IsStrictOrderedRing K] {E : ExpLog K} (hE : E.Lawful) (clamp : Option K) (hvocab : 0 < vocab)
    (hk : k ≤ vocab) (rows : List (List (Token K vocab k))) : Returns E clamp rows (tokenOutputs E clamp none) := by
  intro config uninit w p logits hclamp hchunk hp hlogits hvalid
  have hflatten : ∀ {β : Type} (f : Token K vocab k → β), (rows.map (List.map f)).flatten = rows.flatten.map f :=
    fun f => List.map_flatten.symm
  obtain ⟨hlogProbs, -⟩ := splitTeacher_shares hp (List.replicate k (0 : K)) (rows.flatten.map Token.logProbs)
  obtain ⟨hids, hmem⟩ := splitTeacher_shares hp (List.replicate k (0 : ℕ)) (rows.flatten.map Token.ids)
  have hlocal : LocalTensors k vocab logits (splitTeacher w p (List.replicate k 0) (rows.map (List.map Token.logProbs)).flatten)
      (splitTeacher w p (List.replicate k 0) (rows.map (List.map Token.ids)).flatten) := by
    rw [hflatten, hflatten]
    refine ⟨?_, ?_, hvalid, fun row hrow id hid => ?_, hk⟩
    · rw [hlogProbs.length_eq, hlogits.length_eq, List.length_map, List.length_map]
    · rw [hids.length_eq, hlogits.length_eq, List.length_map, List.length_map]
    · rcases hmem row hrow with hzero | htok
      · rw [hzero] at hid
        rw [List.eq_of_mem_replicate hid]
        exact hvocab
      · obtain ⟨tok, -, rfl⟩ := List.mem_map.1 htok
        exact tok.ids_lt id hid
  obtain ⟨out, hout, hlength, hspec⟩ := computeForwardKlTopk_spec hE config hchunk uninit w p hlocal
  refine ⟨out, hout, ?_, fun slot hslot hin => ?_⟩
  · rw [hlength, hlogits.length_eq, List.length_map, List.length_map]
  · simp only [List.length_map] at hslot hin
    obtain ⟨tok, htok⟩ : ∃ tok, rows.flatten[(share w p rows.flatten.length).1 + slot]? = some tok :=
      ⟨_, List.getElem?_eq_getElem hin⟩
    have hentry : ∀ {β : Type} {f : Token K vocab k → β} {part : List β}, Shares w p (rows.flatten.map f) part →
        part[slot]? = some (f tok) := by
      intro β f part hshares
      have hget := hshares.entry slot
      simp only [List.length_map, List.getElem?_map, htok, Option.map_some] at hget
      exact hget hslot hin
    obtain ⟨sIds, hsIds, htop⟩ := hspec slot tok.logits tok.logProbs tok.ids (hentry hlogits)
      (by rw [hflatten]; exact hentry hlogProbs) (by rw [hflatten]; exact hentry hids)
      (tok.length_logProbs.trans tok.length_ids.symm)
    have hlikeliest := mem_likeliest tok.nodup_logits (tok.length_logits.symm ▸ hk)
    rw [hsIds, List.getElem?_map, List.length_map, htok, Option.map_some, hclamp]
    exact congrArg some (positionOutputs_congr E clamp none tok.logits _ fun id =>
      (htop tok.nodup_logits id).trans (hlikeliest id).symm)

end Fsdp

/-! ## The ranks of Megatron -/

section Packed

variable {α β γ : Type} {s : ParallelState} {rank : ℕ}

def spansOf (s : ParallelState) (seqlens : List ℕ) : List (ℕ × ℕ) :=
  (layout s false seqlens).cuSeqlensPadded.zip (layout s false seqlens).cuSeqlensPadded.tail

def slotsOf (s : ParallelState) (seqlens : List ℕ) : ℕ := slots s (layout s false seqlens).seqlensPadded

/-- A rank has what belongs to the tokens of some rows in their slots. -/
def HeldRows (s : ParallelState) (rank : ℕ) (rows : List (List α)) (f : α → β) (buffer : List β) : Prop :=
  ∀ p ∈ rows.zip (spansOf s (rows.map List.length)), Held s rank (p.1.map f) p.2.1 p.2.2 buffer

theorem lengths_map (rows : List (List α)) (f : α → β) :
    (rows.map (List.map f)).map List.length = rows.map List.length := by
  rw [List.map_map]
  exact List.map_congr_left fun row _ => List.length_map f

variable {rows : List (List α)}

theorem heldRows_of_forall₂ {f : α → β} {buffer : List β}
    (h : List.Forall₂ (fun row p => Held s rank row p.1 p.2 buffer) (rows.map (List.map f))
      (spansOf s (rows.map List.length))) : HeldRows s rank rows f buffer := by
  rw [List.forall₂_map_left_iff] at h
  exact fun p hp => (List.forall₂_iff_zip.1 h).2 hp

theorem HeldRows.zip {f : α → β} {g : α → γ} {buffer : List β} {buffer' : List γ} (h : HeldRows s rank rows f buffer)
    (h' : HeldRows s rank rows g buffer') : HeldRows s rank rows (fun a => (f a, g a)) (buffer.zip buffer') := by
  intro p hp
  have hboth := Holds.zip (h p hp) (h' p hp) (by rw [List.length_map, List.length_map])
  unfold Held
  rw [block_zip, ← List.zip_map']
  exact hboth

/-- **A function of each slot** gives what belongs to the tokens. -/
theorem HeldRows.mapM {f : α → β} {h : α → γ} {buffer : List β} {out : List γ}
    (hheld : HeldRows s rank rows f buffer) {g : β → Option γ} (hrun : buffer.mapM g = some out)
    (hg : ∀ row ∈ rows, ∀ a ∈ row, g (f a) = some (h a)) : HeldRows s rank rows h out := by
  intro p hp
  have hslots := hheld p hp
  have hblock := List.forall₂_take ((p.2.2 - p.2.1) / s.cpSize)
    (List.forall₂_drop (p.2.1 / s.cpSize) (mapM_eq_some_iff.1 hrun))
  refine ⟨hblock.length_eq.symm.trans hslots.length_eq, fun slot hslot hin => ?_⟩
  rw [List.length_map] at hin
  have hget := hslots.entry slot hslot (by rwa [List.length_map])
  rw [List.getElem?_map, List.getElem?_eq_getElem hin, Option.map_some] at hget ⊢
  obtain ⟨c, hc, hgc⟩ := getElem?_of_forall₂ hblock hget
  rw [hg p.1 (List.of_mem_zip hp).1 _ (List.getElem_mem hin)] at hgc
  rw [Option.some.inj hgc]
  exact hc

theorem spansOf_eq (h : rows ≠ []) : spansOf s (rows.map List.length) =
    (0 :: cumsum 0 (layout s false (rows.map List.length)).seqlensPadded).zip
      (cumsum 0 (layout s false (rows.map List.length)).seqlensPadded) := by
  have hcu := (layout_spec s false (by rwa [ne_eq, List.map_eq_nil_iff] : rows.map List.length ≠ [])).1
  unfold spansOf
  rw [hcu, List.tail_cons]

theorem isSpan_spansOf (h : rows ≠ []) :
    List.Forall₂ (fun row p => IsSpan s (List.length row) (p.2 - p.1)) rows (spansOf s (rows.map List.length)) := by
  obtain ⟨params, hparams, hcu⟩ := params_some s false h
  have hspans := isSpan_spans h hparams.symm
  rwa [PackedSeqParams.spans, hcu, List.tail_cons, ← spansOf_eq h] at hspans

/-- **What all ranks hold is unique.** -/
theorem HeldRows.unique (hne : rows ≠ []) {f g : α → β}
    (h : ∀ rank < s.cpSize, ∃ buffer, HeldRows s rank rows f buffer ∧ HeldRows s rank rows g buffer) :
    ∀ row ∈ rows, ∀ a ∈ row, f a = g a := by
  intro row hrow a ha
  obtain ⟨i, hi⟩ := List.mem_iff_getElem?.1 hrow
  obtain ⟨span, hspan, hfits⟩ := getElem?_of_forall₂ (isSpan_spansOf (s := s) hne) hi
  have hmem : (row, span) ∈ rows.zip (spansOf s (rows.map List.length)) :=
    List.mem_of_getElem? (List.getElem?_zip_eq_some.2 ⟨hi, hspan⟩)
  obtain ⟨t, ht⟩ := List.mem_iff_getElem?.1 ha
  obtain ⟨hin, -⟩ := List.getElem?_eq_some_iff.1 ht
  obtain ⟨rank, hrank, slot, hslot, hposition⟩ := hfits.exists_position hin
  obtain ⟨buffer, hf, hg⟩ := h rank hrank
  have hfirst := (hf _ hmem).entry slot hslot (by rw [List.length_map, hposition]; exact hin)
  have hsecond := (hg _ hmem).entry slot hslot (by rw [List.length_map, hposition]; exact hin)
  rw [hposition, List.getElem?_map, ht, Option.map_some] at hfirst hsecond
  exact Option.some.inj (hfirst.symm.trans hsecond)

end Packed

namespace Megatron

section

variable {K : Type} [Field K] [LinearOrder K] {s : ParallelState} {part k : ℕ}

/-- The outputs of all tokens, and what is saved for them: each rank has those of its slots. -/
def Returns (E : ExpLog K) (clamp : Option K) (s : ParallelState) (rows : List (List (Token K (s.tpSize * part) k)))
    (outputs : Token K (s.tpSize * part) k → Outputs K) (saved : ℕ → Token K (s.tpSize * part) k → Saved K) : Prop :=
  ∀ (cpRank tpRank : ℕ) (logits : List (List K)), cpRank < s.cpSize → tpRank < s.tpSize →
    logits.length = slotsOf s (rows.map List.length) → (∀ x ∈ logits, x.length = s.tpSize * part) →
    HeldRows s cpRank rows Token.logits logits →
    ∃ out, computeForwardKlTopk E clamp s k cpRank tpRank (logits.map (shards s.tpSize part))
        (rows.map (List.map Token.logProbs)) (rows.map (List.map Token.ids)) = some out ∧
      HeldRows s cpRank rows (fun tok => (outputs tok, saved tpRank tok)) out

omit [Field K] [LinearOrder K] in
theorem packed_teacher {α : Type} {vocab cpRank : ℕ} {rows : List (List (Token K vocab k))} (hne : rows ≠ [])
    (hfits : RowsFit s [k] false (rows.map List.length)) (hrank : cpRank < s.cpSize) (zero : α) (f : Token K vocab k → α) :
    ∃ out, preprocessThdEngine s zero [k] false cpRank (rows.map (List.map f)) = some out ∧
      out.inputIds.length = slotsOf s (rows.map List.length) ∧
      (∀ a ∈ out.inputIds, a = zero ∨ ∃ row ∈ rows, ∃ tok ∈ row, a = f tok) ∧
      HeldRows s cpRank rows f out.inputIds := by
  have hmap : rows.map (List.map f) ≠ [] := by rwa [ne_eq, List.map_eq_nil_iff]
  have hspans := isSpan_layout s false hmap
  rw [lengths_map] at hspans
  have hchunks := (forall₂_chunkFits hspans).2 (by rw [lengths_map]; exact hfits) cpRank hrank
  obtain ⟨out, hout⟩ := (@preprocessThdEngine_some_iff _ s zero [k] false cpRank _ hmap hrank).2
    (by rw [lengths_map]; exact hchunks)
  obtain ⟨hheld, hparams⟩ := preprocessThdEngine_held hmap hrank hout
  obtain ⟨hlength, hmem⟩ := preprocessThdEngine_ids hmap hout
  rw [lengths_map] at hlength hparams
  refine ⟨out, hout, hlength, fun a ha => ?_, heldRows_of_forall₂ ?_⟩
  · refine (hmem a ha).imp_right ?_
    rintro ⟨row', hrow', ha'⟩
    obtain ⟨row, hrow, rfl⟩ := List.mem_map.1 hrow'
    obtain ⟨tok, htok, rfl⟩ := List.mem_map.1 ha'
    exact ⟨row, hrow, tok, htok, rfl⟩
  · have hspan : out.params.spans = spansOf s (rows.map List.length) := by
      obtain ⟨params, hparams', hcu⟩ := params_some s false hne
      obtain rfl := Option.some.inj (hparams.trans hparams')
      rw [PackedSeqParams.spans, hcu, List.tail_cons, spansOf_eq hne]
    rw [← hspan]
    exact hheld.imp fun row p h => h.1

variable {rows : List (List (Token K (s.tpSize * part) k))}

omit [LinearOrder K] in
theorem exists_logits (hne : rows ≠ []) (cpRank : ℕ) :
    ∃ logits : List (List K), logits.length = slotsOf s (rows.map List.length) ∧
      (∀ x ∈ logits, x.length = s.tpSize * part) ∧ HeldRows s cpRank rows Token.logits logits := by
  have hmap : rows.map (List.map Token.logits) ≠ [] := by rwa [ne_eq, List.map_eq_nil_iff]
  have hspans := isSpan_layout s false hmap
  rw [lengths_map] at hspans
  obtain ⟨logits, hlength, hmem, hheld⟩ := @exists_held _ s cpRank _ _ hspans
    (List.replicate (s.tpSize * part) 0) 0 [] (Nat.mul_zero _).symm
  refine ⟨logits, hlength, fun x hx => ?_, heldRows_of_forall₂ ?_⟩
  · rcases hmem x hx with rfl | ⟨row', hrow', hx'⟩
    · exact List.length_replicate
    · obtain ⟨row, -, rfl⟩ := List.mem_map.1 hrow'
      obtain ⟨tok, -, rfl⟩ := List.mem_map.1 hx'
      exact tok.length_logits
  · rw [spansOf_eq hne]
    exact hheld

/-- **The rows fit** if Megatron returns something for them. -/
theorem fits_of_returns {E : ExpLog K} {clamp : Option K} (hne : rows ≠ [])
    {outputs : Token K (s.tpSize * part) k → Outputs K} {saved : ℕ → Token K (s.tpSize * part) k → Saved K}
    (h : Returns E clamp s rows outputs saved) : RowsFit s [k] false (rows.map List.length) := by
  have hmap : rows.map (List.map Token.ids) ≠ [] := by rwa [ne_eq, List.map_eq_nil_iff]
  have hspans := isSpan_layout s false hmap
  have hall := (@forall₂_chunkFits _ s [k] _ (layout s false (rows.map List.length)).alignSize _ hspans).1 ?_
  · rwa [lengths_map] at hall
  intro cpRank hrank
  obtain ⟨logits, hlength, hvalid, hheld⟩ := @exists_logits K _ s part k rows hne cpRank
  obtain ⟨out, hout, -⟩ := h cpRank 0 logits hrank s.tpSize_pos hlength hvalid hheld
  unfold computeForwardKlTopk at hout
  obtain ⟨logProbs, hlogProbs, hout⟩ := Option.bind_eq_some_iff.1 hout
  obtain ⟨ids, hids, -⟩ := Option.bind_eq_some_iff.1 hout
  have hfits := (preprocessThdEngine_some_iff hmap hrank).1 ⟨ids, hids⟩
  rwa [lengths_map] at hfits ⊢

variable [IsStrictOrderedRing K] {E : ExpLog K}

theorem forward_token (hE : E.Lawful) (clamp : Option K) {tpSize rank : ℕ} (hpart : 0 < part) (hrank : rank < tpSize)
    (hk : k ≤ tpSize * part) (tok : Token K (tpSize * part) k) :
    forward E clamp (shards tpSize part tok.logits) rank tok.entries =
      some (tokenOutputs E clamp clamp tok, positionSaved E clamp part tok.logits rank tok.entries) := by
  obtain ⟨ids, hforward, htop⟩ := forward_spec hE clamp hpart hrank tok.length_logits tok.entry_lt
    (tok.length_entries.symm ▸ hk)
  have hlikeliest := mem_likeliest tok.nodup_logits (tok.length_logits.symm ▸ hk)
  have hmem := htop tok.nodup_logits
  rw [tok.length_entries] at hmem
  rw [hforward, tokenOutputs, positionOutputs_congr E clamp clamp tok.logits tok.entries fun id =>
    (hmem id).trans (hlikeliest id).symm]

/-- **What Megatron returns**: the masses are clamped. -/
theorem returns (hE : E.Lawful) (clamp : Option K) (hpart : 0 < part) (hk : k ≤ s.tpSize * part) (hne : rows ≠ [])
    (hfits : RowsFit s [k] false (rows.map List.length)) :
    Returns E clamp s rows (tokenOutputs E clamp clamp)
      fun rank tok => positionSaved E clamp part tok.logits rank tok.entries := by
  intro cpRank tpRank logits hcp htp hlength hvalid hheld
  obtain ⟨logProbs, hlogProbs, hlogProbsLength, hlogProbsMem, hlogProbsHeld⟩ :=
    packed_teacher hne hfits hcp (List.replicate k (0 : K)) Token.logProbs
  obtain ⟨ids, hids, hidsLength, hidsMem, hidsHeld⟩ := packed_teacher hne hfits hcp (List.replicate k (0 : ℕ)) Token.ids
  -- each slot is a position, with a token or without
  have hslots : ∃ out, ((logits.map (shards s.tpSize part)).zip (ids.inputIds.zip logProbs.inputIds)).mapM
      (fun p => forward E clamp p.1 tpRank (p.2.1.zip p.2.2)) = some out := by
    refine exists_mapM ?_
    rintro ⟨vp, tIds, tLogProbs⟩ hp
    obtain ⟨hvp, hteacher⟩ := List.of_mem_zip hp
    obtain ⟨hid, hlogProb⟩ := List.of_mem_zip hteacher
    obtain ⟨x, hx, rfl⟩ := List.mem_map.1 hvp
    have hidsRow : tIds.length = k ∧ ∀ id ∈ tIds, id < s.tpSize * part := by
      rcases hidsMem tIds hid with rfl | ⟨-, -, tok, -, rfl⟩
      · refine ⟨List.length_replicate, fun id h => ?_⟩
        rw [List.eq_of_mem_replicate h]
        exact Nat.mul_pos s.tpSize_pos hpart
      · exact ⟨tok.length_ids, tok.ids_lt⟩
    have hlogProbsRow : tLogProbs.length = k := by
      rcases hlogProbsMem tLogProbs hlogProb with rfl | ⟨-, -, tok, -, rfl⟩
      · exact List.length_replicate
      · exact tok.length_logProbs
    obtain ⟨sIds, hforward, -⟩ := @forward_spec K _ _ E _ hE clamp s.tpSize part tpRank hpart htp x (hvalid x hx)
      (tIds.zip tLogProbs) (fun entry h => hidsRow.2 entry.1 (List.of_mem_zip h).1)
      (by rw [List.length_zip, hidsRow.1, hlogProbsRow, Nat.min_self]; exact hk)
    exact ⟨_, hforward⟩
  obtain ⟨out, hout⟩ := hslots
  have hshards : HeldRows s cpRank rows (fun tok => shards s.tpSize part tok.logits) (logits.map (shards s.tpSize part)) := by
    intro p hp
    have hrow := (hheld p hp).map (shards s.tpSize part)
    rwa [List.map_map] at hrow
  refine ⟨out, ?_, (hshards.zip (hidsHeld.zip hlogProbsHeld)).mapM hout fun row _ tok _ => ?_⟩
  · unfold computeForwardKlTopk
    rw [hlogProbs, Option.bind_eq_bind, Option.bind_some, hids, Option.bind_eq_bind, Option.bind_some, if_pos]
    · exact hout
    · rw [hlogProbsLength, hidsLength, List.length_map, hlength]
      exact ⟨rfl, rfl⟩
  · exact forward_token hE clamp hpart htp hk tok

end

end Megatron

/-! ## Both sides -/

section Agree

variable {s : ParallelState} {part k : ℕ}

def Megatron.loss {K : Type} [Field K] [LinearOrder K] (E : ExpLog K) (clamp : Option K) (tpSize part rank : ℕ)
    (entries : List (ℕ × K)) (x : List K) : K :=
  match forward E clamp (shards tpSize part x) rank entries with
  | some (out, _) => out.distillationLoss
  | none => 0

/-- The backward pass of a rank gives the partial derivatives of the loss at its logits. -/
def Megatron.IsGradient (E : ExpLog ℝ) (clamp : Option ℝ) (rank : ℕ) {tpSize part : ℕ} (tok : Token ℝ (tpSize * part) k)
    (saved : Saved ℝ) : Prop :=
  ∀ gradLoss : ℝ, (backward saved gradLoss).length = part ∧
    ∀ (j : ℕ) (a : ℝ), j < part → tok.logits[rank * part + j]? = some a →
      ∃ d, HasDerivAt (fun v => loss E clamp tpSize part rank tok.entries (tok.logits.set (rank * part + j) v)) d a ∧
        (backward saved gradLoss)[j]? = some (d * gradLoss)

/-- **The losses agree** on a batch: each token has outputs, which FSDP returns, with chunks or not, and which Megatron
returns on all ranks, with the gradients of the loss. -/
def Agree (E : ExpLog ℝ) (clamp : Option ℝ) (s : ParallelState) (rows : List (List (Token ℝ (s.tpSize * part) k))) : Prop :=
  ∃ (outputs : Token ℝ (s.tpSize * part) k → Outputs ℝ) (saved : ℕ → Token ℝ (s.tpSize * part) k → Megatron.Saved ℝ),
    Fsdp.Returns E clamp rows outputs ∧ Megatron.Returns E clamp s rows outputs saved ∧
      ∀ row ∈ rows, ∀ tok ∈ row, ∀ rank < s.tpSize, Megatron.IsGradient E clamp rank tok (saved rank tok)

/-- The log-probs of a token are not below the clamp, and those of the student are above it, or there is one token in
the vocabulary. -/
def AboveClamp (E : ExpLog ℝ) (clamp : Option ℝ) {vocab : ℕ} (tok : Token ℝ vocab k) : Prop :=
  ∀ bound ∈ clamp, ∀ entry ∈ tok.entries, bound ≤ entry.2 ∧
    (bound < sourceAt E tok.logits entry ∨ bound = sourceAt E tok.logits entry ∧ vocab = 1)

variable {E : ExpLog ℝ}

theorem AboveClamp.unclamped {clamp : Option ℝ} {vocab : ℕ} {tok : Token ℝ vocab k} (h : AboveClamp E clamp tok) :
    Unclamped E clamp tok := by
  intro bound hbound entry hentry
  obtain ⟨hteacher, hstudent⟩ := h bound hbound entry hentry
  refine ⟨hteacher, ?_⟩
  rcases hstudent with hlt | ⟨heq, -⟩
  · exact hlt.le
  · exact heq.le

theorem Megatron.loss_eq (hE : E.Lawful) (clamp : Option ℝ) {tpSize rank : ℕ} (hpart : 0 < part) (hrank : rank < tpSize)
    {x : List ℝ} (hx : x.length = tpSize * part) {entries : List (ℕ × ℝ)} (hentries : ∀ entry ∈ entries, entry.1 < tpSize * part)
    (hk : entries.length ≤ tpSize * part) : loss E clamp tpSize part rank entries x = lossAt E clamp entries x := by
  obtain ⟨ids, hforward, -⟩ := forward_spec hE clamp hpart hrank hx hentries hk
  unfold loss
  rw [hforward]
  rfl

/-- **The gradient of a token** above the clamp. -/
theorem Megatron.isGradient (hE : E.Lawful) (hderiv : ∀ a, HasDerivAt E.exp (E.exp a) a) (clamp : Option ℝ) {tpSize rank : ℕ}
    (hpart : 0 < part) (hrank : rank < tpSize) (hk : k ≤ tpSize * part) {tok : Token ℝ (tpSize * part) k}
    (h : AboveClamp E clamp tok) : IsGradient E clamp rank tok (positionSaved E clamp part tok.logits rank tok.entries) := by
  have hle : rank * part + part ≤ tpSize * part := by
    rw [← Nat.succ_mul]
    exact Nat.mul_le_mul_right _ hrank
  have hlogps : (rowLogps E tok.logits).length = tpSize * part := by rw [rowLogps, List.length_map, tok.length_logits]
  intro gradLoss
  refine ⟨?_, fun j a hj ha => ?_⟩
  · rw [length_backward, positionSaved, List.length_map, length_block (by rw [hlogps]; exact hle)]
  have hentries : ∀ entry ∈ tok.entries, entry.1 < tok.logits.length := by
    rw [tok.length_logits]
    exact tok.entry_lt
  have hloss : (fun v => loss E clamp tpSize part rank tok.entries (tok.logits.set (rank * part + j) v)) =
      fun v => lossAt E clamp tok.entries (tok.logits.set (rank * part + j) v) := by
    funext v
    exact loss_eq hE clamp hpart hrank (by rw [List.length_set, tok.length_logits]) tok.entry_lt
      (tok.length_entries.symm ▸ hk)
  refine ⟨partialAt E clamp tok.logits tok.entries (rank * part + j), ?_, ?_⟩
  · rw [hloss]
    by_cases hone : tpSize * part = 1
    · exact hasDerivAt_loss_one hE clamp ha (tok.length_logits.trans hone) hentries
    · refine hasDerivAt_loss hE hderiv clamp ha hentries fun entry hentry hkink => ?_
      have habove := (h (sourceAt E tok.logits entry) hkink entry hentry).2
      rcases habove with hlt | ⟨-, hsingle⟩
      · exact lt_irrefl _ hlt
      · exact hone hsingle
  · exact getElem?_backward clamp hrank hj tok.length_logits tok.entries gradLoss

/-- **A token whose gradients are right** and whose log-probs the clamp leaves is above it. -/
theorem aboveClamp_of_isGradient (hE : E.Lawful) (hderiv : ∀ a, HasDerivAt E.exp (E.exp a) a) (clamp : Option ℝ)
    {tpSize : ℕ} (hpart : 0 < part) (hk : k ≤ tpSize * part) {tok : Token ℝ (tpSize * part) k}
    {saved : ℕ → Megatron.Saved ℝ} (hleaves : Unclamped E clamp tok)
    (h : ∀ rank < tpSize, Megatron.IsGradient E clamp rank tok (saved rank)) : AboveClamp E clamp tok := by
  intro bound hbound entry hentry
  obtain ⟨hteacher, hstudent⟩ := hleaves bound hbound entry hentry
  refine ⟨hteacher, ?_⟩
  rcases hstudent.lt_or_eq with hlt | hkink
  · exact .inl hlt
  refine .inr ⟨hkink, ?_⟩
  have hentries : ∀ entry ∈ tok.entries, entry.1 < tok.logits.length := by
    rw [tok.length_logits]
    exact tok.entry_lt
  -- the rank of the token has its partial derivative
  have hrank : entry.1 / part < tpSize := (Nat.div_lt_iff_lt_mul hpart).2 (tok.entry_lt entry hentry)
  have hplace : entry.1 / part * part + entry.1 % part = entry.1 := by
    rw [Nat.mul_comm]
    exact Nat.div_add_mod _ _
  obtain ⟨a, ha⟩ : ∃ a, tok.logits[entry.1]? = some a := ⟨_, List.getElem?_eq_getElem (hentries entry hentry)⟩
  obtain ⟨d, hd, -⟩ := (h _ hrank 1).2 (entry.1 % part) a (Nat.mod_lt _ hpart) (by rw [hplace]; exact ha)
  have hloss : (fun v => Megatron.loss E clamp tpSize part (entry.1 / part) tok.entries (tok.logits.set entry.1 v)) =
      fun v => lossAt E clamp tok.entries (tok.logits.set entry.1 v) := by
    funext v
    exact Megatron.loss_eq hE clamp hpart hrank (by rw [List.length_set, tok.length_logits]) tok.entry_lt
      (tok.length_entries.symm ▸ hk)
  obtain rfl := Option.mem_def.1 hbound
  rw [hplace, hloss] at hd
  rw [← tok.length_logits]
  exact one_of_hasDerivAt hE hderiv hentries (fun entry' h' => (hleaves bound rfl entry' h').2) hentry hkink.symm ha hd

theorem aboveClamp_of_agree (hE : E.Lawful) (hderiv : ∀ a, HasDerivAt E.exp (E.exp a) a) {clamp : Option ℝ} (hpart : 0 < part)
    (hk : k ≤ s.tpSize * part) {rows : List (List (Token ℝ (s.tpSize * part) k))} (hne : rows ≠ []) (h : Agree E clamp s rows) :
    RowsFit s [k] false (rows.map List.length) ∧ ∀ row ∈ rows, ∀ tok ∈ row, AboveClamp E clamp tok := by
  have hvocab : 0 < s.tpSize * part := Nat.mul_pos s.tpSize_pos hpart
  obtain ⟨outputs, saved, hfsdp, hmegatron, hgradient⟩ := h
  have hfits := Megatron.fits_of_returns hne hmegatron
  refine ⟨hfits, fun row hrow tok htok => ?_⟩
  have hmodel := Megatron.returns hE clamp hpart hk hne hfits
  -- what Megatron returns and saves
  have hboth : ∀ tpRank < s.tpSize, (outputs tok, saved tpRank tok) =
      (tokenOutputs E clamp clamp tok, Megatron.positionSaved E clamp part tok.logits tpRank tok.entries) := by
    intro tpRank htp
    refine HeldRows.unique (s := s) hne (f := fun tok => (outputs tok, saved tpRank tok))
      (g := fun tok => (tokenOutputs E clamp clamp tok, Megatron.positionSaved E clamp part tok.logits tpRank tok.entries))
      (fun cpRank hcp => ?_) row hrow tok htok
    obtain ⟨logits, hlength, hvalid, hheld⟩ := @Megatron.exists_logits ℝ _ s part k rows hne cpRank
    obtain ⟨out, hout, hholds⟩ := hmegatron cpRank tpRank logits hcp htp hlength hvalid hheld
    obtain ⟨out', hout', hholds'⟩ := hmodel cpRank tpRank logits hcp htp hlength hvalid hheld
    obtain rfl := Option.some.inj (hout.symm.trans hout')
    exact ⟨out, hholds, hholds'⟩
  have hmegatronOutputs := (Prod.ext_iff.1 (hboth 0 s.tpSize_pos)).1
  -- what FSDP returns without a group
  have hfsdpOutputs : outputs tok = tokenOutputs E clamp none tok := by
    have hshares : Fsdp.Shares ⟨1, fun _ => none⟩ 0 (rows.flatten.map Token.logits) (rows.flatten.map Token.logits) :=
      Fsdp.shares_self rfl
    have hvalid : ∀ x ∈ rows.flatten.map Token.logits, x.length = s.tpSize * part := by
      intro x hx
      obtain ⟨tok, -, rfl⟩ := List.mem_map.1 hx
      exact tok.length_logits
    have hgroup : Fsdp.InGroup ⟨1, fun _ => none⟩ 0 := fun g hg => absurd hg (Option.not_mem_none g)
    obtain ⟨out, hout, hholds⟩ := hfsdp ⟨clamp, false, 1⟩ (fun _ => []) ⟨1, fun _ => none⟩ 0 _ rfl Nat.one_pos hgroup
      hshares hvalid
    obtain ⟨out', hout', hholds'⟩ := Fsdp.returns hE clamp hvocab hk rows ⟨clamp, false, 1⟩ (fun _ => [])
      ⟨1, fun _ => none⟩ 0 _ rfl Nat.one_pos hgroup hshares hvalid
    obtain rfl := Option.some.inj (hout.symm.trans hout')
    obtain ⟨t, ht⟩ := List.mem_iff_getElem?.1 (List.mem_flatten.2 ⟨row, hrow, htok⟩)
    obtain ⟨hin, -⟩ := List.getElem?_eq_some_iff.1 ht
    have hfirst := hholds.entry t
    have hsecond := hholds'.entry t
    simp only [Fsdp.share, List.length_map, Nat.zero_add, List.getElem?_map, ht, Option.map_some] at hfirst hsecond
    exact Option.some.inj ((hfirst hin hin).symm.trans (hsecond hin hin))
  refine aboveClamp_of_isGradient hE hderiv clamp hpart hk
    ((outputs_eq_iff hE clamp tok).1 (hmegatronOutputs.symm.trans hfsdpOutputs)) fun rank hrank =>
      hgradient row hrow tok htok rank hrank

theorem agree_of_aboveClamp (hE : E.Lawful) (hderiv : ∀ a, HasDerivAt E.exp (E.exp a) a) {clamp : Option ℝ} (hpart : 0 < part)
    (hk : k ≤ s.tpSize * part) {rows : List (List (Token ℝ (s.tpSize * part) k))} (hne : rows ≠ [])
    (hfits : RowsFit s [k] false (rows.map List.length)) (habove : ∀ row ∈ rows, ∀ tok ∈ row, AboveClamp E clamp tok) :
    Agree E clamp s rows := by
  have hvocab : 0 < s.tpSize * part := Nat.mul_pos s.tpSize_pos hpart
  refine ⟨tokenOutputs E clamp none, fun rank tok => Megatron.positionSaved E clamp part tok.logits rank tok.entries,
    Fsdp.returns hE clamp hvocab hk rows, ?_, fun row hrow tok htok rank hrank =>
      Megatron.isGradient hE hderiv clamp hpart hrank hk (habove row hrow tok htok)⟩
  intro cpRank tpRank logits hcp htp hlength hvalid hheld
  obtain ⟨out, hout, hholds⟩ := Megatron.returns hE clamp hpart hk hne hfits cpRank tpRank logits hcp htp hlength hvalid
    hheld
  refine ⟨out, hout, fun p hp => ?_⟩
  have hrow := hholds p hp
  have hsame : p.1.map (fun tok => (tokenOutputs E clamp clamp tok,
        Megatron.positionSaved E clamp part tok.logits tpRank tok.entries)) =
      p.1.map fun tok => (tokenOutputs E clamp none tok,
        Megatron.positionSaved E clamp part tok.logits tpRank tok.entries) := by
    refine List.map_congr_left fun tok htok => ?_
    rw [(outputs_eq_iff hE clamp tok).2 (habove p.1 (List.of_mem_zip hp).1 tok htok).unclamped]
  rwa [hsame] at hrow

/-- **The losses agree exactly when** the rows fit on the ranks, and no log-prob is at the clamp or below it. -/
theorem agree_iff (hE : E.Lawful) (hderiv : ∀ a, HasDerivAt E.exp (E.exp a) a) (clamp : Option ℝ) (hpart : 0 < part)
    (hk : k ≤ s.tpSize * part) {rows : List (List (Token ℝ (s.tpSize * part) k))} (hne : rows ≠ []) :
    Agree E clamp s rows ↔
      RowsFit s [k] false (rows.map List.length) ∧ ∀ row ∈ rows, ∀ tok ∈ row, AboveClamp E clamp tok := by
  constructor
  · intro h
    exact aboveClamp_of_agree hE hderiv hpart hk hne h
  · rintro ⟨hfits, habove⟩
    exact agree_of_aboveClamp hE hderiv hpart hk hne hfits habove

/-! ### Two ranks with one token of the vocabulary each -/

def tensorPair : ParallelState where
  tpSize := 2
  cpSize := 1
  tpSize_pos := Nat.two_pos
  cpSize_pos := Nat.one_pos

theorem agree_largeProbs : ∃ tok : Token ℝ (tensorPair.tpSize * 1) 1, tok.logits = [0, 1] ∧ tok.logProbs = [-1] ∧
    tok.ids = [0] ∧ Agree ⟨Real.exp, Real.log⟩ (some (-((10 : ℕ) : ℝ))) tensorPair [[tok]] := by
  refine ⟨⟨[0, 1], [-1], [0], rfl, by simp, rfl, rfl, by simp, by decide⟩, rfl, rfl, rfl, ?_⟩
  refine (agree_iff ExpLog.lawful_real Real.hasDerivAt_exp _ Nat.one_pos (by decide) (List.cons_ne_nil _ _)).2 ⟨?_, ?_⟩
  · exact List.Forall₂.cons (Or.inl (le_refl 1)) List.Forall₂.nil
  · intro row hrow tok htok
    obtain rfl := List.mem_singleton.1 hrow
    obtain rfl := List.mem_singleton.1 htok
    rintro _ ⟨⟩ entry hentry
    obtain rfl := List.mem_singleton.1 hentry
    have hone : (1 : ℝ) + 1 ≤ Real.exp 1 := Real.add_one_le_exp 1
    have hnine : (9 : ℝ) + 1 ≤ Real.exp 9 := Real.add_one_le_exp 9
    have hten : Real.exp 10 = Real.exp 9 * Real.exp 1 := by
      rw [← Real.exp_add]
      norm_num
    have hlog : Real.log (Real.exp 0 + (Real.exp 1 + 0)) < 10 := by
      rw [Real.log_lt_iff_lt_exp (by positivity), Real.exp_zero, hten]
      nlinarith
    refine ⟨by norm_num, .inl ?_⟩
    change -((10 : ℕ) : ℝ) < 0 - Real.log (Real.exp 0 + (Real.exp 1 + 0))
    push_cast
    linarith

theorem not_agree_smallProb : ∃ tok : Token ℝ (tensorPair.tpSize * 1) 1, tok.logits = [0, ((20 : ℕ) : ℝ)] ∧
    tok.logProbs = [-1] ∧ tok.ids = [0] ∧ ¬ Agree ⟨Real.exp, Real.log⟩ (some (-((10 : ℕ) : ℝ))) tensorPair [[tok]] := by
  refine ⟨⟨[0, ((20 : ℕ) : ℝ)], [-1], [0], rfl, by simp, rfl, rfl, by simp, by decide⟩, rfl, rfl, rfl, fun h => ?_⟩
  obtain ⟨-, habove⟩ := aboveClamp_of_agree ExpLog.lawful_real Real.hasDerivAt_exp Nat.one_pos (by decide)
    (List.cons_ne_nil _ _) h
  obtain ⟨-, hstudent⟩ := habove _ (List.mem_singleton.2 rfl) _ (List.mem_singleton.2 rfl) _ rfl _ (List.mem_singleton.2 rfl)
  have hle : -((10 : ℕ) : ℝ) ≤ 0 - Real.log (Real.exp 0 + (Real.exp ((20 : ℕ) : ℝ) + 0)) := by
    rcases hstudent with hlt | ⟨heq, -⟩
    · exact hlt.le
    · exact heq.le
  have hlog : ((20 : ℕ) : ℝ) ≤ Real.log (Real.exp 0 + (Real.exp ((20 : ℕ) : ℝ) + 0)) := by
    rw [Real.le_log_iff_exp_le (by positivity), Real.exp_zero]
    linarith
  push_cast at hle hlog
  linarith

end Agree

end Opd.Verl.DistillationLosses
