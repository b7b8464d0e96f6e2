import Opd.Clight.BucketedTransfer

/-!
# Delivery by the bucketed weight transfer

The request of a bucket and its reply alternate, so that between two requests only one of
the processes can move. The receiver views every tensor in the shared buffer as its dtype,
which needs an aligned offset, while the sender packs the tensors one behind the other.

* `Ledger`: where the items of a run are.
* `Phase`, `phase_of_reach`: the joint states of sender and receiver.
* `delivers_iff`: every run ends with everything delivered in order, and no region of the
  buffer is overwritten too early, exactly when the packing is aligned.
-/

namespace Opd.Clight.BucketedTransfer

open Lib

variable {cfg : Config} {ipc : Ipc} {buffer : List UInt8}

/-! ## The joint states of the two processes -/

/-- The books of a run: the items are delivered, described by the bucket in flight,
described by the bucket that is being filled, or still to come. -/
structure Ledger (cfg : Config) (ipc : Ipc) (items : Weights) (buffer : List UInt8) (delivered : List Weights)
    (inFlight current : List (String × TensorMetadata ipc.Handle)) (alignedRest : Prop) (rest : Weights) :
    Prop where
  created : ¬ (cfg.useShm = true ∧ cfg.bucketSize = 0)
  length : buffer.length = cfg.bucketSize
  split : ∃ held packed, items = delivered.flatten ++ held ++ packed ++ rest ∧
    List.Forall₂ (Described ipc buffer) inFlight held ∧ List.Forall₂ (Described ipc buffer) current packed
  aligned : Aligned cfg.bucketSize 0 false items ↔
    (∀ item ∈ inFlight, AlignedItem item) ∧ (∀ item ∈ current, AlignedItem item) ∧ alignedRest

/-- The sender waits for the reply to a bucket; what is left, and when it is aligned. -/
inductive Waiting (cfg : Config) (ipc : Ipc) : Sender ipc.Handle → Bool → Prop → Weights → Prop
  | flush (name : String) (weight : Tensor) (weights : Weights) :
      Waiting cfg ipc (.flushWait name weight weights) false (AlignedAt cfg.bucketSize 0 weight weights)
        ((name, weight) :: weights)
  | direct (weights : Weights) :
      Waiting cfg ipc (.directWait 0 .empty weights) false (Aligned cfg.bucketSize 0 false weights) weights
  | last : Waiting cfg ipc .lastWait true True []

/-- **The joint states**: between two requests only one of the processes can move. -/
inductive Phase (cfg : Config) (ipc : Ipc) (items : Weights) : State ipc.Handle → Prop
  | start : Phase cfg ipc items (initState ipc items)
  | refused (hcreated : cfg.useShm = true ∧ cfg.bucketSize = 0) :
      Phase cfg ipc items ⟨.failed .emptySegment, .init, none, false, [], []⟩
  | comm (buffer : List UInt8) (h : Ledger cfg ipc items buffer [] [] [] (Aligned cfg.bucketSize 0 false items) items) :
      Phase cfg ipc items ⟨.initWait items, .init, some (.comm cfg.bucketSize), false, buffer, []⟩
  | commTaken (buffer : List UInt8)
      (h : Ledger cfg ipc items buffer [] [] [] (Aligned cfg.bucketSize 0 false items) items) :
      Phase cfg ipc items ⟨.initWait items, .initAck, none, false, buffer, []⟩
  | commReplied (buffer : List UInt8)
      (h : Ledger cfg ipc items buffer [] [] [] (Aligned cfg.bucketSize 0 false items) items) :
      Phase cfg ipc items ⟨.initWait items, .recv, none, true, buffer, []⟩
  | loop (offset : ℕ) (bucketMeta : BucketMeta ipc.Handle) (weights : Weights) (buffer : List UInt8)
      (delivered : List Weights) (hpacked : Packed bucketMeta offset) (hoffset : offset ≤ cfg.bucketSize)
      (h : Ledger cfg ipc items buffer delivered [] bucketMeta.items
        (Aligned cfg.bucketSize offset (!bucketMeta.items.isEmpty) weights) weights) :
      Phase cfg ipc items ⟨.loop offset bucketMeta weights, .recv, none, false, buffer, delivered⟩
  | place (offset : ℕ) (bucketMeta : BucketMeta ipc.Handle) (name : String) (weight : Tensor) (weights : Weights)
      (buffer : List UInt8) (delivered : List Weights) (hpacked : Packed bucketMeta offset)
      (hoffset : offset ≤ cfg.bucketSize)
      (hfirst : offset + weight.nbytes > cfg.bucketSize → bucketMeta.items = [])
      (h : Ledger cfg ipc items buffer delivered [] bucketMeta.items
        (AlignedAt cfg.bucketSize offset weight weights) ((name, weight) :: weights)) :
      Phase cfg ipc items ⟨.place offset bucketMeta name weight weights, .recv, none, false, buffer, delivered⟩
  | sent (sender : Sender ipc.Handle) (bucketMeta : BucketMeta ipc.Handle) (isLast : Bool) (alignedRest : Prop)
      (rest : Weights) (buffer : List UInt8) (delivered : List Weights)
      (hwait : Waiting cfg ipc sender isLast alignedRest rest)
      (h : Ledger cfg ipc items buffer delivered bucketMeta.items [] alignedRest rest) :
      Phase cfg ipc items ⟨sender, .recv, some (.bucket bucketMeta isLast), false, buffer, delivered⟩
  | taken (sender : Sender ipc.Handle) (bucketMeta : BucketMeta ipc.Handle) (isLast : Bool) (alignedRest : Prop)
      (rest : Weights) (buffer : List UInt8) (delivered : List Weights)
      (hwait : Waiting cfg ipc sender isLast alignedRest rest)
      (h : Ledger cfg ipc items buffer delivered bucketMeta.items [] alignedRest rest) :
      Phase cfg ipc items ⟨sender, .unpack bucketMeta isLast, none, false, buffer, delivered⟩
  | rejected (sender : Sender ipc.Handle) (isLast : Bool) (alignedRest : Prop) (rest : Weights)
      (buffer : List UInt8) (delivered : List Weights) (hwait : Waiting cfg ipc sender isLast alignedRest rest)
      (hmis : ¬ Aligned cfg.bucketSize 0 false items) :
      Phase cfg ipc items ⟨sender, .failed, none, false, buffer, delivered⟩
  | consumed (sender : Sender ipc.Handle) (isLast : Bool) (alignedRest : Prop) (rest : Weights)
      (buffer : List UInt8) (delivered : List Weights) (hwait : Waiting cfg ipc sender isLast alignedRest rest)
      (h : Ledger cfg ipc items buffer delivered [] [] alignedRest rest) :
      Phase cfg ipc items ⟨sender, .ack isLast, none, false, buffer, delivered⟩
  | replied (sender : Sender ipc.Handle) (isLast : Bool) (alignedRest : Prop) (rest : Weights)
      (buffer : List UInt8) (delivered : List Weights) (hwait : Waiting cfg ipc sender isLast alignedRest rest)
      (h : Ledger cfg ipc items buffer delivered [] [] alignedRest rest) :
      Phase cfg ipc items ⟨sender, if isLast then .done else .recv, none, true, buffer, delivered⟩
  | done (buffer : List UInt8) (delivered : List Weights)
      (h : Ledger cfg ipc items buffer delivered [] [] True []) :
      Phase cfg ipc items ⟨.done, .done, none, false, buffer, delivered⟩

variable {items rest : Weights} {delivered : List Weights} {s s' : State ipc.Handle}
  {current inFlight : List (String × TensorMetadata ipc.Handle)} {alignedRest : Prop}

theorem Ledger.send (h : Ledger cfg ipc items buffer delivered [] current alignedRest rest) :
    Ledger cfg ipc items buffer delivered current [] alignedRest rest := by
  obtain ⟨held, packed, hsplit, hheld, hpacked⟩ := h.split
  obtain rfl := List.forall₂_nil_left_iff.1 hheld
  refine ⟨h.created, h.length, ⟨packed, [], ?_, hpacked, .nil⟩, ?_⟩
  · simpa using hsplit
  · rw [h.aligned]
    simp

theorem Ledger.deliver (h : Ledger cfg ipc items buffer delivered inFlight [] alignedRest rest) {ws : Weights}
    (hunpack : unpackBucket ipc buffer inFlight = some ws) :
    Ledger cfg ipc items buffer (delivered ++ [ws]) [] [] alignedRest rest := by
  obtain ⟨held, packed, hsplit, hheld, hpacked⟩ := h.split
  obtain rfl := List.forall₂_nil_left_iff.1 hpacked
  obtain ⟨halign, rfl⟩ := (unpackBucket_iff hheld).1 hunpack
  refine ⟨h.created, h.length, ⟨[], [], ?_, .nil, .nil⟩, ?_⟩
  · simpa using hsplit
  · rw [h.aligned]
    simp only [List.not_mem_nil, false_implies, implies_true, true_and]
    exact and_iff_right halign

theorem Ledger.misaligned (h : Ledger cfg ipc items buffer delivered inFlight [] alignedRest rest)
    (hunpack : unpackBucket ipc buffer inFlight = none) : ¬ Aligned cfg.bucketSize 0 false items := by
  obtain ⟨held, packed, -, hheld, -⟩ := h.split
  intro halign
  have hsome := (unpackBucket_iff hheld).2 ⟨(h.aligned.1 halign).1, rfl⟩
  rw [hunpack] at hsome
  cases hsome

variable {name : String}

theorem Ledger.sendDirect {weight : Tensor} {weights : Weights}
    (h : Ledger cfg ipc items buffer delivered [] [] (AlignedAt cfg.bucketSize 0 weight weights)
      ((name, weight) :: weights)) (hlarge : weight.nbytes > cfg.bucketSize) :
    Ledger cfg ipc items buffer delivered [(name, directMeta ipc name weight)] []
      (Aligned cfg.bucketSize 0 false weights) weights := by
  obtain ⟨held, packed, hsplit, hheld, hpacked⟩ := h.split
  obtain rfl := List.forall₂_nil_left_iff.1 hheld
  obtain rfl := List.forall₂_nil_left_iff.1 hpacked
  refine ⟨h.created, h.length, ⟨[(name, weight)], [], ?_, .cons (described_directMeta name weight) .nil, .nil⟩, ?_⟩
  · simpa using hsplit
  · rw [h.aligned, AlignedAt, if_pos (by omega)]
    simp [AlignedItem, directMeta]

variable {bucketMeta : BucketMeta ipc.Handle}

theorem Ledger.put {weight : Tensor} {weights : Weights} {offset : ℕ} (hpacked : Packed bucketMeta offset)
    (h : Ledger cfg ipc items buffer delivered [] bucketMeta.items (AlignedAt cfg.bucketSize offset weight weights)
      ((name, weight) :: weights)) (hfit : offset + weight.nbytes ≤ cfg.bucketSize) :
    Ledger cfg ipc items (Storage.write buffer offset weight.bytes) delivered []
      (bucketMeta.items ++ [(name, bufferMeta name weight offset)])
      (Aligned cfg.bucketSize (offset + weight.nbytes) true weights) weights := by
  have hlen : offset + weight.nbytes ≤ buffer.length := by rw [h.length]; exact hfit
  have hwrite : offset + weight.bytes.length ≤ buffer.length := hlen
  obtain ⟨held, packed, hsplit, hheld, hcurrent⟩ := h.split
  obtain rfl := List.forall₂_nil_left_iff.1 hheld
  refine ⟨h.created, by rw [Storage.length_write hwrite]; exact h.length,
    ⟨[], packed ++ [(name, weight)], ?_, .nil, ?_⟩, ?_⟩
  · simpa using hsplit
  · refine List.rel_append (List.forall₂_iff_get.2 ?_) (.cons (described_bufferMeta name hlen) .nil)
    obtain ⟨hlength, hall⟩ := List.forall₂_iff_get.1 hcurrent
    refine ⟨hlength, fun i hi hi' => described_write (hall i hi hi') ?_ hwrite⟩
    exact (hpacked.1 _ (List.get_mem _ _)).2
  · rw [h.aligned, AlignedAt, if_neg (by omega)]
    simp only [List.not_mem_nil, false_implies, implies_true, true_and, List.mem_append, List.mem_singleton, or_imp,
      forall_and, forall_eq]
    rw [and_assoc, and_congr_right_iff]
    exact fun _ => and_congr_left fun _ => ⟨fun h _ => h, fun h => h rfl⟩

/-! ## The steps -/

theorem Waiting.step {sender : Sender ipc.Handle} {isLast : Bool} (hwait : Waiting cfg ipc sender isLast alignedRest rest)
    {receiver : Receiver ipc.Handle} {request : Option (Message ipc.Handle)} :
    senderStep cfg ipc ⟨sender, receiver, request, false, buffer, delivered⟩ = none := by
  cases hwait <;> rfl

theorem phase_of_reply {sender : Sender ipc.Handle} {isLast : Bool}
    (hwait : Waiting cfg ipc sender isLast alignedRest rest)
    (h : Ledger cfg ipc items buffer delivered [] [] alignedRest rest)
    (hstep : senderStep cfg ipc ⟨sender, if isLast then .done else .recv, none, true, buffer, delivered⟩ = some s') :
    Phase cfg ipc items s' := by
  have hempty : Packed (Dict.empty : BucketMeta ipc.Handle) 0 := ⟨nofun, fun _ => rfl⟩
  cases hwait with
  | flush name weight weights =>
    obtain rfl := Option.some.inj hstep
    exact .place 0 .empty name weight weights buffer delivered hempty (Nat.zero_le _) (fun _ => rfl) h
  | direct =>
    obtain rfl := Option.some.inj hstep
    exact .loop 0 .empty rest buffer delivered hempty (Nat.zero_le _) h
  | last =>
    obtain rfl := Option.some.inj hstep
    exact .done buffer delivered h

theorem Ledger.fresh {weight : Tensor} {weights : Weights}
    (h : Ledger cfg ipc items buffer delivered [] bucketMeta.items alignedRest ((name, weight) :: weights))
    (hnames : (items.map Prod.fst).Nodup) : name ∉ bucketMeta.keys := by
  obtain ⟨held, packed, hsplit, hheld, hcurrent⟩ := h.split
  obtain rfl := List.forall₂_nil_left_iff.1 hheld
  rw [hsplit, List.map_append, List.nodup_append] at hnames
  have hkeys : bucketMeta.keys = packed.map Prod.fst := by
    rw [Dict.keys]
    refine List.forall₂_eq_eq_eq ▸ ?_
    exact List.forall₂_map_left_iff.2 (List.forall₂_map_right_iff.2 (hcurrent.imp fun _ _ hd => hd.1))
  intro hmem
  refine hnames.2.2 name ?_ name List.mem_cons_self rfl
  rw [List.map_append]
  exact List.mem_append_right _ (hkeys ▸ hmem)

theorem Packed.put {offset : ℕ} (hpacked : Packed bucketMeta offset) (weight : Tensor)
    (hfresh : name ∉ bucketMeta.keys) :
    Packed (bucketMeta.update name fun _ => bufferMeta name weight offset) (offset + weight.nbytes) := by
  have hitems := Dict.items_update_of_not_mem (fun _ => bufferMeta (H := ipc.Handle) name weight offset) hfresh
  refine ⟨fun item hitem => ?_, fun hnil => ?_⟩
  · rw [hitems] at hitem
    rcases List.mem_append.1 hitem with hold | hnew
    · obtain ⟨hhandle, hend⟩ := hpacked.1 item hold
      exact ⟨hhandle, by omega⟩
    · obtain rfl := List.mem_singleton.1 hnew
      refine ⟨rfl, ?_⟩
      rw [show weight.nbytes = weight.bytes.length from rfl, weight.length_bytes]
      exact le_rfl
  · rw [hitems] at hnil
    simp at hnil

/-- The second test of the loop: the weight goes by its own handle or into the buffer. -/
theorem phase_of_place {offset : ℕ} {weight : Tensor} {weights : Weights} (hnames : (items.map Prod.fst).Nodup)
    (hfit : cfg.useShm = true → ∀ item ∈ items, item.2.nbytes ≤ cfg.bucketSize) (hpacked : Packed bucketMeta offset)
    (hfirst : offset + weight.nbytes > cfg.bucketSize → bucketMeta.items = [])
    (h : Ledger cfg ipc items buffer delivered [] bucketMeta.items (AlignedAt cfg.bucketSize offset weight weights)
      ((name, weight) :: weights))
    (hstep : senderStep cfg ipc ⟨.place offset bucketMeta name weight weights, .recv, none, false, buffer, delivered⟩ =
      some s') : Phase cfg ipc items s' := by
  simp only [senderStep] at hstep
  split at hstep
  · rename_i hlarge
    have hnil := hfirst hlarge
    obtain rfl := hpacked.2 hnil
    rw [Nat.zero_add] at hlarge
    split at hstep
    · -- shared memory refuses the weight, but all weights fit
      rename_i hshm
      obtain ⟨held, packed, hsplit, -, -⟩ := h.split
      have hmem : (name, weight) ∈ items := by
        rw [hsplit]
        exact List.mem_append_right _ List.mem_cons_self
      exact absurd (hfit hshm _ hmem) (by simpa using hlarge)
    · obtain rfl := Option.some.inj hstep
      obtain rfl : bucketMeta = .empty := by
        cases bucketMeta
        simpa [Dict.empty] using hnil
      exact .sent _ (Dict.empty.update name fun _ => directMeta ipc name weight) false _ _ buffer delivered
        (.direct weights) (h.sendDirect hlarge)
  · rename_i hsmall
    rw [not_lt] at hsmall
    obtain rfl := Option.some.inj hstep
    have hfresh := h.fresh hnames
    have hput := h.put hpacked hsmall
    rw [← Dict.items_update_of_not_mem (fun _ => bufferMeta name weight offset) hfresh] at hput
    refine .loop _ _ weights _ delivered (hpacked.put weight hfresh) hsmall ?_
    have hne : (!(bucketMeta.update name fun _ => bufferMeta name weight offset).items.isEmpty) = true := by
      rw [Dict.items_update_of_not_mem _ hfresh]
      simp
    rw [hne]
    exact hput

theorem phase_of_senderStep (hnames : (items.map Prod.fst).Nodup)
    (hfit : cfg.useShm = true → ∀ item ∈ items, item.2.nbytes ≤ cfg.bucketSize) (h : Phase cfg ipc items s)
    (hstep : senderStep cfg ipc s = some s') : Phase cfg ipc items s' := by
  cases h with
  | start =>
    simp only [senderStep, initState] at hstep
    split at hstep
    -- `SharedMemory` refuses a bucket of size 0
    · rename_i hcreated
      obtain rfl := Option.some.inj hstep
      exact .refused hcreated
    · rename_i hcreated
      obtain rfl := Option.some.inj hstep
      refine .comm _ ⟨hcreated, List.length_replicate, ⟨[], [], ?_, .nil, .nil⟩, ?_⟩
      · simp
      · simp
  | refused hcreated => cases hstep
  | comm buffer h => cases hstep
  | commTaken buffer h => cases hstep
  | commReplied buffer h =>
    obtain rfl := Option.some.inj hstep
    exact .loop 0 .empty items buffer [] ⟨nofun, fun _ => rfl⟩ (Nat.zero_le _) h
  | loop offset bucketMeta weights buffer delivered hpacked hoffset h =>
    cases weights with
    | nil =>
      obtain rfl := Option.some.inj hstep
      exact .sent .lastWait bucketMeta true True [] buffer delivered .last h.send
    | cons item weights =>
      obtain ⟨name, weight⟩ := item
      rw [aligned_cons] at h
      simp only [senderStep] at hstep
      split at hstep
      -- the weight does not fit behind the ones in the bucket: these are sent first
      · rename_i hflush
        obtain rfl := Option.some.inj hstep
        rw [if_pos ⟨by simpa using hflush.2, hflush.1⟩] at h
        exact .sent _ bucketMeta false _ _ buffer delivered (.flush name weight weights) h.send
      -- otherwise a weight that does not fit is the first of its bucket
      · rename_i hflush
        obtain rfl := Option.some.inj hstep
        have hnot : ¬ ((!bucketMeta.items.isEmpty) = true ∧ offset + weight.nbytes > cfg.bucketSize) :=
          fun hboth => hflush ⟨hboth.2, by simpa using hboth.1⟩
        rw [if_neg hnot] at h
        refine .place offset bucketMeta name weight weights buffer delivered hpacked hoffset (fun hlarge => ?_) h
        by_contra hne
        exact hflush ⟨hlarge, hne⟩
  | place offset bucketMeta name weight weights buffer delivered hpacked hoffset hfirst h =>
    exact phase_of_place hnames hfit hpacked hfirst h hstep
  | sent sender bucketMeta isLast alignedRest rest buffer delivered hwait h =>
    rw [hwait.step] at hstep
    cases hstep
  | taken sender bucketMeta isLast alignedRest rest buffer delivered hwait h =>
    rw [hwait.step] at hstep
    cases hstep
  | rejected sender isLast alignedRest rest buffer delivered hwait hmis =>
    rw [hwait.step] at hstep
    cases hstep
  | consumed sender isLast alignedRest rest buffer delivered hwait h =>
    rw [hwait.step] at hstep
    cases hstep
  | replied sender isLast alignedRest rest buffer delivered hwait h => exact phase_of_reply hwait h hstep
  | done buffer delivered h => cases hstep

theorem phase_of_receiverStep (h : Phase cfg ipc items s) (hstep : receiverStep ipc s = some s') :
    Phase cfg ipc items s' := by
  cases h with
  | start => cases hstep
  | refused hcreated => cases hstep
  | comm buffer h =>
    obtain rfl := Option.some.inj hstep
    exact .commTaken buffer h
  | commTaken buffer h =>
    obtain rfl := Option.some.inj hstep
    exact .commReplied buffer h
  | commReplied buffer h => cases hstep
  | loop offset bucketMeta weights buffer delivered hpacked hoffset h => cases hstep
  | place offset bucketMeta name weight weights buffer delivered hpacked hoffset hfirst h => cases hstep
  | sent sender bucketMeta isLast alignedRest rest buffer delivered hwait h =>
    obtain rfl := Option.some.inj hstep
    exact .taken sender bucketMeta isLast alignedRest rest buffer delivered hwait h
  | taken sender bucketMeta isLast alignedRest rest buffer delivered hwait h =>
    simp only [receiverStep] at hstep
    split at hstep
    -- a bucket that unpacks holds the weights of the ledger
    · rename_i ws hunpack
      obtain rfl := Option.some.inj hstep
      exact .consumed sender isLast alignedRest rest buffer _ hwait (h.deliver hunpack)
    · rename_i hunpack
      obtain rfl := Option.some.inj hstep
      exact .rejected sender isLast alignedRest rest buffer delivered hwait (h.misaligned hunpack)
  | rejected sender isLast alignedRest rest buffer delivered hwait hmis => cases hstep
  | consumed sender isLast alignedRest rest buffer delivered hwait h =>
    obtain rfl := Option.some.inj hstep
    exact .replied sender isLast alignedRest rest buffer delivered hwait h
  | replied sender isLast alignedRest rest buffer delivered hwait h => cases isLast <;> cases hstep
  | done buffer delivered h => cases hstep

/-- **Every reachable state is in one of the phases.** -/
theorem phase_of_reach (hnames : (items.map Prod.fst).Nodup)
    (hfit : cfg.useShm = true → ∀ item ∈ items, item.2.nbytes ≤ cfg.bucketSize)
    (h : (transfer cfg ipc items).Reach s) : Phase cfg ipc items s := by
  refine h.induct ?_ ?_
  · rintro s rfl
    exact .start
  · intro s a s' _ hphase hstep
    cases a with
    | sender => exact phase_of_senderStep hnames hfit hphase hstep
    | receiver => exact phase_of_receiverStep hphase hstep

/-! ## Termination -/

def Sender.work {H : Type} : Sender H → ℕ
  | .init weights => 16 * weights.length + 30
  | .initWait weights => 16 * weights.length + 10
  | .loop _ _ weights => 16 * weights.length + 8
  | .flushWait _ _ weights => 16 * (weights.length + 1) + 2
  | .place _ _ _ _ weights => 16 * (weights.length + 1) + 1
  | .directWait _ _ weights => 16 * weights.length + 9
  | .lastWait => 1
  | .done => 0
  | .failed _ => 0

/-- What the receiver has still to do with the request it has taken. -/
def Receiver.work {H : Type} : Receiver H → ℕ
  | .unpack _ _ => 3
  | .initAck => 2
  | .ack _ => 2
  | _ => 0

/-- A request is followed by four more steps up to the next step of the sender. -/
def State.work {H : Type} (s : State H) : ℕ :=
  s.sender.work + (if s.request.isSome then 4 else 0) + s.receiver.work + if s.reply then 1 else 0

theorem work_senderStep (hstep : senderStep cfg ipc s = some s') : s'.work < s.work := by
  obtain ⟨sender, receiver, request, reply, buffer, delivered⟩ := s
  have hrequest : (if request.isSome then 4 else 0) ≤ 4 := by split <;> omega
  cases sender with
  | init weights =>
    simp only [senderStep] at hstep
    split at hstep <;> obtain rfl := Option.some.inj hstep <;>
      simp only [State.work, Sender.work, Option.isSome_some, if_true] <;> omega
  -- a wait ends with the reply
  | initWait weights | flushWait name weight weights | directWait offset bucketMeta weights | lastWait =>
    simp only [senderStep] at hstep
    split at hstep
    · rename_i hreply
      obtain rfl := Option.some.inj hstep
      simp only [State.work, Sender.work, hreply, if_true, Bool.false_eq_true, if_false]
      omega
    · cases hstep
  | loop offset bucketMeta weights =>
    cases weights with
    | nil =>
      obtain rfl := Option.some.inj hstep
      simp only [State.work, Sender.work, Option.isSome_some, if_true, List.length_nil]
      omega
    | cons item weights =>
      simp only [senderStep] at hstep
      split at hstep <;> obtain rfl := Option.some.inj hstep <;>
        simp only [State.work, Sender.work, Option.isSome_some, if_true, List.length_cons] <;> omega
  | place offset bucketMeta name weight weights =>
    simp only [senderStep] at hstep
    split at hstep
    · split at hstep <;> obtain rfl := Option.some.inj hstep <;>
        simp only [State.work, Sender.work, Option.isSome_some, if_true] <;> omega
    · obtain rfl := Option.some.inj hstep
      simp only [State.work, Sender.work]
      omega
  | done => cases hstep
  | failed error => cases hstep

theorem work_receiverStep (hstep : receiverStep ipc s = some s') : s'.work < s.work := by
  obtain ⟨sender, receiver, request, reply, buffer, delivered⟩ := s
  have hreply : (if reply then 1 else 0) ≤ 1 := by split <;> omega
  cases receiver with
  | init | recv =>
    simp only [receiverStep] at hstep
    split at hstep
    · obtain rfl := Option.some.inj hstep
      simp only [State.work, Receiver.work, Option.isSome_some, Option.isSome_none, if_true, Bool.false_eq_true,
        if_false]
      omega
    · cases hstep
  | initAck =>
    obtain rfl := Option.some.inj hstep
    simp only [State.work, Receiver.work, if_true]
    omega
  | unpack bucketMeta isLast =>
    simp only [receiverStep] at hstep
    split at hstep <;> obtain rfl := Option.some.inj hstep <;> simp only [State.work, Receiver.work] <;> omega
  | ack isLast =>
    obtain rfl := Option.some.inj hstep
    cases isLast <;> simp only [State.work, Receiver.work, if_true, Bool.false_eq_true, if_false] <;> omega
  | done => cases hstep
  | failed => cases hstep

/-! ## Delivery -/

/-- Both processes have returned, and the lists given to `on_bucket_received` are the items. -/
def Finished (items : Weights) (s : State ipc.Handle) : Prop :=
  s.sender = .done ∧ s.receiver = .done ∧ s.delivered.flatten = items

def Sender.bucketItems {H : Type} : Sender H → List (String × TensorMetadata H)
  | .loop _ bucketMeta _ | .place _ bucketMeta _ _ _ | .directWait _ bucketMeta _ => bucketMeta.items
  | _ => []

/-- The metadata of the bucket that is not consumed yet: the receiver has not handed its
tensors on. -/
def State.unconsumed {H : Type} (s : State H) : Option (BucketMeta H) :=
  match s.request, s.receiver with
  | some (.bucket bucketMeta _), _ => some bucketMeta
  | _, .unpack bucketMeta _ => some bucketMeta
  | _, _ => none

/-- **Exactly-once, in-order delivery.** Every run ends with both processes done and the
items delivered; every region lies inside the buffer; the buffer does not change while a
bucket is not consumed. -/
structure Delivers (cfg : Config) (ipc : Ipc) (items : Weights) : Prop where
  ends : (transfer cfg ipc items).EndsIn (Finished items)
  inside : ∀ s, (transfer cfg ipc items).Reach s →
    ∀ item ∈ s.sender.bucketItems ++ (s.unconsumed.map (·.items)).getD [], item.2.handle = none →
      s.buffer.length = cfg.bucketSize ∧
        item.2.offset + item.2.dtype.itemsize * item.2.shape.prod ≤ s.buffer.length
  safe : ∀ s a s', (transfer cfg ipc items).Reach s → (transfer cfg ipc items).step s a s' →
    s.unconsumed.isSome → s'.buffer = s.buffer

theorem Ledger.inside (h : Ledger cfg ipc items buffer delivered inFlight current alignedRest rest)
    {item : String × TensorMetadata ipc.Handle} (hitem : item ∈ current ++ inFlight) (hhandle : item.2.handle = none) :
    buffer.length = cfg.bucketSize ∧ item.2.offset + item.2.dtype.itemsize * item.2.shape.prod ≤ buffer.length := by
  obtain ⟨held, packed, -, hheld, hcurrent⟩ := h.split
  have hdescribed : ∃ x, Described ipc buffer item x := by
    rcases List.mem_append.1 hitem with hmem | hmem
    · obtain ⟨i, hi, rfl⟩ := List.getElem_of_mem hmem
      exact ⟨_, (List.forall₂_iff_get.1 hcurrent).2 i hi ((List.forall₂_iff_get.1 hcurrent).1 ▸ hi)⟩
    · obtain ⟨i, hi, rfl⟩ := List.getElem_of_mem hmem
      exact ⟨_, (List.forall₂_iff_get.1 hheld).2 i hi ((List.forall₂_iff_get.1 hheld).1 ▸ hi)⟩
  obtain ⟨x, -, hshape, hdtype, hdata⟩ := hdescribed
  rw [hhandle] at hdata
  have hsize : x.2.nbytes = item.2.dtype.itemsize * item.2.shape.prod := by
    rw [hshape, hdtype, ← x.2.length_bytes]
    rfl
  exact ⟨h.length, hsize ▸ hdata.1⟩

theorem Waiting.bucketItems {sender : Sender ipc.Handle} {isLast : Bool}
    (hwait : Waiting cfg ipc sender isLast alignedRest rest) : sender.bucketItems = [] := by
  cases hwait <;> rfl

theorem Phase.inside (h : Phase cfg ipc items s) {item : String × TensorMetadata ipc.Handle}
    (hitem : item ∈ s.sender.bucketItems ++ (s.unconsumed.map (·.items)).getD []) (hhandle : item.2.handle = none) :
    s.buffer.length = cfg.bucketSize ∧
      item.2.offset + item.2.dtype.itemsize * item.2.shape.prod ≤ s.buffer.length := by
  cases h with
  | start | refused | comm | commTaken | commReplied | done => cases hitem
  | loop offset bucketMeta weights buffer delivered hpacked hoffset h => exact h.inside hitem hhandle
  | place offset bucketMeta name weight weights buffer delivered hpacked hoffset hfirst h =>
    exact h.inside hitem hhandle
  | sent sender bucketMeta isLast alignedRest rest buffer delivered hwait h =>
    rw [hwait.bucketItems] at hitem
    exact h.inside hitem hhandle
  | taken sender bucketMeta isLast alignedRest rest buffer delivered hwait h =>
    rw [hwait.bucketItems] at hitem
    exact h.inside hitem hhandle
  | rejected sender isLast alignedRest rest buffer delivered hwait hmis =>
    rw [hwait.bucketItems] at hitem
    cases hitem
  | consumed sender isLast alignedRest rest buffer delivered hwait h =>
    rw [hwait.bucketItems] at hitem
    cases hitem
  | replied sender isLast alignedRest rest buffer delivered hwait h =>
    rw [hwait.bucketItems] at hitem
    cases isLast <;> cases hitem

theorem Phase.sender_waits (h : Phase cfg ipc items s) (hun : s.unconsumed.isSome) : senderStep cfg ipc s = none := by
  cases h with
  | sent sender bucketMeta isLast alignedRest rest buffer delivered hwait h => exact hwait.step
  | taken sender bucketMeta isLast alignedRest rest buffer delivered hwait h => exact hwait.step
  | replied sender isLast alignedRest rest buffer delivered hwait h => cases isLast <;> cases hun
  | start | refused | comm | commTaken | commReplied | loop | place | rejected | consumed | done => cases hun

theorem buffer_receiverStep (hstep : receiverStep ipc s = some s') : s'.buffer = s.buffer := by
  unfold receiverStep at hstep
  split at hstep
  · split at hstep <;> [obtain rfl := Option.some.inj hstep; cases hstep]
    rfl
  · obtain rfl := Option.some.inj hstep
    rfl
  · split at hstep <;> [obtain rfl := Option.some.inj hstep; cases hstep]
    rfl
  · split at hstep <;> obtain rfl := Option.some.inj hstep <;> rfl
  · obtain rfl := Option.some.inj hstep
    rfl
  · cases hstep
  · cases hstep

/-- **Progress**: with an aligned packing one of the processes can move until both are done. -/
theorem Phase.progress (h : Phase cfg ipc items s) (haligned : Aligned cfg.bucketSize 0 false items)
    (hcreated : ¬ (cfg.useShm = true ∧ cfg.bucketSize = 0)) (hfinished : ¬ Finished items s) :
    ∃ a s', step cfg ipc s a = some s' := by
  cases h with
  | start =>
    refine ⟨.sender, Option.isSome_iff_exists.1 ?_⟩
    simp only [step, initState, senderStep]
    rw [if_neg hcreated]
    rfl
  | refused hrefused => exact absurd hrefused hcreated
  | comm buffer h => exact ⟨.receiver, _, rfl⟩
  | commTaken buffer h => exact ⟨.receiver, _, rfl⟩
  | commReplied buffer h => exact ⟨.sender, _, rfl⟩
  | loop offset bucketMeta weights buffer delivered hpacked hoffset h =>
    refine ⟨.sender, Option.isSome_iff_exists.1 ?_⟩
    cases weights with
    | nil => rfl
    | cons item weights =>
      simp only [step, senderStep]
      split <;> rfl
  | place offset bucketMeta name weight weights buffer delivered hpacked hoffset hfirst h =>
    refine ⟨.sender, Option.isSome_iff_exists.1 ?_⟩
    simp only [step, senderStep]
    split
    · split <;> rfl
    · rfl
  | sent sender bucketMeta isLast alignedRest rest buffer delivered hwait h => exact ⟨.receiver, _, rfl⟩
  | taken sender bucketMeta isLast alignedRest rest buffer delivered hwait h =>
    refine ⟨.receiver, Option.isSome_iff_exists.1 ?_⟩
    simp only [step, receiverStep]
    split <;> rfl
  | rejected sender isLast alignedRest rest buffer delivered hwait hmis => exact absurd haligned hmis
  | consumed sender isLast alignedRest rest buffer delivered hwait h => exact ⟨.receiver, _, rfl⟩
  | replied sender isLast alignedRest rest buffer delivered hwait h => cases hwait <;> exact ⟨.sender, _, rfl⟩
  | done buffer delivered h =>
    -- in the last phase nothing is left to send or to deliver
    obtain ⟨held, packed, hsplit, hheld, hpacked⟩ := h.split
    obtain rfl := List.forall₂_nil_left_iff.1 hheld
    obtain rfl := List.forall₂_nil_left_iff.1 hpacked
    exact absurd ⟨rfl, rfl, by simpa using hsplit.symm⟩ hfinished

theorem Phase.aligned_of_finished (h : Phase cfg ipc items s) (hfinished : Finished items s) :
    Aligned cfg.bucketSize 0 false items ∧ ¬ (cfg.useShm = true ∧ cfg.bucketSize = 0) := by
  obtain ⟨hsender, -, -⟩ := hfinished
  cases h with
  | done buffer delivered h => exact ⟨h.aligned.2 (by simp), h.created⟩
  | start | refused | comm | commTaken | commReplied | loop | place => cases hsender
  | sent sender bucketMeta isLast alignedRest rest buffer delivered hwait h => cases hwait <;> cases hsender
  | taken sender bucketMeta isLast alignedRest rest buffer delivered hwait h => cases hwait <;> cases hsender
  | rejected sender isLast alignedRest rest buffer delivered hwait hmis => cases hwait <;> cases hsender
  | consumed sender isLast alignedRest rest buffer delivered hwait h => cases hwait <;> cases hsender
  | replied sender isLast alignedRest rest buffer delivered hwait h => cases hwait <;> cases hsender

section Claim

variable (hnames : (items.map Prod.fst).Nodup)
  (hfit : cfg.useShm = true → ∀ item ∈ items, item.2.nbytes ≤ cfg.bucketSize)

include hnames hfit

theorem aligned_of_delivers (h : Delivers cfg ipc items) :
    Aligned cfg.bucketSize 0 false items ∧ ¬ (cfg.useShm = true ∧ cfg.bucketSize = 0) := by
  obtain ⟨s, hreach, hfinished⟩ := h.ends.exists_end rfl
  exact (phase_of_reach hnames hfit hreach).aligned_of_finished hfinished

theorem delivers_of_aligned (haligned : Aligned cfg.bucketSize 0 false items)
    (hcreated : ¬ (cfg.useShm = true ∧ cfg.bucketSize = 0)) : Delivers cfg ipc items := by
  refine ⟨System.endsIn_of_measure State.work (fun s a s' _ hstep => ?_) (fun s hreach hfinished => ?_),
    fun s hreach item hitem hhandle => (phase_of_reach hnames hfit hreach).inside hitem hhandle,
    fun s a s' hreach hstep hun => ?_⟩
  · cases a with
    | sender => exact work_senderStep hstep
    | receiver => exact work_receiverStep hstep
  · exact (phase_of_reach hnames hfit hreach).progress haligned hcreated hfinished
  · cases a with
    | sender =>
      have hnone := (phase_of_reach hnames hfit hreach).sender_waits hun
      rw [show senderStep cfg ipc s = some s' from hstep] at hnone
      cases hnone
    | receiver => exact buffer_receiverStep hstep

/-- **The transfer delivers exactly when** the packing of the sender is aligned (and, with
shared memory, the segment is not empty). -/
theorem delivers_iff : Delivers cfg ipc items ↔
    Aligned cfg.bucketSize 0 false items ∧ ¬ (cfg.useShm = true ∧ cfg.bucketSize = 0) :=
  ⟨aligned_of_delivers hnames hfit, fun h => delivers_of_aligned hnames hfit h.1 h.2⟩

end Claim

/-! ## An aligned and a misaligned packing -/

def exampleIpc : Ipc := ⟨Tensor, id, id, fun _ => rfl⟩

def exampleFloat : Tensor := ⟨[1], .float32, [0, 0, 128, 63], by decide⟩

def exampleByte : Tensor := ⟨[1], .uint8, [7], by decide⟩

theorem bucketSize_one (useShm : Bool) : Config.bucketSize ⟨1, useShm⟩ = 1048576 := Nat.one_shiftLeft 20

theorem delivers_floatFirst : Delivers ⟨1, true⟩ exampleIpc [("b", exampleFloat), ("a", exampleByte)] := by
  refine (delivers_iff (by decide) fun _ => ?_).2 ?_
  · rw [bucketSize_one]
    decide
  · rw [bucketSize_one]
    simp [Aligned, exampleFloat, exampleByte, Tensor.nbytes, DType.itemsize]

/-- **One byte before a `float32`**: its region starts at offset 1, and the receiver raises
when it views it. -/
theorem misaligned_not_delivered : ¬ Delivers ⟨1, true⟩ exampleIpc [("a", exampleByte), ("b", exampleFloat)] := by
  intro h
  have hfit : ∀ item ∈ [("a", exampleByte), ("b", exampleFloat)],
      item.2.nbytes ≤ Config.bucketSize ⟨1, true⟩ := by
    rw [bucketSize_one]
    decide
  have haligned := (aligned_of_delivers (by decide) (fun _ => hfit) h).1
  rw [bucketSize_one] at haligned
  simp [Aligned, exampleFloat, exampleByte, Tensor.nbytes, DType.itemsize] at haligned

end Opd.Clight.BucketedTransfer
