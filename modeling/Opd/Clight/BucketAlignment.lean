import Mathlib.Algebra.BigOperators.Ring.List
import Mathlib.Algebra.Ring.Nat
import Opd.Clight.BucketedDelivery

/-!
# Alignment of the bucket entries

A weight starts in the shared buffer where the previous weight of its bucket ended, so its
offset is the sum of the bytes before it, whatever its dtype. The names play no role: a
second weight of the same name replaces the entry of the first, behind the same bytes.

* `buckets`: the weights that share a bucket, in the order of the run.
* `BucketAligned`: the bytes before each weight are a multiple of its item size.
* `entriesAligned_iff`: the entries of every run are aligned, and no view of the receiver
  fails, exactly when all buckets are aligned.
* `entriesAligned_of_decreasing`: no narrower weight comes before a wider one.
-/

namespace Opd.Clight.BucketedTransfer

open Lib

variable {cfg : Config} {ipc : Ipc} {weights held rest : Weights} {s s' : State ipc.Handle}

/-! ## The buckets of a run -/

def totalBytes (held : Weights) : ℕ := (held.map fun x => x.2.nbytes).sum

theorem totalBytes_concat (held : Weights) (x : String × Tensor) :
    totalBytes (held ++ [x]) = totalBytes held + x.2.nbytes := by simp [totalBytes]

/-- The weights that share a bucket with `held`, then those of the later buckets. A weight
larger than a bucket ends the run with shared memory, and takes no bucket without. -/
def packing (cfg : Config) : Weights → Weights → List Weights
  | held, [] => [held]
  | held, (name, weight) :: rest =>
    if totalBytes held + weight.nbytes ≤ cfg.bucketSize then packing cfg (held ++ [(name, weight)]) rest
    else if weight.nbytes ≤ cfg.bucketSize then held :: packing cfg [(name, weight)] rest
    else if cfg.useShm then [held] else held :: packing cfg [] rest

/-- The weights of each bucket. `SharedMemory` refuses buckets of size 0. -/
def buckets (cfg : Config) (weights : Weights) : List Weights :=
  if cfg.useShm ∧ cfg.bucketSize = 0 then [] else packing cfg [] weights

/-- **An aligned bucket**: the bytes before each weight are a multiple of its item size. -/
def BucketAligned (bucket : Weights) : Prop :=
  ∀ before x after, bucket = before ++ x :: after → x.2.dtype.itemsize ∣ totalBytes before

theorem bucketAligned_nil : BucketAligned [] := by
  intro before x after h
  simp at h

theorem BucketAligned.of_append {front back : Weights} (h : BucketAligned (front ++ back)) :
    BucketAligned front := by
  intro before x after hsplit
  apply h before x (after ++ back)
  rw [hsplit]
  simp

theorem bucketAligned_concat {x : String × Tensor} :
    BucketAligned (held ++ [x]) ↔ BucketAligned held ∧ x.2.dtype.itemsize ∣ totalBytes held := by
  constructor
  · intro h
    exact ⟨h.of_append, h held x [] rfl⟩
  · rintro ⟨hheld, hlast⟩ before y after hsplit
    rcases List.eq_nil_or_concat after with rfl | ⟨front, z, rfl⟩
    · obtain ⟨rfl, hy⟩ := List.append_inj' hsplit rfl
      obtain rfl : x = y := by simpa using hy
      exact hlast
    · rw [List.concat_eq_append, ← List.cons_append, ← List.append_assoc] at hsplit
      exact hheld before y front (List.append_inj' hsplit rfl).1

/-- The bucket that is being filled and all later ones are aligned. -/
def RestAligned (cfg : Config) (held rest : Weights) : Prop := ∀ bucket ∈ packing cfg held rest, BucketAligned bucket

theorem exists_mem_packing (cfg : Config) (held rest : Weights) : ∃ back, held ++ back ∈ packing cfg held rest := by
  induction rest generalizing held with
  | nil => exact ⟨[], by simp [packing]⟩
  | cons item rest ih =>
    obtain ⟨name, weight⟩ := item
    by_cases hfit : totalBytes held + weight.nbytes ≤ cfg.bucketSize
    · obtain ⟨back, hback⟩ := ih (held ++ [(name, weight)])
      refine ⟨(name, weight) :: back, ?_⟩
      rw [packing, if_pos hfit]
      simpa using hback
    · refine ⟨[], ?_⟩
      rw [packing, if_neg hfit, List.append_nil]
      split
      · exact List.mem_cons_self
      · split <;> exact List.mem_cons_self

theorem RestAligned.current (h : RestAligned cfg held rest) : BucketAligned held := by
  obtain ⟨back, hback⟩ := exists_mem_packing cfg held rest
  exact (h _ hback).of_append

theorem restAligned_nil : RestAligned cfg held [] ↔ BucketAligned held := by simp [RestAligned, packing]

section Next

variable {name : String} {weight : Tensor}

theorem restAligned_fit (hfit : totalBytes held + weight.nbytes ≤ cfg.bucketSize) :
    RestAligned cfg held ((name, weight) :: rest) ↔ RestAligned cfg (held ++ [(name, weight)]) rest := by
  rw [RestAligned, RestAligned, packing, if_pos hfit]

theorem restAligned_flush (hfit : ¬ totalBytes held + weight.nbytes ≤ cfg.bucketSize) :
    RestAligned cfg held ((name, weight) :: rest) ↔
      BucketAligned held ∧ RestAligned cfg [] ((name, weight) :: rest) := by
  have hzero : totalBytes [] + weight.nbytes = weight.nbytes := Nat.zero_add _
  unfold RestAligned
  rw [packing, if_neg hfit, packing, hzero]
  by_cases hsmall : weight.nbytes ≤ cfg.bucketSize
  · simp [hsmall]
  · rw [if_neg hsmall, if_neg hsmall, if_neg hsmall]
    split <;> simp [bucketAligned_nil]

theorem restAligned_direct (hlarge : ¬ weight.nbytes ≤ cfg.bucketSize) (hshm : ¬ cfg.useShm = true) :
    RestAligned cfg [] ((name, weight) :: rest) ↔ RestAligned cfg [] rest := by
  have hfit : ¬ totalBytes [] + weight.nbytes ≤ cfg.bucketSize := by simpa [totalBytes] using hlarge
  unfold RestAligned
  rw [packing, if_neg hfit, if_neg hlarge, if_neg hshm]
  simp [bucketAligned_nil]

theorem restAligned_refused (hlarge : ¬ weight.nbytes ≤ cfg.bucketSize) (hshm : cfg.useShm = true) :
    RestAligned cfg [] ((name, weight) :: rest) := by
  have hfit : ¬ totalBytes [] + weight.nbytes ≤ cfg.bucketSize := by simpa [totalBytes] using hlarge
  intro bucket hbucket
  rw [packing, if_neg hfit, if_neg hlarge, if_pos hshm, List.mem_singleton] at hbucket
  exact hbucket ▸ bucketAligned_nil

end Next

/-! ## The entries of a run -/

def Message.entries {H : Type} : Message H → List (String × TensorMetadata H)
  | .comm _ => []
  | .bucket bucketMeta _ => bucketMeta.items

def Receiver.entries {H : Type} : Receiver H → List (String × TensorMetadata H)
  | .unpack bucketMeta _ => bucketMeta.items
  | _ => []

/-- The entries that the sender has written and the receiver has not read. -/
def State.entries {H : Type} (s : State H) : List (String × TensorMetadata H) :=
  s.sender.bucketItems ++ ((s.request.map Message.entries).getD [] ++ s.receiver.entries)

/-- **Alignment of a transfer**: in every state of every run the offset of each entry is a
multiple of its item size, and the receiver has not failed. -/
structure EntriesAligned (cfg : Config) (ipc : Ipc) (weights : Weights) : Prop where
  entries : ∀ s, (transfer cfg ipc weights).Reach s →
    ∀ item ∈ s.entries, item.2.offset % item.2.dtype.itemsize = 0
  views : ∀ s, (transfer cfg ipc weights).Reach s → s.receiver ≠ .failed

/-- The receiver can view the entry in a buffer of the bucket size. -/
def Viewable {H : Type} (cfg : Config) (item : String × TensorMetadata H) : Prop :=
  item.2.offset % item.2.dtype.itemsize = 0 ∧
    (item.2.handle = none → item.2.offset + item.2.dtype.itemsize * item.2.shape.prod ≤ cfg.bucketSize)

variable {item : String × TensorMetadata ipc.Handle}

theorem unpackTensor_of_viewable {buffer : List UInt8} (h : Viewable cfg item)
    (hlength : buffer.length = cfg.bucketSize) : (unpackTensor ipc buffer item.2).isSome := by
  unfold unpackTensor
  split
  · rfl
  · rename_i hhandle
    have hread := Storage.length_read (hlength ▸ h.2 hhandle)
    rw [viewAs, dif_pos ⟨hread, h.1⟩]
    rfl

theorem unpackBucket_of_viewable {buffer : List UInt8} {items : List (String × TensorMetadata ipc.Handle)}
    (h : ∀ item ∈ items, Viewable cfg item) (hlength : buffer.length = cfg.bucketSize) :
    (unpackBucket ipc buffer items).isSome := by
  induction items with
  | nil => rfl
  | cons item items ih =>
    rw [List.forall_mem_cons] at h
    obtain ⟨w, hw⟩ := Option.isSome_iff_exists.1 (unpackTensor_of_viewable h.1 hlength)
    obtain ⟨ws, hws⟩ := Option.isSome_iff_exists.1 (ih h.2)
    unfold unpackBucket at hws ⊢
    rw [List.mapM_cons, hw, hws]
    rfl


/-! ## The steps -/

/-- What the entries of the bucket that is being filled stand for. -/
structure Filling {H : Type} (bucketMeta : BucketMeta H) (offset : ℕ) (held : Weights) : Prop where
  offset : totalBytes held = offset
  empty : bucketMeta.items = [] ↔ held = []

theorem filling_empty {H : Type} : Filling (.empty : BucketMeta H) 0 [] := ⟨rfl, by simp [Dict.empty]⟩

theorem items_update_ne_nil {H : Type} (bucketMeta : BucketMeta H) (name : String)
    (f : Option (TensorMetadata H) → TensorMetadata H) : (bucketMeta.update name f).items ≠ [] := by
  intro h
  have hget := Dict.get?_update_self bucketMeta name f
  rw [← Dict.mem_items, h] at hget
  cases hget

theorem Filling.put {H : Type} {bucketMeta : BucketMeta H} {offset : ℕ} (h : Filling bucketMeta offset held)
    (name : String) (weight : Tensor) :
    Filling (bucketMeta.update name fun _ => bufferMeta name weight offset) (offset + weight.nbytes)
      (held ++ [(name, weight)]) := by
  refine ⟨by rw [totalBytes_concat, h.offset], ?_⟩
  simp [items_update_ne_nil]

theorem mem_items_update {H : Type} {bucketMeta : BucketMeta H} {name : String} {m : TensorMetadata H}
    {item : String × TensorMetadata H} (h : item ∈ (bucketMeta.update name fun _ => m).items) :
    item.2 = m ∨ item ∈ bucketMeta.items := by
  obtain ⟨k, v⟩ := item
  rw [Dict.mem_items, Dict.get?_update] at h
  split at h
  · exact Or.inl (Option.some.inj h).symm
  · exact Or.inr (Dict.mem_items.2 h)

def SenderAligned (cfg : Config) {H : Type} (weights : Weights) : Sender H → Prop
  | .init ws => ws = weights
  | .initWait ws => RestAligned cfg [] ws
  | .loop offset bucketMeta ws | .directWait offset bucketMeta ws =>
    ∃ held, Filling bucketMeta offset held ∧ RestAligned cfg held ws
  | .flushWait name weight ws => RestAligned cfg [] ((name, weight) :: ws)
  | .place offset bucketMeta name weight ws =>
    ∃ held, Filling bucketMeta offset held ∧ (¬ offset + weight.nbytes ≤ cfg.bucketSize → held = []) ∧
      RestAligned cfg held ((name, weight) :: ws)
  | .lastWait | .done | .failed _ => True

def Sender.Created {H : Type} : Sender H → Prop
  | .init _ | .failed _ => False
  | _ => True

/-- **The invariant of an aligned transfer.** -/
structure Aligning (cfg : Config) (weights : Weights) (s : State ipc.Handle) : Prop where
  sender : SenderAligned cfg weights s.sender
  entries : ∀ item ∈ s.entries, Viewable cfg item
  created : s.sender.Created → s.buffer.length = cfg.bucketSize
  /-- Before the buffer is created nothing is sent. -/
  served : s.request.isSome ∨ s.receiver ≠ .init → s.buffer.length = cfg.bucketSize
  views : s.receiver ≠ .failed

theorem mem_entries :
    item ∈ s.entries ↔ item ∈ s.sender.bucketItems ∨ item ∈ (s.request.map Message.entries).getD [] ∨
      item ∈ s.receiver.entries := by
  unfold State.entries
  rw [List.mem_append, List.mem_append]

/-- **The entries after a step of the sender** are old ones, or the entry of the weight at
the second test of the loop. -/
theorem entries_senderStep (hstep : senderStep cfg ipc s = some s') (hitem : item ∈ s'.entries) :
    item ∈ s.entries ∨ ∃ offset bucketMeta name weight ws,
      s.sender = .place offset bucketMeta name weight ws ∧ (item.2 = directMeta ipc name weight ∨
        offset + weight.nbytes ≤ cfg.bucketSize ∧ item.2 = bufferMeta name weight offset) := by
  obtain ⟨sender, receiver, request, reply, buffer, delivered⟩ := s
  rw [mem_entries]
  cases sender with
  | init ws =>
    simp only [senderStep] at hstep
    split at hstep <;> obtain rfl := Option.some.inj hstep <;> rw [mem_entries] at hitem <;>
      rcases hitem with hitem | hitem | hitem
    · cases hitem
    · exact Or.inl (Or.inr (Or.inl hitem))
    · exact Or.inl (Or.inr (Or.inr hitem))
    · cases hitem
    · cases hitem
    · exact Or.inl (Or.inr (Or.inr hitem))
  -- a wait only takes the reply
  | initWait ws | flushWait name weight ws | directWait offset bucketMeta ws | lastWait =>
    simp only [senderStep] at hstep
    split at hstep
    · obtain rfl := Option.some.inj hstep
      rw [mem_entries] at hitem
      exact Or.inl hitem
    · cases hstep
  | loop offset bucketMeta ws =>
    cases ws with
    | nil =>
      obtain rfl := Option.some.inj hstep
      rw [mem_entries] at hitem
      rcases hitem with hitem | hitem | hitem
      · cases hitem
      · exact Or.inl (Or.inl hitem)
      · exact Or.inl (Or.inr (Or.inr hitem))
    | cons x ws =>
      simp only [senderStep] at hstep
      split at hstep <;> obtain rfl := Option.some.inj hstep <;> rw [mem_entries] at hitem
      · rcases hitem with hitem | hitem | hitem
        · cases hitem
        · exact Or.inl (Or.inl hitem)
        · exact Or.inl (Or.inr (Or.inr hitem))
      · exact Or.inl hitem
  | place offset bucketMeta name weight ws =>
    simp only [senderStep] at hstep
    split at hstep
    · split at hstep <;> obtain rfl := Option.some.inj hstep <;> rw [mem_entries] at hitem <;>
        rcases hitem with hitem | hitem | hitem
      · cases hitem
      · exact Or.inl (Or.inr (Or.inl hitem))
      · exact Or.inl (Or.inr (Or.inr hitem))
      · exact Or.inl (Or.inl hitem)
      · refine Or.inr ⟨offset, bucketMeta, name, weight, ws, rfl, Or.inl ?_⟩
        exact (mem_items_update hitem).resolve_right (by simp [Dict.empty])
      · exact Or.inl (Or.inr (Or.inr hitem))
    · rename_i hfit
      obtain rfl := Option.some.inj hstep
      rw [mem_entries] at hitem
      rcases hitem with hitem | hitem
      · rcases mem_items_update hitem with hnew | hold
        · exact Or.inr ⟨offset, bucketMeta, name, weight, ws, rfl, Or.inr ⟨by omega, hnew⟩⟩
        · exact Or.inl (Or.inl hold)
      · exact Or.inl (Or.inr hitem)
  | done => cases hstep
  | failed error => cases hstep

theorem entries_receiverStep (hstep : receiverStep ipc s = some s') (hitem : item ∈ s'.entries) :
    item ∈ s.entries := by
  obtain ⟨sender, receiver, request, reply, buffer, delivered⟩ := s
  rw [mem_entries] at hitem ⊢
  unfold receiverStep at hstep
  split at hstep
  · split at hstep <;> [obtain rfl := Option.some.inj hstep; cases hstep]
    exact hitem.imp_right fun h => by simp [Receiver.entries] at h
  · obtain rfl := Option.some.inj hstep
    exact hitem.imp_right fun h => h.imp_right fun h => by cases h
  · split at hstep <;> [obtain rfl := Option.some.inj hstep; cases hstep]
    rename_i hrequest
    -- the request that the receiver has taken
    rcases hitem with hitem | hitem | hitem
    · exact Or.inl hitem
    · cases hitem
    · refine Or.inr (Or.inl ?_)
      rw [hrequest]
      exact hitem
  · split at hstep <;> obtain rfl := Option.some.inj hstep <;>
      exact hitem.imp_right fun h => h.imp_right fun h => by cases h
  · obtain rfl := Option.some.inj hstep
    refine hitem.imp_right fun h => h.imp_right fun h => ?_
    simp only at h
    split at h <;> cases h
  · cases hstep
  · cases hstep


theorem Aligning.senderStep_sender (h : Aligning cfg weights s)
    (hrest : cfg.useShm = true ∧ cfg.bucketSize = 0 ∨ RestAligned cfg [] weights)
    (hstep : senderStep cfg ipc s = some s') : SenderAligned cfg weights s'.sender := by
  obtain ⟨sender, receiver, request, reply, buffer, delivered⟩ := s
  have hsender : SenderAligned cfg weights sender := h.sender
  cases sender with
  | init ws =>
    obtain rfl : ws = weights := hsender
    simp only [senderStep] at hstep
    split at hstep <;> obtain rfl := Option.some.inj hstep
    · trivial
    · rename_i hcreated
      exact hrest.resolve_left hcreated
  | initWait ws =>
    simp only [senderStep] at hstep
    split at hstep <;> [obtain rfl := Option.some.inj hstep; cases hstep]
    exact ⟨[], filling_empty, hsender⟩
  | flushWait name weight ws =>
    simp only [senderStep] at hstep
    split at hstep <;> [obtain rfl := Option.some.inj hstep; cases hstep]
    exact ⟨[], filling_empty, fun _ => rfl, hsender⟩
  | directWait offset bucketMeta ws =>
    simp only [senderStep] at hstep
    split at hstep <;> [obtain rfl := Option.some.inj hstep; cases hstep]
    exact hsender
  | lastWait =>
    simp only [senderStep] at hstep
    split at hstep <;> [obtain rfl := Option.some.inj hstep; cases hstep]
    trivial
  | loop offset bucketMeta ws =>
    obtain ⟨held, hfill, hws⟩ := hsender
    cases ws with
    | nil =>
      obtain rfl := Option.some.inj hstep
      trivial
    | cons x ws =>
      obtain ⟨name, weight⟩ := x
      simp only [senderStep] at hstep
      split at hstep <;> obtain rfl := Option.some.inj hstep
      · rename_i hflush
        have hfit : ¬ totalBytes held + weight.nbytes ≤ cfg.bucketSize := by
          rw [hfill.offset]
          omega
        exact ((restAligned_flush hfit).1 hws).2
      · rename_i hflush
        refine ⟨held, hfill, fun hlarge => ?_, hws⟩
        by_contra hne
        exact hflush ⟨by omega, fun hnil => hne (hfill.empty.1 hnil)⟩
  | place offset bucketMeta name weight ws =>
    obtain ⟨held, hfill, hfirst, hws⟩ := hsender
    simp only [senderStep] at hstep
    split at hstep
    · rename_i hlarge
      split at hstep <;> obtain rfl := Option.some.inj hstep
      · trivial
      -- the bucket is empty, and stays so while the weight goes by its own handle
      · rename_i hshm
        obtain rfl := hfirst (by omega)
        have hzero : offset = 0 := hfill.offset.symm
        exact ⟨[], hfill, (restAligned_direct (by omega) hshm).1 hws⟩
    · rename_i hfit
      obtain rfl := Option.some.inj hstep
      have hheld : totalBytes held + weight.nbytes ≤ cfg.bucketSize := by
        rw [hfill.offset]
        omega
      exact ⟨held ++ [(name, weight)], hfill.put name weight, (restAligned_fit hheld).1 hws⟩
  | done => cases hstep
  | failed error => cases hstep

theorem SenderAligned.viewable_place {H : Type} {offset : ℕ} {bucketMeta : BucketMeta H} {name : String}
    {weight : Tensor} {ws : Weights} (h : SenderAligned cfg weights (.place offset bucketMeta name weight ws))
    (hfit : offset + weight.nbytes ≤ cfg.bucketSize) (key : String) :
    Viewable cfg (key, bufferMeta (H := H) name weight offset) := by
  obtain ⟨held, hfill, -, hws⟩ := h
  have hheld : totalBytes held + weight.nbytes ≤ cfg.bucketSize := by
    rw [hfill.offset]
    exact hfit
  have halign := (bucketAligned_concat.1 ((restAligned_fit hheld).1 hws).current).2
  rw [hfill.offset] at halign
  refine ⟨Nat.mod_eq_zero_of_dvd halign, fun _ => ?_⟩
  rw [Tensor.nbytes_eq, Nat.mul_comm] at hfit
  exact hfit

theorem viewable_directMeta (name : String) (weight : Tensor) (key : String) :
    Viewable cfg (key, directMeta ipc name weight) := ⟨Nat.zero_mod _, nofun⟩

/-- **The buffer keeps its length** from its creation on. -/
theorem length_senderStep (hcreated : s.sender.Created → s.buffer.length = cfg.bucketSize)
    (hstep : senderStep cfg ipc s = some s') :
    (s'.sender.Created → s'.buffer.length = cfg.bucketSize) ∧
      (s.buffer.length = cfg.bucketSize → s'.buffer.length = cfg.bucketSize) ∧
      (s'.request.isSome → s.request.isSome ∨ s'.buffer.length = cfg.bucketSize) := by
  obtain ⟨sender, receiver, request, reply, buffer, delivered⟩ := s
  cases sender with
  | init ws =>
    simp only [senderStep] at hstep
    split at hstep <;> obtain rfl := Option.some.inj hstep
    · exact ⟨fun h => False.elim h, fun h => h, fun h => Or.inl h⟩
    · simp only [List.length_replicate]
      exact ⟨fun _ => trivial, fun _ => trivial, fun _ => Or.inr trivial⟩
  | initWait ws | flushWait name weight ws | directWait offset bucketMeta ws | lastWait =>
    have hlength : buffer.length = cfg.bucketSize := hcreated trivial
    simp only [senderStep] at hstep
    split at hstep <;> [obtain rfl := Option.some.inj hstep; cases hstep]
    exact ⟨fun _ => hlength, id, fun _ => Or.inr hlength⟩
  | loop offset bucketMeta ws =>
    have hlength : buffer.length = cfg.bucketSize := hcreated trivial
    cases ws with
    | nil =>
      obtain rfl := Option.some.inj hstep
      exact ⟨fun _ => hlength, id, fun _ => Or.inr hlength⟩
    | cons x ws =>
      simp only [senderStep] at hstep
      split at hstep <;> obtain rfl := Option.some.inj hstep <;>
        exact ⟨fun _ => hlength, id, fun _ => Or.inr hlength⟩
  | place offset bucketMeta name weight ws =>
    have hlength : buffer.length = cfg.bucketSize := hcreated trivial
    simp only [senderStep] at hstep
    split at hstep
    · split at hstep <;> obtain rfl := Option.some.inj hstep <;>
        exact ⟨fun _ => hlength, id, fun _ => Or.inr hlength⟩
    · rename_i hfit
      obtain rfl := Option.some.inj hstep
      have hwrite : (Storage.write buffer offset weight.bytes).length = cfg.bucketSize := by
        rw [Storage.length_write]
        · exact hlength
        · rw [hlength]
          exact not_lt.1 hfit
      exact ⟨fun _ => hwrite, fun _ => hwrite, fun _ => Or.inr hwrite⟩
  | done => cases hstep
  | failed error => cases hstep

theorem receiver_senderStep (hstep : senderStep cfg ipc s = some s') : s'.receiver = s.receiver := by
  obtain ⟨sender, receiver, request, reply, buffer, delivered⟩ := s
  unfold senderStep at hstep
  split at hstep <;> (try split at hstep) <;> (try split at hstep) <;>
    first | cases hstep; done | (obtain rfl := Option.some.inj hstep; rfl)

theorem Aligning.senderStep (h : Aligning cfg weights s)
    (hrest : cfg.useShm = true ∧ cfg.bucketSize = 0 ∨ RestAligned cfg [] weights)
    (hstep : senderStep cfg ipc s = some s') : Aligning cfg weights s' := by
  obtain ⟨hcreated, hkeeps, hsent⟩ := length_senderStep h.created hstep
  have hreceiver := receiver_senderStep hstep
  refine ⟨h.senderStep_sender hrest hstep, fun item hitem => ?_, hcreated, fun hserved => ?_, ?_⟩
  · rcases entries_senderStep hstep hitem with hold | ⟨offset, bucketMeta, name, weight, ws, hplace, hnew⟩
    · exact h.entries item hold
    · obtain ⟨key, m⟩ := item
      rcases hnew with rfl | ⟨hfit, rfl⟩
      · exact viewable_directMeta name weight key
      · have hsender := h.sender
        rw [hplace] at hsender
        exact hsender.viewable_place hfit key
  · rw [hreceiver] at hserved
    rcases hserved with hrequest | hreceiver
    · rcases hsent hrequest with hold | hlength
      · exact hkeeps (h.served (Or.inl hold))
      · exact hlength
    · exact hkeeps (h.served (Or.inr hreceiver))
  · rw [hreceiver]
    exact h.views

theorem sender_receiverStep (hstep : receiverStep ipc s = some s') : s'.sender = s.sender := by
  obtain ⟨sender, receiver, request, reply, buffer, delivered⟩ := s
  unfold receiverStep at hstep
  split at hstep <;> (try split at hstep) <;>
    first | cases hstep; done | (obtain rfl := Option.some.inj hstep; rfl)

theorem request_of_receiverStep (hstep : receiverStep ipc s = some s') :
    s.request.isSome ∨ s.receiver ≠ .init := by
  obtain ⟨sender, receiver, request, reply, buffer, delivered⟩ := s
  cases receiver with
  | init =>
    simp only [receiverStep] at hstep
    split at hstep
    · exact Or.inl rfl
    · cases hstep
  | initAck | recv | unpack bucketMeta isLast | ack isLast | done | failed =>
    refine Or.inr fun hinit => ?_
    cases hinit

theorem Aligning.views_receiverStep (h : Aligning cfg weights s) (hstep : receiverStep ipc s = some s') :
    s'.receiver ≠ .failed := by
  have hlength := h.served (request_of_receiverStep hstep)
  obtain ⟨sender, receiver, request, reply, buffer, delivered⟩ := s
  cases receiver with
  | unpack bucketMeta isLast =>
    have hall : ∀ item ∈ bucketMeta.items, Viewable cfg item :=
      fun item hitem => h.entries item (mem_entries.2 (Or.inr (Or.inr hitem)))
    obtain ⟨ws, hws⟩ := Option.isSome_iff_exists.1 (unpackBucket_of_viewable hall hlength)
    simp only [receiverStep, hws] at hstep
    obtain rfl := Option.some.inj hstep
    intro hfailed
    cases hfailed
  | init | recv =>
    simp only [receiverStep] at hstep
    split at hstep <;> [obtain rfl := Option.some.inj hstep; cases hstep]
    intro hfailed
    cases hfailed
  | initAck =>
    obtain rfl := Option.some.inj hstep
    intro hfailed
    cases hfailed
  | ack isLast =>
    obtain rfl := Option.some.inj hstep
    intro hfailed
    cases isLast <;> cases hfailed
  | done => cases hstep
  | failed => cases hstep

theorem Aligning.receiverStep (h : Aligning cfg weights s) (hstep : receiverStep ipc s = some s') :
    Aligning cfg weights s' := by
  have hlength := h.served (request_of_receiverStep hstep)
  have hsender := sender_receiverStep hstep
  refine ⟨?_, fun item hitem => h.entries item (entries_receiverStep hstep hitem), fun _ => ?_, fun _ => ?_,
    h.views_receiverStep hstep⟩
  · rw [hsender]
    exact h.sender
  · rw [buffer_receiverStep hstep]
    exact hlength
  · rw [buffer_receiverStep hstep]
    exact hlength

theorem aligning_of_reach (hrest : cfg.useShm = true ∧ cfg.bucketSize = 0 ∨ RestAligned cfg [] weights)
    (h : (transfer cfg ipc weights).Reach s) : Aligning cfg weights s := by
  refine h.induct ?_ ?_
  · rintro s rfl
    exact ⟨rfl, nofun, False.elim, fun hserved => by simp [initState] at hserved, nofun⟩
  · intro s a s' _ hinv hstep
    cases a with
    | sender => exact hinv.senderStep hrest hstep
    | receiver => exact hinv.receiverStep hstep

theorem forall_buckets : (∀ bucket ∈ buckets cfg weights, BucketAligned bucket) ↔
    cfg.useShm = true ∧ cfg.bucketSize = 0 ∨ RestAligned cfg [] weights := by
  unfold buckets
  by_cases hcreated : cfg.useShm = true ∧ cfg.bucketSize = 0
  · simp [hcreated]
  · rw [if_neg hcreated]
    exact (or_iff_right hcreated).symm

theorem entriesAligned_of_buckets (h : ∀ bucket ∈ buckets cfg weights, BucketAligned bucket) :
    EntriesAligned cfg ipc weights :=
  ⟨fun _ hreach item hitem => ((aligning_of_reach (forall_buckets.1 h) hreach).entries item hitem).1,
    fun _ hreach => (aligning_of_reach (forall_buckets.1 h) hreach).views⟩

/-! ## A run meets every weight -/

theorem reach_sender (hreach : (transfer cfg ipc weights).Reach s) (hstep : senderStep cfg ipc s = some s') :
    (transfer cfg ipc weights).Reach s' := .step (a := Process.sender) hreach hstep

theorem reach_receiver (hreach : (transfer cfg ipc weights).Reach s) (hstep : receiverStep ipc s = some s') :
    (transfer cfg ipc weights).Reach s' := .step (a := Process.receiver) hreach hstep

section Run

variable (h : EntriesAligned cfg ipc weights)
include h

/-- **A bucket that is sent is replied to**, since the receiver can view it. -/
theorem EntriesAligned.reach_reply {sender : Sender ipc.Handle} {bucketMeta : BucketMeta ipc.Handle}
    {buffer : List UInt8} {delivered : List Weights}
    (hreach : (transfer cfg ipc weights).Reach ⟨sender, .recv, some (.bucket bucketMeta false), false, buffer, delivered⟩) :
    ∃ delivered', (transfer cfg ipc weights).Reach ⟨sender, .recv, none, true, buffer, delivered'⟩ := by
  have htaken : (transfer cfg ipc weights).Reach ⟨sender, .unpack bucketMeta false, none, false, buffer, delivered⟩ :=
    reach_receiver hreach rfl
  cases hunpack : unpackBucket ipc buffer bucketMeta.items with
  | none =>
    have hfailed : (transfer cfg ipc weights).Reach ⟨sender, .failed, none, false, buffer, delivered⟩ := by
      refine reach_receiver htaken ?_
      simp only [receiverStep, hunpack]
    exact absurd rfl (h.views _ hfailed)
  | some ws =>
    have hread : (transfer cfg ipc weights).Reach ⟨sender, .ack false, none, false, buffer, delivered ++ [ws]⟩ := by
      refine reach_receiver htaken ?_
      simp only [receiverStep, hunpack]
    exact ⟨delivered ++ [ws], reach_receiver hread rfl⟩

/-- The second test of the loop, when the weights after it are aligned in every run. -/
theorem EntriesAligned.rest_of_place {ws : Weights}
    (ih : ∀ (held : Weights) (offset : ℕ) (bucketMeta : BucketMeta ipc.Handle) (buffer : List UInt8)
      (delivered : List Weights), (transfer cfg ipc weights).Reach
        ⟨.loop offset bucketMeta ws, .recv, none, false, buffer, delivered⟩ →
      Filling bucketMeta offset held → BucketAligned held → RestAligned cfg held ws)
    {offset : ℕ} {bucketMeta : BucketMeta ipc.Handle} {name : String} {weight : Tensor} {buffer : List UInt8}
    {delivered : List Weights} (hreach : (transfer cfg ipc weights).Reach
      ⟨.place offset bucketMeta name weight ws, .recv, none, false, buffer, delivered⟩)
    (hfill : Filling bucketMeta offset held) (hfirst : ¬ offset + weight.nbytes ≤ cfg.bucketSize → held = [])
    (halign : BucketAligned held) : RestAligned cfg held ((name, weight) :: ws) := by
  have hoffset := hfill.offset
  by_cases hfit : offset + weight.nbytes ≤ cfg.bucketSize
  · -- the weight goes into the buffer, and its entry is aligned
    have hnext : (transfer cfg ipc weights).Reach ⟨.loop (offset + weight.nbytes)
        (bucketMeta.update name fun _ => bufferMeta name weight offset) ws, .recv, none, false,
        Storage.write buffer offset weight.bytes, delivered⟩ := by
      refine reach_sender hreach ?_
      simp only [senderStep]
      rw [if_neg (by omega)]
    have hentry := h.entries _ hnext (name, bufferMeta name weight offset)
      (mem_entries.2 (Or.inl (Dict.mem_items.2 (Dict.get?_update_self _ _ _))))
    have hlast : weight.dtype.itemsize ∣ totalBytes held := hoffset ▸ Nat.dvd_of_mod_eq_zero hentry
    rw [restAligned_fit (by omega)]
    exact ih _ _ _ _ _ hnext (hfill.put name weight) (bucketAligned_concat.2 ⟨halign, hlast⟩)
  · obtain rfl := hfirst hfit
    obtain rfl : offset = 0 := hoffset.symm
    have hlarge : ¬ weight.nbytes ≤ cfg.bucketSize := by omega
    by_cases hshm : cfg.useShm = true
    · exact restAligned_refused hlarge hshm
    · have hsent : (transfer cfg ipc weights).Reach ⟨.directWait 0 bucketMeta ws, .recv,
          some (.bucket (Dict.empty.update name fun _ => directMeta ipc name weight) false), false, buffer,
          delivered⟩ := by
        refine reach_sender hreach ?_
        simp only [senderStep]
        rw [if_pos (by omega), if_neg hshm]
      obtain ⟨delivered', hreply⟩ := h.reach_reply hsent
      rw [restAligned_direct hlarge hshm]
      exact ih [] 0 bucketMeta buffer delivered' (reach_sender hreply rfl) hfill bucketAligned_nil

/-- **Every weight of the run is met by the loop**, so its bucket is aligned. -/
theorem EntriesAligned.rest_of_loop (ws : Weights) : ∀ (held : Weights) (offset : ℕ)
    (bucketMeta : BucketMeta ipc.Handle) (buffer : List UInt8) (delivered : List Weights),
    (transfer cfg ipc weights).Reach ⟨.loop offset bucketMeta ws, .recv, none, false, buffer, delivered⟩ →
      Filling bucketMeta offset held → BucketAligned held → RestAligned cfg held ws := by
  induction ws with
  | nil =>
    intro held offset bucketMeta buffer delivered _ _ halign
    exact restAligned_nil.2 halign
  | cons x ws ih =>
    obtain ⟨name, weight⟩ := x
    intro held offset bucketMeta buffer delivered hreach hfill halign
    have hoffset := hfill.offset
    by_cases hflush : offset + weight.nbytes > cfg.bucketSize ∧ bucketMeta.items ≠ []
    · have hsent : (transfer cfg ipc weights).Reach ⟨.flushWait name weight ws, .recv,
          some (.bucket bucketMeta false), false, buffer, delivered⟩ := by
        refine reach_sender hreach ?_
        simp only [senderStep]
        rw [if_pos hflush]
      obtain ⟨delivered', hreply⟩ := h.reach_reply hsent
      have hplace : (transfer cfg ipc weights).Reach ⟨.place 0 .empty name weight ws, .recv, none, false, buffer,
          delivered'⟩ := reach_sender hreply rfl
      rw [restAligned_flush (by omega)]
      exact ⟨halign, h.rest_of_place ih hplace filling_empty (fun _ => rfl) bucketAligned_nil⟩
    · have hplace : (transfer cfg ipc weights).Reach ⟨.place offset bucketMeta name weight ws, .recv, none, false,
          buffer, delivered⟩ := by
        refine reach_sender hreach ?_
        simp only [senderStep]
        rw [if_neg hflush]
      refine h.rest_of_place ih hplace hfill (fun hlarge => ?_) halign
      by_contra hne
      exact hflush ⟨by omega, fun hnil => hne (hfill.empty.1 hnil)⟩

theorem EntriesAligned.buckets : ∀ bucket ∈ buckets cfg weights, BucketAligned bucket := by
  rw [forall_buckets]
  by_cases hcreated : cfg.useShm = true ∧ cfg.bucketSize = 0
  · exact Or.inl hcreated
  · right
    have hcomm : (transfer cfg ipc weights).Reach ⟨.initWait weights, .init, some (.comm cfg.bucketSize), false,
        List.replicate cfg.bucketSize 0, []⟩ := by
      refine reach_sender (.init rfl) ?_
      simp only [initState, senderStep]
      rw [if_neg hcreated]
    generalize List.replicate cfg.bucketSize (0 : UInt8) = buffer at hcomm
    have htaken : (transfer cfg ipc weights).Reach ⟨.initWait weights, .initAck, none, false, buffer, []⟩ :=
      reach_receiver hcomm rfl
    have hreplied : (transfer cfg ipc weights).Reach ⟨.initWait weights, .recv, none, true, buffer, []⟩ :=
      reach_receiver htaken rfl
    exact h.rest_of_loop weights [] 0 .empty buffer [] (reach_sender hreplied rfl) filling_empty bucketAligned_nil

end Run

/-- **The entries of a transfer are aligned exactly when** in each bucket the bytes before
every weight are a multiple of its item size. -/
theorem entriesAligned_iff (cfg : Config) (ipc : Ipc) (weights : Weights) :
    EntriesAligned cfg ipc weights ↔ ∀ bucket ∈ buckets cfg weights, BucketAligned bucket :=
  ⟨fun h => h.buckets, entriesAligned_of_buckets⟩

/-- **One byte before a `float32`**: its entry has offset 1. -/
theorem byteFirst_not_entriesAligned :
    ¬ EntriesAligned ⟨1, true⟩ exampleIpc [("a", exampleByte), ("b", exampleFloat)] := by
  intro h
  have hbucket : [("a", exampleByte), ("b", exampleFloat)] ∈
      buckets ⟨1, true⟩ [("a", exampleByte), ("b", exampleFloat)] := by
    simp [buckets, packing, bucketSize_one, totalBytes, exampleByte, exampleFloat, Tensor.nbytes]
  have hdvd := h.buckets _ hbucket [("a", exampleByte)] ("b", exampleFloat) [] rfl
  simp [totalBytes, exampleByte, exampleFloat, Tensor.nbytes, DType.itemsize] at hdvd

/-! ## Orders that are always aligned -/

theorem sublist_of_mem_packing {bucket : Weights} (h : bucket ∈ packing cfg held rest) :
    bucket.Sublist (held ++ rest) := by
  induction rest generalizing held with
  | nil =>
    obtain rfl : bucket = held := by simpa [packing] using h
    simp
  | cons x rest ih =>
    obtain ⟨name, weight⟩ := x
    have hheld : held.Sublist (held ++ (name, weight) :: rest) := List.sublist_append_left _ _
    rw [packing] at h
    split at h
    · simpa using ih h
    split at h
    · rcases List.mem_cons.1 h with rfl | h
      · exact hheld
      · exact (ih h).trans (List.sublist_append_right _ _)
    split at h
    · exact List.mem_singleton.1 h ▸ hheld
    · rcases List.mem_cons.1 h with rfl | h
      · exact hheld
      · exact (ih h).trans ((List.sublist_cons_self _ _).trans (List.sublist_append_right _ _))

theorem sublist_of_mem_buckets {bucket : Weights} (h : bucket ∈ buckets cfg weights) : bucket.Sublist weights := by
  unfold buckets at h
  split at h
  · cases h
  · exact sublist_of_mem_packing h

theorem bucketAligned_of_decreasing {bucket : Weights}
    (h : bucket.Pairwise fun x y => y.2.dtype.itemsize ∣ x.2.dtype.itemsize) : BucketAligned bucket := by
  intro before x after hsplit
  rw [hsplit, List.pairwise_append] at h
  apply List.dvd_sum
  intro n hn
  obtain ⟨y, hy, rfl⟩ := List.mem_map.1 hn
  rw [Tensor.nbytes_eq]
  exact Dvd.dvd.mul_left (h.2.2 y hy x List.mem_cons_self) _

/-- **Weights of decreasing item sizes are always aligned**, in particular those of one dtype. -/
theorem entriesAligned_of_decreasing (cfg : Config) (ipc : Ipc)
    (h : weights.Pairwise fun x y => y.2.dtype.itemsize ∣ x.2.dtype.itemsize) : EntriesAligned cfg ipc weights :=
  entriesAligned_of_buckets fun _ hbucket => bucketAligned_of_decreasing (h.sublist (sublist_of_mem_buckets hbucket))

theorem entriesAligned_floatFirst : EntriesAligned ⟨1, true⟩ exampleIpc [("b", exampleFloat), ("a", exampleByte)] :=
  entriesAligned_of_decreasing _ _ (by decide)

end Opd.Clight.BucketedTransfer
