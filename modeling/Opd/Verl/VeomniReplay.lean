import Opd.Lib.Dict
import Opd.Lib.Sorting

/-!
# The router replay of VeOmni

The controller is called by every forward of a router. It records the indices of the first forward of each micro-batch,
or replays indices that it is given. The position of a router is that of its first call, so the calls of a recompute
find it again in any order.

* `onRouterForward`: a call of a router.
* `record_first`, `record_again`: what the first calls and the calls of a recompute record.
* `replay_call`: what every call of a replay returns.
-/

namespace Opd.Verl.VeomniReplay

open Lib

abbrev Row : Type := List ℤ

/-- A tensor of `topk` experts for each token. -/
abbrev Indices : Type := List Row

/-- `RouterReplayAction` -/
inductive Action
  | disabled
  | record
  | replay
deriving DecidableEq

/-- `VeOmniRouterReplay` -/
structure Controller (μ : Type) where
  action : Action
  idToPos : Dict μ ℕ
  recorded : List (List Indices)
  targets : List Indices
  replayMask : Option (List Bool)
  mbIndex : ℕ

section Model

variable {μ : Type}

/-- `begin_record` -/
def Controller.beginRecord (_ : Controller μ) : Controller μ := ⟨.record, .empty, [], [], none, 0⟩

/-- `begin_replay` -/
def Controller.beginReplay (s : Controller μ) : Controller μ := ⟨.replay, .empty, s.recorded, [], none, 0⟩

/-- `advance_record_microbatch` -/
def Controller.advanceRecordMicrobatch (s : Controller μ) : Option (Controller μ) :=
  if s.action = .record then some { s with mbIndex := s.mbIndex + 1 } else none

/-- `set_microbatch_targets` -/
def Controller.setMicrobatchTargets (s : Controller μ) (perLayerTargets : List Indices) (replayMask : Option (List Bool)) :
    Option (Controller μ) :=
  if s.action = .replay then some { s with targets := perLayerTargets, replayMask := replayMask } else none

/-- `clear` -/
def Controller.clear (_ : Controller μ) : Controller μ := ⟨.disabled, .empty, [], [], none, 0⟩

/-- `torch.where` on rows, for tensors with the same number of rows. -/
def whereRows (condition : List Bool) (x y : Indices) : Indices :=
  List.zipWith (fun c (p : Row × Row) => if c then p.1 else p.2) condition (x.zip y)

/-- Whether the sorted row has two equal neighbours. -/
def hasDuplicate (row : Row) : Bool :=
  (List.zipWith (fun a b => decide (a = b)) (row.insertionSort (· ≤ ·)).tail
    (row.insertionSort (· ≤ ·)).dropLast).any id

/-- The indices that a replay returns for a target; it raises for a mask or a target of another length. -/
def substitute (replayMask : Option (List Bool)) (target topIndices : Indices) : Option Indices :=
  if target.length = topIndices.length then
    match replayMask with
    | none => some (whereRows (target.map hasDuplicate) topIndices target)
    | some mask =>
      if mask.length = topIndices.length then
        let substituted := whereRows mask target topIndices
        some (whereRows (substituted.map hasDuplicate) topIndices substituted)
      else none
  else none

variable [DecidableEq μ]

/-- The position of a module, whether it is new, and the table with it. -/
def Controller.locate (s : Controller μ) (module : μ) : ℕ × Bool × Dict μ ℕ :=
  match s.idToPos.get? module with
  | some pos => (pos, false, s.idToPos)
  | none => (s.idToPos.items.length, true, s.idToPos.update module fun _ => s.idToPos.items.length)

/-- `on_router_forward`; the check of the shapes is off by default. -/
def Controller.onRouterForward (s : Controller μ) (module : μ) (topIndices : Indices) :
    Option (Controller μ × Indices) :=
  let (pos, newLayer, idToPos) := s.locate module
  let s := { s with idToPos := idToPos }
  match s.action with
  | .record =>
    let recorded := if newLayer then s.recorded ++ [[]] else s.recorded
    match recorded[pos]? with
    | none => none
    | some slot =>
      if slot.length = s.mbIndex + 1 then some ({ s with recorded := recorded }, topIndices)
      else if slot.length ≠ s.mbIndex then none
      else some ({ s with recorded := recorded.set pos (slot ++ [topIndices]) }, topIndices)
  | .replay =>
    match s.targets[pos]? with
    | none => none
    | some target => (substitute s.replayMask target topIndices).map fun out => (s, out)
  | .disabled => some (s, topIndices)

def Controller.fire (s : Controller μ) : List (μ × Indices) → Option (Controller μ × List Indices)
  | [] => some (s, [])
  | call :: calls =>
    (s.onRouterForward call.1 call.2).bind fun next =>
      (Controller.fire next.1 calls).map fun rest => (rest.1, next.2 :: rest.2)

end Model

/-! ## The rows of a replay -/

theorem hasDuplicate_iff (row : Row) : hasDuplicate row = true ↔ ¬ row.Nodup := by
  unfold hasDuplicate
  rw [any_adjacent_iff (List.pairwise_insertionSort (· ≤ ·) row), (List.perm_insertionSort (· ≤ ·) row).nodup_iff]

/-- What a router uses for a token: the target, if it is asked for and has no expert twice. -/
def replayRow (replayed : Bool) (target native : Row) : Row := if replayed && !hasDuplicate target then target else native

theorem length_whereRows {condition : List Bool} {x y : Indices} (hx : condition.length = x.length)
    (hy : condition.length = y.length) : (whereRows condition x y).length = condition.length := by
  rw [whereRows, List.length_zipWith, List.length_zip]
  omega

theorem getElem?_whereRows {condition : List Bool} {x y : Indices} {i : ℕ} {c : Bool} {a b : Row}
    (hc : condition[i]? = some c) (hx : x[i]? = some a) (hy : y[i]? = some b) :
    (whereRows condition x y)[i]? = some (if c then a else b) := by
  have hzip : (x.zip y)[i]? = some (a, b) := List.getElem?_zip_eq_some.2 ⟨hx, hy⟩
  rw [whereRows, List.getElem?_zipWith, hc, hzip]

theorem substitute_rows {replayMask : Option (List Bool)} {target topIndices : Indices}
    (htarget : target.length = topIndices.length) (hmask : ∀ mask ∈ replayMask, mask.length = topIndices.length) :
    ∃ out, substitute replayMask target topIndices = some out ∧ out.length = topIndices.length ∧
      ∀ (i : ℕ) (given native : Row), target[i]? = some given → topIndices[i]? = some native →
        ∀ replayed, (∀ mask ∈ replayMask, mask[i]? = some replayed) → (replayMask = none → replayed = true) →
          out[i]? = some (replayRow replayed given native) := by
  unfold substitute
  rw [if_pos htarget]
  cases replayMask with
  | none =>
    refine ⟨_, rfl, ?_, fun i given native hgiven hnative replayed _ hnone => ?_⟩
    · rw [length_whereRows (by rw [List.length_map, htarget]) (by rw [List.length_map]), List.length_map, htarget]
    · have hdup : (target.map hasDuplicate)[i]? = some (hasDuplicate given) := by
        rw [List.getElem?_map, hgiven]
        rfl
      rw [getElem?_whereRows hdup hnative hgiven, hnone rfl]
      unfold replayRow
      cases hasDuplicate given with
      | false => rfl
      | true => rfl
  | some mask =>
    have hlength := hmask mask rfl
    have hsubstituted : (whereRows mask target topIndices).length = topIndices.length := by
      rw [length_whereRows (by rw [hlength, htarget]) hlength, hlength]
    simp only
    rw [if_pos hlength]
    refine ⟨_, rfl, ?_, fun i given native hgiven hnative replayed hreplayed _ => ?_⟩
    · rw [length_whereRows (by rw [List.length_map, hsubstituted]) (by rw [List.length_map]), List.length_map,
        hsubstituted]
    · have hrow := getElem?_whereRows (hreplayed mask rfl) hgiven hnative
      have hdup : ((whereRows mask target topIndices).map hasDuplicate)[i]? =
          some (hasDuplicate (if replayed then given else native)) := by
        rw [List.getElem?_map, hrow]
        rfl
      rw [getElem?_whereRows hdup hnative hrow]
      unfold replayRow
      cases replayed with
      | false =>
        simp only [Bool.false_and, Bool.false_eq_true, if_false, ite_self]
      | true =>
        simp only [if_true, Bool.true_and]
        cases hasDuplicate given with
        | false => rfl
        | true => rfl

/-! ## Positions -/

section Positions

variable {μ : Type} {modules : List μ} {s : Controller μ} {d l : ℕ} {module : μ}

def Controller.Knows (s : Controller μ) (modules : List μ) (d : ℕ) : Prop :=
  s.idToPos.items = (modules.take d).zipIdx

theorem Controller.Knows.keys (h : s.Knows modules d) : s.idToPos.keys = modules.take d := by
  unfold Dict.keys
  rw [h, List.zipIdx_map_fst]

variable [DecidableEq μ]

/-- **A module that has been called** is found at its position. -/
theorem locate_known (h : s.Knows modules d) (hmodule : modules[l]? = some module) (hl : l < d) :
    s.locate module = (l, false, s.idToPos) := by
  have hget : s.idToPos.get? module = some l := by
    rw [← Dict.mem_items, h, List.mem_zipIdx_iff_getElem?, List.getElem?_take_of_lt hl]
    exact hmodule
  unfold Controller.locate
  rw [hget]

/-- **A new module** gets the next position. -/
theorem locate_new (hnodup : modules.Nodup) (h : s.Knows modules d) (hmodule : modules[d]? = some module) :
    ∃ idToPos, s.locate module = (d, true, idToPos) ∧ idToPos.items = (modules.take (d + 1)).zipIdx := by
  have hlt : d < modules.length := (List.getElem?_eq_some_iff.1 hmodule).1
  have hnew : module ∉ s.idToPos.keys := by
    rw [h.keys]
    intro hmem
    obtain ⟨i, hi⟩ := List.mem_iff_getElem?.1 hmem
    have hid : i < d := by
      have hilt := (List.getElem?_eq_some_iff.1 hi).1
      rw [List.length_take] at hilt
      omega
    rw [List.getElem?_take_of_lt hid] at hi
    have heq := (List.nodup_iff_getElem?_ne_getElem?.1 hnodup) i d hid hlt
    exact heq (hi.trans hmodule.symm)
  have hlength : s.idToPos.items.length = d := by
    rw [h, List.length_zipIdx, List.length_take]
    omega
  refine ⟨s.idToPos.update module fun _ => s.idToPos.items.length, ?_, ?_⟩
  · unfold Controller.locate
    rw [Dict.get?_eq_none.2 hnew, hlength]
  · rw [Dict.items_update_of_not_mem _ hnew, hlength, h, List.take_add_one, hmodule, List.zipIdx_append,
      List.length_take, Nat.min_eq_left (Nat.le_of_lt hlt), Nat.zero_add]
    rfl

end Positions

/-! ## Recording -/

section Record

variable {μ : Type} {modules : List μ} {s s' : Controller μ} {hist : List (List Indices)}
  {cur : List Indices} {l : ℕ} {module : μ}

/-- The number of modules that have been called: those of the first forward so far, and all of them behind it. -/
def found (modules : List μ) (hist : List (List Indices)) (cur : List Indices) : ℕ :=
  if hist = [] then cur.length else modules.length

/-- What a layer has recorded: its indices in the micro-batches before, and in the current one if it has been called. -/
def slotOf (hist : List (List Indices)) (cur : List Indices) (l : ℕ) : List Indices :=
  hist.map (fun tops => (tops[l]?).getD []) ++ (cur[l]?).toList

/-- **The invariant of a recording**, with the indices of the micro-batches before and of the first forward of the
current one. -/
structure Recording (modules : List μ) (hist : List (List Indices)) (cur : List Indices) (s : Controller μ) : Prop where
  action : s.action = .record
  mbIndex : s.mbIndex = hist.length
  known : s.Knows modules (found modules hist cur)
  recorded : s.recorded = (List.range (found modules hist cur)).map (slotOf hist cur)

theorem recording_begin (modules : List μ) (s : Controller μ) : Recording modules [] [] s.beginRecord :=
  ⟨rfl, rfl, rfl, rfl⟩

theorem slotOf_concat_of_ne {top : Indices} (hl : l ≠ cur.length) : slotOf hist (cur ++ [top]) l = slotOf hist cur l := by
  unfold slotOf
  rcases Nat.lt_or_gt_of_ne hl with hlt | hgt
  · rw [List.getElem?_append_left hlt]
  · rw [List.getElem?_eq_none (by rw [List.length_append, List.length_singleton]; omega),
      List.getElem?_eq_none (Nat.le_of_lt hgt)]

theorem slotOf_concat_self {top : Indices} :
    slotOf hist (cur ++ [top]) cur.length = slotOf hist cur cur.length ++ [top] := by
  unfold slotOf
  rw [List.getElem?_concat_length, List.getElem?_eq_none (Nat.le_refl _), Option.toList_none, List.append_nil]
  rfl

theorem length_slotOf (hl : cur.length ≤ l) : (slotOf hist cur l).length = hist.length := by
  unfold slotOf
  rw [List.getElem?_eq_none hl, Option.toList_none, List.append_nil, List.length_map]

theorem record_advance (h : Recording modules hist cur s) (hcur : cur.length = modules.length) :
    ∃ s', s.advanceRecordMicrobatch = some s' ∧ Recording modules (hist ++ [cur]) [] s' := by
  have hfound : found modules hist cur = modules.length := by
    unfold found
    split
    · exact hcur
    · rfl
  have hfound' : found modules (hist ++ [cur]) [] = modules.length := if_neg (List.append_ne_nil_of_right_ne_nil _
    (List.cons_ne_nil _ _))
  obtain ⟨haction, hmbIndex, hknown, hrecorded⟩ := h
  refine ⟨{ s with mbIndex := s.mbIndex + 1 }, if_pos haction, haction, ?_, ?_, ?_⟩
  · show s.mbIndex + 1 = _
    rw [hmbIndex, List.length_append]
    rfl
  · rw [hfound']
    rw [hfound] at hknown
    exact hknown
  · show s.recorded = _
    rw [hrecorded, hfound, hfound']
    refine List.map_congr_left fun l hl => ?_
    have hlt : l < cur.length := by
      rw [hcur]
      exact List.mem_range.1 hl
    unfold slotOf
    rw [List.map_append, List.map_singleton, List.getElem?_eq_getElem hlt, List.getElem?_nil, Option.toList_none,
      List.append_nil]
    rfl

variable [DecidableEq μ]

/-- **The first call of a layer** in a micro-batch is recorded. -/
theorem record_first (hnodup : modules.Nodup) (h : Recording modules hist cur s)
    (hmodule : modules[cur.length]? = some module) (top : Indices) :
    ∃ s', s.onRouterForward module top = some (s', top) ∧ Recording modules hist (cur ++ [top]) s' := by
  have hlt : cur.length < modules.length := (List.getElem?_eq_some_iff.1 hmodule).1
  have hslot : (slotOf hist cur cur.length).length = s.mbIndex := by
    rw [length_slotOf (Nat.le_refl _), h.mbIndex]
  have hset : ∀ d, cur.length < d → ((List.range d).map (slotOf hist cur)).set cur.length
      (slotOf hist cur cur.length ++ [top]) = (List.range d).map (slotOf hist (cur ++ [top])) := by
    intro d hd
    refine List.ext_getElem? fun i => ?_
    rw [List.getElem?_set, List.getElem?_map, List.getElem?_map, List.length_map, List.length_range, if_pos hd]
    by_cases hi : i = cur.length
    · rw [hi, if_pos rfl, List.getElem?_range hd, Option.map_some, slotOf_concat_self]
    · rw [if_neg fun heq => hi heq.symm]
      by_cases hid : i < d
      · rw [List.getElem?_range hid, Option.map_some, Option.map_some, slotOf_concat_of_ne hi]
      · rw [List.getElem?_eq_none (by rw [List.length_range]; omega), Option.map_none, Option.map_none]
  by_cases hhist : hist = []
  -- in the first micro-batch the layer is new
  · have hfound : found modules hist cur = cur.length := if_pos hhist
    have hknown := h.known
    rw [hfound] at hknown
    obtain ⟨idToPos, hlocate, hitems⟩ := locate_new hnodup hknown hmodule
    have hrecorded := h.recorded
    rw [hfound] at hrecorded
    have hgrown : s.recorded ++ [[]] = (List.range (cur.length + 1)).map (slotOf hist cur) := by
      rw [hrecorded, List.range_succ, List.map_append, List.map_singleton]
      have hempty : slotOf hist cur cur.length = [] := by
        refine List.eq_nil_of_length_eq_zero ?_
        rw [length_slotOf (Nat.le_refl _), hhist]
        rfl
      rw [hempty]
    have hget : (s.recorded ++ [[]])[cur.length]? = some (slotOf hist cur cur.length) := by
      rw [hgrown, List.getElem?_map, List.getElem?_range (Nat.lt_succ_self _)]
      rfl
    refine ⟨{ s with
      idToPos := idToPos
      recorded := (s.recorded ++ [[]]).set cur.length (slotOf hist cur cur.length ++ [top]) }, ?_, ?_⟩
    · unfold Controller.onRouterForward
      simp only [hlocate, h.action, if_true, hget]
      rw [if_neg (by omega), if_neg (not_not_intro hslot)]
    · have hfound' : found modules hist (cur ++ [top]) = cur.length + 1 := by
        unfold found
        rw [if_pos hhist, List.length_append, List.length_singleton]
      refine ⟨h.action, h.mbIndex, ?_, ?_⟩
      · rw [hfound']
        exact hitems
      · rw [hfound']
        show (s.recorded ++ [[]]).set cur.length _ = _
        rw [hgrown]
        exact hset _ (Nat.lt_succ_self _)
  · have hfound : ∀ cur, found modules hist cur = modules.length := fun cur => if_neg hhist
    have hknown := h.known
    rw [hfound] at hknown
    have hlocate := locate_known hknown hmodule hlt
    have hrecorded := h.recorded
    rw [hfound] at hrecorded
    have hget : s.recorded[cur.length]? = some (slotOf hist cur cur.length) := by
      rw [hrecorded, List.getElem?_map, List.getElem?_range hlt]
      rfl
    refine ⟨{ s with recorded := s.recorded.set cur.length (slotOf hist cur cur.length ++ [top]) }, ?_, ?_⟩
    · unfold Controller.onRouterForward
      simp only [hlocate, h.action, Bool.false_eq_true, if_false, hget]
      rw [if_neg (by omega), if_neg (not_not_intro hslot)]
    · refine ⟨h.action, h.mbIndex, ?_, ?_⟩
      · rw [hfound]
        exact hknown
      · rw [hfound]
        show s.recorded.set cur.length _ = _
        rw [hrecorded]
        exact hset _ hlt

/-- **A call of a recompute** records nothing. -/
theorem record_again (h : Recording modules hist cur s) (hmodule : modules[l]? = some module) (hl : l < cur.length)
    (top : Indices) : s.onRouterForward module top = some (s, top) := by
  have hlt : l < found modules hist cur := by
    unfold found
    split
    · exact hl
    · exact (List.getElem?_eq_some_iff.1 hmodule).1
  have hlocate := locate_known h.known hmodule hlt
  have hget : s.recorded[l]? = some (slotOf hist cur l) := by
    rw [h.recorded, List.getElem?_map, List.getElem?_range hlt]
    rfl
  have hslot : (slotOf hist cur l).length = s.mbIndex + 1 := by
    unfold slotOf
    rw [List.getElem?_eq_getElem hl, List.length_append, List.length_map, h.mbIndex]
    rfl
  unfold Controller.onRouterForward
  simp only [hlocate, h.action, Bool.false_eq_true, if_false, hget]
  rw [if_pos hslot, ← h.action]

theorem fire_append (s : Controller μ) (calls more : List (μ × Indices)) :
    s.fire (calls ++ more) = (s.fire calls).bind fun next =>
      (next.1.fire more).map fun rest => (rest.1, next.2 ++ rest.2) := by
  induction calls generalizing s with
  | nil =>
    simp only [List.nil_append, Controller.fire, Option.bind_some]
    cases s.fire more with
    | none => rfl
    | some rest => rfl
  | cons call calls ih =>
    rw [List.cons_append, Controller.fire, Controller.fire]
    cases s.onRouterForward call.1 call.2 with
    | none => rfl
    | some next =>
      rw [Option.bind_some, Option.bind_some, ih]
      cases next.1.fire calls with
      | none => rfl
      | some mid =>
        rw [Option.bind_some, Option.map_some, Option.bind_some]
        cases mid.1.fire more with
        | none => rfl
        | some rest => rfl

/-- The calls of a micro-batch: the layers in their order, then calls of layers in any order. -/
structure MicroBatchCalls (modules : List μ) where
  first : List Indices
  again : List (μ × Indices)
  length_first : first.length = modules.length
  mem_again : ∀ call ∈ again, call.1 ∈ modules

def MicroBatchCalls.calls (c : MicroBatchCalls modules) : List (μ × Indices) := modules.zip c.first ++ c.again

theorem fire_first (hnodup : modules.Nodup) (h : Recording modules hist cur s) {tops : List Indices}
    (hlength : cur.length + tops.length = modules.length) :
    ∃ s', s.fire ((modules.drop cur.length).zip tops) = some (s', tops) ∧ Recording modules hist (cur ++ tops) s' := by
  induction tops generalizing s cur with
  | nil =>
    rw [List.zip_nil_right, List.append_nil]
    exact ⟨s, rfl, h⟩
  | cons top tops ih =>
    rw [List.length_cons] at hlength
    have hlt : cur.length < modules.length := by omega
    obtain ⟨s', hcall, hrecording⟩ := record_first hnodup h (List.getElem?_eq_getElem hlt) top
    have hcur : (cur ++ [top]).length = cur.length + 1 := by
      rw [List.length_append]
      rfl
    obtain ⟨s'', hrest, hend⟩ := ih hrecording (by rw [hcur]; omega)
    rw [hcur] at hrest
    rw [List.append_assoc] at hend
    refine ⟨s'', ?_, hend⟩
    rw [List.drop_eq_getElem_cons hlt, List.zip_cons_cons, Controller.fire, hcall, Option.bind_some, hrest]
    rfl

theorem fire_again (h : Recording modules hist cur s) (hcur : cur.length = modules.length)
    {calls : List (μ × Indices)} (hcalls : ∀ call ∈ calls, call.1 ∈ modules) :
    s.fire calls = some (s, calls.map Prod.snd) := by
  induction calls with
  | nil => rfl
  | cons call calls ih =>
    obtain ⟨l, hl⟩ := List.mem_iff_getElem?.1 (hcalls call List.mem_cons_self)
    have hlt : l < cur.length := by
      rw [hcur]
      exact (List.getElem?_eq_some_iff.1 hl).1
    rw [Controller.fire, record_again h hl hlt, Option.bind_some, ih fun c hc => hcalls c (List.mem_cons_of_mem _ hc)]
    rfl

/-- **The calls of a micro-batch** record the indices of its first forward. -/
theorem record_microBatch (hnodup : modules.Nodup) (h : Recording modules hist [] s) (c : MicroBatchCalls modules) :
    ∃ s' outs, s.fire c.calls = some (s', outs) ∧ Recording modules hist c.first s' := by
  have hlength : ([] : List Indices).length + c.first.length = modules.length := by
    rw [List.length_nil, Nat.zero_add]
    exact c.length_first
  obtain ⟨s', hfirst, hrecording⟩ := fire_first hnodup h hlength
  rw [List.length_nil, List.drop_zero] at hfirst
  rw [List.nil_append] at hrecording
  refine ⟨s', c.first ++ c.again.map Prod.snd, ?_, hrecording⟩
  unfold MicroBatchCalls.calls
  rw [fire_append, hfirst, Option.bind_some, fire_again hrecording c.length_first c.mem_again]
  rfl

end Record

/-! ## Replaying -/

section Replay

variable {μ : Type} {modules : List μ} {s s' : Controller μ} {d l : ℕ} {module : μ} {targets : List Indices}
  {replayMask : Option (List Bool)}

/-- **The invariant of a replay**: the first modules have their positions, and the targets of the micro-batch are set. -/
structure Replaying (modules : List μ) (d : ℕ) (targets : List Indices) (replayMask : Option (List Bool))
    (s : Controller μ) : Prop where
  action : s.action = .replay
  known : s.Knows modules d
  targets : s.targets = targets
  mask : s.replayMask = replayMask

theorem replaying_set {targets' : List Indices} {replayMask' : Option (List Bool)}
    (h : Replaying modules d targets replayMask s) :
    ∃ s', s.setMicrobatchTargets targets' replayMask' = some s' ∧ Replaying modules d targets' replayMask' s' :=
  ⟨_, if_pos h.action, h.action, h.known, rfl, rfl⟩

theorem replaying_begin (modules : List μ) (s : Controller μ) : Replaying modules 0 [] none s.beginReplay :=
  ⟨rfl, rfl, rfl, rfl⟩

/-- A call returns what is substituted by the target of its layer. -/
def Returns (modules : List μ) (targets : List Indices) (replayMask : Option (List Bool)) (call : μ × Indices)
    (out : Indices) : Prop :=
  ∃ (l : ℕ) (target : Indices), modules[l]? = some call.1 ∧ targets[l]? = some target ∧
    substitute replayMask target call.2 = some out

variable [DecidableEq μ]

/-- **Every call of a replay** is substituted by the target of its layer. -/
theorem replay_call (hnodup : modules.Nodup) (h : Replaying modules d targets replayMask s)
    (hmodule : modules[l]? = some module) (hl : l ≤ d) {target topIndices out : Indices}
    (htarget : targets[l]? = some target) (hout : substitute replayMask target topIndices = some out) :
    ∃ s', s.onRouterForward module topIndices = some (s', out) ∧
      Replaying modules (max d (l + 1)) targets replayMask s' := by
  obtain ⟨haction, hknown, htargets, hmask⟩ := h
  have hget : s.targets[l]? = some target := by
    rw [htargets]
    exact htarget
  have hsubstitute : substitute s.replayMask target topIndices = some out := by
    rw [hmask]
    exact hout
  rcases Nat.lt_or_eq_of_le hl with hlt | rfl
  · have hlocate := locate_known hknown hmodule hlt
    refine ⟨s, ?_, haction, ?_, htargets, hmask⟩
    · unfold Controller.onRouterForward
      simp only [hlocate, haction, hget, hsubstitute, Option.map_some]
      rw [← haction]
    · rw [Nat.max_eq_left hlt]
      exact hknown
  -- the first call of the layer
  · obtain ⟨idToPos, hlocate, hitems⟩ := locate_new hnodup hknown hmodule
    refine ⟨{ s with idToPos := idToPos }, ?_, haction, ?_, htargets, hmask⟩
    · unfold Controller.onRouterForward
      simp only [hlocate, haction, hget, hsubstitute, Option.map_some]
    · rw [Nat.max_eq_right (Nat.le_succ l)]
      exact hitems

theorem replay_first (hnodup : modules.Nodup) {c : ℕ} (hc : c ≤ d) (hd : d ≤ modules.length)
    (h : Replaying modules d targets replayMask s) {tops : List Indices} (hlength : c + tops.length = modules.length)
    (hreturns : ∀ call ∈ (modules.drop c).zip tops, ∃ out, Returns modules targets replayMask call out) :
    ∃ s' outs, s.fire ((modules.drop c).zip tops) = some (s', outs) ∧
      List.Forall₂ (Returns modules targets replayMask) ((modules.drop c).zip tops) outs ∧
        Replaying modules modules.length targets replayMask s' := by
  induction tops generalizing s c d with
  | nil =>
    obtain rfl : d = modules.length := by
      rw [List.length_nil] at hlength
      omega
    rw [List.zip_nil_right]
    exact ⟨s, [], rfl, .nil, h⟩
  | cons top tops ih =>
    rw [List.length_cons] at hlength
    have hlt : c < modules.length := by omega
    rw [List.drop_eq_getElem_cons hlt, List.zip_cons_cons] at hreturns ⊢
    obtain ⟨out, l, target, hmodule, htarget, hout⟩ := hreturns _ List.mem_cons_self
    obtain rfl : c = l := by
      obtain ⟨hl, hget⟩ := List.getElem?_eq_some_iff.1 hmodule
      exact ((hnodup.getElem_inj_iff).1 hget).symm
    obtain ⟨s', hcall, hreplaying⟩ := replay_call hnodup h hmodule hc htarget hout
    obtain ⟨s'', outs, hrest, hforall, hend⟩ := ih (Nat.le_max_right d (c + 1)) (Nat.max_le.2 ⟨hd, hlt⟩) hreplaying
      (by omega) fun call hcall => hreturns call (List.mem_cons_of_mem _ hcall)
    refine ⟨s'', out :: outs, ?_, .cons ⟨c, target, hmodule, htarget, hout⟩ hforall, hend⟩
    rw [Controller.fire, hcall, Option.bind_some, hrest]
    rfl

theorem replay_again (hnodup : modules.Nodup) (h : Replaying modules modules.length targets replayMask s)
    {calls : List (μ × Indices)} (hreturns : ∀ call ∈ calls, ∃ out, Returns modules targets replayMask call out) :
    ∃ s' outs, s.fire calls = some (s', outs) ∧ List.Forall₂ (Returns modules targets replayMask) calls outs ∧
      Replaying modules modules.length targets replayMask s' := by
  induction calls generalizing s with
  | nil => exact ⟨s, [], rfl, .nil, h⟩
  | cons call calls ih =>
    obtain ⟨out, l, target, hmodule, htarget, hout⟩ := hreturns call List.mem_cons_self
    have hl : l < modules.length := (List.getElem?_eq_some_iff.1 hmodule).1
    obtain ⟨s', hcall, hreplaying⟩ := replay_call hnodup h hmodule (Nat.le_of_lt hl) htarget hout
    rw [Nat.max_eq_left hl] at hreplaying
    obtain ⟨s'', outs, hrest, hforall, hend⟩ := ih hreplaying fun c hc => hreturns c (List.mem_cons_of_mem _ hc)
    refine ⟨s'', out :: outs, ?_, .cons ⟨l, target, hmodule, htarget, hout⟩ hforall, hend⟩
    rw [Controller.fire, hcall, Option.bind_some, hrest]
    rfl

/-- **The calls of a micro-batch** return what is substituted by the targets of their layers. -/
theorem replay_microBatch (hnodup : modules.Nodup) (h : Replaying modules d targets replayMask s)
    (hd : d ≤ modules.length) (c : MicroBatchCalls modules)
    (hreturns : ∀ call ∈ c.calls, ∃ out, Returns modules targets replayMask call out) :
    ∃ s' outs, s.fire c.calls = some (s', outs) ∧ List.Forall₂ (Returns modules targets replayMask) c.calls outs ∧
      Replaying modules modules.length targets replayMask s' := by
  unfold MicroBatchCalls.calls at hreturns ⊢
  obtain ⟨s', outs, hfirst, hforall, hreplaying⟩ := replay_first hnodup (Nat.zero_le d) hd h
    (by rw [Nat.zero_add]; exact c.length_first) fun call hcall => hreturns call (List.mem_append_left _ hcall)
  rw [List.drop_zero] at hfirst hforall
  obtain ⟨s'', more, hagain, hforall', hend⟩ := replay_again hnodup hreplaying
    fun call hcall => hreturns call (List.mem_append_right _ hcall)
  refine ⟨s'', outs ++ more, ?_, List.rel_append hforall hforall', hend⟩
  rw [fire_append, hfirst, Option.bind_some, hagain]
  rfl

end Replay

end Opd.Verl.VeomniReplay
