import Mathlib.Data.List.Infix

/-!
# Queues whose values come out for their keys

Values are pushed for a key and popped for a key. The keys are popped in the order in which they were
pushed, and none before it was. Then each pop finds the value that was pushed for its key.

* `InOrder.contents_eq`: what is in the queue.
* `InOrder.head_of_pop`: what a pop finds.
-/

namespace Opd.Lib.Fifo

variable {κ α : Type}

inductive Op (κ α : Type)
  | push (key : κ) (value : α)
  | pop (key : κ)

namespace Op

def pushed? : Op κ α → Option (κ × α)
  | push key value => some (key, value)
  | pop _ => none

def popped? : Op κ α → Option κ
  | push _ _ => none
  | pop key => some key

def apply (queue : List α) : Op κ α → List α
  | push _ value => queue ++ [value]
  | pop _ => queue.tail

end Op

def pushed (ops : List (Op κ α)) : List (κ × α) := ops.filterMap Op.pushed?

def popped (ops : List (Op κ α)) : List κ := ops.filterMap Op.popped?

def contents (queue : List α) (ops : List (Op κ α)) : List α := ops.foldl Op.apply queue

/-- **Keys are popped in the order in which they are pushed**, at all times. -/
def InOrder (ops : List (Op κ α)) : Prop :=
  ∀ before, before <+: ops → popped before <+: (pushed before).map Prod.fst

variable {ops : List (Op κ α)} {op : Op κ α}

theorem InOrder.of_append {more : List (Op κ α)} (h : InOrder (ops ++ more)) : InOrder ops :=
  fun before hbefore => h before (hbefore.trans (List.prefix_append ops more))

theorem contents_append (queue : List α) (more : List (Op κ α)) :
    contents queue (ops ++ more) = contents (contents queue ops) more := List.foldl_append

theorem pushed_append (more : List (Op κ α)) : pushed (ops ++ more) = pushed ops ++ pushed more :=
  List.filterMap_append

theorem popped_append (more : List (Op κ α)) : popped (ops ++ more) = popped ops ++ popped more :=
  List.filterMap_append

theorem InOrder.contents_eq (h : InOrder ops) :
    contents [] ops = ((pushed ops).drop (popped ops).length).map Prod.snd := by
  induction ops using List.reverseRecOn with
  | nil => rfl
  | append_singleton ops op ih =>
    rw [contents_append, ih h.of_append, pushed_append, popped_append]
    cases op with
    | push key value =>
      have hbefore := (h ops (List.prefix_append _ _)).length_le
      rw [List.length_map] at hbefore
      change List.map Prod.snd _ ++ [value] = List.map Prod.snd (List.drop (popped ops ++ []).length _)
      rw [List.append_nil, List.drop_append_of_le_length hbefore, List.map_append]
      rfl
    | pop key =>
      change (List.map Prod.snd _).tail = List.map Prod.snd (List.drop (popped ops ++ [key]).length (pushed ops ++ []))
      rw [List.append_nil, List.length_append, List.length_singleton, ← List.map_tail, List.tail_drop]

/-- **A pop finds the value that was pushed for its key.** -/
theorem InOrder.head_of_pop {key : κ} (h : InOrder (ops ++ [.pop key])) :
    ∃ value, (key, value) ∈ pushed ops ∧ (contents [] ops).head? = some value := by
  have hpops := h _ (List.prefix_refl _)
  rw [pushed_append, popped_append] at hpops
  obtain ⟨rest, hrest⟩ := hpops
  have hkey : ((pushed ops).map Prod.fst)[(popped ops).length]? = some key := by
    have hall : (pushed ops).map Prod.fst = popped ops ++ [key] ++ rest := by
      rw [← List.append_nil (pushed ops)]
      exact hrest.symm
    rw [hall, List.append_assoc, List.getElem?_append_right (Nat.le_refl _), Nat.sub_self]
    rfl
  rw [List.getElem?_map] at hkey
  obtain ⟨⟨key', value⟩, hget, rfl⟩ := Option.map_eq_some_iff.1 hkey
  refine ⟨value, List.mem_of_getElem? hget, ?_⟩
  rw [h.of_append.contents_eq, List.head?_map, List.head?_drop, hget]
  rfl

end Opd.Lib.Fifo
