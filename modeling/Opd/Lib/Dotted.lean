import Opd.Lib.Occurrences

/-!
# Dotted names

A name is a list of components, and its text has a separator between them.

* `join_injective`: the text determines the components.
* `prefix_join_iff`: what the text of a name with a given first component starts with.
* `replace_join`: removing a component between two others by replacing text. An occurrence takes the
  separator in front of the next one with it, so that of two removable components in a row the second
  one is left.
-/

namespace Opd.Lib

variable {α : Type*} {sep : α} {c d : List α} {parts parts' : List (List α)}

def join (sep : α) (parts : List (List α)) : List α := [sep].intercalate parts

def Components (sep : α) (parts : List (List α)) : Prop := ∀ c ∈ parts, sep ∉ c

theorem Components.of_suffix (h : Components sep parts) (hsuffix : parts' <:+ parts) : Components sep parts' :=
  fun c hc => h c (hsuffix.subset hc)

theorem join_singleton (c : List α) : join sep [c] = c := List.intercalate_singleton

theorem join_cons_cons (c d : List α) (parts : List (List α)) :
    join sep (c :: d :: parts) = c ++ sep :: join sep (d :: parts) := by
  unfold join
  rw [List.intercalate_cons_cons, List.append_assoc, List.singleton_append]

/-- The components behind the first one, each behind a separator. -/
def tails (sep : α) (parts : List (List α)) : List α := parts.flatMap (sep :: ·)

theorem join_cons (c : List α) (parts : List (List α)) : join sep (c :: parts) = c ++ tails sep parts := by
  induction parts generalizing c with
  | nil => rw [join_singleton, tails, List.flatMap_nil, List.append_nil]
  | cons d parts ih => rw [join_cons_cons, ih, tails, tails, List.flatMap_cons, List.cons_append]

theorem join_injective [DecidableEq α] (h : Components sep parts) (h' : Components sep parts') (hne : parts ≠ [])
    (hne' : parts' ≠ []) (heq : join sep parts = join sep parts') : parts = parts' := by
  rw [← List.splitOn_intercalate sep h hne, ← List.splitOn_intercalate sep h' hne']
  exact congrArg (List.splitOn sep) heq

theorem eq_of_component (hc : sep ∉ c) (hd : sep ∉ d) {x : List α} (h : c ++ [sep] <+: d ++ sep :: x) : c = d := by
  induction c generalizing d with
  | nil =>
    cases d with
    | nil => rfl
    | cons a d => exact absurd (List.cons_prefix_cons.1 h).1 fun heq => hd (heq ▸ List.mem_cons_self)
  | cons b c ih =>
    rw [List.mem_cons, not_or] at hc
    cases d with
    | nil => exact absurd (List.cons_prefix_cons.1 h).1 fun heq => hc.1 heq.symm
    | cons a d =>
      rw [List.mem_cons, not_or] at hd
      obtain ⟨rfl, hrest⟩ := List.cons_prefix_cons.1 h
      rw [ih hc.2 hd.2 hrest]

/-- **The text starts with a component** and a separator if the name does, and has more. -/
theorem prefix_join_iff (hc : sep ∉ c) (h : Components sep (d :: parts)) :
    c ++ [sep] <+: join sep (d :: parts) ↔ c = d ∧ parts ≠ [] := by
  cases parts with
  | nil =>
    rw [join_singleton]
    refine iff_of_false (fun hprefix => ?_) fun hboth => hboth.2 rfl
    exact h d List.mem_cons_self ( hprefix.subset (List.mem_append_right _ List.mem_cons_self))
  | cons e parts =>
    rw [join_cons_cons]
    constructor
    · intro hprefix
      exact ⟨eq_of_component hc (h d List.mem_cons_self) hprefix, List.cons_ne_nil e parts⟩
    · rintro ⟨rfl, -⟩
      exact ⟨join sep (e :: parts), by rw [List.append_assoc, List.singleton_append]⟩

theorem drop_join (c d : List α) (parts : List (List α)) :
    (join sep (c :: d :: parts)).drop (c ++ [sep]).length = join sep (d :: parts) := by
  have htext : c ++ sep :: join sep (d :: parts) = c ++ [sep] ++ join sep (d :: parts) := by
    rw [List.append_assoc, List.singleton_append]
  rw [join_cons_cons, htext, List.drop_left]

/-! ## Removing components between others -/

section Remove

variable [DecidableEq α]

/-- A component is removed where another one follows, and that one is passed over. -/
def removeInner (c : List α) : List (List α) → List (List α)
  | [] => []
  | [d] => [d]
  | d :: e :: parts => if d = c then e :: removeInner c parts else d :: removeInner c (e :: parts)

/-- **Replacing a component between separators** by one separator. -/
theorem replace_tails (hc : sep ∉ c) (h : Components sep parts) :
    replace (sep :: (c ++ [sep])) [sep] (tails sep parts) = tails sep (removeInner c parts) := by
  induction hn : parts.length using Nat.strong_induction_on generalizing parts with
  | _ n ih =>
    cases parts with
    | nil => rfl
    | cons d parts =>
      have hd := h d List.mem_cons_self
      have hrest : Components sep parts := fun e he => h e (List.mem_cons_of_mem d he)
      rw [List.length_cons] at hn
      have htails : tails sep (d :: parts) = sep :: (d ++ tails sep parts) := rfl
      have hstart : sep :: (c ++ [sep]) <+: sep :: (d ++ tails sep parts) ↔ c = d ∧ parts ≠ [] := by
        rw [List.cons_prefix_cons, ← join_cons, prefix_join_iff hc h]
        exact and_iff_right rfl
      cases parts with
      | nil =>
        rw [removeInner, htails, replace_cons _ fun hprefix => (hstart.1 hprefix).2 rfl,
          replace_append_of_not_mem _ _ hd]
        rfl
      | cons e parts =>
        rw [removeInner]
        by_cases hdc : d = c
        · rw [if_pos hdc, htails, hdc]
          have htext : sep :: (c ++ tails sep (e :: parts)) = sep :: (c ++ [sep]) ++ (e ++ tails sep parts) := by
            rw [List.cons_append, List.append_assoc]
            rfl
          have he := h e (List.mem_cons_of_mem d List.mem_cons_self)
          rw [htext, replace_self_append (List.cons_ne_nil _ _), replace_append_of_not_mem _ _ he,
            ih parts.length (by rw [List.length_cons] at hn; omega)
              (fun a ha => hrest a (List.mem_cons_of_mem e ha)) rfl]
          rfl
        · rw [if_neg hdc, htails, replace_cons _ fun hprefix => hdc (hstart.1 hprefix).1.symm,
            replace_append_of_not_mem _ _ hd, ih (e :: parts).length (by omega) hrest rfl]
          rfl

/-- **Removing components** in the text of a name. -/
theorem replace_join (hc : sep ∉ c) (h : Components sep (d :: parts)) :
    replace (sep :: (c ++ [sep])) [sep] (join sep (d :: parts)) = join sep (d :: removeInner c parts) := by
  rw [join_cons, replace_append_of_not_mem _ _ (h d List.mem_cons_self),
    replace_tails hc fun e he => h e (List.mem_cons_of_mem d he), ← join_cons]

theorem removeInner_sublist (parts : List (List α)) : (removeInner c parts).Sublist parts := by
  fun_induction removeInner c parts with
  | case1 => exact .slnil
  | case2 d => exact .refl _
  | case3 e parts ih => exact (ih.cons_cons e).cons c
  | case4 d e parts _ ih => exact ih.cons_cons d

theorem filter_removeInner (parts : List (List α)) :
    (removeInner c parts).filter (fun d => d ≠ c) = parts.filter fun d => d ≠ c := by
  fun_induction removeInner c parts with
  | case1 => rfl
  | case2 d => rfl
  | case3 e parts ih => rw [List.filter_cons, ih, List.filter_cons_of_neg (by simp), List.filter_cons (x := e)]
  | case4 d e parts hd ih => rw [List.filter_cons, ih, List.filter_cons (x := d)]

omit [DecidableEq α] in
theorem pair_infix_cons {β : Type*} {a b : β} {l : List β} (h : b ≠ a) : [a, a] <:+: b :: l ↔ [a, a] <:+: l := by
  rw [List.infix_cons_iff]
  exact or_iff_right fun hprefix => h (List.cons_prefix_cons.1 hprefix).1.symm

/-- **All of the components are removed** just where none is at the end, and no two are in a row. -/
theorem removeInner_eq_filter_iff :
    removeInner c parts = parts.filter (fun d => d ≠ c) ↔ parts.getLast? ≠ some c ∧ ¬ [c, c] <:+: parts := by
  fun_induction removeInner c parts with
  | case1 => exact iff_of_true rfl ⟨nofun, fun h => List.cons_ne_nil _ _ (List.infix_nil.1 h)⟩
  | case2 d =>
    have hpair : ¬ [c, c] <:+: [d] := by
      intro h
      have := h.length_le
      simp at this
    by_cases hd : d = c
    · rw [List.filter_cons_of_neg (by simpa using hd)]
      exact iff_of_false (List.cons_ne_nil d []) fun hboth => hboth.1 (congrArg some hd)
    · rw [List.filter_cons_of_pos (by simpa using hd)]
      exact iff_of_true rfl ⟨fun h => hd (Option.some.inj h), hpair⟩
  | case3 e parts ih =>
    rw [List.filter_cons_of_neg (by simp), List.getLast?_cons_cons]
    by_cases he : e = c
    · -- of two in a row the second one is left
      refine iff_of_false (fun heq => ?_) fun hboth => hboth.2 ?_
      · have hmem : e ∈ (e :: parts).filter fun d => d ≠ c := heq ▸ List.mem_cons_self
        exact of_decide_eq_true (List.mem_filter.1 hmem).2 he
      · rw [he]
        exact List.IsPrefix.isInfix ⟨parts, rfl⟩
    · rw [List.filter_cons_of_pos (by simpa using he), List.cons_inj_right, ih]
      have hpair : [c, c] <:+: c :: e :: parts ↔ [c, c] <:+: parts := by
        rw [List.infix_cons_iff, pair_infix_cons he]
        refine or_iff_right fun hprefix => he ?_
        exact (List.cons_prefix_cons.1 (List.cons_prefix_cons.1 hprefix).2).1.symm
      rw [hpair]
      cases parts with
      | nil =>
        refine and_congr_left fun _ => iff_of_true nofun ?_
        exact fun h => he (Option.some.inj h)
      | cons a parts => rw [List.getLast?_cons_cons]
  | case4 d e parts hd ih =>
    rw [List.filter_cons_of_pos (by simpa using hd), List.cons_inj_right, ih, List.getLast?_cons_cons,
      pair_infix_cons hd]

end Remove

end Opd.Lib
