import Mathlib.Data.List.Nodup
import Opd.Lib.Dotted

/-!
# The names of the summoned parameters

With the full parameters of a sharded model summoned, the names of its parameters have the wrappers of
the modules as components. They are removed before the weights are sent to the rollout server, and a name
that has been sent already is left out.

* `normalizeSummonedParamName_join`: the components that are left.
* `sendsEachOnce_iff`: each parameter is sent once under its own name just where the names are `Clean`:
  of wrappers in a row the normaliser leaves every second one, and it leaves one at the end.
-/

namespace Opd.Clight.SummonedNames

open Lib

abbrev Text := List Char

def wrapper : Text := "_fsdp_wrapped_module".toList

def outermost : Text := "module".toList

/-- `while name.startswith(start): name = name[len(start):]`, for a start that is not empty. -/
def stripWhile (start name : Text) : Text :=
  if start <+: name ∧ start ≠ [] then stripWhile start (name.drop start.length) else name
termination_by name.length
decreasing_by
  rename_i h
  have := h.1.length_le
  have := List.length_pos_of_ne_nil h.2
  rw [List.length_drop]
  omega

theorem length_stripWhile (start name : Text) : (stripWhile start name).length ≤ name.length := by
  fun_induction stripWhile start name with
  | case1 name h ih =>
    rw [List.length_drop] at ih
    omega
  | case2 name h => exact Nat.le_refl _

def stripStarts (name : Text) : Text := stripWhile (outermost ++ ['.']) (stripWhile (wrapper ++ ['.']) name)

theorem length_stripWhile_eq {start name : Text} (h : (stripWhile start name).length = name.length) :
    stripWhile start name = name := by
  rw [stripWhile] at h ⊢
  split
  · rename_i hstart
    rw [if_pos hstart] at h
    have hle := length_stripWhile start (name.drop start.length)
    have := hstart.1.length_le
    have := List.length_pos_of_ne_nil hstart.2
    rw [List.length_drop] at hle
    omega
  · rfl

theorem length_stripStarts {name : Text} (h : stripStarts name ≠ name) : (stripStarts name).length < name.length := by
  have hfirst := length_stripWhile (wrapper ++ ['.']) name
  have hsecond := length_stripWhile (outermost ++ ['.']) (stripWhile (wrapper ++ ['.']) name)
  refine Nat.lt_of_le_of_ne (hsecond.trans hfirst) fun hlength => h ?_
  unfold stripStarts at hlength ⊢
  have heq : stripWhile (wrapper ++ ['.']) name = name := length_stripWhile_eq (by omega)
  rw [heq] at hlength ⊢
  exact length_stripWhile_eq hlength

def stripAll (name : Text) : Text := if stripStarts name ≠ name then stripAll (stripStarts name) else name
termination_by name.length
decreasing_by exact length_stripStarts ‹_›

def normalizeSummonedParamName (name : Text) : Text :=
  replace ('.' :: (wrapper ++ ['.'])) ['.'] (stripAll name)

/-- The loop over the parameters, of which one may not be a tensor, with the names that were seen. -/
def weightItemsFrom {τ : Type} (seen : List Text) : List (Text × Option τ) → List (Text × τ)
  | [] => []
  | (_, none) :: params => weightItemsFrom seen params
  | (name, some param) :: params =>
    let normalized := normalizeSummonedParamName name
    if seen.contains normalized then weightItemsFrom seen params
    else (normalized, param) :: weightItemsFrom (normalized :: seen) params

def studentModelWeightItems {τ : Type} (params : List (Text × Option τ)) : List (Text × τ) :=
  weightItemsFrom [] params

/-! ## Names by their components -/

/-- The components at the front that satisfy a condition are dropped, but for the last one of the name. -/
def dropHeads (q : Text → Bool) : List Text → List Text
  | [] => []
  | [c] => [c]
  | c :: d :: parts => if q c then dropHeads q (d :: parts) else c :: d :: parts

variable {q : Text → Bool} {c : Text} {parts : List Text}

theorem dropHeads_ne_nil (h : parts ≠ []) : dropHeads q parts ≠ [] := by
  fun_induction dropHeads q parts with
  | case1 => exact absurd rfl h
  | case2 c => exact List.cons_ne_nil _ _
  | case3 c d parts _ ih => exact ih (List.cons_ne_nil _ _)
  | case4 c d parts _ => exact List.cons_ne_nil _ _

theorem dropHeads_suffix (q : Text → Bool) (parts : List Text) : dropHeads q parts <:+ parts := by
  fun_induction dropHeads q parts with
  | case1 => exact List.suffix_rfl
  | case2 c => exact List.suffix_rfl
  | case3 c d parts _ ih => exact ih.trans (List.suffix_cons c _)
  | case4 c d parts _ => exact List.suffix_rfl

theorem dropHeads_cons_of_pos (hc : q c = true) (h : parts ≠ []) : dropHeads q (c :: parts) = dropHeads q parts := by
  obtain ⟨d, parts', rfl⟩ := List.exists_cons_of_ne_nil h
  exact if_pos hc

theorem dropHeads_cons_of_neg (hc : q c = false) : dropHeads q (c :: parts) = c :: parts := by
  cases parts with
  | nil => rfl
  | cons d parts => exact if_neg (by rw [hc]; exact Bool.false_ne_true)

/-- **The inner loop** drops a component at the front. -/
theorem stripWhile_join (hc : '.' ∉ c) (h : Components '.' parts) (hne : parts ≠ []) :
    stripWhile (c ++ ['.']) (join '.' parts) = join '.' (dropHeads (fun d => d = c) parts) := by
  have hcne : c ++ ['.'] ≠ [] := List.append_ne_nil_of_right_ne_nil _ (List.cons_ne_nil _ _)
  induction parts with
  | nil => exact absurd rfl hne
  | cons d parts ih =>
    have hstart := prefix_join_iff hc h
    have hrest : Components '.' parts := fun e he => h e (List.mem_cons_of_mem d he)
    rw [stripWhile]
    by_cases hboth : c = d ∧ parts ≠ []
    · rw [if_pos ⟨hstart.2 hboth, hcne⟩, dropHeads_cons_of_pos (decide_eq_true hboth.1.symm) hboth.2,
        ← ih hrest hboth.2]
      obtain ⟨e, parts', rfl⟩ := List.exists_cons_of_ne_nil hboth.2
      rw [hboth.1, drop_join]
    · rw [if_neg fun hprefix => hboth (hstart.1 hprefix.1)]
      by_cases hd : d = c
      · have hnil : parts = [] := by
          by_contra hparts
          exact hboth ⟨hd.symm, hparts⟩
        rw [hnil]
        rfl
      · rw [dropHeads_cons_of_neg (decide_eq_false hd)]

theorem dropHeads_dropHeads {q' : Text → Bool} (himp : ∀ d, q' d = true → q d = true) (parts : List Text) :
    dropHeads q (dropHeads q' parts) = dropHeads q parts := by
  fun_induction dropHeads q' parts with
  | case1 => rfl
  | case2 c => rfl
  | case3 c d parts hc ih => rw [ih, dropHeads_cons_of_pos (himp c hc) (List.cons_ne_nil _ _)]
  | case4 c d parts _ => rfl

/-- Nothing is dropped if the first component does not satisfy the condition, or is the last one. -/
theorem dropHeads_eq_self_iff : dropHeads q parts = parts ↔ ∀ c d rest, parts = c :: d :: rest → q c = false := by
  constructor
  · rintro heq c d rest rfl
    by_contra hc
    rw [Bool.not_eq_false] at hc
    rw [dropHeads_cons_of_pos hc (List.cons_ne_nil _ _)] at heq
    have hle := (dropHeads_suffix q (d :: rest)).length_le
    rw [heq, List.length_cons] at hle
    omega
  · intro h
    match parts with
    | [] => rfl
    | [c] => rfl
    | c :: d :: rest => exact dropHeads_cons_of_neg (h c d rest rfl)

def isStart (c : Text) : Bool := c = wrapper || c = outermost

theorem isStart_of_wrapper {c : Text} (h : decide (c = wrapper) = true) : isStart c = true := by
  rw [isStart, h, Bool.true_or]

theorem isStart_of_outermost {c : Text} (h : decide (c = outermost) = true) : isStart c = true := by
  rw [isStart, h, Bool.or_true]

theorem sep_not_mem_wrapper : '.' ∉ wrapper := by decide

theorem sep_not_mem_outermost : '.' ∉ outermost := by decide

def passParts (parts : List Text) : List Text :=
  dropHeads (fun d => d = outermost) (dropHeads (fun d => d = wrapper) parts)

theorem passParts_suffix (parts : List Text) : passParts parts <:+ parts :=
  (dropHeads_suffix _ _).trans (dropHeads_suffix _ _)

theorem passParts_ne_nil (h : parts ≠ []) : passParts parts ≠ [] := dropHeads_ne_nil (dropHeads_ne_nil h)

theorem stripStarts_join (h : Components '.' parts) (hne : parts ≠ []) :
    stripStarts (join '.' parts) = join '.' (passParts parts) := by
  unfold stripStarts passParts
  rw [stripWhile_join sep_not_mem_wrapper h hne,
    stripWhile_join sep_not_mem_outermost (h.of_suffix (dropHeads_suffix _ _)) (dropHeads_ne_nil hne)]

theorem dropHeads_passParts (parts : List Text) : dropHeads isStart (passParts parts) = dropHeads isStart parts := by
  unfold passParts
  rw [dropHeads_dropHeads fun d => isStart_of_outermost, dropHeads_dropHeads fun d => isStart_of_wrapper]

theorem dropHeads_of_passParts (h : passParts parts = parts) : dropHeads isStart parts = parts := by
  have hfirst : dropHeads (fun d => decide (d = wrapper)) parts = parts := by
    have hle : (passParts parts).length ≤ (dropHeads (fun d => decide (d = wrapper)) parts).length :=
      (dropHeads_suffix _ _).length_le
    rw [h] at hle
    exact (dropHeads_suffix _ _).eq_of_length_le hle
  have hsecond : dropHeads (fun d => decide (d = outermost)) parts = parts := by
    rw [passParts, hfirst] at h
    exact h
  refine dropHeads_eq_self_iff.2 fun c d rest hparts => ?_
  rw [isStart, dropHeads_eq_self_iff.1 hfirst c d rest hparts, dropHeads_eq_self_iff.1 hsecond c d rest hparts]
  rfl

/-- **All passes together** drop the components at the front. -/
theorem stripAll_join (h : Components '.' parts) (hne : parts ≠ []) :
    stripAll (join '.' parts) = join '.' (dropHeads isStart parts) := by
  induction hn : parts.length using Nat.strong_induction_on generalizing parts with
  | _ n ih =>
    have hpass := stripStarts_join h hne
    have hsuffix := passParts_suffix parts
    rw [stripAll]
    by_cases hlast : passParts parts = parts
    · rw [hlast] at hpass
      rw [if_neg (not_not_intro hpass), dropHeads_of_passParts hlast]
    · have hchanged : stripStarts (join '.' parts) ≠ join '.' parts := by
        rw [hpass]
        exact fun heq => hlast (join_injective (h.of_suffix hsuffix) h (passParts_ne_nil hne) hne heq)
      have hless : (passParts parts).length < n := by
        refine hn ▸ Nat.lt_of_le_of_ne hsuffix.length_le fun hlength => hlast ?_
        exact hsuffix.eq_of_length hlength
      rw [if_pos hchanged, hpass, ih _ hless (h.of_suffix hsuffix) (passParts_ne_nil hne) rfl, dropHeads_passParts]

/-- The components that are left: of those behind the first one, a wrapper is removed where another component
follows it, and that one is passed over. -/
def normalizedParts (parts : List Text) : List Text :=
  match dropHeads isStart parts with
  | [] => []
  | c :: rest => c :: removeInner wrapper rest

/-- **The normaliser by components.** -/
theorem normalizeSummonedParamName_join (h : Components '.' parts) (hne : parts ≠ []) :
    normalizeSummonedParamName (join '.' parts) = join '.' (normalizedParts parts) := by
  have hdrop := h.of_suffix (dropHeads_suffix isStart parts)
  unfold normalizeSummonedParamName normalizedParts
  rw [stripAll_join h hne]
  cases hparts : dropHeads isStart parts with
  | nil => exact absurd hparts (dropHeads_ne_nil hne)
  | cons c rest => exact replace_join sep_not_mem_wrapper (hparts ▸ hdrop)

/-! ## The names that are restored -/

/-- A parameter of a model with wrapped modules, by its own name and by the one with the wrappers. -/
structure Param (τ : Type) where
  name : List Text
  wrapped : List Text
  tensor : τ
  ne_nil : name ≠ []
  components : Components '.' name
  inserted : wrapped.filter (fun c => c ≠ wrapper) = name

/-- The name of the parameter does not start with the component of a parallel model, unless it has no other one; and
each wrapper behind its first component stands alone before another component. -/
structure Clean (name wrapped : List Text) : Prop where
  head : name.head? = some outermost → name = [outermost]
  last : wrapped.getLast? ≠ some wrapper
  alone : ¬ [wrapper, wrapper] <:+: wrapped.dropWhile fun c => c = wrapper

theorem dropHeads_append {front rest : List Text} (hfront : ∀ c ∈ front, q c = true) (hne : rest ≠ []) :
    dropHeads q (front ++ rest) = dropHeads q rest := by
  induction front with
  | nil => rfl
  | cons c front ih =>
    have hbehind : front ++ rest ≠ [] := List.append_ne_nil_of_right_ne_nil _ hne
    rw [List.cons_append, dropHeads_cons_of_pos (hfront c List.mem_cons_self) hbehind,
      ih fun d hd => hfront d (List.mem_cons_of_mem c hd)]

theorem exists_first {wrapped : List Text} (h : wrapped.filter (fun c => c ≠ wrapper) ≠ []) :
    ∃ front c rest, wrapped = front ++ c :: rest ∧ (∀ d ∈ front, d = wrapper) ∧ c ≠ wrapper ∧
      wrapped.dropWhile (fun d => d = wrapper) = c :: rest := by
  induction wrapped with
  | nil => exact absurd rfl h
  | cons d wrapped ih =>
    by_cases hd : d = wrapper
    · rw [List.filter_cons_of_neg (by simpa using hd)] at h
      obtain ⟨front, c, rest, rfl, hfront, hc, hdrop⟩ := ih h
      refine ⟨d :: front, c, rest, rfl, ?_, hc, ?_⟩
      · intro e he
        rcases List.mem_cons.1 he with rfl | he
        · exact hd
        · exact hfront e he
      · rw [List.dropWhile_cons_of_pos (by simpa using hd), hdrop]
    · exact ⟨[], d, wrapped, rfl, fun e he => (by cases he), hd, List.dropWhile_cons_of_neg (by simpa using hd)⟩

theorem length_filter_normalizedParts (parts : List Text) :
    ((normalizedParts parts).filter fun c => c ≠ wrapper).length ≤ (parts.filter fun c => c ≠ wrapper).length := by
  have hdrop := ((dropHeads_suffix isStart parts).sublist.filter fun c => c ≠ wrapper).length_le
  unfold normalizedParts
  cases hparts : dropHeads isStart parts with
  | nil => exact Nat.zero_le _
  | cons c rest =>
    rw [hparts] at hdrop
    refine Nat.le_trans (Nat.le_of_eq ?_) hdrop
    simp only [List.filter_cons, filter_removeInner]

/-- **A name is restored** just where it is clean. -/
theorem normalizedParts_eq_iff {name wrapped : List Text} (hne : name ≠ [])
    (h : wrapped.filter (fun c => c ≠ wrapper) = name) : normalizedParts wrapped = name ↔ Clean name wrapped := by
  obtain ⟨front, c, rest, rfl, hfront, hc, hdrop⟩ := exists_first (h.symm ▸ hne)
  have hstarts : dropHeads isStart (front ++ c :: rest) = dropHeads isStart (c :: rest) :=
    dropHeads_append (fun d hd => isStart_of_wrapper (decide_eq_true (hfront d hd))) (List.cons_ne_nil c rest)
  have hname : name = c :: rest.filter fun d => d ≠ wrapper := by
    rw [← h, List.filter_append, List.filter_eq_nil_iff.2 fun d hd => by simpa using hfront d hd,
      List.nil_append, List.filter_cons_of_pos (by simpa using hc)]
  have hlast : (front ++ c :: rest).getLast? = (c :: rest).getLast? :=
    List.getLast?_append_of_ne_nil _ (List.cons_ne_nil c rest)
  have hclean : Clean name (front ++ c :: rest) ↔ (c = outermost → rest.filter (fun d => d ≠ wrapper) = []) ∧
      rest.getLast? ≠ some wrapper ∧ ¬ [wrapper, wrapper] <:+: rest := by
    have hend : (c :: rest).getLast? ≠ some wrapper ↔ rest.getLast? ≠ some wrapper := by
      cases rest with
      | nil => exact iff_of_true (fun heq => hc (Option.some.inj heq)) nofun
      | cons d rest => rw [List.getLast?_cons_cons]
    have hhead : (name.head? = some outermost → name = [outermost]) ↔
        (c = outermost → rest.filter (fun d => d ≠ wrapper) = []) := by
      rw [hname, List.head?_cons, Option.some.injEq]
      refine forall_congr' fun heq => ?_
      rw [heq, List.cons_inj_right]
    rw [← hend, ← hhead, ← pair_infix_cons hc, ← hlast]
    exact ⟨fun hclean => ⟨hclean.head, hclean.last, hdrop ▸ hclean.alone⟩,
      fun hall => ⟨hall.1, hall.2.1, hdrop.symm ▸ hall.2.2⟩⟩
  rw [hclean, normalizedParts, hstarts]
  by_cases hrest : rest = []
  · rw [hrest, hname, hrest]
    refine iff_of_true rfl ⟨fun _ => rfl, nofun, fun hpair => List.cons_ne_nil _ _ (List.infix_nil.1 hpair)⟩
  by_cases hout : c = outermost
  · -- the first component of the name is lost
    refine iff_of_false (fun heq => ?_) fun hall => ?_
    · have hle := length_filter_normalizedParts rest
      rw [dropHeads_cons_of_pos (isStart_of_outermost (decide_eq_true hout)) hrest] at heq
      rw [normalizedParts, heq, ← h, List.filter_filter] at hle
      simp only [Bool.and_self] at hle
      rw [h, hname, List.length_cons] at hle
      omega
    · -- a name of one component would have a wrapper at the end
      obtain ⟨d, hend⟩ := Option.isSome_iff_exists.1 (List.getLast?_isSome.2 hrest)
      have hwrapper := List.filter_eq_nil_iff.1 (hall.1 hout) d (List.mem_of_getLast? hend)
      rw [decide_eq_true_eq, not_not] at hwrapper
      exact hall.2.1 (hend.trans (congrArg some hwrapper))
  · have hkeep : dropHeads isStart (c :: rest) = c :: rest := by
      refine dropHeads_cons_of_neg ?_
      rw [isStart, decide_eq_false hc, decide_eq_false hout]
      rfl
    rw [hkeep, hname, List.cons_inj_right, removeInner_eq_filter_iff]
    exact (and_iff_right fun heq => absurd heq hout).symm

theorem components_wrapped {τ : Type} (p : Param τ) : Components '.' p.wrapped := by
  intro c hc
  by_cases hwrapper : c = wrapper
  · rw [hwrapper]
    exact sep_not_mem_wrapper
  · exact p.components c (p.inserted ▸ List.mem_filter.2 ⟨hc, decide_eq_true hwrapper⟩)

theorem wrapped_ne_nil {τ : Type} (p : Param τ) : p.wrapped ≠ [] := by
  intro hnil
  have hinserted := p.inserted
  rw [hnil] at hinserted
  exact p.ne_nil hinserted.symm

theorem normalizedParts_ne_nil (h : parts ≠ []) : normalizedParts parts ≠ [] := by
  unfold normalizedParts
  cases hparts : dropHeads isStart parts with
  | nil => exact absurd hparts (dropHeads_ne_nil h)
  | cons c rest => exact List.cons_ne_nil _ _

theorem components_normalizedParts (h : Components '.' parts) : Components '.' (normalizedParts parts) := by
  have hdrop := h.of_suffix (dropHeads_suffix isStart parts)
  unfold normalizedParts
  cases hparts : dropHeads isStart parts with
  | nil => exact fun c hc => (by cases hc)
  | cons c rest =>
    intro d hd
    exact hdrop d (hparts ▸ ((removeInner_sublist rest).cons_cons c).subset hd)

/-- **The normaliser restores a name** just where it is clean. -/
theorem normalize_eq_iff {τ : Type} (p : Param τ) :
    normalizeSummonedParamName (join '.' p.wrapped) = join '.' p.name ↔ Clean p.name p.wrapped := by
  rw [normalizeSummonedParamName_join (components_wrapped p) (wrapped_ne_nil p),
    ← normalizedParts_eq_iff p.ne_nil p.inserted]
  refine ⟨fun heq => ?_, congrArg (join '.')⟩
  have hne := normalizedParts_ne_nil (wrapped_ne_nil p)
  exact join_injective (components_normalizedParts (components_wrapped p)) p.components hne p.ne_nil heq

theorem Clean.self {name wrapped : List Text} (h : Clean name wrapped)
    (hinserted : wrapped.filter (fun c => c ≠ wrapper) = name) : Clean name name := by
  have hnone : wrapper ∉ name := by
    rw [← hinserted]
    intro hmem
    exact of_decide_eq_true (List.mem_filter.1 hmem).2 rfl
  refine ⟨h.head, fun hlast => hnone (List.mem_of_getLast? hlast), fun hpair => hnone ?_⟩
  exact (List.dropWhile_suffix _).subset (hpair.subset List.mem_cons_self)

/-- The parameters as `named_parameters` has them. -/
def namedParameters {τ : Type} (params : List (Param τ)) : List (Text × Option τ) :=
  params.map fun p => (join '.' p.wrapped, some p.tensor)

/-- **Each parameter is sent once**, under its own name. -/
structure SendsEachOnce {τ : Type} (params : List (Param τ)) : Prop where
  restored : ∀ p ∈ params, normalizeSummonedParamName (join '.' p.wrapped) = join '.' p.name
  idempotent : ∀ p ∈ params, normalizeSummonedParamName (normalizeSummonedParamName (join '.' p.wrapped)) =
    normalizeSummonedParamName (join '.' p.wrapped)
  sent : studentModelWeightItems (namedParameters params) = params.map fun p => (join '.' p.name, p.tensor)

theorem weightItemsFrom_map {τ : Type} {seen : List Text} {params : List (Param τ)}
    (h : ∀ p ∈ params, normalizeSummonedParamName (join '.' p.wrapped) = join '.' p.name)
    (hdistinct : (params.map fun p => join '.' p.name).Nodup)
    (hseen : ∀ p ∈ params, join '.' p.name ∉ seen) :
    weightItemsFrom seen (namedParameters params) = params.map fun p => (join '.' p.name, p.tensor) := by
  induction params generalizing seen with
  | nil => rfl
  | cons p params ih =>
    rw [List.map_cons, List.nodup_cons] at hdistinct
    have hp := h p List.mem_cons_self
    have hnew := hseen p List.mem_cons_self
    have hothers : ∀ p' ∈ params, join '.' p'.name ∉ join '.' p.name :: seen := by
      intro p' hp' hmem
      rcases List.mem_cons.1 hmem with heq | hmem
      · exact hdistinct.1 (heq ▸ List.mem_map.2 ⟨p', hp', rfl⟩)
      · exact hseen p' (List.mem_cons_of_mem p hp') hmem
    have hrest := ih (fun p' hp' => h p' (List.mem_cons_of_mem p hp')) hdistinct.2 hothers
    rw [namedParameters, List.map_cons, weightItemsFrom, hp, if_neg (mt List.contains_iff_mem.1 hnew), ← namedParameters, hrest, List.map_cons]

/-- **Each parameter of a model is sent once under its own name** just where all names are clean. -/
theorem sendsEachOnce_iff {τ : Type} (params : List (Param τ)) (hdistinct : (params.map Param.name).Nodup) :
    SendsEachOnce params ↔ ∀ p ∈ params, Clean p.name p.wrapped := by
  constructor
  · intro h p hp
    exact (normalize_eq_iff p).1 (h.restored p hp)
  · intro h
    have hrestored : ∀ p ∈ params, normalizeSummonedParamName (join '.' p.wrapped) = join '.' p.name :=
      fun p hp => (normalize_eq_iff p).2 (h p hp)
    refine ⟨hrestored, fun p hp => ?_, ?_⟩
    · have hself := (h p hp).self p.inserted
      have hfilter : p.name.filter (fun c => c ≠ wrapper) = p.name := by
        rw [← p.inserted, List.filter_filter]
        simp only [Bool.and_self]
      rw [hrestored p hp]
      exact (normalize_eq_iff ⟨p.name, p.name, p.tensor, p.ne_nil, p.components, hfilter⟩).2 hself
    · refine weightItemsFrom_map hrestored ?_ fun p hp => List.not_mem_nil
      have hjoin : ∀ n ∈ params.map Param.name, ∀ n' ∈ params.map Param.name, join '.' n = join '.' n' → n = n' := by
        intro n hn n' hn' heq
        obtain ⟨p, -, rfl⟩ := List.mem_map.1 hn
        obtain ⟨p', -, rfl⟩ := List.mem_map.1 hn'
        exact join_injective p.components p'.components p.ne_nil p'.ne_nil heq
      have hnodup := List.Nodup.map_on hjoin hdistinct
      rwa [List.map_map] at hnodup

/-- The name of a bias, and the one with a number of wrappers around the bias's own module. -/
def biasName : List Text := ["layer".toList, "bias".toList]

def wrappedName (n : ℕ) : List Text := "layer".toList :: (List.replicate n wrapper ++ ["bias".toList])

theorem biasName_ne_nil : biasName ≠ [] := List.cons_ne_nil _ _

theorem components_biasName : Components '.' biasName := by
  intro c hc
  rcases List.mem_cons.1 hc with rfl | hc
  · decide
  · rw [List.mem_singleton.1 hc]
    decide

theorem filter_wrappedName (n : ℕ) : (wrappedName n).filter (fun c => c ≠ wrapper) = biasName := by
  have hreplicate : (List.replicate n wrapper).filter (fun c => c ≠ wrapper) = [] :=
    List.filter_eq_nil_iff.2 fun c hc => by simpa using List.eq_of_mem_replicate hc
  rw [wrappedName, List.filter_cons_of_pos (by decide), List.filter_append, hreplicate]
  rfl

def biasParam (n : ℕ) : Param ℕ :=
  ⟨biasName, wrappedName n, 1, biasName_ne_nil, components_biasName, filter_wrappedName n⟩

theorem wrappedOnce_sent : SendsEachOnce [biasParam 1] :=
  sendsEachOnce_iff [biasParam 1] (List.nodup_singleton _) |>.2 fun p hp => by
    rw [List.mem_singleton.1 hp]
    exact ⟨by decide, by decide, by decide⟩

theorem not_sendsEachOnce : ¬ SendsEachOnce [biasParam 2] := by
  intro h
  have hclean := (normalize_eq_iff (biasParam 2)).1 (h.restored (biasParam 2) List.mem_cons_self)
  exact hclean.alone (by decide)

end Opd.Clight.SummonedNames
