import Opd.Clight.Preprocessor

/-!
# The expansion of image placeholders

`process_messages` copies the messages and replaces the placeholders of the copies, the first one of a message that is
left by the run of the next image.

* `expandContent_eq`: the loop over one message puts a run in the place of each placeholder.
* `processInPlace_eq`: the loop over the copies is the loop over values, and the messages it got stay as they are.
* `processInPlace_expanded`: the placeholders of a conversation are replaced in their order.
-/

namespace Opd.Clight.PlaceholderExpansion

open Lib Preprocessor

variable {ι τ : Type}

/-! ## The messages of a heap -/

/-- A list of dicts that are in a heap, no two of which are the same object. -/
structure Messages (heap : List Message) where
  addrs : List ℕ
  nodup : addrs.Nodup
  inHeap : ∀ a ∈ addrs, a < heap.length

def Messages.contents {heap : List Message} (messages : Messages heap) : List Message :=
  messages.addrs.filterMap fun a => heap[a]?

/-- The loop of `process_messages` over messages in a heap, with the lengths of the images that are left. -/
def expandAt (plugin : Plugin) : List ℕ → List Message → List ℕ → Except PreprocessError (List Message)
  | _, heap, [] => .ok heap
  | seqlens, heap, a :: addrs =>
    match heap[a]? with
    | none => .error .index
    | some message => do
      let (content, seqlens) ← expandContent plugin seqlens message.content
      expandAt plugin seqlens (heap.set a { message with content }) addrs

/-- `process_messages`, where `deepcopy` makes new dicts at the end of the heap: the heap afterwards, and the messages that
are returned. -/
def processInPlace (plugin : Plugin) (processor : Option (Processor ι)) (heap : List Message) (messages : Messages heap)
    (images : List ι) : Except PreprocessError (List Message × List ℕ) := do
  validateInput processor images
  validateMessages messages.contents images
  let addrs := List.range' heap.length messages.contents.length
  match processor with
  | none => .error .attribute
  | some processor => do
    let heap ← expandAt plugin ((processor.imageProcessor.map fun p => p.seqlens images).getD [])
      (heap ++ messages.contents) addrs
    .ok (heap, addrs)

theorem expandAt_range (plugin : Plugin) (seqlens : List ℕ) (before copies : List Message) :
    expandAt plugin seqlens (before ++ copies) (List.range' before.length copies.length) =
      (expandMessages plugin seqlens copies).map fun out => before ++ out := by
  induction copies generalizing seqlens before with
  | nil => rfl
  | cons message copies ih =>
    rw [List.length_cons, List.range'_succ, expandAt, expandMessages, List.getElem?_append_right (Nat.le_refl _),
      Nat.sub_self, List.getElem?_cons_zero]
    dsimp only
    cases hcontent : expandContent plugin seqlens message.content with
    | error e => rfl
    | ok parts =>
      obtain ⟨content, rest⟩ := parts
      have hset : (before ++ message :: copies).set before.length { message with content } =
          (before ++ [{ message with content }]) ++ copies := by
        rw [List.set_append_right _ _ (Nat.le_refl _), Nat.sub_self, List.set_cons_zero, List.append_assoc]
        rfl
      have hlength : before.length + 1 = (before ++ [{ message with content }]).length := by
        rw [List.length_append, List.length_singleton]
      simp only [bind, Except.bind]
      rw [hset, hlength, ih]
      cases expandMessages plugin rest copies with
      | error e => rfl
      | ok out => exact congrArg Except.ok (List.append_assoc before [{ message with content }] out)

/-- **The messages stay as they are**: the expanded ones are new, behind the old heap. -/
theorem processInPlace_eq (plugin : Plugin) (processor : Option (Processor ι)) (heap : List Message)
    (messages : Messages heap) (images : List ι) :
    processInPlace plugin processor heap messages images =
      (processMessages plugin processor messages.contents images).map fun out =>
        (heap ++ out, List.range' heap.length messages.contents.length) := by
  unfold processInPlace processMessages
  cases validateInput processor images with
  | error e => rfl
  | ok _ =>
    cases validateMessages messages.contents images with
    | error e => rfl
    | ok _ =>
      cases processor with
      | none => rfl
      | some processor =>
        simp only [bind, Except.bind]
        rw [expandAt_range]
        cases expandMessages plugin ((processor.imageProcessor.map fun p => p.seqlens images).getD []) messages.contents with
        | error e => rfl
        | ok out => rfl

/-! ## The placeholders -/

/-- **Expansion of a text**: each run is in the place of a placeholder, and what is between the placeholders stays. -/
inductive Expanded : List Text → Text → Text → Prop
  | done {content : Text} (h : placeholderCount content = 0) : Expanded [] content content
  | image {runs : List Text} {before behind out : Text} (run : Text) (h : placeholderCount before = 0) :
      Expanded runs behind out → Expanded (run :: runs) (before ++ imagePlaceholder ++ behind) (before ++ run ++ out)

/-- **Expansion of a conversation**: the runs are for the placeholders of all messages, in their order. -/
inductive ExpandedAll : List Text → List Message → List Message → Prop
  | nil : ExpandedAll [] [] []
  | cons {runs runs' : List Text} {message : Message} {messages expanded : List Message} {content : Text} :
      Expanded runs message.content content → ExpandedAll runs' messages expanded →
      ExpandedAll (runs ++ runs') (message :: messages) ({ message with content } :: expanded)

theorem placeholderCount_split {content before behind : Text} (h : splitFirst imagePlaceholder content = some (before, behind)) :
    placeholderCount content = placeholderCount behind + 1 := by
  have hbefore := occurrences_of_splitFirst h
  unfold placeholderCount
  rw [append_of_splitFirst h, occurrences_placeholder (by decide) (by decide), hbefore,
    show occurrences imagePlaceholder imagePlaceholder = 1 by decide]
  omega

/-- **The loop over the placeholders of a text**, behind a text that is done. It takes no more than its images. -/
theorem expandContent_eq {used : List ℕ} (front : Text) {content : Text} (hfront : placeholderCount front = 0)
    (hlast : ∀ c ∈ front.getLast?, c ∉ imagePlaceholder.dropLast) (h : used.length = placeholderCount content) :
    ∃ out, Expanded (used.map (imageRun qwenPlugin)) content out ∧
      ∀ rest, expandContent qwenPlugin (used ++ rest) (front ++ content) = .ok (front ++ out, rest) := by
  induction used generalizing front content with
  | nil =>
    have hnone : splitFirst imagePlaceholder (front ++ content) = none := by
      rw [splitFirst_append hfront (.inr hlast), splitFirst_eq_none.2 h.symm]
      rfl
    refine ⟨content, .done h.symm, fun rest => ?_⟩
    cases rest <;> rw [List.nil_append, expandContent, hnone]
  | cons imageSeqlen used ih =>
    cases hsplit : splitFirst imagePlaceholder content with
    | none =>
      have hzero : placeholderCount content = 0 := splitFirst_eq_none.1 hsplit
      rw [hzero] at h
      exact absurd h (Nat.succ_ne_zero _)
    | some parts =>
      obtain ⟨before, behind⟩ := parts
      have hbefore : placeholderCount before = 0 := occurrences_of_splitFirst hsplit
      have hfirst : splitFirst imagePlaceholder (front ++ content) = some (front ++ before, behind) := by
        rw [splitFirst_append hfront (.inr hlast), hsplit]
        rfl
      -- what was replaced is done: no placeholder begins in it
      have hdone : placeholderCount (front ++ before ++ imageRun qwenPlugin imageSeqlen) = 0 := by
        have hrun := occurrences_imageRun (p := imagePlaceholder) (k := 0) (by decide) (by decide) (by decide) (by decide)
          (by decide) (front ++ before) [] imageSeqlen
        rw [List.append_nil, occurrences_append (.inr hlast)] at hrun
        unfold placeholderCount at hfront hbefore ⊢
        rw [hrun, hfront, hbefore]
        rfl
      have hend : ∀ c ∈ (front ++ before ++ imageRun qwenPlugin imageSeqlen).getLast?, c ∉ imagePlaceholder.dropLast := by
        intro c hc
        rw [imageRun, List.getLast?_append, List.getLast?_append] at hc
        obtain rfl : '>' = c := Option.some.inj hc
        decide
      have hlength : used.length = placeholderCount behind := by
        rw [List.length_cons, placeholderCount_split hsplit] at h
        omega
      obtain ⟨out, hexpanded, hout⟩ := ih _ hdone hend hlength
      refine ⟨before ++ imageRun qwenPlugin imageSeqlen ++ out, ?_, fun rest => ?_⟩
      · rw [append_of_splitFirst hsplit, List.map_cons, ← List.append_assoc]
        exact .image _ hbefore hexpanded
      · rw [List.cons_append, expandContent, hfirst]
        dsimp only
        rw [hout]
        simp only [List.append_assoc]

/-- **The loop over the first messages.** -/
theorem expandMessages_append {used : List ℕ} {messages : List Message}
    (h : used.length = (messages.map fun message => placeholderCount message.content).sum) :
    ∃ out, ExpandedAll (used.map (imageRun qwenPlugin)) messages out ∧ ∀ rest others,
      expandMessages qwenPlugin (used ++ rest) (messages ++ others) =
        (expandMessages qwenPlugin rest others).map fun out' => out ++ out' := by
  induction messages generalizing used with
  | nil =>
    obtain rfl := List.eq_nil_of_length_eq_zero h
    refine ⟨[], .nil, fun rest others => ?_⟩
    rw [List.nil_append, List.nil_append]
    cases expandMessages qwenPlugin rest others with
    | error e => rfl
    | ok out' => rfl
  | cons message messages ih =>
    rw [List.map_cons, List.sum_cons] at h
    have htake : (used.take (placeholderCount message.content)).length = placeholderCount message.content := by
      rw [List.length_take]
      omega
    obtain ⟨content, hexpanded, hcontent⟩ := expandContent_eq [] rfl nofun htake
    obtain ⟨out, hall, hout⟩ := @ih (used.drop (placeholderCount message.content)) (by
      rw [List.length_drop]
      omega)
    refine ⟨{ message with content } :: out, ?_, fun rest others => ?_⟩
    · rw [← List.take_append_drop (placeholderCount message.content) used, List.map_append]
      exact .cons hexpanded hall
    · have hfirst := hcontent (used.drop (placeholderCount message.content) ++ rest)
      rw [← List.append_assoc, List.take_append_drop, List.nil_append, List.nil_append] at hfirst
      rw [List.cons_append, expandMessages]
      simp only [hfirst, hout, bind, Except.bind]
      cases expandMessages qwenPlugin rest others with
      | error e => rfl
      | ok out' => rfl

/-- **The loop over the messages.** -/
theorem expandMessages_eq {used : List ℕ} {messages : List Message}
    (h : used.length = (messages.map fun message => placeholderCount message.content).sum) :
    ∃ out, ExpandedAll (used.map (imageRun qwenPlugin)) messages out ∧ expandMessages qwenPlugin used messages = .ok out := by
  obtain ⟨out, hall, hout⟩ := expandMessages_append h
  have hself := hout [] []
  rw [List.append_nil, List.append_nil] at hself
  refine ⟨out, hall, hself.trans ?_⟩
  exact congrArg Except.ok (List.append_nil out)

theorem validateMessages_eq {messages : List Message} {images : List ι}
    (h : (messages.map fun message => placeholderCount message.content).sum = images.length) :
    validateMessages messages images = .ok () := by
  unfold validateMessages
  simp only [count_imagePlaceholder]
  rw [if_neg (not_not_intro h.symm)]

theorem length_expandedAll {runs : List Text} {messages out : List Message} (h : ExpandedAll runs messages out) :
    out.length = messages.length := by
  induction h with
  | nil => rfl
  | cons _ _ ih => rw [List.length_cons, List.length_cons, ih]

theorem seqlens_eq {p : ImageProcessor ι} {images : List ι} (h : (p.imageGridThw images).length = images.length) :
    p.seqlens images = (p.imageGridThw images).map fun grid => grid.prod / p.mergeSize ^ 2 := by
  unfold ImageProcessor.seqlens
  by_cases himages : images = []
  · rw [himages, List.length_nil] at h
    rw [if_pos himages, himages, List.eq_nil_of_length_eq_zero h, List.map_nil]
  · rw [if_neg himages]

def imageRuns (p : ImageProcessor ι) (images : List ι) : List Text :=
  (p.imageGridThw images).map fun grid => imageRun qwenPlugin (grid.prod / p.mergeSize ^ 2)

theorem processMessages_expanded {p : ImageProcessor ι} {messages : List Message} {images : List ι}
    (hcount : (messages.map fun message => placeholderCount message.content).sum = images.length)
    (hgrids : (p.imageGridThw images).length = images.length) :
    ∃ out, processMessages qwenPlugin (some ⟨some p⟩) messages images = .ok out ∧
      ExpandedAll (imageRuns p images) messages out := by
  have hinput : validateInput (some ⟨some p⟩) images = .ok () := by
    unfold validateInput
    split
    · rfl
    · rfl
  have hseqlens := seqlens_eq hgrids
  have hlength : (p.seqlens images).length = (messages.map fun message => placeholderCount message.content).sum := by
    rw [hseqlens, List.length_map, hgrids, hcount]
  obtain ⟨out, hexpanded, hout⟩ := expandMessages_eq hlength
  refine ⟨out, ?_, ?_⟩
  · unfold processMessages
    simp only [hinput, validateMessages_eq hcount, bind, Except.bind]
    exact hout
  · rw [hseqlens, List.map_map] at hexpanded
    exact hexpanded

/-- **The expansion of a conversation**: when there is an image for each placeholder, the placeholders are replaced in their
order by the runs of the images, all else stays, and so do the messages that were given. -/
theorem processInPlace_expanded (p : ImageProcessor ι) (heap : List Message) (messages : Messages heap) (images : List ι)
    (hcount : (messages.contents.map fun message => count imagePlaceholder message.content).sum = images.length)
    (hgrids : (p.imageGridThw images).length = images.length) :
    ∃ out, processInPlace qwenPlugin (some ⟨some p⟩) heap messages images =
        .ok (heap ++ out, List.range' heap.length out.length) ∧
      ExpandedAll (imageRuns p images) messages.contents out := by
  simp only [count_imagePlaceholder] at hcount
  obtain ⟨out, hout, hexpanded⟩ := processMessages_expanded hcount hgrids
  refine ⟨out, ?_, hexpanded⟩
  rw [processInPlace_eq, hout, length_expandedAll hexpanded]
  rfl

def twoImagesHeap : List Message := [⟨.user, "<image>a".toList⟩, ⟨.assistant, "b<image>".toList⟩]

theorem processInPlace_twoImages : ∃ messages : Messages twoImagesHeap, messages.addrs = [0, 1] ∧ ∃ out,
    processInPlace qwenPlugin (some ⟨some ⟨fun images : List Unit => images.map fun _ => [1, 4, 4], 2⟩⟩) twoImagesHeap
        messages [(), ()] = .ok (twoImagesHeap ++ out, List.range' 2 out.length) ∧
      ExpandedAll [imageRun qwenPlugin 4, imageRun qwenPlugin 4] messages.contents out :=
  ⟨⟨[0, 1], by decide, by decide⟩, rfl, processInPlace_expanded
    ⟨fun images : List Unit => images.map fun _ => [1, 4, 4], 2⟩ twoImagesHeap _ [(), ()] (by decide) rfl⟩

end Opd.Clight.PlaceholderExpansion
