import Opd.Verl.PoolInvariant

/-!
# Group completion

The replay buffer documents a terminal status as "all sessions of the prompt are
finished". `_run_prompt` awaits `asyncio.gather` of its tasks, which raises as soon as one
of them raises; the handler then sets the prompt to `failure` while the other tasks go on.

* `groupsComplete_iff`: groups are complete as long as the handler sets `failure` only
  when no task of the prompt is open, and each time it does so earlier they are not.
-/

namespace Opd.Verl

open Lib

/-- A prompt is set to `failure` only when none of its tasks is open any more. -/
def siblingsOver (s : Pool) : Event → Prop
  | .failure uid => ∀ g, s.groups uid = some g → ∀ session ∈ g.sessions, session.isOver = true
  | _ => True

/-- Group completion as documented: a prompt with a terminal status has no open task, and
no trajectory is put after its prompt was sampled. -/
structure GroupsComplete (s : Pool) : Prop where
  sessionsOver : ∀ uid g tag status, s.groups uid = some g → s.queue.get? (g.partitionId, uid.text) = some tag →
    tag.status = some status → status.isTerminal = true → ∀ session ∈ g.sessions, session.isOver = true
  late : s.late = []

def TasksOver (s : Pool) : Prop :=
  ∀ uid g, s.groups uid = some g → g.status.isTerminal = true → ∀ session ∈ g.sessions, session.isOver = true

variable {cfg : ReplayConfig} {s s' : Pool} {e : Event}

theorem putsDone_of_siblingsOver (s : Pool) (e : Event) (h : siblingsOver s e) : putsDone s e := by
  cases e with
  | failure uid =>
    intro g hg session hsession hrun
    have hover := h g hg session hsession
    rw [hrun] at hover
    cases hover
  | register | start | write | sessionEnd | sessionRaise | finished | sample | sync | clearPrompts | clearDropped
  | clearBatch => trivial

theorem TasksOver.setGroup (h : TasksOver s) {groups : Uid → Option Group} {uid : Uid} {g : Group}
    (hgroups : groups = Function.update s.groups uid (some g))
    (hg : g.status.isTerminal = true → ∀ session ∈ g.sessions, session.isOver = true) :
    ∀ uid g, groups uid = some g → g.status.isTerminal = true → ∀ session ∈ g.sessions, session.isOver = true := by
  intro uid₂ g₂ hg₂
  rw [hgroups] at hg₂
  rcases update_group hg₂ with ⟨-, rfl⟩ | ⟨-, hg₂⟩
  · exact hg
  · exact h uid₂ g₂ hg₂

theorem tasksOver_of_effect (hinv : Inv cfg s) (h : TasksOver s) (he : Effect cfg s e s') (hover : siblingsOver s e) :
    TasksOver s' := by
  cases he with
  | registered uid g hnew hstatus hsessions hwritten =>
    refine h.setGroup rfl fun hterm => ?_
    rw [hstatus] at hterm
    cases hterm
  | started uid g n hg hstatus => exact h.setGroup rfl nofun
  | published uid g status hg hstatus hterm hdone =>
    refine h.setGroup rfl fun _ => ?_
    rcases hdone with hended | rfl
    · exact fun session hsession => by rw [hended session hsession]; rfl
    · exact hover g hg
  | wrote uid g sessionId outputs hg hrun =>
    refine h.setGroup rfl fun hterm => ?_
    rw [(hinv.groups uid g hg).not_terminal hrun] at hterm
    cases hterm
  | ended uid g sessionId before after hg hbefore hopen hafter =>
    refine h.setGroup rfl fun hterm session hsession => ?_
    rcases List.mem_or_eq_of_mem_set hsession with hold | rfl
    · exact h uid g hg hterm session hold
    · exact hafter
  | called | waited | selected | syncRaised | nothingSelected | splitRaised | cleared | returned | dropRaised
  | dropped | batchCleared => exact h

theorem tasksOver_of_reach (h : ((pool cfg).restrict siblingsOver).Reach s) : TasksOver s := by
  refine h.induct ?_ ?_
  · rintro s rfl uid g hg
    cases hg
  · intro s e s' hreach htasks hstep
    have hinv := inv_of_reach (System.reach_restrict_mono putsDone_of_siblingsOver hreach)
    exact tasksOver_of_effect hinv htasks (effect_of_step hstep.1) hstep.2

theorem groupsComplete_of_reach (h : ((pool cfg).restrict siblingsOver).Reach s) : GroupsComplete s := by
  have hinv := inv_of_reach (System.reach_restrict_mono putsDone_of_siblingsOver h)
  refine ⟨fun uid g tag status hg hget hstatus hterm => ?_, hinv.late⟩
  rw [hinv.queue.prompt uid g hg] at hget
  split at hget
  · cases hget
  · obtain rfl := Option.some.inj hget
    obtain rfl : g.status = status := Option.some.inj hstatus
    exact tasksOver_of_reach h uid g hg hterm

theorem not_groupsComplete_of_failure (hstep : poolStep cfg s e = some s') (hopen : ¬ siblingsOver s e) :
    ¬ GroupsComplete s' := by
  intro hcomplete
  cases e with
  | failure uid =>
    apply hopen
    intro g hg session hsession
    obtain rfl : s' = s.publish uid g .failure := by
      simp only [poolStep, endPrompt, hg] at hstep
      split at hstep
      · cases hstep
      split at hstep
      · rename_i hfinished
        cases hfinished.1
      split at hstep
      · exact (Option.some.inj hstep).symm
      · cases hstep
    have hget : (s.publish uid g .failure).queue.get? (g.partitionId, uid.text) =
        some (((s.queue.get? (g.partitionId, uid.text)).getD {}).update { status := some .failure }) :=
      Dict.get?_update_self _ _ _
    exact hcomplete.sessionsOver uid { g with status := .failure } _ .failure (Function.update_self _ _ _) hget rfl rfl
      session hsession
  | register | start | write | sessionEnd | sessionRaise | finished | sample | sync | clearPrompts | clearDropped
  | clearBatch => exact hopen trivial

/-- **Group completion holds exactly as long as** the exception handler of `_run_prompt`
finds no task of the prompt open. -/
theorem groupsComplete_iff (cfg : ReplayConfig) :
    (∀ s, ((pool cfg).restrict siblingsOver).Reach s → GroupsComplete s) ∧
      ∀ s e s', ((pool cfg).restrict siblingsOver).Reach s → (pool cfg).step s e s' → ¬ siblingsOver s e →
        ¬ GroupsComplete s' :=
  ⟨fun _ hreach => groupsComplete_of_reach hreach,
    fun _ _ _ _ hstep hopen => not_groupsComplete_of_failure hstep hopen⟩

/-! ## A group that is complete and one that is not -/

def exampleConfig : ReplayConfig := ⟨2, .drop, 1, by decide, by decide⟩

def examplePrompt : Uid := ⟨"p", by decide⟩

def exampleOutput : AgentLoopOutput := ⟨[1, 2], [3], some 0, some 1⟩

/-- The test of `siblingsOver`. -/
def siblingsOverTest (s : Pool) : Event → Bool
  | .failure uid => (s.groups uid).all fun g => g.sessions.all Session.isOver
  | _ => true

theorem siblingsOver_of_test (s : Pool) (e : Event) (h : siblingsOverTest s e = true) : siblingsOver s e := by
  cases e with
  | failure uid =>
    intro g hg session hsession
    rw [siblingsOverTest, hg, Option.all_some, List.all_eq_true] at h
    exact h session hsession
  | register | start | write | sessionEnd | sessionRaise | finished | sample | sync | clearPrompts | clearDropped
  | clearBatch => trivial

def lastRaises : List Event :=
  [.register examplePrompt "train" 1, .start examplePrompt 2, .write examplePrompt 1 [exampleOutput],
    .sessionEnd examplePrompt 1, .sessionRaise examplePrompt 0, .failure examplePrompt,
    .sample ⟨1, "train", 1⟩, .sync ["p"], .clearPrompts]

theorem groupsComplete_lastRaises :
    ∃ s, ((pool exampleConfig).restrict siblingsOver).Reach s ∧ s.records.map (·.batch.keys) = [["p_1_0"]] ∧
      GroupsComplete s := by
  have hrun : (System.runFn (fun s e => if siblingsOverTest s e then poolStep exampleConfig s e else none)
      emptyPool lastRaises).any fun s => s.records.map (·.batch.keys) = [["p_1_0"]] := by decide +kernel
  rw [Option.any_eq_true] at hrun
  obtain ⟨s, hs, hrecords⟩ := hrun
  have hreach : ((pool exampleConfig).restrict siblingsOver).Reach s :=
    System.reach_restrict_of_run siblingsOver_of_test (.init rfl) hs
  exact ⟨s, hreach, of_decide_eq_true hrecords, (groupsComplete_iff exampleConfig).1 s hreach⟩

/-- One session raises first: the prompt is sampled and its sibling still puts a trajectory. -/
def firstRaises : List Event :=
  [.register examplePrompt "train" 1, .start examplePrompt 2, .sessionRaise examplePrompt 0,
    .failure examplePrompt, .sample ⟨1, "train", 1⟩, .sync ["p"], .clearPrompts,
    .write examplePrompt 1 [exampleOutput], .sessionEnd examplePrompt 1]

/-- **A late trajectory**: it stays in the queue, and no call has returned it. -/
theorem late_trajectory :
    ∃ s, (pool exampleConfig).Reach s ∧ ¬ GroupsComplete s ∧ s.late = ["p_1_0"] ∧
      (s.queue.get? ("train", "p_1_0")).isSome ∧ s.records.map (·.batch.keys) = [[]] := by
  have hrun : ∃ s, System.runFn (poolStep exampleConfig) emptyPool firstRaises = some s ∧
      s.late = ["p_1_0"] ∧ (s.queue.get? ("train", "p_1_0")).isSome ∧
        s.records.map (·.batch.keys) = [[]] := ⟨_, rfl, by decide, by decide, by decide⟩
  obtain ⟨s, hs, hlate, hqueue, hrecords⟩ := hrun
  refine ⟨s, System.reach_of_run (.init rfl) hs, fun hcomplete => ?_, hlate, hqueue, hrecords⟩
  rw [hcomplete.late] at hlate
  cases hlate

end Opd.Verl
