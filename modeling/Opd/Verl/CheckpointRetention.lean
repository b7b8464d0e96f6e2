import Mathlib.Data.List.Infix
import Opd.Lib.System

/-!
# Retention of checkpoints

`BaseCheckpointManager` keeps a list of saved paths. Before a save
`ensure_checkpoint_capacity` removes the oldest directories of the list down to
`max_ckpt_to_keep - 1`, unless the limit is 1; after it `register_checkpoint` appends the
new path and removes what exceeds the limit. Both go by the positions in the list, so a path that
is saved again can be removed through its older entry.

* `Retained`: the newest directories are on disk, and a complete one always is.
* `Disjoint`: a save whose dropped directories are apart from those it keeps, while another
  complete directory stays.
* `retained_of_reach`: the property holds in all runs of such saves.
-/

namespace Opd.Verl.CheckpointRetention

open Lib

/-! ## Directories -/

abbrev Dir := List (List Char)

/-- One component of `os.path.normpath`. -/
def normStep (dir : Dir) (component : List Char) : Dir :=
  if component = [] ∨ component = ['.'] then dir
  else if component = ['.', '.'] then dir.dropLast
  else dir ++ [component]

/-- `os.path.abspath(path)` in the working directory `cwd`. -/
def abspath (cwd : Dir) (path : String) : Dir :=
  (path.toList.splitOn '/').foldl normStep (if path.toList.head? = some '/' then [] else cwd)

/-- The directories on disk, and those that hold all files of a checkpoint. -/
structure Disk where
  present : List Dir
  complete : List Dir

/-- `shutil.rmtree(dir)` if the directory exists: it goes with all that is below it. -/
def Disk.rmtree (disk : Disk) (dir : Dir) : Disk :=
  if dir ∈ disk.present then
    ⟨disk.present.filter fun d => ¬ dir <+: d, disk.complete.filter fun d => ¬ dir <+: d⟩
  else disk

/-- `local_mkdir_safe` creates the directory and those above it; the files of a checkpoint
that is already there are overwritten from now on. -/
def Disk.beginWrite (disk : Disk) (dir : Dir) : Disk :=
  ⟨disk.present ++ dir.inits, disk.complete.filter fun d => d ≠ dir⟩

def Disk.endWrite (disk : Disk) (dir : Dir) : Disk := { disk with complete := disk.complete ++ [dir] }

/-! ## The manager -/

/-- How many entries `ensure_checkpoint_capacity` drops. -/
def capacityExcess (maxCkptToKeep : ℕ) (paths : List Dir) : ℕ :=
  if maxCkptToKeep > 1 ∧ paths.length ≥ maxCkptToKeep then paths.length - maxCkptToKeep + 1 else 0

/-- How many entries `register_checkpoint` drops, the new one being in the list. -/
def registerExcess (maxCkptToKeep : ℕ) (paths : List Dir) : ℕ :=
  if maxCkptToKeep > 0 ∧ paths.length > maxCkptToKeep then paths.length - maxCkptToKeep else 0

/-- Where `save_checkpoint` is on rank 0. `stale`: the directories that the loop of
`remove_previous_save_local_path` has not reached. -/
inductive Phase
  | idle
  | capacity (dir : Dir) (maxCkptToKeep : ℕ) (stale : List Dir)
  | ensured (dir : Dir) (maxCkptToKeep : ℕ)
  | writing (dir : Dir) (maxCkptToKeep : ℕ)
  | written (dir : Dir) (maxCkptToKeep : ℕ)
  | register (dir : Dir) (maxCkptToKeep : ℕ) (stale : List Dir)
  | saved (dir : Dir) (maxCkptToKeep : ℕ)
deriving DecidableEq

/-- The manager and its disk, and the directories of the registered saves. -/
structure State where
  previousSavedPaths : List Dir
  disk : Disk
  phase : Phase
  saves : List Dir

inductive Event
  | save (localPath : String) (maxCkptToKeep : ℕ)
  | advance
  | crash

/-- `save_checkpoint` up to its next effect on the disk. -/
def advance (s : State) : Option State :=
  match s.phase with
  | .idle => none
  | .capacity dir keep (old :: stale) => some { s with disk := s.disk.rmtree old, phase := .capacity dir keep stale }
  | .capacity dir keep [] => some { s with
      previousSavedPaths := s.previousSavedPaths.drop (capacityExcess keep s.previousSavedPaths)
      phase := .ensured dir keep }
  | .ensured dir keep => some { s with disk := s.disk.beginWrite dir, phase := .writing dir keep }
  | .writing dir keep => some { s with disk := s.disk.endWrite dir, phase := .written dir keep }
  | .written dir keep =>
    let paths := s.previousSavedPaths ++ [dir]
    some { s with
      previousSavedPaths := paths
      saves := s.saves ++ [dir]
      phase := .register dir keep (paths.take (registerExcess keep paths)) }
  | .register dir keep (old :: stale) => some { s with disk := s.disk.rmtree old, phase := .register dir keep stale }
  | .register dir keep [] => some { s with
      previousSavedPaths := s.previousSavedPaths.drop (registerExcess keep s.previousSavedPaths)
      phase := .saved dir keep }
  | .saved _ _ => none

def beginSave (s : State) (dir : Dir) (keep : ℕ) : State :=
  { s with phase := .capacity dir keep (s.previousSavedPaths.take (capacityExcess keep s.previousSavedPaths)) }

def step (cwd : Dir) (s : State) : Event → Option State
  | .save localPath keep =>
    match s.phase with
    | .idle | .saved _ _ => some (beginSave s (abspath cwd localPath) keep)
    | _ => none
  | .advance => advance s
  | .crash =>
    match s.phase with
    | .ensured _ _ | .writing _ _ | .written _ _ => some { s with phase := .idle }
    | _ => none

def initState : State := ⟨[], ⟨[], []⟩, .idle, []⟩

def manager (cwd : Dir) : System State Event := System.ofFn (· = initState) (step cwd)

/-! ## The property -/

/-- **Retention.** After a save its directory exists, and the tracked directories are the at
most `max_ckpt_to_keep` most recently saved ones, all on disk. From the first registered save
on a complete registered checkpoint exists at every moment. -/
structure Retained (s : State) : Prop where
  newest : ∀ dir keep, s.phase = .saved dir keep → dir ∈ s.disk.present ∧
    s.previousSavedPaths.length ≤ keep ∧ s.previousSavedPaths <:+ s.saves ∧
      ∀ d ∈ s.previousSavedPaths, d ∈ s.disk.present
  available : s.saves ≠ [] → ∃ d ∈ s.previousSavedPaths, d ∈ s.disk.complete

/-- The entries that a save with the limit drops, in `ensure_checkpoint_capacity` or, with
limit 1, in `register_checkpoint`. -/
def dropped (keep : ℕ) (paths : List Dir) : List Dir := paths.take (paths.length + 1 - keep)

def kept (keep : ℕ) (paths : List Dir) : List Dir := paths.drop (paths.length + 1 - keep)

/-- **A save that is apart from what it drops**: no dropped directory is, or contains, a kept
one, nor with limit 1 the new one; and once a checkpoint is registered, another directory than
the new one is complete among those that stay while it is written. -/
structure Disjoint (s : State) (dir : Dir) (keep : ℕ) : Prop where
  apart : ∀ old ∈ dropped keep s.previousSavedPaths, ∀ d ∈ kept keep s.previousSavedPaths, ¬ old <+: d
  new : keep = 1 → ∀ old ∈ s.previousSavedPaths, ¬ old <+: dir
  other : s.saves ≠ [] → ∃ d ∈ (if keep = 1 then s.previousSavedPaths else kept keep s.previousSavedPaths),
    d ∈ s.disk.complete ∧ d ≠ dir

instance (s : State) (dir : Dir) (keep : ℕ) : Decidable (Disjoint s dir keep) :=
  decidable_of_iff ((∀ old ∈ dropped keep s.previousSavedPaths, ∀ d ∈ kept keep s.previousSavedPaths, ¬ old <+: d) ∧
    (keep = 1 → ∀ old ∈ s.previousSavedPaths, ¬ old <+: dir) ∧
    (s.saves ≠ [] → ∃ d ∈ (if keep = 1 then s.previousSavedPaths else kept keep s.previousSavedPaths),
      d ∈ s.disk.complete ∧ d ≠ dir)) ⟨fun h => ⟨h.1, h.2.1, h.2.2⟩, fun h => ⟨h.apart, h.new, h.other⟩⟩

/-- The runs of saves with a limit of at least 1 that are apart from what they drop. -/
def DisjointStep (cwd : Dir) (s : State) : Event → Prop
  | .save localPath keep => 0 < keep ∧ Disjoint s (abspath cwd localPath) keep
  | _ => True

instance (cwd : Dir) (s : State) : (e : Event) → Decidable (DisjointStep cwd s e)
  | .save localPath keep => inferInstanceAs (Decidable (0 < keep ∧ Disjoint s (abspath cwd localPath) keep))
  | .advance | .crash => .isTrue trivial

/-! ## The invariant -/

namespace Phase

def stale : Phase → List Dir
  | .capacity _ _ stale | .register _ _ stale => stale
  | _ => []

/-- The directory that is about to be written, or is being written. -/
def target : Phase → Option Dir
  | .capacity dir _ _ | .ensured dir _ | .writing dir _ => some dir
  | _ => none

def request : Phase → Option (Dir × ℕ)
  | .capacity dir keep _ | .ensured dir keep | .writing dir keep | .written dir keep => some (dir, keep)
  | _ => none

def room : Phase → Option ℕ
  | .ensured _ keep | .writing _ keep | .written _ keep => some keep
  | _ => none

def created : Phase → Option Dir
  | .writing dir _ | .written dir _ => some dir
  | _ => none

def registered : Phase → Option (Dir × ℕ)
  | .register dir keep _ | .saved dir keep => some (dir, keep)
  | _ => none

end Phase

def State.remaining (s : State) : List Dir :=
  match s.phase with
  | .capacity _ keep _ => s.previousSavedPaths.drop (capacityExcess keep s.previousSavedPaths)
  | .register _ keep _ => s.previousSavedPaths.drop (registerExcess keep s.previousSavedPaths)
  | _ => s.previousSavedPaths

/-- **The invariant**: what remains is on disk, apart from what is still to be removed, and
holds a complete checkpoint other than the one being written. -/
structure Inv (s : State) : Prop where
  suffix : s.previousSavedPaths <:+ s.saves
  onDisk : ∀ d ∈ s.remaining, d ∈ s.disk.present
  apart : ∀ old ∈ s.phase.stale, ∀ d ∈ s.remaining, ¬ old <+: d
  available : s.saves ≠ [] → ∃ d ∈ s.remaining, d ∈ s.disk.complete ∧ s.phase.target ≠ some d
  request : ∀ dir keep, s.phase.request = some (dir, keep) →
    0 < keep ∧ (keep = 1 → ∀ old ∈ s.previousSavedPaths, ¬ old <+: dir)
  room : ∀ keep, s.phase.room = some keep → 1 < keep → s.previousSavedPaths.length < keep
  created : ∀ dir, s.phase.created = some dir → dir ∈ s.disk.present
  written : ∀ dir keep, s.phase = .written dir keep → dir ∈ s.disk.complete
  registered : ∀ dir keep, s.phase.registered = some (dir, keep) → dir ∈ s.remaining ∧ s.remaining.length ≤ keep

variable {s s' : State} {keep : ℕ} {paths : List Dir} {dir : Dir}

theorem capacityExcess_of_lt (h : 1 < keep) (paths : List Dir) :
    capacityExcess keep paths = paths.length + 1 - keep := by
  unfold capacityExcess
  split <;> omega

theorem registerExcess_of_le (h : paths.length ≤ keep) : registerExcess keep paths = 0 := by
  unfold registerExcess
  split <;> omega

theorem registerExcess_one (paths : List Dir) : registerExcess 1 (paths ++ [dir]) = paths.length := by
  unfold registerExcess
  rw [List.length_append, List.length_singleton]
  split <;> omega

theorem mem_present_rmtree {disk : Disk} {old d : Dir} (h : d ∈ disk.present) (hnot : ¬ old <+: d) :
    d ∈ (disk.rmtree old).present := by
  unfold Disk.rmtree
  split
  · exact List.mem_filter.2 ⟨h, by simpa using hnot⟩
  · exact h

theorem mem_complete_rmtree {disk : Disk} {old d : Dir} (h : d ∈ disk.complete) (hnot : ¬ old <+: d) :
    d ∈ (disk.rmtree old).complete := by
  unfold Disk.rmtree
  split
  · exact List.mem_filter.2 ⟨h, by simpa using hnot⟩
  · exact h

theorem mem_present_beginWrite (disk : Disk) (dir : Dir) : dir ∈ (disk.beginWrite dir).present :=
  List.mem_append_right _ ((List.mem_inits _ _).2 (List.prefix_refl dir))

theorem Inv.remove (h : Inv s) {old : Dir} {stale : List Dir} (hstale : s.phase.stale = old :: stale) :
    (∀ d ∈ s.remaining, d ∈ (s.disk.rmtree old).present) ∧
      (∀ o ∈ stale, ∀ d ∈ s.remaining, ¬ o <+: d) ∧
      (s.saves ≠ [] → ∃ d ∈ s.remaining, d ∈ (s.disk.rmtree old).complete ∧ s.phase.target ≠ some d) := by
  have hapart := h.apart
  rw [hstale] at hapart
  have hold := hapart old List.mem_cons_self
  refine ⟨?_, ?_, ?_⟩
  · intro d hd
    exact mem_present_rmtree (h.onDisk d hd) (hold d hd)
  · intro o ho
    exact hapart o (List.mem_cons_of_mem _ ho)
  · intro hsaves
    obtain ⟨d, hd, hcomplete, htarget⟩ := h.available hsaves
    exact ⟨d, hd, mem_complete_rmtree hcomplete (hold d hd), htarget⟩

/-! ## The steps -/

/-- The new path is registered. With limit 1 all older ones are dropped, and with a larger
limit there is room for it. -/
theorem Inv.register {tracked : List Dir} {disk : Disk} {saves : List Dir}
    (h : Inv ⟨tracked, disk, .written dir keep, saves⟩) :
    Inv ⟨tracked ++ [dir], disk, .register dir keep ((tracked ++ [dir]).take (registerExcess keep (tracked ++ [dir]))),
      saves ++ [dir]⟩ := by
  obtain ⟨hpos, hnew⟩ := h.request dir keep rfl
  have hdir : dir ∈ disk.present := h.created dir rfl
  have honDisk : ∀ d ∈ tracked, d ∈ disk.present := h.onDisk
  have hsuffix : tracked ++ [dir] <:+ saves ++ [dir] := by
    obtain ⟨before, rfl⟩ : tracked <:+ saves := h.suffix
    exact ⟨before, (List.append_assoc _ _ _).symm⟩
  have hcomplete : dir ∈ disk.complete := h.written dir keep rfl
  rcases Nat.lt_or_ge 1 keep with hlt | hle
  · have hroom : tracked.length < keep := h.room keep rfl hlt
    have hlength : (tracked ++ [dir]).length ≤ keep := by
      rw [List.length_append, List.length_singleton]
      omega
    have hremaining : ((tracked ++ [dir]).drop (registerExcess keep (tracked ++ [dir]))) = tracked ++ [dir] := by
      rw [registerExcess_of_le hlength, List.drop_zero]
    rw [registerExcess_of_le hlength, List.take_zero]
    refine ⟨hsuffix, ?_, nofun, ?_, nofun, nofun, nofun, nofun, ?_⟩ <;> unfold State.remaining <;>
      simp only [hremaining]
    · intro d hd
      rcases List.mem_append.1 hd with hold | hlast
      · exact honDisk d hold
      · exact List.mem_singleton.1 hlast ▸ hdir
    · intro _
      exact ⟨dir, List.mem_append_right _ List.mem_cons_self, hcomplete, nofun⟩
    · rintro dir' keep' ⟨⟩
      exact ⟨List.mem_append_right _ List.mem_cons_self, hlength⟩
  · obtain rfl : keep = 1 := by omega
    have hremaining : ((tracked ++ [dir]).drop (registerExcess 1 (tracked ++ [dir]))) = [dir] := by
      rw [registerExcess_one, List.drop_left]
    rw [registerExcess_one, List.take_left]
    refine ⟨hsuffix, ?_, ?_, ?_, nofun, nofun, nofun, nofun, ?_⟩ <;> unfold State.remaining <;>
      simp only [hremaining]
    · intro d hd
      exact List.mem_singleton.1 hd ▸ hdir
    · intro old hold d hd
      exact List.mem_singleton.1 hd ▸ hnew rfl old hold
    · intro _
      exact ⟨dir, List.mem_cons_self, hcomplete, nofun⟩
    · rintro dir' keep' ⟨⟩
      exact ⟨List.mem_cons_self, le_rfl⟩

theorem Inv.advance (h : Inv s) (hstep : advance s = some s') : Inv s' := by
  obtain ⟨tracked, disk, phase, saves⟩ := s
  cases phase with
  | idle => cases hstep
  | saved dir keep => cases hstep
  | capacity dir keep stale =>
    cases stale with
    | cons old stale =>
      obtain ⟨honDisk, hapart, havailable⟩ := h.remove rfl
      obtain rfl := Option.some.inj hstep
      exact ⟨h.suffix, honDisk, hapart, havailable, h.request, nofun, nofun, nofun, nofun⟩
    | nil =>
      obtain rfl := Option.some.inj hstep
      obtain ⟨hpos, hnew⟩ := h.request dir keep rfl
      refine ⟨(List.drop_suffix _ _).trans h.suffix, h.onDisk, nofun, h.available, ?_, ?_, nofun, nofun, nofun⟩
      · rintro dir' keep' ⟨⟩
        exact ⟨hpos, fun hone old hold => hnew hone old (List.mem_of_mem_drop hold)⟩
      · rintro keep' ⟨⟩ hlt
        change (tracked.drop (capacityExcess keep tracked)).length < keep
        rw [capacityExcess_of_lt hlt, List.length_drop]
        omega
  | ensured dir keep =>
    obtain rfl := Option.some.inj hstep
    refine ⟨h.suffix, ?_, nofun, ?_, h.request, h.room, ?_, nofun, nofun⟩
    · intro d hd
      exact List.mem_append_left _ (h.onDisk d hd)
    · intro hsaves
      obtain ⟨d, hd, hcomplete, htarget⟩ := h.available hsaves
      refine ⟨d, hd, List.mem_filter.2 ⟨hcomplete, ?_⟩, htarget⟩
      have hne : d ≠ dir := fun heq => htarget (congrArg some heq.symm)
      simpa using hne
    · rintro dir' ⟨⟩
      exact mem_present_beginWrite disk dir
  | writing dir keep =>
    obtain rfl := Option.some.inj hstep
    refine ⟨h.suffix, h.onDisk, nofun, ?_, h.request, h.room, h.created, ?_, nofun⟩
    · intro hsaves
      obtain ⟨d, hd, hcomplete, -⟩ := h.available hsaves
      exact ⟨d, hd, List.mem_append_left _ hcomplete, nofun⟩
    · rintro dir' keep' ⟨⟩
      exact List.mem_append_right _ List.mem_cons_self
  | written dir keep =>
    obtain rfl := Option.some.inj hstep
    exact h.register
  | register dir keep stale =>
    cases stale with
    | cons old stale =>
      obtain ⟨honDisk, hapart, havailable⟩ := h.remove rfl
      obtain rfl := Option.some.inj hstep
      exact ⟨h.suffix, honDisk, hapart, havailable, nofun, nofun, nofun, nofun, h.registered⟩
    | nil =>
      obtain rfl := Option.some.inj hstep
      exact ⟨(List.drop_suffix _ _).trans h.suffix, h.onDisk, nofun, h.available, nofun, nofun, nofun, nofun,
        h.registered⟩

theorem Inv.beginSave (h : Inv s) (hphase : s.phase = .idle ∨ ∃ dir keep, s.phase = .saved dir keep)
    (hpos : 0 < keep) (hdisjoint : Disjoint s dir keep) : Inv (beginSave s dir keep) := by
  have hremaining : s.remaining = s.previousSavedPaths := by
    unfold State.remaining
    rcases hphase with hidle | ⟨dir', keep', hsaved⟩
    · rw [hidle]
    · rw [hsaved]
  have honDisk := h.onDisk
  rw [hremaining] at honDisk
  have hother := hdisjoint.other
  rcases Nat.lt_or_ge 1 keep with hlt | hle
  · -- the removals come before the write
    have hexcess := capacityExcess_of_lt hlt s.previousSavedPaths
    rw [if_neg (by omega)] at hother
    refine ⟨h.suffix, ?_, ?_, ?_, ?_, nofun, nofun, nofun, nofun⟩ <;>
      simp only [CheckpointRetention.beginSave, State.remaining, hexcess]
    · intro d hd
      exact honDisk d (List.mem_of_mem_drop hd)
    · exact hdisjoint.apart
    · intro hsaves
      obtain ⟨d, hd, hcomplete, hne⟩ := hother hsaves
      exact ⟨d, hd, hcomplete, fun heq => hne (Option.some.inj heq).symm⟩
    · rintro dir' keep' ⟨⟩
      exact ⟨hpos, fun hone => absurd hone (by omega)⟩
  · -- nothing is removed before the write
    obtain rfl : keep = 1 := by omega
    rw [if_pos rfl] at hother
    refine ⟨h.suffix, honDisk, ?_, ?_, ?_, nofun, nofun, nofun, nofun⟩
    · intro old hold
      cases hold
    · intro hsaves
      obtain ⟨d, hd, hcomplete, hne⟩ := hother hsaves
      exact ⟨d, hd, hcomplete, fun heq => hne (Option.some.inj heq).symm⟩
    · rintro dir' keep' ⟨⟩
      exact ⟨Nat.one_pos, hdisjoint.new⟩

theorem Inv.crash {tracked : List Dir} {disk : Disk} {phase : Phase} {saves : List Dir}
    (h : Inv ⟨tracked, disk, phase, saves⟩) (hremaining : (State.mk tracked disk phase saves).remaining = tracked) :
    Inv ⟨tracked, disk, .idle, saves⟩ := by
  refine ⟨h.suffix, ?_, nofun, ?_, nofun, nofun, nofun, nofun, nofun⟩
  · intro d hd
    exact h.onDisk d (by rw [hremaining]; exact hd)
  · intro hsaves
    obtain ⟨d, hd, hcomplete, -⟩ := h.available hsaves
    rw [hremaining] at hd
    exact ⟨d, hd, hcomplete, nofun⟩

/-- **A step of a run of such saves.** -/
theorem Inv.step {cwd : Dir} {e : Event} (h : Inv s) (he : DisjointStep cwd s e) (hstep : step cwd s e = some s') :
    Inv s' := by
  obtain ⟨tracked, disk, phase, saves⟩ := s
  cases e with
  | save localPath keep =>
    obtain ⟨hpos, hdisjoint⟩ := he
    cases phase with
    | idle =>
      obtain rfl := Option.some.inj hstep
      exact h.beginSave (Or.inl rfl) hpos hdisjoint
    | saved dir keep' =>
      obtain rfl := Option.some.inj hstep
      exact h.beginSave (Or.inr ⟨dir, keep', rfl⟩) hpos hdisjoint
    | capacity | ensured | writing | written | register => cases hstep
  | advance => exact h.advance hstep
  | crash =>
    cases phase with
    | ensured dir keep | writing dir keep | written dir keep =>
      obtain rfl := Option.some.inj hstep
      exact h.crash rfl
    | idle | capacity | register | saved => cases hstep

theorem Inv.retained (h : Inv s) : Retained s := by
  refine ⟨?_, ?_⟩
  · intro dir keep hsaved
    obtain ⟨hmem, hlength⟩ := h.registered dir keep (by rw [hsaved]; rfl)
    have hremaining : s.remaining = s.previousSavedPaths := by
      unfold State.remaining
      rw [hsaved]
    have honDisk := h.onDisk
    rw [hremaining] at hmem hlength honDisk
    exact ⟨honDisk dir hmem, hlength, h.suffix, honDisk⟩
  · intro hsaves
    obtain ⟨d, hd, hcomplete, -⟩ := h.available hsaves
    refine ⟨d, ?_, hcomplete⟩
    unfold State.remaining at hd
    split at hd
    · exact List.mem_of_mem_drop hd
    · exact List.mem_of_mem_drop hd
    · exact hd

/-- **Retention holds in every run of saves that are apart from what they drop**, at every
moment, wherever saves crash. -/
theorem retained_of_reach (cwd : Dir) (h : ((manager cwd).restrict (DisjointStep cwd)).Reach s) : Retained s := by
  refine Inv.retained (h.induct ?_ fun _ _ _ _ hinv hstep => hinv.step hstep.2 hstep.1)
  rintro s rfl
  exact ⟨List.suffix_refl _, nofun, nofun, nofun, nofun, nofun, nofun, nofun, nofun⟩

/-! ## A path that is saved twice -/

/-- One call from its start to its end, when nothing is removed before the write and at most
one directory after it. -/
def fullSave (localPath : String) (removals : ℕ) : List Event :=
  .save localPath 1 :: List.replicate (5 + removals) .advance

theorem retained_twoPaths : ∃ s, ((manager []).restrict (DisjointStep [])).Reach s ∧
    s.saves = [abspath [] "a", abspath [] "b"] ∧ Retained s := by
  have hinit : ((manager []).restrict (DisjointStep [])).Reach initState := .init rfl
  have hrun : (System.runFn (fun s e => if decide (DisjointStep [] s e) then step [] s e else none) initState
      (fullSave "a" 0 ++ fullSave "b" 1)).map State.saves = some [abspath [] "a", abspath [] "b"] := by decide
  obtain ⟨s, hs, hsaves⟩ := Option.map_eq_some_iff.1 hrun
  have hreach := System.reach_restrict_of_run (fun _ _ hpass => of_decide_eq_true hpass) hinit hs
  exact ⟨s, hreach, hsaves, retained_of_reach [] hreach⟩

def ValidStep : Event → Prop
  | .save _ keep => 0 < keep
  | _ => True

instance : (e : Event) → Decidable (ValidStep e)
  | .save _ keep => inferInstanceAs (Decidable (0 < keep))
  | .advance | .crash => .isTrue trivial

/-- **A path saved twice with limit 1** is not on disk after the second save. -/
theorem resave_removed : ¬ ∀ s, ((manager []).restrict fun _ e => ValidStep e).Reach s → Retained s := by
  intro h
  have hinit : ((manager []).restrict fun _ e => ValidStep e).Reach initState := .init rfl
  have hrun : (System.runFn (fun s e => if decide (ValidStep e) then step [] s e else none) initState
      (fullSave "a" 0 ++ fullSave "a" 1)).map (fun s => (s.phase, decide (abspath [] "a" ∈ s.disk.present))) =
      some (.saved (abspath [] "a") 1, false) := by decide
  obtain ⟨s, hs, hend⟩ := Option.map_eq_some_iff.1 hrun
  have hreach := System.reach_restrict_of_run (fun _ _ hpass => of_decide_eq_true hpass) hinit hs
  simp only [Prod.mk.injEq, decide_eq_false_iff_not] at hend
  exact hend.2 ((h s hreach).newest _ _ hend.1).1

end Opd.Verl.CheckpointRetention
