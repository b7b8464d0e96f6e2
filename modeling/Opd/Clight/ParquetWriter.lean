import Mathlib.Algebra.GroupWithZero.Nat
import Opd.Lib.Dict
import Opd.Lib.System
import Opd.Lib.Tensor

/-!
# The sharded parquet writer

`ShardedParquetWriter` keeps rows until there are enough for a shard. A shard is written to the file of its index and
read again; each of the two can fail, and then the caller goes on as it likes.

* `shardPath_injective`: each index has a file of its own.
* `inv_of_reach`: the shards and the pending rows are the accepted rows, after every sequence of calls.
* `closed_spec`: the shards after `close`.
-/

namespace Opd.Clight.ParquetWriter

open Lib

/-- `output_dir` is not part of the names. -/
structure Config where
  namePrefix : String
  rowsPerFile : ℕ
  rowsPerFile_pos : 0 < rowsPerFile

/-- `pyarrow`: the schema of some rows, and a row in the form that a table with a schema has for it. Both can fail. -/
structure Arrow (R S : Type) where
  inferSchema : List R → Option S
  fromPylist : S → R → Option R

inductive WriteError
  | arrowError
  | writeError
  | runtimeError (message : String)
  deriving DecidableEq

/-- What `pq.write_table` and `validate_shard` do. A file may be left by a table that is not written. -/
inductive Attempt
  | written
  | failed (left : Bool)
  | unreadable

/-- The writer, with the files of its directory. A file that cannot be read has no rows. -/
structure Writer (R S : Type) where
  schema : Option S
  shardIdx : ℕ
  files : List String
  pendingRows : List R
  disk : Dict String (Option (List R))

variable {R S : Type}

/-- `f"{n:05d}"` -/
def fiveDigits (n : ℕ) : List Char :=
  List.replicate (5 - (Nat.toDigits 10 n).length) '0' ++ Nat.toDigits 10 n

/-- `f"{self.prefix}-{self.shard_idx:05d}.parquet"` -/
def shardPath (cfg : Config) (shardIdx : ℕ) : String :=
  cfg.namePrefix ++ "-" ++ String.ofList (fiveDigits shardIdx) ++ ".parquet"

/-- `write_shard`. There is a schema whenever there are rows. -/
def writeShard (arrow : Arrow R S) (cfg : Config) (attempt : Attempt) (rows : List R) (w : Writer R S) :
    Option WriteError × Writer R S :=
  let path := shardPath cfg w.shardIdx
  match w.schema.bind fun schema => rows.mapM (arrow.fromPylist schema) with
  | none => (some .arrowError, w)
  | some table =>
    match attempt with
    | .failed left => (some .writeError, if left then { w with disk := w.disk.update path fun _ => none } else w)
    | .unreadable =>
      (some (.runtimeError ("Unreadable parquet shard: " ++ path)), { w with disk := w.disk.update path fun _ => none })
    | .written =>
      (none, { w with
        disk := w.disk.update path fun _ => some table
        files := w.files ++ [path]
        shardIdx := w.shardIdx + 1 })

theorem pendingRows_writeShard (arrow : Arrow R S) (cfg : Config) (attempt : Attempt) (rows : List R) (w : Writer R S) :
    (writeShard arrow cfg attempt rows w).2.pendingRows = w.pendingRows := by
  unfold writeShard
  cases w.schema.bind fun schema => rows.mapM (arrow.fromPylist schema) with
  | none => rfl
  | some table =>
    cases attempt with
    | written => rfl
    | unreadable => rfl
    | failed left =>
      cases left with
      | true => rfl
      | false => rfl

/-- `while len(self.pending_rows) >= self.rows_per_file`, from the attempt `k`. -/
def writeLoop (arrow : Arrow R S) (cfg : Config) (attempts : ℕ → Attempt) (k : ℕ) (w : Writer R S) :
    Option WriteError × Writer R S :=
  if cfg.rowsPerFile ≤ w.pendingRows.length then
    let r := writeShard arrow cfg (attempts k) (w.pendingRows.take cfg.rowsPerFile) w
    if r.1.isSome then r
    else writeLoop arrow cfg attempts (k + 1) { r.2 with pendingRows := r.2.pendingRows.drop cfg.rowsPerFile }
  else (none, w)
termination_by w.pendingRows.length
decreasing_by
  have hpos := cfg.rowsPerFile_pos
  rw [pendingRows_writeShard, List.length_drop]
  omega

def schemaOf (arrow : Arrow R S) (rows : List R) (w : Writer R S) : Option S := w.schema.or (arrow.inferSchema rows)

/-- `write_rows` -/
def writeRows (arrow : Arrow R S) (cfg : Config) (attempts : ℕ → Attempt) (rows : List R) (w : Writer R S) :
    Option WriteError × Writer R S :=
  if rows.isEmpty then (none, w)
  else
    match schemaOf arrow rows w with
    | none => (some .arrowError, w)
    | some schema =>
      writeLoop arrow cfg attempts 0 { w with schema := some schema, pendingRows := w.pendingRows ++ rows }

/-- `close` -/
def close (arrow : Arrow R S) (cfg : Config) (attempts : ℕ → Attempt) (w : Writer R S) :
    Option WriteError × Writer R S :=
  if w.pendingRows.isEmpty then (none, w)
  else
    let r := writeShard arrow cfg (attempts 0) w.pendingRows w
    if r.1.isSome then r else (none, { r.2 with pendingRows := [] })

/-! ## Sequences of calls -/

inductive Call (R : Type)
  | writeRows (rows : List R) (attempts : ℕ → Attempt)
  | close (attempts : ℕ → Attempt)

/-- The writer, the rows that it took, also in calls that raised, and whether `close` has returned. -/
structure Run (R S : Type) where
  writer : Writer R S
  accepted : List R
  closed : Bool

def start : Run R S := ⟨⟨none, 0, [], [], .empty⟩, [], false⟩

/-- One call. The caller goes on after a call that raised, and stops when `close` returns. -/
def call (arrow : Arrow R S) (cfg : Config) (s : Run R S) : Call R → Option (Run R S)
  | .writeRows rows attempts =>
    if s.closed then none
    else some
      { s with
        writer := (writeRows arrow cfg attempts rows s.writer).2
        accepted := s.accepted ++ if (schemaOf arrow rows s.writer).isSome then rows else [] }
  | .close attempts =>
    if s.closed then none
    else
      let r := close arrow cfg attempts s.writer
      some { s with writer := r.2, closed := r.1.isNone }

def calls (arrow : Arrow R S) (cfg : Config) : System (Run R S) (Call R) :=
  .ofFn (fun s => s = start) (call arrow cfg)

def readShards (cfg : Config) (w : Writer R S) : Option (List (List R)) :=
  (List.range w.shardIdx).mapM fun i => (w.disk.get? (shardPath cfg i)).join

/-! ## The files -/

theorem ofDigitChars_fiveDigits (n : ℕ) : Nat.ofDigitChars 10 (fiveDigits n) 0 = n := by
  rw [fiveDigits, Nat.ofDigitChars_append, Nat.ofDigitChars_replicate_zero, Nat.mul_zero, Nat.ofDigitChars_ten_toDigits]

/-- **Each index has a file of its own.** -/
theorem shardPath_injective (cfg : Config) : Function.Injective (shardPath cfg) := by
  intro i j h
  have htext := congrArg String.toList h
  simp only [shardPath, String.toList_append, String.toList_ofList] at htext
  have hdigits : fiveDigits i = fiveDigits j := List.append_cancel_left (List.append_cancel_right htext)
  rw [← ofDigitChars_fiveDigits i, hdigits, ofDigitChars_fiveDigits]

variable {arrow : Arrow R S} {cfg : Config} {attempt : Attempt} {attempts : ℕ → Attempt} {rows rest accepted : List R}
  {w : Writer R S} {shards : List (List R)} {k : ℕ}

def tableOf (arrow : Arrow R S) (w : Writer R S) (rows : List R) : Option (List R) :=
  w.schema.bind fun schema => rows.mapM (arrow.fromPylist schema)

/-- **An attempt** writes the file of the index, or it leaves no rows in it. -/
theorem writeShard_cases (arrow : Arrow R S) (cfg : Config) (attempt : Attempt) (rows : List R) (w : Writer R S) :
    (∃ table, tableOf arrow w rows = some table ∧ attempt = .written ∧ writeShard arrow cfg attempt rows w = (none, { w with
        disk := w.disk.update (shardPath cfg w.shardIdx) fun _ => some table
        files := w.files ++ [shardPath cfg w.shardIdx]
        shardIdx := w.shardIdx + 1 })) ∨
      ∃ e disk, writeShard arrow cfg attempt rows w = (some e, { w with disk := disk }) ∧
        (disk = w.disk ∨ disk = w.disk.update (shardPath cfg w.shardIdx) fun _ => none) ∧
        (attempt = .written → tableOf arrow w rows = none) := by
  unfold writeShard tableOf
  cases htable : w.schema.bind fun schema => rows.mapM (arrow.fromPylist schema) with
  | none => exact .inr ⟨_, w.disk, rfl, .inl rfl, fun _ => rfl⟩
  | some table =>
    cases attempt with
    | written => exact .inl ⟨table, rfl, rfl, rfl⟩
    | unreadable => exact .inr ⟨_, _, rfl, .inr rfl, fun h => nomatch h⟩
    | failed left =>
      cases left with
      | true => exact .inr ⟨_, _, rfl, .inr rfl, fun h => nomatch h⟩
      | false => exact .inr ⟨_, w.disk, rfl, .inl rfl, fun h => nomatch h⟩

/-! ## The shards and the pending rows -/

/-- **The invariant.** The shards and the pending rows are the accepted rows, each shard is in its file, and only the
next file can have something else in it. -/
structure Inv (arrow : Arrow R S) (cfg : Config) (w : Writer R S) (accepted : List R) (shards : List (List R)) : Prop where
  length : shards.length = w.shardIdx
  files : w.files = (List.range w.shardIdx).map (shardPath cfg)
  flatten : shards.flatten ++ w.pendingRows = accepted
  schema : w.schema = none → w.pendingRows = []
  disk : ∀ i shard, shards[i]? = some shard → ∃ table, tableOf arrow w shard = some table ∧
    w.disk.get? (shardPath cfg i) = some (some table)
  keys : ∀ path ∈ w.disk.keys, ∃ i ≤ w.shardIdx, path = shardPath cfg i ∧ (i = w.shardIdx → w.pendingRows ≠ [])

/-- The shards before `close`. -/
def Full (cfg : Config) (shards : List (List R)) : Prop := ∀ shard ∈ shards, shard.length = cfg.rowsPerFile

theorem inv_start : Inv arrow cfg (start : Run R S).writer (start : Run R S).accepted [] :=
  ⟨rfl, rfl, rfl, fun _ => rfl, fun _ _ h => (nomatch h), fun _ h => absurd h List.not_mem_nil⟩

theorem Inv.failed (h : Inv arrow cfg w accepted shards) (hpending : w.pendingRows ≠ [])
    {disk : Dict String (Option (List R))}
    (hdisk : disk = w.disk ∨ disk = w.disk.update (shardPath cfg w.shardIdx) fun _ => none) :
    Inv arrow cfg { w with disk := disk } accepted shards := by
  rcases hdisk with rfl | rfl
  · exact h
  · refine ⟨h.length, h.files, h.flatten, h.schema, fun i shard hi => ?_, fun path hpath => ?_⟩
    · obtain ⟨table, htable, hget⟩ := h.disk i shard hi
      refine ⟨table, htable, ?_⟩
      have hlt := (List.getElem?_eq_some_iff.1 hi).1
      have hne : shardPath cfg i ≠ shardPath cfg w.shardIdx := by
        intro heq
        have := shardPath_injective cfg heq
        have := h.length
        omega
      rw [Dict.get?_update_of_ne _ _ hne]
      exact hget
    · rcases Dict.mem_keys_update.1 hpath with rfl | hpath
      · exact ⟨w.shardIdx, le_rfl, rfl, fun _ => hpending⟩
      · exact h.keys path hpath

theorem Inv.written (h : Inv arrow cfg w accepted shards) (hrows : w.pendingRows = rows ++ rest) {table : List R}
    (htable : tableOf arrow w rows = some table) :
    Inv arrow cfg { w with
      disk := w.disk.update (shardPath cfg w.shardIdx) fun _ => some table
      files := w.files ++ [shardPath cfg w.shardIdx]
      shardIdx := w.shardIdx + 1
      pendingRows := rest } accepted (shards ++ [rows]) where
  length := by rw [List.length_append, h.length, List.length_singleton]
  files := by rw [h.files, List.range_succ, List.map_append, List.map_singleton]
  flatten := by
    rw [List.flatten_append, List.flatten_singleton, List.append_assoc, ← hrows]
    exact h.flatten
  schema := by
    intro hschema
    rw [tableOf, show w.schema = none from hschema] at htable
    cases htable
  disk := by
    intro i shard hi
    have hlength := h.length
    rcases Nat.lt_or_ge i shards.length with hlt | hge
    · rw [List.getElem?_append_left hlt] at hi
      obtain ⟨table', htable', hget⟩ := h.disk i shard hi
      have hne : shardPath cfg i ≠ shardPath cfg w.shardIdx := by
        intro heq
        have := shardPath_injective cfg heq
        omega
      exact ⟨table', htable', (Dict.get?_update_of_ne _ _ hne).trans hget⟩
    · rw [List.getElem?_append_right hge, List.getElem?_singleton] at hi
      split at hi
      · obtain rfl := Option.some.inj hi
        have hi : i = w.shardIdx := by omega
        subst hi
        exact ⟨table, htable, Dict.get?_update_self _ _ _⟩
      · cases hi
  keys := by
    intro path hpath
    rcases Dict.mem_keys_update.1 hpath with rfl | hpath
    · exact ⟨w.shardIdx, Nat.le_succ _, rfl, fun hi => absurd hi (Nat.ne_of_lt (Nat.lt_succ_self _))⟩
    · obtain ⟨i, hi, hpath, -⟩ := h.keys path hpath
      refine ⟨i, Nat.le_succ_of_le hi, hpath, fun heq => ?_⟩
      dsimp only at heq
      omega

/-- **The loop** keeps the invariant, also if it raises. -/
theorem exists_inv_writeLoop (h : Inv arrow cfg w accepted shards) (hfull : Full cfg shards) (k : ℕ) :
    ∃ shards', Inv arrow cfg (writeLoop arrow cfg attempts k w).2 accepted shards' ∧ Full cfg shards' := by
  induction hn : w.pendingRows.length using Nat.strong_induction_on generalizing w shards k with
  | _ n ih =>
    have hpos := cfg.rowsPerFile_pos
    rw [writeLoop]
    by_cases hle : cfg.rowsPerFile ≤ w.pendingRows.length
    · rw [if_pos hle]
      have hpending : w.pendingRows ≠ [] := by
        rw [← List.length_pos_iff]
        omega
      have hsplit : w.pendingRows = w.pendingRows.take cfg.rowsPerFile ++ w.pendingRows.drop cfg.rowsPerFile :=
        (List.take_append_drop _ _).symm
      rcases writeShard_cases arrow cfg (attempts k) (w.pendingRows.take cfg.rowsPerFile) w with
        ⟨table, htable, -, hshard⟩ | ⟨e, disk, hshard, hdisk, -⟩
      · rw [hshard]
        refine ih (w.pendingRows.drop cfg.rowsPerFile).length ?_ (h.written hsplit htable) ?_ (k + 1) rfl
        · rw [List.length_drop]
          omega
        · intro shard hshard
          rcases List.mem_append.1 hshard with hshard | hshard
          · exact hfull shard hshard
          · rw [List.mem_singleton.1 hshard, List.length_take]
            omega
      · rw [hshard]
        exact ⟨shards, h.failed hpending hdisk, hfull⟩
    · rw [if_neg hle]
      exact ⟨shards, h, hfull⟩

theorem exists_inv_writeRows (h : Inv arrow cfg w accepted shards) (hfull : Full cfg shards) :
    ∃ shards', Inv arrow cfg (writeRows arrow cfg attempts rows w).2
      (accepted ++ if (schemaOf arrow rows w).isSome then rows else []) shards' ∧ Full cfg shards' := by
  unfold writeRows
  by_cases hempty : rows.isEmpty
  · rw [if_pos hempty, List.isEmpty_iff.1 hempty, ite_self, List.append_nil]
    exact ⟨shards, h, hfull⟩
  · rw [if_neg hempty]
    cases hschema : schemaOf arrow rows w with
    | none =>
      rw [Option.isSome_none, if_neg Bool.false_ne_true, List.append_nil]
      exact ⟨shards, h, hfull⟩
    | some schema =>
      rw [Option.isSome_some, if_pos rfl]
      have hinv : Inv arrow cfg { w with schema := some schema, pendingRows := w.pendingRows ++ rows }
          (accepted ++ rows) shards := by
        refine ⟨h.length, h.files, ?_, fun hnone => (nomatch hnone), fun i shard hi => ?_, fun path hpath => ?_⟩
        · rw [← h.flatten, List.append_assoc]
        · -- the rows of a shard have the schema already
          obtain ⟨table, htable, hget⟩ := h.disk i shard hi
          refine ⟨table, ?_, hget⟩
          obtain ⟨schema', hschema', hrows⟩ := Option.bind_eq_some_iff.1 htable
          rw [schemaOf, hschema', Option.some_or, Option.some.injEq] at hschema
          rw [← hschema]
          exact hrows
        · obtain ⟨i, hi, hpath, hpending⟩ := h.keys path hpath
          exact ⟨i, hi, hpath, fun _ => List.append_ne_nil_of_right_ne_nil _ fun hnil => hempty (List.isEmpty_iff.2 hnil)⟩
      exact exists_inv_writeLoop hinv hfull 0

/-- The shards after `close`: all but the last one have `rows_per_file` rows, and none is empty. -/
structure Closed (cfg : Config) (shards : List (List R)) : Prop where
  full : Full cfg shards.dropLast
  nonempty : ∀ shard ∈ shards, shard ≠ []

theorem Full.nonempty (h : Full cfg shards) : ∀ shard ∈ shards, shard ≠ [] := by
  intro shard hshard
  rw [← List.length_pos_iff, h shard hshard]
  exact cfg.rowsPerFile_pos

theorem exists_inv_close (h : Inv arrow cfg w accepted shards) (hfull : Full cfg shards) :
    ((close arrow cfg attempts w).1 = none ∧ (close arrow cfg attempts w).2.pendingRows = [] ∧
        ∃ shards', Inv arrow cfg (close arrow cfg attempts w).2 accepted shards' ∧ Closed cfg shards') ∨
      (close arrow cfg attempts w).1.isSome ∧ Inv arrow cfg (close arrow cfg attempts w).2 accepted shards := by
  unfold close
  by_cases hempty : w.pendingRows.isEmpty
  · rw [if_pos hempty]
    refine .inl ⟨rfl, List.isEmpty_iff.1 hempty, shards, h, ?_, hfull.nonempty⟩
    exact fun shard hshard => hfull shard (List.mem_of_mem_dropLast hshard)
  · rw [if_neg hempty]
    have hpending : w.pendingRows ≠ [] := fun hnil => hempty (List.isEmpty_iff.2 hnil)
    rcases writeShard_cases arrow cfg (attempts 0) w.pendingRows w with
      ⟨table, htable, -, hshard⟩ | ⟨e, disk, hshard, hdisk, -⟩
    · rw [hshard]
      refine .inl ⟨rfl, rfl, shards ++ [w.pendingRows], h.written (List.append_nil _).symm htable, ?_, ?_⟩
      · rw [List.dropLast_concat]
        exact hfull
      · intro shard hshard
        rcases List.mem_append.1 hshard with hshard | hshard
        · exact hfull.nonempty shard hshard
        · rw [List.mem_singleton.1 hshard]
          exact hpending
    · rw [hshard]
      exact .inr ⟨rfl, h.failed hpending hdisk⟩

def RunInv (arrow : Arrow R S) (cfg : Config) (s : Run R S) : Prop :=
  ∃ shards, Inv arrow cfg s.writer s.accepted shards ∧ (s.closed = false → Full cfg shards) ∧
    (s.closed = true → s.writer.pendingRows = [] ∧ Closed cfg shards)

/-- **In every state that calls lead to**, the shards and the pending rows are the accepted rows. -/
theorem inv_of_reach {s : Run R S} (h : (calls arrow cfg).Reach s) : RunInv arrow cfg s := by
  refine h.induct ?_ ?_
  · rintro s rfl
    exact ⟨[], inv_start, fun _ shard h => absurd h List.not_mem_nil, fun h => (nomatch h)⟩
  · rintro s label s' - ⟨shards, hinv, hopen, -⟩ hstep
    cases hclosed : s.closed with
    | true =>
      cases label with
      | writeRows rows attempts => exact nomatch (if_pos hclosed).symm.trans hstep
      | close attempts => exact nomatch (if_pos hclosed).symm.trans hstep
    | false =>
      have hnot : ¬ s.closed = true := by rw [hclosed]; exact Bool.false_ne_true
      have hfull := hopen hclosed
      cases label with
      | writeRows rows attempts =>
        obtain rfl := Option.some.inj ((if_neg hnot).symm.trans hstep)
        obtain ⟨shards', hinv', hfull'⟩ := exists_inv_writeRows hinv hfull
        exact ⟨shards', hinv', fun _ => hfull', fun h => absurd h hnot⟩
      | close attempts =>
        obtain rfl := Option.some.inj ((if_neg hnot).symm.trans hstep)
        rcases exists_inv_close hinv hfull with ⟨hreturns, hpending, shards', hinv', hclosed'⟩ | ⟨hraises, hinv'⟩
        · refine ⟨shards', hinv', fun h => ?_, fun _ => ⟨hpending, hclosed'⟩⟩
          dsimp only at h
          rw [hreturns] at h
          cases h
        · refine ⟨shards, hinv', fun _ => hfull, fun h => ?_⟩
          dsimp only at h
          rw [Option.isNone_iff_eq_none.1 h] at hraises
          cases hraises

/-! ## After `close` -/

/-- The shard tables are the accepted rows, and the directory has their files only. -/
structure Complete (arrow : Arrow R S) (cfg : Config) (w : Writer R S) (accepted : List R) : Prop where
  shards : ∃ shards tables, readShards cfg w = some tables ∧ shards.flatten = accepted ∧ Closed cfg shards ∧
    List.Forall₂ (fun shard table => tableOf arrow w shard = some table) shards tables
  files : w.files = (List.range w.shardIdx).map (shardPath cfg)
  keys : ∀ path, path ∈ w.disk.keys ↔ path ∈ w.files

theorem Inv.complete (h : Inv arrow cfg w accepted shards) (hpending : w.pendingRows = []) (hclosed : Closed cfg shards) :
    Complete arrow cfg w accepted where
  shards := by
    have htables : ∀ i ∈ List.range w.shardIdx, ∃ table, (w.disk.get? (shardPath cfg i)).join = some table := by
      intro i hi
      have hi : i < shards.length := by
        rw [h.length]
        exact List.mem_range.1 hi
      obtain ⟨table, -, hget⟩ := h.disk i _ (List.getElem?_eq_getElem hi)
      rw [hget]
      exact ⟨table, rfl⟩
    obtain ⟨tables, hread⟩ := exists_mapM htables
    have hall := mapM_eq_some_iff.1 hread
    refine ⟨shards, tables, hread, ?_, hclosed, ?_⟩
    · have hflatten := h.flatten
      rw [hpending, List.append_nil] at hflatten
      exact hflatten
    · rw [List.forall₂_iff_get]
      have hlength : shards.length = tables.length := by
        rw [h.length, ← hall.length_eq, List.length_range]
      refine ⟨hlength, fun i hi hi' => ?_⟩
      obtain ⟨table, htable, hget⟩ := h.disk i _ (List.getElem?_eq_getElem hi)
      have hrange : (List.range w.shardIdx)[i]? = some i := List.getElem?_range (h.length ▸ hi)
      obtain ⟨table', hi'', hread'⟩ := getElem?_of_forall₂ hall hrange
      rw [hget, Option.join_some, Option.some.injEq] at hread'
      rw [List.getElem?_eq_getElem hi', Option.some.injEq] at hi''
      rw [List.get_eq_getElem, List.get_eq_getElem, htable, hread', hi'']
  files := h.files
  keys := by
    intro path
    rw [h.files]
    constructor
    · intro hpath
      obtain ⟨i, hle, rfl, hlast⟩ := h.keys path hpath
      rcases Nat.lt_or_eq_of_le hle with hlt | heq
      · exact List.mem_map.2 ⟨i, List.mem_range.2 hlt, rfl⟩
      · exact absurd hpending (hlast heq)
    · intro hpath
      obtain ⟨i, hi, rfl⟩ := List.mem_map.1 hpath
      have hi : i < shards.length := by
        rw [h.length]
        exact List.mem_range.1 hi
      obtain ⟨table, -, hget⟩ := h.disk i _ (List.getElem?_eq_getElem hi)
      rw [Dict.mem_keys_iff, hget]
      rfl

/-- Rows that can be stored, whatever the schema is. -/
structure Storable (arrow : Arrow R S) : Prop where
  inferSchema : ∀ rows, (arrow.inferSchema rows).isSome
  fromPylist : ∀ schema row, (arrow.fromPylist schema row).isSome

theorem exists_tableOf (harrow : Storable arrow) {schema : S} (hschema : w.schema = some schema) (rows : List R) :
    ∃ table, tableOf arrow w rows = some table := by
  rw [tableOf, hschema, Option.bind_some]
  exact exists_mapM fun row _ => Option.isSome_iff_exists.1 (harrow.fromPylist schema row)

theorem writeLoop_returns (harrow : Storable arrow) (hattempts : ∀ k, attempts k = .written) {schema : S}
    (hschema : w.schema = some schema) (k : ℕ) : (writeLoop arrow cfg attempts k w).1 = none := by
  induction hn : w.pendingRows.length using Nat.strong_induction_on generalizing w k with
  | _ n ih =>
    have hpos := cfg.rowsPerFile_pos
    rw [writeLoop]
    by_cases hle : cfg.rowsPerFile ≤ w.pendingRows.length
    · rw [if_pos hle]
      obtain ⟨table, htable⟩ := exists_tableOf harrow hschema (w.pendingRows.take cfg.rowsPerFile)
      rcases writeShard_cases arrow cfg (attempts k) (w.pendingRows.take cfg.rowsPerFile) w with
        ⟨_, -, -, hshard⟩ | ⟨_, _, -, -, hnone⟩
      · rw [hshard]
        refine ih (w.pendingRows.drop cfg.rowsPerFile).length ?_ ?_ (k + 1) rfl
        · rw [List.length_drop]
          omega
        · exact hschema
      · rw [htable] at hnone
        cases hnone (hattempts k)
    · rw [if_neg hle]

/-- **If nothing fails, no call raises.** -/
theorem call_returns (harrow : Storable arrow) (hattempts : ∀ k, attempts k = .written) {s : Run R S}
    (hs : RunInv arrow cfg s) :
    (∀ rows, (writeRows arrow cfg attempts rows s.writer).1 = none) ∧ (close arrow cfg attempts s.writer).1 = none := by
  constructor
  · intro rows
    unfold writeRows
    by_cases hempty : rows.isEmpty
    · rw [if_pos hempty]
    · rw [if_neg hempty]
      have hsome : (schemaOf arrow rows s.writer).isSome := by
        rw [schemaOf, Option.isSome_or, harrow.inferSchema rows, Bool.or_true]
      obtain ⟨schema, hschema⟩ := Option.isSome_iff_exists.1 hsome
      rw [hschema]
      exact writeLoop_returns harrow hattempts rfl 0
  · obtain ⟨shards, hinv, -⟩ := hs
    unfold close
    by_cases hempty : s.writer.pendingRows.isEmpty
    · rw [if_pos hempty]
    · rw [if_neg hempty]
      obtain ⟨schema, hschema⟩ := Option.ne_none_iff_exists'.1 fun hnone =>
        hempty (List.isEmpty_iff.2 (hinv.schema hnone))
      obtain ⟨table, htable⟩ := exists_tableOf harrow hschema s.writer.pendingRows
      rcases writeShard_cases arrow cfg (attempts 0) s.writer.pendingRows s.writer with
        ⟨_, -, -, hshard⟩ | ⟨_, _, -, -, hnone⟩
      · rw [hshard]
        rfl
      · rw [htable] at hnone
        cases hnone (hattempts 0)

/-- **The writer**, after every sequence of calls, any of which may raise: the rows of the shards and the pending rows
are the accepted rows, and once `close` has returned the shards are all of them. Nothing raises if nothing fails. -/
theorem writer_spec (arrow : Arrow R S) (cfg : Config) {s : Run R S} (h : (calls arrow cfg).Reach s) :
    (∃ shards : List (List R), shards.length = s.writer.shardIdx ∧ shards.flatten ++ s.writer.pendingRows = s.accepted ∧
        ∀ i shard, shards[i]? = some shard → ∃ table, tableOf arrow s.writer shard = some table ∧
          s.writer.disk.get? (shardPath cfg i) = some (some table)) ∧
      (s.closed = true → Complete arrow cfg s.writer s.accepted) ∧
      (Storable arrow → ∀ attempts : ℕ → Attempt, (∀ k, attempts k = .written) →
        (∀ rows, (writeRows arrow cfg attempts rows s.writer).1 = none) ∧
          (close arrow cfg attempts s.writer).1 = none) := by
  obtain ⟨shards, hinv, -, hclosed⟩ := inv_of_reach h
  refine ⟨⟨shards, hinv.length, hinv.flatten, hinv.disk⟩, fun hc => ?_, fun harrow attempts hattempts => ?_⟩
  · obtain ⟨hpending, hshards⟩ := hclosed hc
    exact hinv.complete hpending hshards
  · exact call_returns harrow hattempts (inv_of_reach h)

/-! ## Calls that raise -/

def plain : Arrow ℕ Unit := ⟨fun _ => some (), fun _ row => some row⟩

def twoRows : Config := ⟨"train", 2, Nat.succ_pos 1⟩

def broken : ℕ → Attempt := fun _ => .failed true

def written : ℕ → Attempt := fun _ => .written

/-- A writer without schema that takes rows, and raises at the first shard. -/
def stopped (rows : List ℕ) : Writer ℕ Unit :=
  ⟨some (), 0, [], rows, Dict.empty.update (shardPath twoRows 0) fun _ => none⟩

theorem writeRows_broken {rows : List ℕ} (h : 2 ≤ rows.length) :
    writeRows plain twoRows broken rows (start : Run ℕ Unit).writer = (some .writeError, stopped rows) := by
  have hne : rows.isEmpty = false := by
    rw [List.isEmpty_eq_false_iff, ← List.length_pos_iff]
    omega
  have hrows : ∃ table, (rows.take 2).mapM (plain.fromPylist ()) = some table := exists_mapM fun row _ => ⟨row, rfl⟩
  obtain ⟨table, htable⟩ := hrows
  have hshard : writeShard plain twoRows (broken 0) (rows.take 2) ⟨some (), 0, [], rows, .empty⟩ =
      (some .writeError, stopped rows) := by
    unfold writeShard
    rw [Option.bind_some, htable]
    rfl
  unfold writeRows
  rw [hne, if_neg Bool.false_ne_true]
  show writeLoop plain twoRows broken 0 ⟨some (), 0, [], rows, .empty⟩ = _
  rw [writeLoop]
  dsimp only
  rw [if_pos (show twoRows.rowsPerFile ≤ rows.length from h), show rows.take twoRows.rowsPerFile = rows.take 2 from rfl,
    hshard]
  rfl

theorem call_broken {rows : List ℕ} (h : 2 ≤ rows.length) :
    call plain twoRows start (.writeRows rows broken) = some ⟨stopped rows, rows, false⟩ := by
  show some (Run.mk (writeRows plain twoRows broken rows (start : Run ℕ Unit).writer).2 rows false) = _
  rw [writeRows_broken h]

/-- Three rows; the first attempt fails, and `close` writes what there is. -/
theorem writer_failed :
    ∃ s, (calls plain twoRows).Reach s ∧ s.closed = true ∧ s.accepted = [1, 2, 3] ∧
      Complete plain twoRows s.writer s.accepted := by
  have hrun : ∃ s, System.runFn (call plain twoRows) start [.writeRows [1, 2, 3] broken, .close written] = some s ∧
      s.closed = true ∧ s.accepted = [1, 2, 3] := by
    rw [System.runFn, call_broken (by decide)]
    exact ⟨_, rfl, rfl, rfl⟩
  obtain ⟨s, hs, hclosed, haccepted⟩ := hrun
  have hreach : (calls plain twoRows).Reach s := System.reach_of_run (.init rfl) hs
  exact ⟨s, hreach, hclosed, haccepted, (writer_spec plain twoRows hreach).2.1 hclosed⟩

/-- **The rows of a call that raised are kept**, so that the same call again writes them twice. -/
theorem retried_rows_twice :
    (writeRows plain twoRows broken [1, 2] (start : Run ℕ Unit).writer).1 = some .writeError ∧
      ∃ s, System.runFn (call plain twoRows) start
          [.writeRows [1, 2] broken, .writeRows [1, 2] written, .close written] = some s ∧
        s.closed = true ∧ Complete plain twoRows s.writer [1, 2, 1, 2] := by
  refine ⟨by rw [writeRows_broken (by decide)], ?_⟩
  have hrun : ∃ s, System.runFn (call plain twoRows) start [.writeRows [1, 2] broken, .writeRows [1, 2] written] = some s ∧
      s.closed = false ∧ s.accepted = [1, 2, 1, 2] ∧
      System.runFn (call plain twoRows) start
          [.writeRows [1, 2] broken, .writeRows [1, 2] written, .close written] =
        some ⟨(close plain twoRows written s.writer).2, s.accepted, (close plain twoRows written s.writer).1.isNone⟩ := by
    rw [System.runFn, System.runFn, call_broken (by decide)]
    exact ⟨_, rfl, rfl, rfl, rfl⟩
  obtain ⟨s, hs, -, haccepted, hlast⟩ := hrun
  have hinv : RunInv plain twoRows s := inv_of_reach (System.reach_of_run (.init rfl) hs)
  have hstorable : Storable plain := ⟨fun _ => rfl, fun _ _ => rfl⟩
  obtain ⟨-, hcloses⟩ := call_returns hstorable (show ∀ k, written k = .written from fun _ => rfl) hinv
  have hclosed : (close plain twoRows written s.writer).1.isNone = true := Option.isNone_iff_eq_none.2 hcloses
  obtain ⟨shards, hshards, -, hdone⟩ : RunInv plain twoRows _ := inv_of_reach (System.reach_of_run (.init rfl) hlast)
  obtain ⟨hpending, hfull⟩ := hdone hclosed
  refine ⟨_, hlast, hclosed, ?_⟩
  rw [← haccepted]
  exact hshards.complete hpending hfull

end Opd.Clight.ParquetWriter
