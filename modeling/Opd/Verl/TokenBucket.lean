import Mathlib.Algebra.Order.Field.Rat
import Mathlib.Tactic.Linarith
import Opd.Lib.System
import Opd.Lib.Tally

/-!
# The token bucket of the rate limited rewards

`AsyncTokenBucket.acquire` has two protocols over one balance. A request that fits into the bucket looks again after
every sleep; a larger one takes its tokens at once, leaves the balance negative and sleeps until they have come in. The
lock is never held across a suspension, so a critical section is one step of its coroutine.

* `Call.due?`: the first time at which the tokens of a call can be in use.
* `Backed`: at every later time, what is due by then has been paid for by the rate.
* `rateLaw_of_reach`: the rate law, over all interleavings.
-/

namespace Opd.Verl.TokenBucket

open Lib

/-! ## The bucket -/

/-- The arguments of `AsyncTokenBucket`. -/
structure Config where
  rateLimit : ℚ
  maxTokens : Option ℚ
  rateLimit_nonneg : 0 ≤ rateLimit
  maxTokens_nonneg : ∀ m ∈ maxTokens, 0 ≤ m

/-- `self.max_tokens = max_tokens or rate_limit` -/
def Config.capacity (c : Config) : ℚ :=
  match c.maxTokens with
  | none => c.rateLimit
  | some m => if m = 0 then c.rateLimit else m

structure Bucket where
  tokens : ℚ
  lastUpdate : Option ℚ

/-- `AsyncTokenBucket.__init__` -/
def new (c : Config) : Bucket := ⟨c.capacity, none⟩

namespace Bucket

variable (c : Config) (b : Bucket) (now : ℚ)

/-- `self.last_update`, after it has been set at the first call. -/
def since : ℚ := b.lastUpdate.getD now

/-- `new_tokens = elapsed * self.rate_limit` -/
def newTokens : ℚ := (now - b.since now) * c.rateLimit

/-- `min(self.max_tokens, self.tokens + new_tokens)` -/
def refilled : ℚ := min c.capacity (b.tokens + b.newTokens c now)

/-- How a critical section ends: the call returns, or sleeps if the time is positive, or the division raises. -/
inductive Outcome
  | granted
  | wait (waitTime : ℚ)
  | raised

/-- The critical section for a request that is larger than the bucket. -/
def acquireLarge (numTokens : ℚ) : Bucket × Outcome :=
  let tokensNeeded := numTokens - b.refilled c now
  if 0 < tokensNeeded ∧ c.rateLimit = 0 then (⟨b.refilled c now, some (b.since now)⟩, .raised)
  else
    (⟨b.refilled c now - numTokens, some now⟩, .wait (if 0 < tokensNeeded then tokensNeeded / c.rateLimit else 0))

/-- The critical section for a request that fits into the bucket. -/
def acquireSmall (numTokens : ℚ) : Bucket × Outcome :=
  if numTokens ≤ b.refilled c now then (⟨b.refilled c now - numTokens, some now⟩, .granted)
  else if c.rateLimit = 0 then (⟨b.refilled c now, some now⟩, .raised)
  else (⟨b.refilled c now, some now⟩, .wait ((numTokens - b.refilled c now) / c.rateLimit))

/-- The critical section of `acquire`. -/
def acquire (numTokens : ℚ) : Bucket × Outcome :=
  if c.capacity < numTokens then b.acquireLarge c now numTokens else b.acquireSmall c now numTokens

end Bucket

/-! ## Its callers -/

/-- Where a call of `acquire` is: in front of the critical section, behind it with a time to wait, asleep, or at its
end. -/
inductive Phase
  | entering
  | leaving (waitTime : ℚ)
  | sleeping (wakeTime : ℚ)
  | returned
  | raised

/-- A call of `acquire`. -/
structure Call where
  numTokens : ℚ
  phase : Phase

def Bucket.Outcome.phase : Bucket.Outcome → Phase
  | .granted => .returned
  | .wait waitTime => .leaving waitTime
  | .raised => .raised

/-- Behind the sleep a large request returns, and a small one looks again. -/
def Call.resume (c : Config) (call : Call) : Call :=
  ⟨call.numTokens, if c.capacity < call.numTokens then .returned else .entering⟩

/-- An update of the balance: the time it is for, and the tokens for it. -/
structure Credit where
  since : ℚ
  upTo : ℚ
  tokens : ℚ

/-- The event loop with its clock, the bucket and all calls, and what has happened: the time of the first update, and
all credits. -/
structure State where
  clock : ℚ
  bucket : Bucket
  calls : List Call
  firstUpdate : Option ℚ
  credits : List Credit

/-- What can happen. A cancelled call raises at its suspension. -/
inductive Event
  | tick (elapsed : ℚ)
  | call (numTokens : ℚ)
  | enter (i : ℕ)
  | sleep (i : ℕ)
  | wake (i : ℕ)
  | cancel (i : ℕ)

def State.move (s : State) (i : ℕ) (call : Call) : State := { s with calls := s.calls.set i call }

def State.enter (c : Config) (s : State) (i : ℕ) (numTokens : ℚ) : State where
  clock := s.clock
  bucket := (s.bucket.acquire c s.clock numTokens).1
  calls := s.calls.set i ⟨numTokens, (s.bucket.acquire c s.clock numTokens).2.phase⟩
  firstUpdate := some (s.firstUpdate.getD s.clock)
  credits := s.credits ++ [⟨s.bucket.since s.clock, s.clock, s.bucket.newTokens c s.clock⟩]

def step (c : Config) (s : State) : Event → Option State
  | .tick elapsed => if 0 ≤ elapsed then some { s with clock := s.clock + elapsed } else none
  | .call numTokens => if 0 < numTokens then some { s with calls := s.calls ++ [⟨numTokens, .entering⟩] } else none
  | .enter i =>
    match s.calls[i]? with
    | some ⟨numTokens, .entering⟩ => some (s.enter c i numTokens)
    | _ => none
  | .sleep i =>
    match s.calls[i]? with
    | some ⟨numTokens, .leaving waitTime⟩ =>
      some (s.move i (if 0 < waitTime then ⟨numTokens, .sleeping (s.clock + waitTime)⟩
        else Call.resume c ⟨numTokens, .leaving waitTime⟩))
    | _ => none
  | .wake i =>
    match s.calls[i]? with
    | some ⟨numTokens, .sleeping wakeTime⟩ =>
      if wakeTime ≤ s.clock then some (s.move i (Call.resume c ⟨numTokens, .sleeping wakeTime⟩)) else none
    | _ => none
  | .cancel i =>
    match s.calls[i]? with
    | none | some ⟨_, .returned⟩ | some ⟨_, .raised⟩ => none
    | some ⟨numTokens, _⟩ => some (s.move i ⟨numTokens, .raised⟩)

def start (c : Config) (clock : ℚ) : State := ⟨clock, new c, [], none, []⟩

def system (c : Config) : System State Event := System.ofFn (fun s => ∃ clock, s = start c clock) (step c)

/-! ## The balance -/

/-- The tokens of the call have been taken from the balance, and are or will be in use. -/
def Call.holds (c : Config) (call : Call) : Bool :=
  match call.phase with
  | .entering | .raised => false
  | .leaving _ | .sleeping _ => c.capacity < call.numTokens
  | .returned => true

/-- The first time at which the tokens of a call can be in use. -/
def Call.due (clock : ℚ) (call : Call) : ℚ :=
  match call.phase with
  | .leaving waitTime => clock + waitTime
  | .sleeping wakeTime => wakeTime
  | _ => clock

def Call.taken (c : Config) (call : Call) : ℚ := if call.holds c then call.numTokens else 0

/-- What a call has taken from the balance and can use by a time. -/
def Call.takenBy (c : Config) (clock t : ℚ) (call : Call) : ℚ :=
  if call.holds c ∧ call.due clock ≤ t then call.numTokens else 0

def Call.spent (call : Call) : ℚ :=
  match call.phase with
  | .returned => call.numTokens
  | _ => 0

def State.returnedTokens (s : State) : ℚ := tally Call.spent s.calls

def State.first (s : State) : ℚ := s.firstUpdate.getD s.clock

def State.last (s : State) : ℚ := s.bucket.since s.clock

variable {c : Config} {s s' : State} {call : Call} {numTokens : ℚ}

theorem capacity_nonneg (c : Config) : 0 ≤ c.capacity := by
  unfold Config.capacity
  split
  · exact c.rateLimit_nonneg
  · rename_i m hm
    split
    · exact c.rateLimit_nonneg
    · exact c.maxTokens_nonneg m hm

theorem taken_of_holds (h : call.holds c = true) : call.taken c = call.numTokens := if_pos h

theorem taken_of_not_holds (h : call.holds c = false) : call.taken c = 0 :=
  if_neg fun hholds => Bool.false_ne_true (h.symm.trans hholds)

theorem refilled_le_capacity (c : Config) (b : Bucket) (now : ℚ) : b.refilled c now ≤ c.capacity := min_le_left _ _

theorem refilled_le (c : Config) (b : Bucket) (now : ℚ) : b.refilled c now ≤ b.tokens + b.newTokens c now :=
  min_le_right _ _

/-- **What a critical section does**: the tokens that the call holds are taken from the balance, which will be paid back
by the time at which they can be in use. -/
structure Spec (c : Config) (b : Bucket) (now numTokens : ℚ) (after : Bucket) (call : Call) : Prop where
  size : call.numTokens = numTokens
  paid : call.taken c + after.tokens = b.refilled c now
  due : call.holds c = true → 0 ≤ after.tokens + c.rateLimit * (call.due now - now)
  since : after.since now = now ∨ (c.rateLimit = 0 ∧ after.since now = b.since now)
  updated : after.lastUpdate ≠ none

theorem acquireLarge_spec (b : Bucket) (now : ℚ) (hn : c.capacity < numTokens) :
    Spec c b now numTokens (b.acquireLarge c now numTokens).1 ⟨numTokens, (b.acquireLarge c now numTokens).2.phase⟩ := by
  have hneed : 0 < numTokens - b.refilled c now := sub_pos.2 ((refilled_le_capacity c b now).trans_lt hn)
  unfold Bucket.acquireLarge
  by_cases hrate : c.rateLimit = 0
  · rw [if_pos ⟨hneed, hrate⟩]
    exact ⟨rfl, zero_add _, fun h => absurd h Bool.false_ne_true, .inr ⟨hrate, rfl⟩, Option.some_ne_none _⟩
  · rw [if_neg fun h => hrate h.2, if_pos hneed]
    have hholds : (⟨numTokens, .leaving ((numTokens - b.refilled c now) / c.rateLimit)⟩ : Call).holds c = true :=
      decide_eq_true hn
    refine ⟨rfl, ?_, fun _ => ?_, .inl rfl, Option.some_ne_none _⟩
    · dsimp only [Bucket.Outcome.phase]
      rw [taken_of_holds hholds]
      exact add_sub_cancel _ _
    · dsimp only [Call.due, Bucket.Outcome.phase]
      rw [add_sub_cancel_left, mul_div_cancel₀ _ hrate]
      linarith

theorem acquireSmall_spec (b : Bucket) (now : ℚ) (hn : ¬ c.capacity < numTokens) :
    Spec c b now numTokens (b.acquireSmall c now numTokens).1 ⟨numTokens, (b.acquireSmall c now numTokens).2.phase⟩ := by
  unfold Bucket.acquireSmall
  by_cases hle : numTokens ≤ b.refilled c now
  · rw [if_pos hle]
    refine ⟨rfl, add_sub_cancel _ _, fun _ => ?_, .inl rfl, Option.some_ne_none _⟩
    dsimp only [Call.due, Bucket.Outcome.phase]
    rw [sub_self, mul_zero, add_zero]
    exact sub_nonneg.2 hle
  · rw [if_neg hle]
    by_cases hrate : c.rateLimit = 0
    · rw [if_pos hrate]
      exact ⟨rfl, zero_add _, fun h => absurd h Bool.false_ne_true, .inl rfl, Option.some_ne_none _⟩
    · rw [if_neg hrate]
      have hholds : (⟨numTokens, .leaving ((numTokens - b.refilled c now) / c.rateLimit)⟩ : Call).holds c = false :=
        decide_eq_false hn
      refine ⟨rfl, ?_, fun h => ?_, .inl rfl, Option.some_ne_none _⟩
      · dsimp only [Bucket.Outcome.phase]
        rw [taken_of_not_holds hholds]
        exact zero_add _
      · dsimp only [Bucket.Outcome.phase] at h
        rw [hholds] at h
        cases h

theorem acquire_spec (c : Config) (b : Bucket) (now numTokens : ℚ) :
    Spec c b now numTokens (b.acquire c now numTokens).1 ⟨numTokens, (b.acquire c now numTokens).2.phase⟩ := by
  unfold Bucket.acquire
  split
  · rename_i hn
    exact acquireLarge_spec b now hn
  · rename_i hn
    exact acquireSmall_spec b now hn

/-! ## The invariant -/

def Backed (c : Config) (s : State) : Prop :=
  ∀ t, s.clock ≤ t → tally (Call.takenBy c s.clock t) s.calls ≤ c.capacity + c.rateLimit * (t - s.first)

structure Inv (c : Config) (s : State) : Prop where
  sizes : ∀ call ∈ s.calls, 0 < call.numTokens
  first_le : s.first ≤ s.last
  last_le : s.last ≤ s.clock
  fresh : s.firstUpdate = none →
    s.bucket.lastUpdate = none ∧ s.credits = [] ∧ ∀ call ∈ s.calls, call.holds c = false
  updated : s.firstUpdate ≠ none → s.bucket.lastUpdate ≠ none
  tokens_le : s.bucket.tokens ≤ c.capacity
  paid : tally (Call.taken c) s.calls + s.bucket.tokens ≤ c.capacity + tally Credit.tokens s.credits
  credited : tally Credit.tokens s.credits ≤ c.rateLimit * (s.last - s.first)
  backed : Backed c s
  credit : ∀ credit ∈ s.credits, credit.tokens = (credit.upTo - credit.since) * c.rateLimit ∧
    s.first ≤ credit.since ∧ credit.since ≤ credit.upTo ∧ credit.upTo ≤ s.clock
  past : ∀ credit ∈ s.credits, credit.tokens ≠ 0 → credit.upTo ≤ s.last
  once : s.credits.Pairwise fun a b => a.tokens ≠ 0 → b.tokens ≠ 0 → a.upTo ≤ b.since

theorem takenBy_le_taken (hsize : 0 < call.numTokens) (clock t : ℚ) : call.takenBy c clock t ≤ call.taken c := by
  unfold Call.takenBy Call.taken
  by_cases hholds : call.holds c = true
  · rw [if_pos hholds]
    split
    · exact le_rfl
    · exact hsize.le
  · rw [if_neg hholds, if_neg fun h => hholds h.1]

theorem takenBy_le_of_imp {call' : Call} {clock clock' t : ℚ} (hsize : 0 < call.numTokens)
    (heq : call'.numTokens = call.numTokens)
    (h : call'.holds c = true → call'.due clock' ≤ t → call.holds c = true ∧ call.due clock ≤ t) :
    call'.takenBy c clock' t ≤ call.takenBy c clock t := by
  unfold Call.takenBy
  split
  · rename_i hholds
    rw [if_pos (h hholds.1 hholds.2), heq]
  · split
    · exact hsize.le
    · exact le_rfl

theorem due_mono {clock clock' : ℚ} (h : clock ≤ clock') (call : Call) : call.due clock ≤ call.due clock' := by
  unfold Call.due
  split
  · exact add_le_add_left h _
  · exact le_rfl
  · exact h

theorem inv_start (c : Config) (clock : ℚ) : Inv c (start c clock) where
  sizes := nofun
  first_le := le_rfl
  last_le := le_rfl
  fresh := fun _ => ⟨rfl, rfl, nofun⟩
  updated := fun h => absurd rfl h
  tokens_le := le_rfl
  paid := by
    have h : (0 : ℚ) + c.capacity ≤ c.capacity + 0 := by linarith
    exact h
  credited := by
    have h : (0 : ℚ) ≤ c.rateLimit * (clock - clock) := by rw [sub_self, mul_zero]
    exact h
  backed := by
    intro t ht
    have hrate := mul_nonneg c.rateLimit_nonneg (sub_nonneg.2 ht)
    exact add_nonneg (capacity_nonneg c) hrate
  credit := nofun
  past := nofun
  once := .nil

theorem times_tick (h : Inv c s) (elapsed : ℚ) :
    let s' := { s with clock := s.clock + elapsed }
    (s'.first = s.first ∧ s'.last = s.last) ∨ (s.firstUpdate = none ∧ s'.first = s'.clock ∧ s'.last = s'.clock) := by
  dsimp only
  unfold State.first State.last Bucket.since
  cases hfirst : s.firstUpdate with
  | none => exact .inr ⟨rfl, rfl, by rw [(h.fresh hfirst).1]; rfl⟩
  | some first =>
    have hne : s.firstUpdate ≠ none := hfirst.symm ▸ Option.some_ne_none _
    obtain ⟨last, hlast⟩ := Option.ne_none_iff_exists'.1 (h.updated hne)
    rw [hlast]
    exact .inl ⟨rfl, rfl⟩

theorem inv_tick (h : Inv c s) {elapsed : ℚ} (he : 0 ≤ elapsed) : Inv c { s with clock := s.clock + elapsed } := by
  have hclock : s.clock ≤ s.clock + elapsed := le_add_of_nonneg_right he
  have htimes := times_tick h elapsed
  set s' : State := { s with clock := s.clock + elapsed }
  have hfresh : s.firstUpdate = none → s.credits = [] := fun hnone => (h.fresh hnone).2.1
  have hbacked : Backed c s' := by
    intro t ht
    have hle : tally (Call.takenBy c s'.clock t) s.calls ≤ tally (Call.takenBy c s.clock t) s.calls :=
      tally_le_tally fun call hcall => takenBy_le_of_imp (h.sizes call hcall) rfl
        fun hholds hdue => ⟨hholds, (due_mono hclock call).trans hdue⟩
    rcases htimes with ⟨hfirst, _⟩ | ⟨hnone, hfirst, _⟩
    · rw [hfirst]
      exact hle.trans (h.backed t (hclock.trans ht))
    · have hzero : tally (Call.takenBy c s'.clock t) s.calls = 0 := by
        apply tally_eq_zero
        intro call hcall
        apply if_neg
        rintro ⟨hholds, _⟩
        exact Bool.false_ne_true (((h.fresh hnone).2.2 call hcall).symm.trans hholds)
      have hrate := mul_nonneg c.rateLimit_nonneg (sub_nonneg.2 ht)
      rw [hfirst]
      exact hzero.le.trans (add_nonneg (capacity_nonneg c) hrate)
  refine ⟨h.sizes, ?_, ?_, h.fresh, h.updated, h.tokens_le, h.paid, ?_, hbacked, ?_, ?_, h.once⟩
  · rcases htimes with ⟨hfirst, hlast⟩ | ⟨_, hfirst, hlast⟩
    · rw [hfirst, hlast]
      exact h.first_le
    · rw [hfirst, hlast]
  · rcases htimes with ⟨_, hlast⟩ | ⟨_, _, hlast⟩
    · rw [hlast]
      exact h.last_le.trans hclock
    · rw [hlast]
  · rcases htimes with ⟨hfirst, hlast⟩ | ⟨hnone, hfirst, hlast⟩
    · rw [hfirst, hlast]
      exact h.credited
    · have hcredits : tally Credit.tokens s.credits = 0 := by
        rw [hfresh hnone]
        rfl
      rw [hfirst, hlast, sub_self, mul_zero]
      exact hcredits.le
  · intro credit hcredit
    obtain ⟨htokens, hsince, hle, hupTo⟩ := h.credit credit hcredit
    rcases htimes with ⟨hfirst, _⟩ | ⟨hnone, _⟩
    · rw [hfirst]
      exact ⟨htokens, hsince, hle, hupTo.trans hclock⟩
    · rw [hfresh hnone] at hcredit
      exact absurd hcredit List.not_mem_nil
  · intro credit hcredit htokens
    rcases htimes with ⟨_, hlast⟩ | ⟨hnone, _⟩
    · rw [hlast]
      exact h.past credit hcredit htokens
    · rw [hfresh hnone] at hcredit
      exact absurd hcredit List.not_mem_nil

theorem inv_call (h : Inv c s) (hn : 0 < numTokens) :
    Inv c { s with calls := s.calls ++ [⟨numTokens, .entering⟩] } := by
  refine ⟨?_, h.first_le, h.last_le, ?_, h.updated, h.tokens_le, ?_, h.credited, ?_, h.credit, h.past, h.once⟩
  · intro call hcall
    rcases List.mem_append.1 hcall with hcall | hcall
    · exact h.sizes call hcall
    · rw [List.mem_singleton.1 hcall]
      exact hn
  · intro hnone
    refine ⟨(h.fresh hnone).1, (h.fresh hnone).2.1, fun call hcall => ?_⟩
    rcases List.mem_append.1 hcall with hcall | hcall
    · exact (h.fresh hnone).2.2 call hcall
    · rw [List.mem_singleton.1 hcall]
      rfl
  · rw [tally_append_singleton, taken_of_not_holds rfl, add_zero]
    exact h.paid
  · intro t ht
    have hzero : (⟨numTokens, .entering⟩ : Call).takenBy c s.clock t = 0 := if_neg fun hholds =>
      Bool.false_ne_true hholds.1
    rw [tally_append_singleton, hzero, add_zero]
    exact h.backed t ht

/-- **A call moves on** and holds no more than before. -/
theorem inv_move {i : ℕ} {call' : Call} (h : Inv c s) (hi : s.calls[i]? = some call)
    (heq : call'.numTokens = call.numTokens)
    (hholds : call'.holds c = true → call.holds c = true ∧ ∀ t, s.clock ≤ t → call'.due s.clock ≤ t → call.due s.clock ≤ t) :
    Inv c (s.move i call') := by
  have hcall : call ∈ s.calls := List.mem_of_getElem? hi
  have hsize := h.sizes call hcall
  refine ⟨?_, h.first_le, h.last_le, ?_, h.updated, h.tokens_le, ?_, h.credited, ?_, h.credit, h.past, h.once⟩
  · intro other hother
    rcases List.mem_or_eq_of_mem_set hother with hother | rfl
    · exact h.sizes other hother
    · rw [heq]
      exact hsize
  · intro hnone
    refine ⟨(h.fresh hnone).1, (h.fresh hnone).2.1, fun other hother => ?_⟩
    rcases List.mem_or_eq_of_mem_set hother with hother | rfl
    · exact (h.fresh hnone).2.2 other hother
    · rw [Bool.eq_false_iff]
      intro hother
      exact Bool.false_ne_true (((h.fresh hnone).2.2 call hcall).symm.trans (hholds hother).1)
  · have hle : call'.taken c ≤ call.taken c := by
      unfold Call.taken
      split
      · rename_i hnow
        rw [if_pos (hholds hnow).1, heq]
      · split
        · exact hsize.le
        · exact le_rfl
    exact (add_le_add_left (tally_set_le hi hle) _).trans h.paid
  · intro t ht
    have hle : call'.takenBy c s.clock t ≤ call.takenBy c s.clock t :=
      takenBy_le_of_imp hsize heq fun hnow hdue => ⟨(hholds hnow).1, (hholds hnow).2 t ht hdue⟩
    exact (tally_set_le hi hle).trans (h.backed t ht)

/-- **A critical section.** -/
theorem inv_enter {i : ℕ} (h : Inv c s) (hi : s.calls[i]? = some ⟨numTokens, .entering⟩) :
    Inv c (s.enter c i numTokens) := by
  have hn : 0 < numTokens := h.sizes _ (List.mem_of_getElem? hi)
  have hspec := acquire_spec c s.bucket s.clock numTokens
  set after := (s.bucket.acquire c s.clock numTokens).1 with hafter
  set call : Call := ⟨numTokens, (s.bucket.acquire c s.clock numTokens).2.phase⟩ with hcall
  set credit : Credit := ⟨s.last, s.clock, s.bucket.newTokens c s.clock⟩
  have hcredit : credit.tokens = (s.clock - s.last) * c.rateLimit := rfl
  have hrefilled := refilled_le c s.bucket s.clock
  have htaken : tally (Call.taken c) (s.calls.set i call) ≤ tally (Call.taken c) s.calls + call.taken c := by
    apply tally_set_le_add hi
    rw [@taken_of_not_holds c ⟨numTokens, .entering⟩ rfl, zero_add]
  have hcredits : tally Credit.tokens (s.credits ++ [credit]) = tally Credit.tokens s.credits + credit.tokens :=
    tally_append_singleton _ _ _
  have hpaid : tally (Call.taken c) (s.calls.set i call) + after.tokens ≤
      c.capacity + tally Credit.tokens (s.credits ++ [credit]) := by
    have hbefore := h.paid
    have hnow := hspec.paid
    have htokens : credit.tokens = s.bucket.newTokens c s.clock := rfl
    rw [hcredits]
    linarith
  -- the update credits the time since the last one
  have hcredited : tally Credit.tokens (s.credits ++ [credit]) ≤ c.rateLimit * (s.clock - s.first) := by
    have hbefore := h.credited
    rw [hcredits, hcredit]
    linarith
  have hlast : s.last ≤ (s.enter c i numTokens).last ∧ (s.enter c i numTokens).last ≤ s.clock ∧
      (c.rateLimit ≠ 0 → (s.enter c i numTokens).last = s.clock) := by
    have hafter : (s.enter c i numTokens).last = after.since s.clock := rfl
    rw [hafter]
    rcases hspec.since with hnow | ⟨hrate, hsame⟩
    · rw [hnow]
      exact ⟨h.last_le, le_rfl, fun _ => rfl⟩
    · rw [hsame]
      exact ⟨le_rfl, h.last_le, fun hne => absurd hrate hne⟩
  have hsizes : ∀ other ∈ s.calls.set i call, 0 < other.numTokens := by
    intro other hother
    rcases List.mem_or_eq_of_mem_set hother with hother | rfl
    · exact h.sizes other hother
    · exact hn
  have hbacked : Backed c (s.enter c i numTokens) := by
    intro t ht
    by_cases hdue : call.holds c = true ∧ call.due s.clock ≤ t
    · have hle : tally (Call.takenBy c s.clock t) (s.calls.set i call) ≤ tally (Call.taken c) (s.calls.set i call) :=
        tally_le_tally fun other hother => takenBy_le_taken (hsizes other hother) _ _
      have hreturn := hspec.due hdue.1
      have hmono := mul_le_mul_of_nonneg_left hdue.2 c.rateLimit_nonneg
      have hfirst : (s.enter c i numTokens).first = s.first := rfl
      refine hle.trans ?_
      rw [hfirst]
      linarith
    · have hzero : call.takenBy c s.clock t = 0 := if_neg hdue
      have hbefore : (⟨numTokens, .entering⟩ : Call).takenBy c s.clock t = 0 := if_neg fun hholds =>
        Bool.false_ne_true hholds.1
      have hle : tally (Call.takenBy c s.clock t) (s.calls.set i call) ≤ tally (Call.takenBy c s.clock t) s.calls :=
        tally_set_le hi (hzero.le.trans hbefore.ge)
      exact hle.trans (h.backed t ht)
  refine ⟨hsizes, h.first_le.trans hlast.1, hlast.2.1, fun hnone => absurd hnone (Option.some_ne_none _),
    fun _ => hspec.updated, ?_, hpaid, ?_, hbacked, ?_, ?_, ?_⟩
  · have hnonneg : 0 ≤ call.taken c := by
      unfold Call.taken
      split
      · exact hn.le
      · exact le_rfl
    have hcapacity := refilled_le_capacity c s.bucket s.clock
    have hnow := hspec.paid
    have hle : after.tokens ≤ c.capacity := by linarith
    exact hle
  · by_cases hrate : c.rateLimit = 0
    · rw [hrate, zero_mul] at hcredited
      exact hcredited.trans (by rw [hrate, zero_mul])
    · rw [hlast.2.2 hrate]
      exact hcredited
  · intro other hother
    rcases List.mem_append.1 hother with hother | hother
    · exact h.credit other hother
    · obtain rfl := List.mem_singleton.1 hother
      exact ⟨rfl, h.first_le, h.last_le, le_rfl⟩
  · intro other hother htokens
    rcases List.mem_append.1 hother with hother | hother
    · exact (h.past other hother htokens).trans hlast.1
    · obtain rfl := List.mem_singleton.1 hother
      have hrate : c.rateLimit ≠ 0 := fun hzero => htokens (mul_eq_zero_of_right _ hzero)
      exact (hlast.2.2 hrate).ge
  · refine List.pairwise_append.2 ⟨h.once, List.pairwise_singleton _ _, fun a ha b hb => ?_⟩
    obtain rfl := List.mem_singleton.1 hb
    intro htokens _
    exact h.past a ha htokens

theorem holds_resume (h : (call.resume c).holds c = true) : c.capacity < call.numTokens := by
  by_contra hlarge
  unfold Call.resume at h
  rw [if_neg hlarge] at h
  cases h

theorem inv_step (h : Inv c s) {event : Event} (hstep : step c s event = some s') : Inv c s' := by
  cases event with
  | tick elapsed =>
    obtain ⟨he, hs⟩ := Option.ite_none_right_eq_some.1 hstep
    obtain rfl := Option.some.inj hs
    exact inv_tick h he
  | call numTokens =>
    obtain ⟨hn, hs⟩ := Option.ite_none_right_eq_some.1 hstep
    obtain rfl := Option.some.inj hs
    exact inv_call h hn
  | enter i =>
    unfold step at hstep
    dsimp only at hstep
    split at hstep
    · rename_i numTokens hi
      obtain rfl := Option.some.inj hstep
      exact inv_enter h hi
    · cases hstep
  | sleep i =>
    unfold step at hstep
    dsimp only at hstep
    split at hstep
    · rename_i numTokens waitTime hi
      obtain rfl := Option.some.inj hstep
      by_cases hwait : 0 < waitTime
      · rw [if_pos hwait]
        exact inv_move h hi rfl fun hholds => ⟨hholds, fun _ _ hdue => hdue⟩
      · rw [if_neg hwait]
        refine inv_move h hi rfl fun hholds => ⟨decide_eq_true (holds_resume hholds), fun t ht _ => ?_⟩
        have hdue : (⟨numTokens, .leaving waitTime⟩ : Call).due s.clock = s.clock + waitTime := rfl
        linarith
    · cases hstep
  | wake i =>
    unfold step at hstep
    dsimp only at hstep
    split at hstep
    · rename_i numTokens wakeTime hi
      obtain ⟨hwake, hs⟩ := Option.ite_none_right_eq_some.1 hstep
      obtain rfl := Option.some.inj hs
      refine inv_move h hi rfl fun hholds => ⟨decide_eq_true (holds_resume hholds), fun t ht _ => ?_⟩
      exact hwake.trans ht
    · cases hstep
  | cancel i =>
    unfold step at hstep
    dsimp only at hstep
    split at hstep
    · cases hstep
    · cases hstep
    · cases hstep
    · rename_i numTokens phase _ _ hi
      obtain rfl := Option.some.inj hstep
      exact inv_move h hi rfl fun hholds => absurd hholds Bool.false_ne_true

theorem inv_of_reach (h : (system c).Reach s) : Inv c s := by
  apply h.induct
  · rintro s ⟨clock, rfl⟩
    exact inv_start c clock
  · intro s event s' _ hs hstep
    have hsome : step c s event = some s' := hstep
    exact inv_step hs hsome

/-! ## The rate law -/

/-- **The rate law**, at any moment of a run. -/
structure RateLaw (c : Config) (s : State) : Prop where
  /-- The requests that have returned are within the rate. -/
  returned : ∀ first, s.firstUpdate = some first → s.returnedTokens ≤ c.capacity + c.rateLimit * (s.clock - first)
  none_returned : s.firstUpdate = none → s.returnedTokens = 0
  balance : s.bucket.tokens ≤ c.capacity
  /-- Every credit is for its time. -/
  credit : ∀ credit ∈ s.credits, credit.tokens = (credit.upTo - credit.since) * c.rateLimit ∧
    s.first ≤ credit.since ∧ credit.since ≤ credit.upTo ∧ credit.upTo ≤ s.clock
  /-- No time is credited twice. -/
  once : s.credits.Pairwise fun a b => a.tokens ≠ 0 → b.tokens ≠ 0 → a.upTo ≤ b.since
  /-- There are no other tokens than the first ones and the credits. -/
  covered : s.returnedTokens + s.bucket.tokens ≤ c.capacity + tally Credit.tokens s.credits

theorem spent_le_takenBy (hsize : 0 < call.numTokens) {clock t : ℚ} (ht : clock ≤ t) :
    call.spent ≤ call.takenBy c clock t := by
  have hnonneg : 0 ≤ call.takenBy c clock t := by
    unfold Call.takenBy
    split
    · exact hsize.le
    · exact le_rfl
  unfold Call.spent
  split
  · rename_i hphase
    have hholds : call.holds c = true ∧ call.due clock ≤ t := by
      unfold Call.holds Call.due
      rw [hphase]
      exact ⟨rfl, ht⟩
    unfold Call.takenBy
    rw [if_pos hholds]
  · exact hnonneg

theorem rateLaw_of_reach (c : Config) (s : State) (h : (system c).Reach s) : RateLaw c s := by
  have hi := inv_of_reach h
  have hspent : s.returnedTokens ≤ tally (Call.takenBy c s.clock s.clock) s.calls :=
    tally_le_tally fun call hcall => spent_le_takenBy (hi.sizes call hcall) le_rfl
  refine ⟨fun first hfirst => ?_, fun hnone => ?_, hi.tokens_le, hi.credit, hi.once, ?_⟩
  · have hbacked := hi.backed s.clock le_rfl
    have hsome : s.first = first := by
      unfold State.first
      rw [hfirst]
      rfl
    rw [hsome] at hbacked
    exact hspent.trans hbacked
  · apply tally_eq_zero
    intro call hcall
    have hholds := (hi.fresh hnone).2.2 call hcall
    unfold Call.spent
    split
    · rename_i hphase
      unfold Call.holds at hholds
      rw [hphase] at hholds
      cases hholds
    · rfl
  · have htaken : tally (Call.takenBy c s.clock s.clock) s.calls ≤ tally (Call.taken c) s.calls :=
      tally_le_tally fun call hcall => takenBy_le_taken (hi.sizes call hcall) _ _
    have hpaid := hi.paid
    linarith

def twoTokens : Config := ⟨1, some 2, zero_le_one, fun _ hm => Option.some.inj hm ▸ zero_le_two⟩

/-- Five tokens at once, and two more that wait for a balance that is negative. -/
def burst : List Event :=
  [.call 5, .call 2, .enter 0, .sleep 0, .enter 1, .sleep 1, .tick 3, .wake 0, .tick 2, .wake 1, .enter 1]

theorem rateLaw_twoTokens : ∃ s, System.runFn (step twoTokens) (start twoTokens 0) burst = some s ∧
    s.returnedTokens = 7 ∧ RateLaw twoTokens s := by
  have hrun : (System.runFn (step twoTokens) (start twoTokens 0) burst).map State.returnedTokens = some 7 := by
    decide +kernel
  obtain ⟨s, hs, hreturned⟩ := Option.map_eq_some_iff.1 hrun
  exact ⟨s, hs, hreturned, rateLaw_of_reach twoTokens s (System.reach_of_run (.init ⟨0, rfl⟩) hs)⟩

end Opd.Verl.TokenBucket
