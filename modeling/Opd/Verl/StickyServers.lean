import Mathlib.Algebra.Ring.Int.Defs
import Mathlib.Data.List.Dedup
import Opd.Verl.BalancerAccounting

/-!
# Sticky servers

The balancer keeps the server of a request id in a cache that forgets the least recently used ids. An id that
comes back gets the same server, and ids that are new are spread over the pool.

* `kept_of_step`: what the cache keeps of an id while other ids get servers.
* `acquireServer_sticky`: fewer other ids than the cache has room for.
* `spread_of_burst`: requests with new ids, of which none is released.
-/

namespace Opd.Verl.LoadBalancer

open Lib Balancer

/-! ## The cache -/

section Cache

variable {R Sid H : Type} [DecidableEq Sid] {C : Cache R Sid}

/-- What a request does to the cache: the id is read, or an id without a server of the pool is stored. -/
inductive Cached (b : Balancer C H) (requestId : R) : Balancer C H × Except (AcquireError Sid) (Sid × H) → Prop
  | read (serverId : Sid) : b.Keeps requestId serverId →
      Cached b requestId ({ b with requestIdToServer := C.touch b.requestIdToServer requestId }.take serverId)
  | stored (serverId : Sid) (cache cache' : C.Carrier) : (∀ serverId', ¬ b.Keeps requestId serverId') →
      cache = b.requestIdToServer ∨ cache = C.erase (C.touch b.requestIdToServer requestId) requestId →
      C.set? cache requestId serverId = some cache' → Cached b requestId ({ b with requestIdToServer := cache' }.take serverId)
  | refused (cache : C.Carrier) (error : AcquireError Sid) : (∀ serverId', ¬ b.Keeps requestId serverId') →
      cache = b.requestIdToServer ∨ cache = C.erase (C.touch b.requestIdToServer requestId) requestId →
      Cached b requestId ({ b with requestIdToServer := cache }, .error error)

theorem acquireServer_cached (b : Balancer C H) (requestId : R) : Cached b requestId (b.acquireServer requestId) := by
  have hselect : ∀ cache, (∀ serverId', ¬ b.Keeps requestId serverId') →
      cache = b.requestIdToServer ∨ cache = C.erase (C.touch b.requestIdToServer requestId) requestId →
      Cached b requestId ({ b with requestIdToServer := cache }.select requestId) := by
    intro cache hnew hcache
    unfold select
    split
    · exact .refused cache _ hnew hcache
    · split
      · exact .refused cache _ hnew hcache
      · rename_i serverId _ _ cache' hset
        exact .stored serverId cache cache' hnew hcache hset
  unfold acquireServer
  split
  · rename_i hget
    exact hselect _ (fun serverId' hkeeps => by cases hget.symm.trans hkeeps.1) (.inl rfl)
  · rename_i serverId hget
    dsimp only
    split
    · rename_i hpool
      exact .read serverId ⟨hget, hpool⟩
    · rename_i hpool
      refine hselect _ (fun serverId' hkeeps => hpool ?_) (.inr rfl)
      rw [Option.some.inj (hget.symm.trans hkeeps.1)]
      exact hkeeps.2

theorem eq_of_take {b : Balancer C H} {serverId serverId' : Sid} {server : H}
    (h : (b.take serverId').2 = .ok (serverId, server)) : serverId' = serverId := by
  unfold take at h
  split at h
  · exact congrArg Prod.fst (Except.ok.inj h)
  · cases h

end Cache

section Sticky

variable {R Sid H : Type} [DecidableEq R] [DecidableEq Sid] {n : ℕ} {b : Balancer (lru R Sid n) H}
  {s s' t : State (lru R Sid n) H} {a : Action R Sid H} {requestId id : R} {serverId : Sid} {newer : List R}

/-- The server is in the pool, and in the cache only the given ids are newer than the id. -/
structure Kept (b : Balancer (lru R Sid n) H) (requestId : R) (serverId : Sid) (newer : List R) : Prop where
  pool : serverId ∈ b.getAllServers
  recent : Dict.Recent b.requestIdToServer requestId serverId newer

omit [DecidableEq Sid] in
theorem Kept.keeps (h : Kept b requestId serverId newer) : b.Keeps requestId serverId := ⟨h.recent.get?_eq, h.pool⟩

theorem kept_of_reply {server : H} (h : (b.acquireServer requestId).2 = .ok (serverId, server)) (newer : List R) :
    Kept (b.acquireServer requestId).1 requestId serverId newer := by
  have hcached := acquireServer_cached b requestId
  generalize b.acquireServer requestId = reply at h hcached
  cases hcached with
  | read serverId' hkeeps =>
    obtain rfl := eq_of_take h
    exact ⟨getAllServers_take.2 (.inl rfl), Dict.recent_lruTouch hkeeps.1 newer⟩
  | stored serverId' cache cache' _ _ hset =>
    obtain rfl := eq_of_take h
    obtain ⟨_, rfl⟩ := Dict.lruSet?_eq_some hset
    exact ⟨getAllServers_take.2 (.inl rfl), Dict.recent_moveToEnd ..⟩
  | refused => cases h

theorem Kept.acquireServer (h : Kept b requestId serverId newer) (hlength : newer.length < n)
    (hid : id = requestId ∨ id ∈ newer) : Kept (b.acquireServer id).1 requestId serverId newer := by
  have hcached := acquireServer_cached b id
  -- an id that is stored is another one
  have hother : (∀ serverId', ¬ b.Keeps id serverId') → requestId ≠ id := by
    rintro hnew rfl
    exact hnew serverId h.keeps
  have hold : ∀ cache, requestId ≠ id → cache = b.requestIdToServer ∨
      cache = (lru R Sid n).erase ((lru R Sid n).touch b.requestIdToServer id) id →
      Dict.Recent cache requestId serverId newer := by
    rintro cache hne (rfl | rfl)
    · exact h.recent
    · exact Dict.Recent.clear (h.recent.lruTouch hid) hne
  generalize b.acquireServer id = reply at hcached
  cases hcached with
  | read => exact ⟨getAllServers_take.2 (.inr h.pool), h.recent.lruTouch hid⟩
  | stored serverId' cache cache' hnew hcache hset =>
    have hne := hother hnew
    exact ⟨getAllServers_take.2 (.inr h.pool),
      (hold cache hne hcache).lruSet hne (hid.resolve_left (Ne.symm hne)) hlength hset⟩
  | refused cache error hnew hcache => exact ⟨h.pool, hold cache (hother hnew) hcache⟩

theorem kept_of_step (h : Kept s.balancer requestId serverId newer) (hlength : newer.length < n)
    (hstep : step s a = some s') (hacquire : ∀ id, a = .acquire id → id = requestId ∨ id ∈ newer)
    (hremove : ∀ serverIds, a = .removeServers serverIds → serverId ∉ serverIds) :
    Kept s'.balancer requestId serverId newer := by
  cases a with
  | acquire id =>
    cases hstep
    exact h.acquireServer hlength (hacquire id rfl)
  | finish serverId' =>
    simp only [step] at hstep
    split at hstep <;> cases hstep
    exact h
  | release serverId' =>
    simp only [step] at hstep
    split at hstep <;> cases hstep
    exact ⟨getAllServers_releaseServer.2 h.pool, (requestIdToServer_releaseServer s.balancer serverId').symm ▸ h.recent⟩
  | addServers servers =>
    cases hstep
    refine ⟨Dict.mem_keys_iff.2 ?_, (requestIdToServer_addServers s.balancer servers).symm ▸ h.recent⟩
    rw [inflightRequests_addServers]
    split
    · rfl
    · exact Dict.mem_keys_iff.1 h.pool
  | removeServers serverIds =>
    cases hstep
    exact ⟨Dict.mem_keys_clear.2 ⟨h.pool, hremove serverIds rfl⟩, h.recent⟩

theorem kept_of_run {actions : List (Action R Sid H)} (h : Kept s.balancer requestId serverId newer)
    (hlength : newer.length < n) (hrun : System.runFn step s actions = some t)
    (hacquire : ∀ id, .acquire id ∈ actions → id = requestId ∨ id ∈ newer)
    (hremove : ∀ serverIds, .removeServers serverIds ∈ actions → serverId ∉ serverIds) :
    Kept t.balancer requestId serverId newer := by
  induction actions generalizing s with
  | nil =>
    cases hrun
    exact h
  | cons a actions ih =>
    obtain ⟨s', hstep, hrun⟩ := Option.bind_eq_some_iff.1 hrun
    have hs' := kept_of_step h hlength hstep (fun id ha => hacquire id (ha ▸ List.mem_cons_self))
      fun serverIds ha => hremove serverIds (ha ▸ List.mem_cons_self)
    exact ih hs' hrun (fun id hid => hacquire id (List.mem_cons_of_mem _ hid))
      fun serverIds hids => hremove serverIds (List.mem_cons_of_mem _ hids)

theorem registered_of_reach (h : (system (lru R Sid n) H).Reach s) : Registered s.balancer := by
  refine h.induct (P := fun s => Registered s.balancer) ?_ fun s a s' _ ih hstep =>
    registered_of_effect (effect_of_step hstep ih) ih
  rintro s ⟨⟨servers, hnew⟩, -, -⟩
  exact registered_new hnew

def Action.acquired : Action R Sid H → Option R
  | .acquire requestId => some requestId
  | _ => none

def otherIds (actions : List (Action R Sid H)) (requestId : R) : List R :=
  ((actions.filterMap Action.acquired).filter fun id => id ≠ requestId).dedup

/-- **A request id that comes back** gets the server it had, after any actions that leave the server in the pool and
acquire fewer other ids than the cache has room for. -/
theorem acquireServer_sticky {server : H} {actions : List (Action R Sid H)} (hreach : (system (lru R Sid n) H).Reach s)
    (hreply : (s.balancer.acquireServer requestId).2 = .ok (serverId, server))
    (hrun : System.runFn step s (.acquire requestId :: actions) = some t)
    (hids : (otherIds actions requestId).length < n)
    (hremove : ∀ serverIds, .removeServers serverIds ∈ actions → serverId ∉ serverIds) :
    ∃ server', (t.balancer.acquireServer requestId).2 = .ok (serverId, server') := by
  have hr := registered_of_reach (System.reach_of_run hreach hrun)
  obtain ⟨s', hstep, hrun⟩ := Option.bind_eq_some_iff.1 hrun
  cases hstep
  have ht := kept_of_run (kept_of_reply hreply (otherIds actions requestId)) hids hrun (fun id hid => ?_) hremove
  · exact acquireServer_of_keeps hr ht.keeps
  · by_cases hsame : id = requestId
    · exact .inl hsame
    · refine .inr (List.mem_dedup.2 (List.mem_filter.2 ⟨List.mem_filterMap.2 ⟨_, hid, rfl⟩, ?_⟩))
      simpa using hsame

theorem nodup_twoIds : ["s0", "s1"].Nodup := by decide

def twoServers : State (lru String String 2) String :=
  ⟨⟨⟨[("s0", "handle"), ("s1", "handle")], nodup_twoIds⟩, ⟨[("s0", 0), ("s1", 0)], nodup_twoIds⟩, .empty⟩, [], []⟩

theorem twoServers_init : (system (lru String String 2) String).init twoServers :=
  ⟨⟨⟨[("s0", "handle"), ("s1", "handle")], nodup_twoIds⟩, rfl⟩, rfl, rfl⟩

theorem acquireServer_sticky_twoServers : ∃ t, System.runFn step twoServers [.acquire "a", .acquire "b"] = some t ∧
    ∃ server, (t.balancer.acquireServer "a").2 = .ok ("s0", server) :=
  ⟨_, rfl, @acquireServer_sticky _ _ _ _ _ _ twoServers _ "a" "s0" "handle" [.acquire "b"] (.init twoServers_init)
    rfl rfl (by decide) (by simp)⟩

end Sticky

/-! ## New ids -/

section Burst

variable {R Sid H : Type} [DecidableEq Sid] {C : Cache R Sid} {s : State C H}

/-- A request with a new id, the end of a call, or a removal of servers. -/
def Burst (s : State C H) : Action R Sid H → Prop
  | .acquire requestId => ∀ serverId, ¬ s.balancer.Keeps requestId serverId
  | .finish _ | .removeServers _ => True
  | .release _ | .addServers _ => False

/-- **Requests with new ids are spread** over the servers: as long as none is released, the counts of two servers
differ by at most one. -/
theorem spread_of_burst (hreach : ((system C H).restrict Burst).Reach s) : ∀ serverId ∈ s.balancer.getAllServers,
    ∀ serverId' ∈ s.balancer.getAllServers,
      s.balancer.getInflightCount serverId ≤ s.balancer.getInflightCount serverId' + 1 := by
  refine (hreach.induct (P := fun s => Registered s.balancer ∧ ∀ serverId ∈ s.balancer.getAllServers,
    ∀ serverId' ∈ s.balancer.getAllServers,
      s.balancer.getInflightCount serverId ≤ s.balancer.getInflightCount serverId' + 1) ?_ ?_).2
  · rintro s ⟨⟨servers, hnew⟩, -, -⟩
    refine ⟨registered_new hnew, fun serverId _ serverId' _ => ?_⟩
    rw [getInflightCount_new hnew, getInflightCount_new hnew]
    omega
  · rintro s a s' - ⟨hr, hspread⟩ ⟨hstep, hburst⟩
    have heffect := effect_of_step hstep hr
    refine ⟨registered_of_effect heffect hr, ?_⟩
    cases heffect with
    | taken requestId least cache _ _ hchosen =>
      obtain ⟨hmem, hleast⟩ := leastLoaded_le (hchosen.resolve_left (hburst least)).2
      have hpool : ∀ serverId, serverId ∈ ({ s.balancer with requestIdToServer := cache }.take least).1.getAllServers →
          serverId ∈ s.balancer.getAllServers := by
        intro serverId h
        rcases getAllServers_take.1 h with rfl | h
        · exact hmem
        · exact h
      intro serverId h serverId' h'
      -- the least loaded server was at most as loaded as any other
      have hall := hspread serverId (hpool _ h) serverId' (hpool _ h')
      have hle := hleast serverId' (hpool _ h')
      simp only [getInflightCount_take]
      split_ifs with hid hid'
      · rw [hid, hid']
        omega
      · rw [hid]
        omega
      · omega
      · omega
    | refused | finished => exact hspread
    | released | added => exact hburst.elim
    | removed serverIds =>
      intro serverId h serverId' h'
      obtain ⟨hold, hnot⟩ := Dict.mem_keys_clear.1 h
      obtain ⟨hold', hnot'⟩ := Dict.mem_keys_clear.1 h'
      have hsame := Dict.get?_clear_of_not_mem s.balancer.inflightRequests hnot
      have hsame' := Dict.get?_clear_of_not_mem s.balancer.inflightRequests hnot'
      have hall := hspread serverId hold serverId' hold'
      unfold getInflightCount removeServers at *
      rwa [hsame, hsame']

theorem spread_of_burst_twoServers : ∃ t, step twoServers (.acquire "a") = some t ∧
    ∀ serverId ∈ t.balancer.getAllServers, ∀ serverId' ∈ t.balancer.getAllServers,
      t.balancer.getInflightCount serverId ≤ t.balancer.getInflightCount serverId' + 1 :=
  ⟨_, rfl, spread_of_burst (@System.Reach.step _ _ _ twoServers _ (.acquire "a") (.init twoServers_init)
    ⟨rfl, fun _ h => by cases h.1⟩)⟩

end Burst

end Opd.Verl.LoadBalancer
