import Opd.Verl.LoadBalancer

/-!
# The accounting of the load balancer

Every server of the pool has a handle. Its count is the number of its outstanding requests
as long as no server is added while it has some: `add_servers` sets the count to 0, and
the releases of the old requests still come.

* `effect_of_step`: what one step does.
* `registered_of_effect`, `counted_of_effect`: what it keeps.
* `keeps_of_effect`: a request id keeps its server.
* `accounting_of_addsIdle`: the accounting over whole runs, and where it goes wrong.
-/

namespace Opd.Verl.LoadBalancer

open Lib

variable {R Sid H : Type} [DecidableEq Sid] {C : Cache R Sid}

/-- The runs from `s` along which the server stays in the pool and the id in the cache. -/
def keeping (s : State C H) (requestId : R) (serverId : Sid) : System (State C H) (Action R Sid H) where
  init := fun t => t = s
  step := fun t a t' => step t a = some t' ∧ serverId ∈ t'.balancer.getAllServers ∧
    (C.get? t'.balancer.requestIdToServer requestId).isSome

/-- The count of every server in the pool is the number of its outstanding requests. -/
def Counted (s : State C H) : Prop :=
  ∀ serverId ∈ s.balancer.getAllServers, s.balancer.getInflightCount serverId = s.outstanding serverId

/-- **The accounting of the balancer**: the counts are right, a new request gets a server with the
fewest outstanding requests, and an id keeps its server. -/
structure Accounting (s : State C H) : Prop where
  counted : Counted s
  nonneg : ∀ serverId ∈ s.balancer.getAllServers, 0 ≤ s.balancer.getInflightCount serverId
  fewest : ∀ requestId serverId server, (∀ serverId, ¬ s.balancer.Keeps requestId serverId) →
    (s.balancer.acquireServer requestId).2 = .ok (serverId, server) →
    serverId ∈ s.balancer.getAllServers ∧
      ∀ serverId' ∈ s.balancer.getAllServers, s.outstanding serverId ≤ s.outstanding serverId'
  answered : ∀ requestId, s.balancer.getAllServers ≠ [] → (∀ cache serverId, C.set? cache requestId serverId ≠ none) →
    ∃ server, (s.balancer.acquireServer requestId).2 = .ok server
  sticky : ∀ requestId serverId t, s.balancer.Keeps requestId serverId →
    (keeping s requestId serverId).Reach t →
    ∃ server, (t.balancer.acquireServer requestId).2 = .ok (serverId, server)

def AddsIdle (s : State C H) : Action R Sid H → Prop
  | .addServers servers => ∀ serverId ∈ servers.keys, s.outstanding serverId = 0
  | _ => True

def Registered (b : Balancer C H) : Prop := ∀ serverId ∈ b.getAllServers, ∃ server, b.servers.get? serverId = some server

variable {b : Balancer C H} {s s' : State C H} {a : Action R Sid H} {requestId : R} {serverId serverId' : Sid}

/-! ## The operations -/

namespace Balancer

theorem getAllServers_take : serverId' ∈ (b.take serverId).1.getAllServers ↔
    serverId' = serverId ∨ serverId' ∈ b.getAllServers :=
  Dict.mem_keys_update

theorem getInflightCount_take (b : Balancer C H) (cache : C.Carrier) (serverId serverId' : Sid) :
    ({ b with requestIdToServer := cache }.take serverId).1.getInflightCount serverId' =
      b.getInflightCount serverId' + if serverId' = serverId then 1 else 0 := by
  unfold getInflightCount take
  simp only [Dict.get?_update]
  by_cases hid : serverId' = serverId
  · rw [if_pos hid, if_pos hid, hid, Option.getD_some]
  · rw [if_neg hid, if_neg hid, Int.add_zero]

theorem take_reply (hr : Registered b) (cache : C.Carrier) (h : serverId ∈ b.getAllServers) :
    ∃ server, ({ b with requestIdToServer := cache }.take serverId).2 = .ok (serverId, server) := by
  obtain ⟨server, hserver⟩ := hr serverId h
  refine ⟨server, ?_⟩
  unfold take
  simp only [hserver]

theorem getAllServers_releaseServer :
    serverId' ∈ (b.releaseServer serverId).getAllServers ↔ serverId' ∈ b.getAllServers := by
  unfold releaseServer
  split
  · rfl
  · rename_i count hcount
    split
    · have hmem : serverId ∈ b.getAllServers := by
        unfold getAllServers
        rw [Dict.mem_keys_iff, hcount, Option.isSome_some]
      refine Dict.mem_keys_update.trans ⟨?_, .inr⟩
      rintro (rfl | h)
      · exact hmem
      · exact h
    · rfl

theorem getInflightCount_releaseServer (b : Balancer C H) (serverId serverId' : Sid)
    (hpos : serverId ∈ b.getAllServers → 0 < b.getInflightCount serverId) (h : serverId' ∈ b.getAllServers) :
    (b.releaseServer serverId).getInflightCount serverId' =
      b.getInflightCount serverId' - if serverId' = serverId then 1 else 0 := by
  unfold releaseServer
  rcases hcount : b.inflightRequests.get? serverId with _ | count
  · have hne : serverId' ≠ serverId := by
      rintro rfl
      unfold getAllServers at h
      rw [Dict.mem_keys_iff, hcount] at h
      cases h
    rw [if_neg hne, Int.sub_zero]
  · have hmem : serverId ∈ b.getAllServers := by
      unfold getAllServers
      rw [Dict.mem_keys_iff, hcount, Option.isSome_some]
    have hlt : 0 < count := getInflightCount_eq hcount ▸ hpos hmem
    simp only [if_pos hlt]
    by_cases hid : serverId' = serverId
    · rw [if_pos hid, hid, getInflightCount_eq hcount]
      exact getInflightCount_eq (Dict.get?_update_self ..)
    · rw [if_neg hid, Int.sub_zero]
      unfold getInflightCount
      rw [Dict.get?_update_of_ne _ _ hid]

theorem inflightRequests_addServers (b : Balancer C H) (servers : Dict Sid H) (serverId : Sid) :
    (b.addServers servers).inflightRequests.get? serverId =
      if serverId ∈ servers.keys then some 0 else b.inflightRequests.get? serverId := by
  unfold addServers Dict.keys
  generalize servers.items = items
  induction items generalizing b with
  | nil => rfl
  | cons item items ih =>
    rw [List.foldl_cons, ih, List.map_cons]
    simp only [List.mem_cons]
    by_cases hmem : serverId ∈ items.map Prod.fst
    · rw [if_pos hmem, if_pos (.inr hmem)]
    · rw [if_neg hmem]
      unfold addServer
      rw [Dict.get?_update]
      exact if_congr (or_iff_left hmem).symm rfl rfl

theorem requestIdToServer_addServers (b : Balancer C H) (servers : Dict Sid H) :
    (b.addServers servers).requestIdToServer = b.requestIdToServer := by
  unfold addServers
  generalize servers.items = items
  induction items generalizing b with
  | nil => rfl
  | cons item items ih => exact ih _

theorem requestIdToServer_releaseServer (b : Balancer C H) (serverId : Sid) :
    (b.releaseServer serverId).requestIdToServer = b.requestIdToServer := by
  unfold releaseServer
  split
  · rfl
  · split <;> rfl

/-! ### Handles -/

theorem registered_addServers (hr : Registered b) (servers : Dict Sid H) : Registered (b.addServers servers) := by
  unfold addServers
  generalize servers.items = items
  induction items generalizing b with
  | nil => exact hr
  | cons item items ih =>
    refine ih ?_
    intro serverId hmem
    have hservers := Dict.get?_update b.servers item.1 serverId fun _ => item.2
    by_cases hid : serverId = item.1
    · exact ⟨item.2, hservers.trans (if_pos hid)⟩
    · obtain ⟨server, hserver⟩ := hr serverId ((Dict.mem_keys_update.1 hmem).resolve_left hid)
      exact ⟨server, (hservers.trans (if_neg hid)).trans hserver⟩

theorem registered_removeServers (hr : Registered b) (serverIds : List Sid) :
    Registered (b.removeServers serverIds) := by
  intro serverId hmem
  obtain ⟨hmem, hnot⟩ := Dict.mem_keys_clear.1 hmem
  obtain ⟨server, hserver⟩ := hr serverId hmem
  exact ⟨server, (Dict.get?_clear_of_not_mem _ hnot).trans hserver⟩

theorem registered_releaseServer (hr : Registered b) (serverId : Sid) : Registered (b.releaseServer serverId) := by
  intro serverId' hmem
  obtain ⟨server, hserver⟩ := hr serverId' (getAllServers_releaseServer.1 hmem)
  refine ⟨server, ?_⟩
  rw [← hserver]
  unfold releaseServer
  split
  · rfl
  · split <;> rfl

theorem registered_new {servers : Dict Sid H} (h : new? C servers = some b) : Registered b := by
  unfold new? at h
  split at h
  · cases h
  · cases h
    intro serverId hmem
    have hkey : serverId ∈ servers.keys := by
      unfold getAllServers Dict.keys at hmem
      rwa [List.map_map] at hmem
    exact Option.isSome_iff_exists.1 (Dict.mem_keys_iff.1 hkey)

theorem getInflightCount_new {servers : Dict Sid H} (h : new? C servers = some b) (serverId : Sid) :
    b.getInflightCount serverId = 0 := by
  unfold new? at h
  split at h
  · cases h
  · cases h
    unfold getInflightCount
    rcases hget : Dict.get? _ serverId with _ | count
    · rfl
    · obtain ⟨item, -, hitem⟩ := List.mem_map.1 (Dict.mem_items.2 hget)
      exact (congrArg Prod.snd hitem).symm

/-! ### The request -/

theorem mem_of_chosen (h : b.Keeps requestId serverId ∨
    (∀ serverId', ¬ b.Keeps requestId serverId') ∧ b.leastLoaded = some serverId) : serverId ∈ b.getAllServers := by
  rcases h with hkeeps | ⟨-, hleast⟩
  · exact hkeeps.2
  · exact (leastLoaded_le hleast).1

theorem acquireServer_of_keeps (hr : Registered b) (hkeeps : b.Keeps requestId serverId) :
    ∃ server, (b.acquireServer requestId).2 = .ok (serverId, server) := by
  unfold acquireServer
  rw [hkeeps.1]
  simp only [if_pos (show serverId ∈ b.inflightRequests.keys from hkeeps.2)]
  exact take_reply hr _ hkeeps.2

theorem leastLoaded_of_acquireServer {server : H} (hnew : ∀ serverId', ¬ b.Keeps requestId serverId')
    (h : (b.acquireServer requestId).2 = .ok (serverId, server)) : b.leastLoaded = some serverId := by
  have hspec := acquireServer_spec b requestId
  generalize b.acquireServer requestId = reply at hspec h
  cases hspec with
  | taken serverId' cache _ _ hchosen =>
    obtain ⟨-, hleast⟩ := hchosen.resolve_left (hnew serverId')
    unfold take at h
    split at h
    · cases h
      exact hleast
    · cases h
  | refused cache error => cases h

theorem acquireServer_answered (hr : Registered b) (hpool : b.getAllServers ≠ [])
    (hset : ∀ cache serverId, C.set? cache requestId serverId ≠ none) :
    ∃ server, (b.acquireServer requestId).2 = .ok server := by
  have hspec := acquireServer_spec b requestId
  generalize b.acquireServer requestId = reply at hspec
  cases hspec with
  | taken serverId cache _ _ hchosen =>
    obtain ⟨server, hserver⟩ := take_reply hr cache (mem_of_chosen hchosen)
    exact ⟨_, hserver⟩
  | refused cache error _ _ hwhy =>
    rcases hwhy with hempty | ⟨cache', serverId, hnone⟩
    · exact absurd hempty hpool
    · exact absurd hnone (hset cache' serverId)

end Balancer

open Balancer

/-! ## Steps -/

/-- What an action does while the servers of the pool have handles. -/
inductive Effect (s : State C H) : Action R Sid H → State C H → Prop
  | taken (requestId : R) (serverId : Sid) (cache : C.Carrier) :
      C.get? cache requestId = some serverId →
      (∀ requestId' serverId', requestId' ≠ requestId → C.get? cache requestId' = some serverId' →
        C.get? s.balancer.requestIdToServer requestId' = some serverId') →
      s.balancer.Keeps requestId serverId ∨ (∀ serverId', ¬ s.balancer.Keeps requestId serverId') ∧
        s.balancer.leastLoaded = some serverId →
      Effect s (.acquire requestId) { s with
        balancer := ({ s.balancer with requestIdToServer := cache }.take serverId).1
        running := serverId :: s.running }
  | refused (requestId : R) (cache : C.Carrier) :
      (∀ requestId' serverId', C.get? cache requestId' = some serverId' →
        C.get? s.balancer.requestIdToServer requestId' = some serverId') →
      Effect s (.acquire requestId) { s with balancer := { s.balancer with requestIdToServer := cache } }
  | finished (serverId : Sid) (h : serverId ∈ s.running) :
      Effect s (.finish serverId)
        { s with running := s.running.erase serverId, releases := serverId :: s.releases }
  | released (serverId : Sid) (h : serverId ∈ s.releases) :
      Effect s (.release serverId)
        { s with balancer := s.balancer.releaseServer serverId, releases := s.releases.erase serverId }
  | added (servers : Dict Sid H) : Effect s (.addServers servers) { s with balancer := s.balancer.addServers servers }
  | removed (serverIds : List Sid) :
      Effect s (.removeServers serverIds) { s with balancer := s.balancer.removeServers serverIds }

theorem effect_of_step (h : step s a = some s') (hr : Registered s.balancer) : Effect s a s' := by
  cases a with
  | acquire requestId =>
    cases h
    have hspec := acquireServer_spec s.balancer requestId
    generalize s.balancer.acquireServer requestId = reply at hspec
    cases hspec with
    | taken serverId cache hget hcache hchosen =>
      -- the server has a handle, so the request gets it and runs
      obtain ⟨server, hserver⟩ := take_reply hr cache (mem_of_chosen hchosen)
      rw [hserver]
      exact .taken requestId serverId cache hget hcache hchosen
    | refused cache error hcache => exact .refused requestId cache hcache
  | finish serverId =>
    simp only [step] at h
    split at h
    · rename_i hrunning
      cases h
      exact .finished serverId hrunning
    · cases h
  | release serverId =>
    simp only [step] at h
    split at h
    · rename_i hrelease
      cases h
      exact .released serverId hrelease
    · cases h
  | addServers servers =>
    cases h
    exact .added servers
  | removeServers serverIds =>
    cases h
    exact .removed serverIds

theorem registered_of_effect (h : Effect s a s') (hr : Registered s.balancer) : Registered s'.balancer := by
  cases h with
  | taken requestId serverId cache _ _ hchosen =>
    intro serverId' hmem
    rcases getAllServers_take.1 hmem with rfl | hmem
    · exact hr _ (mem_of_chosen hchosen)
    · exact hr _ hmem
  | refused | finished => exact hr
  | released serverId => exact registered_releaseServer hr serverId
  | added servers => exact registered_addServers hr servers
  | removed serverIds => exact registered_removeServers hr serverIds

/-- **What a step does to the counts**, if it adds no server with outstanding requests. -/
theorem counted_of_effect (h : Effect s a s') (hc : Counted s) (hidle : AddsIdle s a) : Counted s' := by
  cases h with
  | taken requestId serverId cache _ _ hchosen =>
    intro serverId' hmem
    have hmem : serverId' ∈ s.balancer.getAllServers := by
      rcases getAllServers_take.1 hmem with rfl | hmem
      · exact mem_of_chosen hchosen
      · exact hmem
    have hcount := hc serverId' hmem
    unfold State.outstanding at hcount ⊢
    rw [getInflightCount_take, hcount, List.count_cons]
    by_cases hid : serverId' = serverId
    · simp only [hid, beq_self_eq_true, if_true]
      omega
    · simp only [hid, Ne.symm hid, beq_iff_eq, if_false]
      omega
  | refused => exact hc
  | finished serverId hrunning =>
    -- the request moves from the running calls to the releases
    intro serverId' hmem
    have hcount := hc serverId' hmem
    have herase := (List.perm_cons_erase hrunning).count_eq serverId'
    unfold State.outstanding at hcount ⊢
    rw [List.count_cons] at herase
    simp only [List.count_cons]
    omega
  | released serverId hrelease =>
    intro serverId' hmem
    have hmem := getAllServers_releaseServer.1 hmem
    -- the clamp at zero does nothing: the request that is released was counted
    have hpos : serverId ∈ s.balancer.getAllServers → 0 < s.balancer.getInflightCount serverId := by
      intro hpool
      have := List.count_pos_iff.2 hrelease
      rw [hc serverId hpool]
      unfold State.outstanding
      omega
    have hcount := hc serverId' hmem
    have herase := (List.perm_cons_erase hrelease).count_eq serverId'
    unfold State.outstanding at hcount ⊢
    rw [getInflightCount_releaseServer _ _ _ hpos hmem, hcount]
    rw [List.count_cons] at herase
    by_cases hid : serverId' = serverId
    · simp only [hid, beq_self_eq_true, if_true] at herase ⊢
      omega
    · simp only [hid, Ne.symm hid, beq_iff_eq, if_false] at herase ⊢
      omega
  | added servers =>
    intro serverId hmem
    have hget := inflightRequests_addServers s.balancer servers serverId
    by_cases hkey : serverId ∈ servers.keys
    · rw [if_pos hkey] at hget
      exact (getInflightCount_eq hget).trans (congrArg Nat.cast (hidle serverId hkey)).symm
    · rw [if_neg hkey] at hget
      have hold : serverId ∈ s.balancer.getAllServers := by
        unfold getAllServers at hmem ⊢
        rwa [Dict.mem_keys_iff, hget, ← Dict.mem_keys_iff] at hmem
      have hsame : (s.balancer.addServers servers).getInflightCount serverId =
          s.balancer.getInflightCount serverId := congrArg (fun count => count.getD 0) hget
      exact hsame.trans (hc serverId hold)
  | removed serverIds =>
    intro serverId hmem
    obtain ⟨hold, hnot⟩ := Dict.mem_keys_clear.1 hmem
    have hget := Dict.get?_clear_of_not_mem s.balancer.inflightRequests hnot
    have hsame : (s.balancer.removeServers serverIds).getInflightCount serverId =
        s.balancer.getInflightCount serverId := congrArg (fun count => count.getD 0) hget
    exact hsame.trans (hc serverId hold)

theorem not_counted_of_step (h : step s a = some s') (hbusy : ¬ AddsIdle s a) : ¬ Counted s' := by
  cases a with
  | addServers servers =>
    cases h
    intro hc
    refine hbusy ?_
    intro serverId hkey
    have hget := (inflightRequests_addServers s.balancer servers serverId).trans (if_pos hkey)
    have hmem : serverId ∈ (s.balancer.addServers servers).getAllServers := by
      unfold getAllServers
      rw [Dict.mem_keys_iff, hget, Option.isSome_some]
    have hzero : ((s.outstanding serverId : ℕ) : ℤ) = 0 := (hc serverId hmem).symm.trans (getInflightCount_eq hget)
    omega
  | _ => exact absurd trivial hbusy

/-- **A step keeps the server of an id**, if the server is still in the pool and the id in the
cache. -/
theorem keeps_of_effect (h : Effect s a s') (hkeeps : s.balancer.Keeps requestId serverId)
    (hpool : serverId ∈ s'.balancer.getAllServers)
    (hcached : (C.get? s'.balancer.requestIdToServer requestId).isSome) : s'.balancer.Keeps requestId serverId := by
  -- what the cache still has for the id is what it had
  have hsame : (∀ serverId', C.get? s'.balancer.requestIdToServer requestId = some serverId' →
      C.get? s.balancer.requestIdToServer requestId = some serverId') → s'.balancer.Keeps requestId serverId := by
    intro hcache
    obtain ⟨serverId', hserver⟩ := Option.isSome_iff_exists.1 hcached
    have hold := hcache serverId' hserver
    rw [hkeeps.1] at hold
    rw [← hold] at hserver
    exact ⟨hserver, hpool⟩
  cases h with
  | taken requestId' serverId' cache hget hcache hchosen =>
    by_cases hid : requestId = requestId'
    · refine ⟨?_, hpool⟩
      rw [hid] at hkeeps ⊢
      rcases hchosen with hkept | ⟨hnew, -⟩
      · rw [← hkeeps.1, hkept.1]
        exact hget
      · exact absurd hkeeps (hnew serverId)
    · exact hsame fun serverId'' => hcache requestId serverId'' hid
  | refused requestId' cache hcache => exact hsame (hcache requestId)
  | finished => exact hsame fun _ hserver => hserver
  | released serverId' =>
    rw [requestIdToServer_releaseServer] at hsame
    exact hsame fun _ hserver => hserver
  | added servers =>
    rw [requestIdToServer_addServers] at hsame
    exact hsame fun _ hserver => hserver
  | removed serverIds => exact hsame fun _ hserver => hserver

/-! ## Runs -/

theorem registered_and_counted_of_reach (h : ((system C H).restrict AddsIdle).Reach s) :
    Registered s.balancer ∧ Counted s := by
  refine h.induct (P := fun s => Registered s.balancer ∧ Counted s) ?_ ?_
  · rintro s ⟨⟨servers, hnew⟩, hrunning, hreleases⟩
    refine ⟨registered_new hnew, ?_⟩
    intro serverId _
    unfold State.outstanding
    rw [getInflightCount_new hnew, hrunning, hreleases]
    rfl
  · intro s a s' _ ih hstep
    have heffect := effect_of_step hstep.1 ih.1
    exact ⟨registered_of_effect heffect ih.1, counted_of_effect heffect ih.2 hstep.2⟩

theorem keeps_of_keeping {t : State C H} (hr : Registered s.balancer) (hkeeps : s.balancer.Keeps requestId serverId)
    (h : (keeping s requestId serverId).Reach t) :
    Registered t.balancer ∧ t.balancer.Keeps requestId serverId := by
  refine h.induct (P := fun t => Registered t.balancer ∧ t.balancer.Keeps requestId serverId) ?_ ?_
  · rintro t rfl
    exact ⟨hr, hkeeps⟩
  · intro t a t' _ ih hstep
    have heffect := effect_of_step hstep.1 ih.1
    exact ⟨registered_of_effect heffect ih.1, keeps_of_effect heffect ih.2 hstep.2.1 hstep.2.2⟩

theorem Counted.accounting (hr : Registered s.balancer) (hc : Counted s) : Accounting s where
  counted := hc
  nonneg := by
    intro serverId hmem
    rw [hc serverId hmem]
    unfold State.outstanding
    omega
  fewest := by
    intro requestId serverId server hnew hreply
    obtain ⟨hmem, hle⟩ := leastLoaded_le (leastLoaded_of_acquireServer hnew hreply)
    refine ⟨hmem, ?_⟩
    intro serverId' hmem'
    have hcount := hle serverId' hmem'
    rw [hc serverId hmem, hc serverId' hmem'] at hcount
    omega
  answered := fun requestId hpool hset => acquireServer_answered hr hpool hset
  sticky := by
    intro requestId serverId t hkeeps hreach
    obtain ⟨hr', hkeeps'⟩ := keeps_of_keeping hr hkeeps hreach
    exact acquireServer_of_keeps hr' hkeeps'

/-- **The counts over whole runs.** The accounting holds in every state of every run in
which no server is added while it has outstanding requests, and such an addition breaks
it. -/
theorem accounting_of_addsIdle (C : Cache R Sid) (H : Type) :
    (∀ s, ((system C H).restrict AddsIdle).Reach s → Accounting s) ∧
      ∀ s a s', ((system C H).restrict AddsIdle).Reach s → step s a = some s' → ¬ AddsIdle s a →
        ¬ Accounting s' := by
  constructor
  · intro s hreach
    obtain ⟨hr, hc⟩ := registered_and_counted_of_reach hreach
    exact hc.accounting hr
  · intro s a s' _ hstep hbusy hacc
    exact not_counted_of_step hstep hbusy hacc.counted

/-- `s0` gets a request, leaves the pool, and comes back before the request is released. -/
def resetRun : List (Action String String String) :=
  [.acquire "a", .removeServers ["s0"], .addServers ⟨[("s0", "handle")], by decide⟩]

/-- The balancer of the runs below: two servers and the default cache. -/
def initial : Option (State (lru String String 10000) String) :=
  (Balancer.new? _ ⟨[("s0", "handle"), ("s1", "handle")], by decide⟩).map fun balancer => ⟨balancer, [], []⟩

theorem reset_run : ((initial.bind fun s => System.runFn step s resetRun).any fun s =>
    decide ("s0" ∈ s.balancer.getAllServers ∧ s.balancer.getInflightCount "s0" ≠ s.outstanding "s0")) = true := by
  decide +kernel

/-- **A count that was reset**: a server is removed and added again before the release of
its request arrives. -/
theorem reset_with_outstanding :
    ¬ ∀ s, (system (lru String String 10000) String).Reach s → Accounting s := by
  intro hall
  obtain ⟨s, hs, hwrong⟩ := (Option.any_eq_true _ _).1 reset_run
  obtain ⟨s0, hinit, hrun⟩ := Option.bind_eq_some_iff.1 hs
  obtain ⟨balancer, hnew, rfl⟩ := Option.map_eq_some_iff.1 hinit
  obtain ⟨hmem, hne⟩ := of_decide_eq_true hwrong
  exact hne ((hall s (System.reach_of_run (.init ⟨⟨_, hnew⟩, rfl, rfl⟩) hrun)).counted "s0" hmem)

end Opd.Verl.LoadBalancer
