import Mathlib.Data.List.MinMax
import Mathlib.Data.Int.Order.Basic
import Opd.Lib.System
import Opd.Lib.LruCache

/-!
# The load balancer of the LLM servers

`GlobalRequestLoadBalancer` counts the requests in flight on each server of its pool. A
client acquires a server, runs `generate` on it, and then sends a release that nobody
waits for; the trainer removes servers from the pool and adds them again.

* `acquireServer`, `releaseServer`, `addServers`, `removeServers`: the messages that the
  balancer processes one at a time.
* `acquireServer_spec`: the server a request gets.
* `step`: the balancer, the running calls and the releases on their way.
-/

namespace Opd.Verl.LoadBalancer

open Lib

variable {R Sid H : Type} [DecidableEq Sid]

/-- What `acquire_server` raises. -/
inductive AcquireError (Sid : Type)
  | runtimeError (message : String)
  | valueError (message : String)
  | keyError (serverId : Sid)
  deriving DecidableEq

/-- `GlobalRequestLoadBalancer`, over the cache that `cachetools` provides. -/
structure Balancer (C : Cache R Sid) (H : Type) where
  servers : Dict Sid H
  inflightRequests : Dict Sid ℤ
  requestIdToServer : C.Carrier

namespace Balancer

variable {C : Cache R Sid}

/-- `__init__`. -/
def new? (C : Cache R Sid) (servers : Dict Sid H) : Option (Balancer C H) :=
  if servers.items = [] then none
  else some
    { servers
      inflightRequests := ⟨servers.items.map fun item => (item.1, 0), by
        rw [List.map_map]
        exact servers.nodup⟩
      requestIdToServer := C.empty }

/-- `get_all_servers`. -/
def getAllServers (b : Balancer C H) : List Sid := b.inflightRequests.keys

/-- `get_inflight_count`. -/
def getInflightCount (b : Balancer C H) (serverId : Sid) : ℤ := (b.inflightRequests.get? serverId).getD 0

/-- `self._inflight_requests[server_id] += 1` and the pair that `acquire_server` returns. -/
def take (b : Balancer C H) (serverId : Sid) : Balancer C H × Except (AcquireError Sid) (Sid × H) :=
  ({ b with inflightRequests := b.inflightRequests.update serverId fun count => count.getD 0 + 1 },
    match b.servers.get? serverId with
    | some server => .ok (serverId, server)
    | none => .error (.keyError serverId))

/-- `min(self._inflight_requests, key=self._inflight_requests.get)`: the first of the
least loaded servers. -/
def leastLoaded (b : Balancer C H) : Option Sid :=
  (@List.argmin _ _ Int.instLinearOrder.toPreorder _ Prod.snd b.inflightRequests.items).map Prod.fst

/-- `acquire_server`, from the selection of a new server on. -/
def select (b : Balancer C H) (requestId : R) : Balancer C H × Except (AcquireError Sid) (Sid × H) :=
  match b.leastLoaded with
  | none => (b, .error (.runtimeError "No available servers in load balancer"))
  | some serverId =>
    match C.set? b.requestIdToServer requestId serverId with
    | none => (b, .error (.valueError "value too large"))
    | some cache => { b with requestIdToServer := cache }.take serverId

/-- `acquire_server`. -/
def acquireServer (b : Balancer C H) (requestId : R) : Balancer C H × Except (AcquireError Sid) (Sid × H) :=
  match C.get? b.requestIdToServer requestId with
  | none => b.select requestId
  | some serverId =>
    let cache := C.touch b.requestIdToServer requestId
    if serverId ∈ b.inflightRequests.keys then { b with requestIdToServer := cache }.take serverId
    else { b with requestIdToServer := C.erase cache requestId }.select requestId

/-- `release_server`. -/
def releaseServer (b : Balancer C H) (serverId : Sid) : Balancer C H :=
  match b.inflightRequests.get? serverId with
  | none => b
  | some count =>
    if 0 < count then { b with inflightRequests := b.inflightRequests.update serverId fun _ => count - 1 }
    else b

/-- One server of `add_servers`. -/
def addServer (b : Balancer C H) (item : Sid × H) : Balancer C H :=
  { b with
    inflightRequests := b.inflightRequests.update item.1 fun _ => 0
    servers := b.servers.update item.1 fun _ => item.2 }

/-- `add_servers`. -/
def addServers (b : Balancer C H) (servers : Dict Sid H) : Balancer C H := servers.items.foldl addServer b

/-- `remove_servers`. -/
def removeServers (b : Balancer C H) (serverIds : List Sid) : Balancer C H :=
  { b with
    inflightRequests := b.inflightRequests.clear serverIds
    servers := b.servers.clear serverIds }

def Keeps (b : Balancer C H) (requestId : R) (serverId : Sid) : Prop :=
  C.get? b.requestIdToServer requestId = some serverId ∧ serverId ∈ b.getAllServers

end Balancer

/-- The balancer, the servers of the `generate` calls that run, and the releases that it
has not processed. -/
structure State (C : Cache R Sid) (H : Type) where
  balancer : Balancer C H
  running : List Sid
  releases : List Sid

inductive Action (R Sid H : Type)
  | acquire (requestId : R)
  | finish (serverId : Sid)
  | release (serverId : Sid)
  | addServers (servers : Dict Sid H)
  | removeServers (serverIds : List Sid)

variable {C : Cache R Sid}

def State.outstanding (s : State C H) (serverId : Sid) : ℕ := s.running.count serverId + s.releases.count serverId

/-- `LLMServerClient.generate` and the trainer: a call runs once it has a server, its end
sends a release, and the balancer processes the messages in any order. -/
def step (s : State C H) : Action R Sid H → Option (State C H)
  | .acquire requestId =>
    let reply := s.balancer.acquireServer requestId
    some { s with
      balancer := reply.1
      running := match reply.2 with
        | .ok server => server.1 :: s.running
        | .error _ => s.running }
  | .finish serverId =>
    if serverId ∈ s.running then
      some { s with running := s.running.erase serverId, releases := serverId :: s.releases }
    else none
  | .release serverId =>
    if serverId ∈ s.releases then
      some { s with balancer := s.balancer.releaseServer serverId, releases := s.releases.erase serverId }
    else none
  | .addServers servers => some { s with balancer := s.balancer.addServers servers }
  | .removeServers serverIds => some { s with balancer := s.balancer.removeServers serverIds }

/-- The runs of a balancer from any servers. -/
def system (C : Cache R Sid) (H : Type) : System (State C H) (Action R Sid H) :=
  System.ofFn (fun s => (∃ servers, Balancer.new? C servers = some s.balancer) ∧ s.running = [] ∧ s.releases = []) step

/-! ## What a request gets -/

namespace Balancer

variable {b : Balancer C H} {requestId : R}

omit [DecidableEq Sid] in
theorem leastLoaded_eq_none : b.leastLoaded = none ↔ b.getAllServers = [] := by
  simp [leastLoaded, getAllServers, Dict.keys]

theorem getInflightCount_eq {serverId : Sid} {count : ℤ} (h : b.inflightRequests.get? serverId = some count) :
    b.getInflightCount serverId = count := by
  unfold getInflightCount
  rw [h, Option.getD_some]

/-- **`min` over the pool** finds a server that no other undercuts. -/
theorem leastLoaded_le {serverId : Sid} (h : b.leastLoaded = some serverId) :
    serverId ∈ b.getAllServers ∧
      ∀ serverId' ∈ b.getAllServers, b.getInflightCount serverId ≤ b.getInflightCount serverId' := by
  unfold leastLoaded at h
  rw [Option.map_eq_some_iff] at h
  obtain ⟨item, hitem, rfl⟩ := h
  have hmem : (item.1, item.2) ∈ b.inflightRequests.items := List.argmin_mem hitem
  refine ⟨Dict.mem_keys.2 ⟨item.2, hmem⟩, ?_⟩
  intro serverId' hserver
  obtain ⟨count, hcount⟩ := Dict.mem_keys.1 hserver
  rw [getInflightCount_eq (Dict.mem_items.1 hmem), getInflightCount_eq (Dict.mem_items.1 hcount)]
  exact List.le_of_mem_argmin hcount hitem

/-- What became of a request: it is counted on a server of the pool, the one it has or
else a least loaded one, or it is refused and nothing is counted. -/
inductive Acquired (b : Balancer C H) (requestId : R) :
    Balancer C H × Except (AcquireError Sid) (Sid × H) → Prop
  | taken (serverId : Sid) (cache : C.Carrier) :
      C.get? cache requestId = some serverId →
      (∀ requestId' serverId', requestId' ≠ requestId → C.get? cache requestId' = some serverId' →
        C.get? b.requestIdToServer requestId' = some serverId') →
      b.Keeps requestId serverId ∨ (∀ serverId', ¬ b.Keeps requestId serverId') ∧ b.leastLoaded = some serverId →
      Acquired b requestId ({ b with requestIdToServer := cache }.take serverId)
  | refused (cache : C.Carrier) (error : AcquireError Sid) :
      (∀ requestId' serverId', C.get? cache requestId' = some serverId' →
        C.get? b.requestIdToServer requestId' = some serverId') →
      (∀ serverId', ¬ b.Keeps requestId serverId') →
      b.getAllServers = [] ∨ (∃ cache serverId, C.set? cache requestId serverId = none) →
      Acquired b requestId ({ b with requestIdToServer := cache }, .error error)

theorem select_spec {cache : C.Carrier}
    (hcache : ∀ requestId' serverId', C.get? cache requestId' = some serverId' →
      C.get? b.requestIdToServer requestId' = some serverId')
    (hnew : ∀ serverId', ¬ b.Keeps requestId serverId') :
    Acquired b requestId ({ b with requestIdToServer := cache }.select requestId) := by
  have hleast : { b with requestIdToServer := cache }.leastLoaded = b.leastLoaded := rfl
  unfold select
  rw [hleast]
  rcases hb : b.leastLoaded with _ | serverId
  · exact .refused cache _ hcache hnew (.inl (leastLoaded_eq_none.1 hb))
  · rcases hset : C.set? cache requestId serverId with _ | cache'
    all_goals simp only [hset]
    · exact .refused cache _ hcache hnew (.inr ⟨cache, serverId, hset⟩)
    · refine .taken serverId cache' (C.get?_set_self hset) ?_ (.inr ⟨hnew, hb⟩)
      intro requestId' serverId' hne hget
      exact hcache requestId' serverId' (C.get?_of_set hset hne hget)

/-- **The server a request gets.** -/
theorem acquireServer_spec (b : Balancer C H) (requestId : R) :
    Acquired b requestId (b.acquireServer requestId) := by
  unfold acquireServer
  rcases hget : C.get? b.requestIdToServer requestId with _ | serverId
  · refine select_spec (fun _ _ h => h) ?_
    intro serverId' hkeeps
    rw [hkeeps.1] at hget
    cases hget
  · by_cases hpool : serverId ∈ b.inflightRequests.keys
    · simp only [if_pos hpool]
      refine .taken serverId _ ((C.get?_touch ..).trans hget) ?_ (.inl ⟨hget, hpool⟩)
      intro requestId' serverId' _ h
      rwa [C.get?_touch] at h
    · simp only [if_neg hpool]
      refine select_spec ?_ ?_
      · intro requestId' serverId' h
        by_cases hid : requestId' = requestId
        · rw [hid, C.get?_erase_self] at h
          cases h
        · rwa [C.get?_erase_of_ne hid, C.get?_touch] at h
      · intro serverId' hkeeps
        obtain rfl : serverId = serverId' := Option.some.inj (hget.symm.trans hkeeps.1)
        exact hpool hkeeps.2

end Balancer

end Opd.Verl.LoadBalancer
